import Lox.Syntax

/-!
The trees that reading gives: which operators and names stand where, and which statements a branch
of an `if` or the body of a `while` can be. Also the ids of the expressions in a tree, those inside
an expression before its own, and what it means that they were given out in this order.
-/

namespace Lox

def TokenKind.isUnary (k : TokenKind) : Bool := k.isMark .bang || k.isMark .minus

def TokenKind.isBinary (k : TokenKind) : Bool :=
  [Mark.bangEqual, .equalEqual, .greater, .greaterEqual, .less, .lessEqual, .minus, .plus, .slash,
    .star].any fun m => k.isMark m

def TokenKind.isLogical (k : TokenKind) : Bool := k.isKeyword .or || k.isKeyword .and

/-- Declarations stand in blocks and bodies only, never alone in a branch. -/
def Stmt.isBranch : Stmt → Bool
  | .varDecl _ _ => false
  | .funDecl _ => false
  | .classDecl _ _ _ => false
  | _ => true

section Formed

variable (P : Token → Prop)

def Token.IsName (t : Token) : Prop := P t ∧ t.kind.isIdentifier = true

mutual

/-- All tokens of the tree fulfil `P`, and each is of a kind that its place allows. -/
def Expr.Formed : Expr → Prop
  | .literal _ _ => True
  | .grouping _ inner => inner.Formed
  | .unary _ operator operand => P operator ∧ operator.kind.isUnary = true ∧ operand.Formed
  | .binary _ left operator right =>
      left.Formed ∧ P operator ∧ operator.kind.isBinary = true ∧ right.Formed
  | .logical _ left operator right =>
      left.Formed ∧ P operator ∧ operator.kind.isLogical = true ∧ right.Formed
  | .assign _ name value => name.IsName P ∧ value.Formed
  | .var _ name => name.IsName P
  | .call _ callee paren arguments => callee.Formed ∧ P paren ∧ Expr.FormedList arguments
  | .get _ object name => object.Formed ∧ name.IsName P
  | .set _ object name value => object.Formed ∧ name.IsName P ∧ value.Formed
  | .this _ keyword => P keyword ∧ keyword.kind.isKeyword .this = true
  | .super _ keyword method =>
      P keyword ∧ keyword.kind.isKeyword .super = true ∧ method.IsName P
  | .comma _ left right => left.Formed ∧ right.Formed
  | .ternary _ condition yes no => condition.Formed ∧ yes.Formed ∧ no.Formed

def Expr.FormedList : List Expr → Prop
  | [] => True
  | e :: es => e.Formed ∧ Expr.FormedList es

end

mutual

def Stmt.Formed : Stmt → Prop
  | .expression e => e.Formed P
  | .print e => e.Formed P
  | .varDecl name none => name.IsName P
  | .varDecl name (some e) => name.IsName P ∧ e.Formed P
  | .block body => Stmt.FormedList body
  | .ifThen condition yes => condition.Formed P ∧ yes.Formed ∧ yes.isBranch = true
  | .ifElse condition yes no =>
      condition.Formed P ∧ (yes.Formed ∧ yes.isBranch = true) ∧ no.Formed ∧ no.isBranch = true
  | .whileLoop condition body => condition.Formed P ∧ body.Formed ∧ body.isBranch = true
  | .funDecl function => function.Formed
  | .returnStmt keyword none => P keyword
  | .returnStmt keyword (some e) => P keyword ∧ e.Formed P
  | .classDecl name none methods => name.IsName P ∧ FunctionDecl.FormedList methods
  | .classDecl name (some (.var _ parent)) methods =>
      name.IsName P ∧ parent.IsName P ∧ FunctionDecl.FormedList methods
  | .classDecl _ (some _) _ => False

def Stmt.FormedList : List Stmt → Prop
  | [] => True
  | s :: ss => s.Formed ∧ Stmt.FormedList ss

def FunctionDecl.Formed : FunctionDecl → Prop
  | ⟨name, parameters, body⟩ =>
      name.IsName P ∧ (∀ t ∈ parameters, t.IsName P) ∧ Stmt.FormedList body

def FunctionDecl.FormedList : List FunctionDecl → Prop
  | [] => True
  | f :: fs => f.Formed ∧ FunctionDecl.FormedList fs

end

end Formed

theorem Stmt.Formed.className {P : Token → Prop} {name : Token} {superclass : Option Expr}
    {methods : List FunctionDecl} (formed : (Stmt.classDecl name superclass methods).Formed P) :
    name.IsName P ∧ FunctionDecl.FormedList P methods := by
  cases superclass with
  | none => exact formed
  | some e =>
    cases e with
    | var id parent => exact ⟨formed.1, formed.2.2⟩
    | _ => exact False.elim formed

/-- A superclass is a name. -/
theorem Stmt.Formed.superclass {P : Token → Prop} {name : Token} {e : Expr}
    {methods : List FunctionDecl} (formed : (Stmt.classDecl name (some e) methods).Formed P) :
    ∃ id used, e = .var id used ∧ used.IsName P := by
  cases e with
  | var id used => exact ⟨id, used, rfl, formed.2.1⟩
  | _ => exact False.elim formed

mutual

def Expr.ids : Expr → List ExprId
  | .literal id _ => [id]
  | .grouping id inner => inner.ids ++ [id]
  | .unary id _ operand => operand.ids ++ [id]
  | .binary id left _ right => left.ids ++ right.ids ++ [id]
  | .logical id left _ right => left.ids ++ right.ids ++ [id]
  | .assign id _ value => value.ids ++ [id]
  | .var id _ => [id]
  | .call id callee _ arguments => callee.ids ++ Expr.idsList arguments ++ [id]
  | .get id object _ => object.ids ++ [id]
  | .set id object _ value => object.ids ++ value.ids ++ [id]
  | .this id _ => [id]
  | .super id _ _ => [id]
  | .comma id left right => left.ids ++ right.ids ++ [id]
  | .ternary id condition yes no => condition.ids ++ yes.ids ++ no.ids ++ [id]

def Expr.idsList : List Expr → List ExprId
  | [] => []
  | e :: es => e.ids ++ Expr.idsList es

end

mutual

def Stmt.ids : Stmt → List ExprId
  | .expression e => e.ids
  | .print e => e.ids
  | .varDecl _ none => []
  | .varDecl _ (some e) => e.ids
  | .block body => Stmt.idsList body
  | .ifThen condition yes => condition.ids ++ yes.ids
  | .ifElse condition yes no => condition.ids ++ yes.ids ++ no.ids
  | .whileLoop condition body => condition.ids ++ body.ids
  | .funDecl function => function.ids
  | .returnStmt _ none => []
  | .returnStmt _ (some e) => e.ids
  | .classDecl _ none methods => FunctionDecl.idsList methods
  | .classDecl _ (some e) methods => e.ids ++ FunctionDecl.idsList methods

def Stmt.idsList : List Stmt → List ExprId
  | [] => []
  | s :: ss => s.ids ++ Stmt.idsList ss

def FunctionDecl.ids : FunctionDecl → List ExprId
  | ⟨_, _, body⟩ => Stmt.idsList body

def FunctionDecl.idsList : List FunctionDecl → List ExprId
  | [] => []
  | f :: fs => f.ids ++ FunctionDecl.idsList fs

end

/-- The ids were given out from the inside out. -/
def Expr.Ordered (e : Expr) : Prop := e.ids.Pairwise (· < ·)

mutual

/-- All expressions in the tree are ordered. -/
def Stmt.Ordered : Stmt → Prop
  | .expression e => e.Ordered
  | .print e => e.Ordered
  | .varDecl _ none => True
  | .varDecl _ (some e) => e.Ordered
  | .block body => Stmt.OrderedList body
  | .ifThen condition yes => condition.Ordered ∧ yes.Ordered
  | .ifElse condition yes no => condition.Ordered ∧ yes.Ordered ∧ no.Ordered
  | .whileLoop condition body => condition.Ordered ∧ body.Ordered
  | .funDecl function => function.Ordered
  | .returnStmt _ none => True
  | .returnStmt _ (some e) => e.Ordered
  | .classDecl _ none methods => FunctionDecl.OrderedList methods
  | .classDecl _ (some e) methods => e.Ordered ∧ FunctionDecl.OrderedList methods

def Stmt.OrderedList : List Stmt → Prop
  | [] => True
  | s :: ss => s.Ordered ∧ Stmt.OrderedList ss

def FunctionDecl.Ordered : FunctionDecl → Prop
  | ⟨_, _, body⟩ => Stmt.OrderedList body

def FunctionDecl.OrderedList : List FunctionDecl → Prop
  | [] => True
  | f :: fs => f.Ordered ∧ FunctionDecl.OrderedList fs

end

end Lox
