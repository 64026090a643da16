import Lox.Proofs.LikeMoved
import Lox.Proofs.SoundSessions

/-!
Another name for a local variable: for its declaration and for those uses of the old name whose
recorded distance leads to the scope that declares it. All else stays as it is.
-/

namespace Lox

/-- The name of a local variable and another one for it, with the distances recorded for uses. -/
structure NewName where
  old : String
  new : String
  distance : ExprId → Option Nat

namespace NewName

variable (n : NewName)

def token (t : Token) : Token := if t.lexeme = n.old then { t with lexeme := n.new } else t

/-- A use that stands `depth` scopes inside the one that declares the variable. -/
def use (depth : Nat) (id : ExprId) (t : Token) : Token :=
  if n.distance id = some depth then n.token t else t

/-- The declaration of a variable `depth` scopes inside. -/
def declaration (depth : Nat) (t : Token) : Token := if depth = 0 then n.token t else t

end NewName

section Renamed

variable (n : NewName)

mutual

def Expr.renamed (depth : Nat) : Expr → Expr
  | .literal id value => .literal id value
  | .grouping id inner => .grouping id (inner.renamed depth)
  | .unary id operator operand => .unary id operator (operand.renamed depth)
  | .binary id left operator right =>
      .binary id (left.renamed depth) operator (right.renamed depth)
  | .logical id left operator right =>
      .logical id (left.renamed depth) operator (right.renamed depth)
  | .assign id name value => .assign id (n.use depth id name) (value.renamed depth)
  | .var id name => .var id (n.use depth id name)
  | .call id callee paren arguments =>
      .call id (callee.renamed depth) paren (Expr.renamedList depth arguments)
  | .get id object name => .get id (object.renamed depth) name
  | .set id object name value => .set id (object.renamed depth) name (value.renamed depth)
  | .this id keyword => .this id keyword
  | .super id keyword method => .super id keyword method
  | .comma id left right => .comma id (left.renamed depth) (right.renamed depth)
  | .ternary id condition yes no =>
      .ternary id (condition.renamed depth) (yes.renamed depth) (no.renamed depth)

def Expr.renamedList (depth : Nat) : List Expr → List Expr
  | [] => []
  | e :: es => e.renamed depth :: Expr.renamedList depth es

end

mutual

/-- The scopes of a class body count, too: one for `this`, and one for `super` around it. -/
def Stmt.renamed (depth : Nat) : Stmt → Stmt
  | .expression e => .expression (e.renamed n depth)
  | .print e => .print (e.renamed n depth)
  | .varDecl name none => .varDecl (n.declaration depth name) none
  | .varDecl name (some e) => .varDecl (n.declaration depth name) (some (e.renamed n depth))
  | .block body => .block (Stmt.renamedList (depth + 1) body)
  | .ifThen condition yes => .ifThen (condition.renamed n depth) (yes.renamed depth)
  | .ifElse condition yes no =>
      .ifElse (condition.renamed n depth) (yes.renamed depth) (no.renamed depth)
  | .whileLoop condition body => .whileLoop (condition.renamed n depth) (body.renamed depth)
  | .funDecl f => .funDecl (f.renamed depth)
  | .returnStmt keyword none => .returnStmt keyword none
  | .returnStmt keyword (some e) => .returnStmt keyword (some (e.renamed n depth))
  | .classDecl name none methods =>
      .classDecl name none (FunctionDecl.renamedList (depth + 1) methods)
  | .classDecl name (some e) methods =>
      .classDecl name (some (e.renamed n depth)) (FunctionDecl.renamedList (depth + 2) methods)
termination_by structural s => s

def Stmt.renamedList (depth : Nat) : List Stmt → List Stmt
  | [] => []
  | s :: ss => s.renamed depth :: Stmt.renamedList depth ss

def FunctionDecl.renamed (depth : Nat) : FunctionDecl → FunctionDecl
  | ⟨name, parameters, body⟩ => ⟨name, parameters, Stmt.renamedList (depth + 1) body⟩

def FunctionDecl.renamedList (depth : Nat) : List FunctionDecl → List FunctionDecl
  | [] => []
  | f :: fs => f.renamed depth :: FunctionDecl.renamedList depth fs

end

/-- A variable with the old name is declared among these statements. -/
def NewName.DeclaredIn (ss : List Stmt) : Prop :=
  ∃ name e, Stmt.varDecl name e ∈ ss ∧ name.lexeme = n.old

mutual

/-- One scope inside the statement declares the variable, and there it gets its new name. -/
inductive Stmt.Renames : Stmt → Stmt → Prop
  | here {body : List Stmt} (declared : n.DeclaredIn body) :
      Stmt.Renames (.block body) (.block (Stmt.renamedList n 0 body))
  | block {body body' : List Stmt} (inside : Stmt.RenamesIn body body') :
      Stmt.Renames (.block body) (.block body')
  | ifThen {condition : Expr} {yes yes' : Stmt} (inside : Stmt.Renames yes yes') :
      Stmt.Renames (.ifThen condition yes) (.ifThen condition yes')
  | ifElseYes {condition : Expr} {yes yes' no : Stmt} (inside : Stmt.Renames yes yes') :
      Stmt.Renames (.ifElse condition yes no) (.ifElse condition yes' no)
  | ifElseNo {condition : Expr} {yes no no' : Stmt} (inside : Stmt.Renames no no') :
      Stmt.Renames (.ifElse condition yes no) (.ifElse condition yes no')
  | whileLoop {condition : Expr} {body body' : Stmt} (inside : Stmt.Renames body body') :
      Stmt.Renames (.whileLoop condition body) (.whileLoop condition body')
  | funDecl {f f' : FunctionDecl} (inside : FunctionDecl.Renames f f') :
      Stmt.Renames (.funDecl f) (.funDecl f')
  | classDecl {name : Token} {e : Option Expr} {methods methods' : List FunctionDecl}
      (inside : FunctionDecl.RenamesIn methods methods') :
      Stmt.Renames (.classDecl name e methods) (.classDecl name e methods')

inductive Stmt.RenamesIn : List Stmt → List Stmt → Prop
  | first {s s' : Stmt} {ss : List Stmt} (inside : Stmt.Renames s s') :
      Stmt.RenamesIn (s :: ss) (s' :: ss)
  | later {s : Stmt} {ss ss' : List Stmt} (inside : Stmt.RenamesIn ss ss') :
      Stmt.RenamesIn (s :: ss) (s :: ss')

/-- Parameters and body share one scope. -/
inductive FunctionDecl.Renames : FunctionDecl → FunctionDecl → Prop
  | here {name : Token} {parameters : List Token} {body : List Stmt}
      (declared : (∃ p ∈ parameters, p.lexeme = n.old) ∨ n.DeclaredIn body) :
      FunctionDecl.Renames ⟨name, parameters, body⟩
        ⟨name, parameters.map n.token, Stmt.renamedList n 0 body⟩
  | body {name : Token} {parameters : List Token} {body body' : List Stmt}
      (inside : Stmt.RenamesIn body body') :
      FunctionDecl.Renames ⟨name, parameters, body⟩ ⟨name, parameters, body'⟩

inductive FunctionDecl.RenamesIn : List FunctionDecl → List FunctionDecl → Prop
  | first {f f' : FunctionDecl} {fs : List FunctionDecl} (inside : FunctionDecl.Renames f f') :
      FunctionDecl.RenamesIn (f :: fs) (f' :: fs)
  | later {f : FunctionDecl} {fs fs' : List FunctionDecl}
      (inside : FunctionDecl.RenamesIn fs fs') : FunctionDecl.RenamesIn (f :: fs) (f :: fs')

end

end Renamed

namespace NewName

variable (n : NewName)

/-- Ids, lines and distances stay as they are. -/
def translation (known : ExprId → Prop) (π : Renaming) : Translation :=
  ⟨known, fun id => id, n.distance, fun _ l => l, Eq, fun ρ => ρ = Renaming.same ∨ ρ = π⟩

/-- The renamings of the scopes around a place that is `depth` scopes inside the renamed one. -/
def around (π : Renaming) (outer : List Renaming) (depth : Nat) : List Renaming :=
  List.replicate depth Renaming.same ++ π :: outer

/-- A token of a program in which the new name does not occur. -/
def Clear (t : Token) : Prop := t.Spelled ∧ t.lexeme ≠ n.new

/-- The statement does not give the old name to a function or a class. -/
def Keeps : Stmt → Prop
  | .funDecl f => f.name.lexeme ≠ n.old
  | .classDecl name _ _ => name.lexeme ≠ n.old
  | _ => True

theorem keeps_branch {n : NewName} {s : Stmt} (branch : s.isBranch = true) : n.Keeps s := by
  cases s <;> first | exact trivial | cases branch

variable {n} {known : ExprId → Prop} {π : Renaming} {outer : List Renaming} {depth : Nat}

theorem around_succ : around π outer (depth + 1) = Renaming.same :: around π outer depth := rfl

theorem around_getD (all : AllSame outer) (d : Nat) :
    (around π outer depth).getD d Renaming.same = if d = depth then π else Renaming.same := by
  induction depth generalizing d with
  | zero =>
    cases d with
    | zero => rfl
    | succ d => simpa [around, List.getD_eq_getElem?_getD] using all.getD d
  | succ depth ih =>
    cases d with
    | zero => rfl
    | succ d =>
      have inner := ih d
      simpa [around_succ, List.getD_eq_getElem?_getD] using inner

theorem token_lexeme (swaps : π.perm = Equiv.swap n.old n.new) {t : Token}
    (clear : t.lexeme ≠ n.new) : (n.token t).lexeme = π.perm t.lexeme := by
  rw [swaps, token]
  by_cases old : t.lexeme = n.old
  · simp [old]
  · simp [old, Equiv.swap_apply_of_ne_of_ne old clear]

theorem kept_lexeme (swaps : π.perm = Equiv.swap n.old n.new) {name : String}
    (clear : name ≠ n.new) (other : name ≠ n.old) : π.perm name = name := by
  rw [swaps, Equiv.swap_apply_of_ne_of_ne other clear]

theorem token_same (t : Token) : (n.token t).kind = t.kind ∧ (n.token t).line = t.line := by
  unfold token
  split <;> exact ⟨rfl, rfl⟩

theorem use_around (all : AllSame outer) (d : Nat) (name : String) :
    Renaming.use (around π outer depth) (some d) name = if d = depth then π.perm name else name := by
  rw [Renaming.use, around_getD all]
  split <;> rfl

theorem likeUse (swaps : π.perm = Equiv.swap n.old n.new) (all : AllSame outer) (id : ExprId)
    {t : Token} (clear : t.lexeme ≠ n.new) :
    t.LikeUse (n.translation known π) (around π outer depth) id (n.use depth id t) := by
  obtain ⟨kind, line⟩ := token_same (n := n) t
  unfold use
  have same : (n.translation known π).recorded id = n.distance id := rfl
  cases recorded : n.distance id with
  | none => exact ⟨rfl, by rw [same, recorded]; rfl, rfl⟩
  | some d =>
    by_cases here : d = depth
    · refine ⟨?_, ?_, ?_⟩
      · simpa [here] using kind
      · rw [same, recorded, use_around all, if_pos here, ← token_lexeme swaps clear, here, if_pos rfl]
      · simpa [here, translation] using line
    · have other : some d ≠ some depth := fun eq => here (Option.some.inj eq)
      rw [if_neg other]
      exact ⟨rfl, by rw [same, recorded, use_around all, if_neg here], rfl⟩

theorem declare_around (name : String) :
    Renaming.declare (around π outer depth) name = if depth = 0 then π.perm name else name := by
  cases depth <;> rfl

theorem likeDeclaration (swaps : π.perm = Equiv.swap n.old n.new) {t : Token}
    (clear : t.lexeme ≠ n.new) :
    t.LikeDeclaration (n.translation known π) (around π outer depth) (n.declaration depth t) := by
  obtain ⟨kind, line⟩ := token_same (n := n) t
  by_cases here : depth = 0
  · simp only [declaration, here, if_true]
    exact ⟨kind, token_lexeme swaps clear, line.symm⟩
  · refine ⟨?_, ?_, ?_⟩ <;> simp [declaration, here, declare_around, translation]

theorem likeName (swaps : π.perm = Equiv.swap n.old n.new) {t : Token}
    (clear : t.lexeme ≠ n.new) (kept : depth = 0 → t.lexeme ≠ n.old) :
    t.LikeName (n.translation known π) (around π outer depth) t := by
  refine ⟨⟨rfl, rfl, rfl⟩, (declare_around t.lexeme).trans ?_⟩
  by_cases here : depth = 0
  · rw [if_pos here, kept_lexeme swaps clear (kept here)]
  · rw [if_neg here]

end NewName

/-! ### Renamed trees are alike -/

section Trees

variable {n : NewName} {known : ExprId → Prop} {π : Renaming} {outer : List Renaming}

open NewName (around)

mutual

/-- Inside the scope of the variable, an expression is like itself renamed. -/
theorem Expr.Like.renamed (swaps : π.perm = Equiv.swap n.old n.new) (all : AllSame outer)
    (depth : Nat) (e : Expr) (formed : e.Formed n.Clear) :
    e.Like (n.translation known π) (around π outer depth) (e.renamed n depth) := by
  match e with
  | .literal id v => rw [Expr.renamed]; exact rfl
  | .grouping id a => exact ⟨_, by rw [Expr.renamed]; rfl, Expr.Like.renamed swaps all depth a formed⟩
  | .unary id t a =>
    exact ⟨_, _, by rw [Expr.renamed]; rfl, ⟨rfl, rfl, rfl⟩,
      Expr.Like.renamed swaps all depth a formed.2.2⟩
  | .binary id a t b | .logical id a t b =>
    exact ⟨_, _, _, by rw [Expr.renamed]; rfl, Expr.Like.renamed swaps all depth a formed.1,
      ⟨rfl, rfl, rfl⟩, Expr.Like.renamed swaps all depth b formed.2.2.2⟩
  | .set id a t b =>
    exact ⟨_, _, _, by rw [Expr.renamed]; rfl, Expr.Like.renamed swaps all depth a formed.1,
      ⟨rfl, rfl, rfl⟩, Expr.Like.renamed swaps all depth b formed.2.2⟩
  | .assign id t a =>
    exact ⟨_, _, by rw [Expr.renamed]; rfl, NewName.likeUse swaps all id formed.1.1.2,
      Expr.Like.renamed swaps all depth a formed.2⟩
  | .var id t =>
    exact ⟨_, by rw [Expr.renamed]; rfl, NewName.likeUse swaps all id formed.1.2⟩
  | .call id a t as =>
    exact ⟨_, _, _, by rw [Expr.renamed]; rfl, Expr.Like.renamed swaps all depth a formed.1,
      ⟨rfl, rfl, rfl⟩, Expr.LikeList.renamed swaps all depth as formed.2.2⟩
  | .get id a t =>
    exact ⟨_, _, by rw [Expr.renamed]; rfl, Expr.Like.renamed swaps all depth a formed.1,
      ⟨rfl, rfl, rfl⟩⟩
  | .this id t =>
    have spelled : t.lexeme = "this" := formed.1.1.keyword formed.2
    exact ⟨_, by rw [Expr.renamed]; rfl, rfl, by rw [spelled, Renaming.use_this], rfl⟩
  | .super id t u =>
    have spelled : t.lexeme = "super" := formed.1.1.keyword formed.2.1
    exact ⟨_, _, by rw [Expr.renamed]; rfl, ⟨rfl, by rw [spelled, Renaming.use_super], rfl⟩,
      ⟨rfl, rfl, rfl⟩⟩
  | .comma id a b =>
    exact ⟨_, _, by rw [Expr.renamed]; rfl, Expr.Like.renamed swaps all depth a formed.1,
      Expr.Like.renamed swaps all depth b formed.2⟩
  | .ternary id a b d =>
    exact ⟨_, _, _, by rw [Expr.renamed]; rfl, Expr.Like.renamed swaps all depth a formed.1,
      Expr.Like.renamed swaps all depth b formed.2.1, Expr.Like.renamed swaps all depth d formed.2.2⟩

theorem Expr.LikeList.renamed (swaps : π.perm = Equiv.swap n.old n.new) (all : AllSame outer)
    (depth : Nat) (es : List Expr) (formed : Expr.FormedList n.Clear es) :
    Expr.LikeList (n.translation known π) (around π outer depth) es
      (Expr.renamedList n depth es) := by
  match es with
  | [] => exact rfl
  | e :: es =>
    exact ⟨_, _, rfl, Expr.Like.renamed swaps all depth e formed.1,
      Expr.LikeList.renamed swaps all depth es formed.2⟩

end

mutual

/-- Inside the scope of the variable, a statement is like itself renamed. -/
theorem Stmt.Like.renamed (swaps : π.perm = Equiv.swap n.old n.new) (all : AllSame outer)
    (depth : Nat) (s : Stmt) (formed : s.Formed n.Clear) (kept : depth = 0 → n.Keeps s) :
    s.Like (n.translation known π) (around π outer depth) (s.renamed n depth) := by
  match s with
  | .expression e | .print e =>
    exact ⟨_, rfl, Expr.Like.renamed swaps all depth e formed⟩
  | .varDecl t none =>
    exact ⟨_, rfl, NewName.likeDeclaration swaps formed.1.2⟩
  | .varDecl t (some e) =>
    exact ⟨_, _, rfl, NewName.likeDeclaration swaps formed.1.1.2,
      Expr.Like.renamed swaps all depth e formed.2⟩
  | .block ss =>
    exact ⟨Renaming.same, _, rfl, .inl rfl,
      Stmt.LikeList.renamed swaps all (depth + 1) ss formed nofun⟩
  | .ifThen e u | .whileLoop e u =>
    have branch : n.Keeps u := NewName.keeps_branch formed.2.2
    exact ⟨_, _, rfl, Expr.Like.renamed swaps all depth e formed.1,
      Stmt.Like.renamed swaps all depth u formed.2.1 fun _ => branch⟩
  | .ifElse e v u =>
    have yes : n.Keeps v := NewName.keeps_branch formed.2.1.2
    have no : n.Keeps u := NewName.keeps_branch formed.2.2.2
    exact ⟨_, _, _, rfl, Expr.Like.renamed swaps all depth e formed.1,
      Stmt.Like.renamed swaps all depth v formed.2.1.1 fun _ => yes,
      Stmt.Like.renamed swaps all depth u formed.2.2.1 fun _ => no⟩
  | .funDecl ⟨t, ts, ss⟩ =>
    exact ⟨FunctionDecl.renamed n depth ⟨t, ts, ss⟩, rfl,
      NewName.likeName swaps formed.1.1.2 kept,
      FunctionDecl.Like.renamed swaps all depth ⟨t, ts, ss⟩ formed⟩
  | .returnStmt t none => exact ⟨_, rfl, rfl, rfl, rfl⟩
  | .returnStmt t (some e) =>
    exact ⟨_, _, rfl, ⟨rfl, rfl, rfl⟩, Expr.Like.renamed swaps all depth e formed.2⟩
  | .classDecl t none fs =>
    exact ⟨_, _, rfl, NewName.likeName swaps formed.1.1.2 kept,
      FunctionDecl.LikeList.renamed swaps all (depth + 1) fs formed.2⟩
  | .classDecl t (some e) fs =>
    obtain ⟨id, used, rfl, isName⟩ := formed.superclass
    obtain ⟨named, methods⟩ := formed.className
    exact ⟨_, _, _, rfl, NewName.likeName swaps named.1.2 kept,
      ⟨⟨id, used, rfl⟩, Expr.Like.renamed swaps all depth (.var id used) isName⟩,
      FunctionDecl.LikeList.renamed swaps all (depth + 2) fs methods⟩

theorem Stmt.LikeList.renamed (swaps : π.perm = Equiv.swap n.old n.new) (all : AllSame outer)
    (depth : Nat) (ss : List Stmt) (formed : Stmt.FormedList n.Clear ss)
    (kept : depth = 0 → ∀ s ∈ ss, n.Keeps s) :
    Stmt.LikeList (n.translation known π) (around π outer depth) ss
      (Stmt.renamedList n depth ss) := by
  match ss with
  | [] => exact rfl
  | s :: ss =>
    exact ⟨_, _, rfl,
      Stmt.Like.renamed swaps all depth s formed.1 fun here => kept here s List.mem_cons_self,
      Stmt.LikeList.renamed swaps all depth ss formed.2 fun here u among =>
        kept here u (List.mem_cons_of_mem _ among)⟩

theorem FunctionDecl.Like.renamed (swaps : π.perm = Equiv.swap n.old n.new) (all : AllSame outer)
    (depth : Nat) (f : FunctionDecl) (formed : f.Formed n.Clear) :
    f.Like (n.translation known π) (around π outer depth) (f.renamed n depth) := by
  match f with
  | ⟨t, ts, ss⟩ =>
    have inside : Stmt.LikeList (n.translation known π) (Renaming.same :: around π outer depth) ss
        (Stmt.renamedList n (depth + 1) ss) :=
      Stmt.LikeList.renamed swaps all (depth + 1) ss formed.2.2 nofun
    have names : List.Forall₂ (Token.LikeDeclaration (n.translation known π)
        (Renaming.same :: around π outer depth)) ts ts :=
      List.forall₂_same.2 fun p _ => ⟨rfl, rfl, rfl⟩
    have kept : (n.translation known π).renames Renaming.same := .inl rfl
    exact ⟨Renaming.same, t, ts, Stmt.renamedList n (depth + 1) ss, by rw [FunctionDecl.renamed],
      kept, ⟨rfl, rfl, rfl⟩, names, inside⟩

theorem FunctionDecl.LikeList.renamed (swaps : π.perm = Equiv.swap n.old n.new)
    (all : AllSame outer) (depth : Nat) (fs : List FunctionDecl)
    (formed : FunctionDecl.FormedList n.Clear fs) :
    FunctionDecl.LikeList (n.translation known π) (around π outer depth) fs
      (FunctionDecl.renamedList n depth fs) := by
  match fs with
  | [] => exact rfl
  | f :: fs =>
    exact ⟨_, _, rfl, FunctionDecl.Like.renamed swaps all depth f formed.1,
      FunctionDecl.LikeList.renamed swaps all depth fs formed.2⟩

end

end Trees

end Lox
