import Mathlib
import Lox.Proofs.NumberTexts
import Lox.Proofs.Pieces
import Lox.Proofs.ScannedTrees

/-!
The written form of a tree tells the tree, up to the ids of its expressions and the lines of its
tokens: the tree is read back from the pieces that it is written in.
-/

namespace Lox

/-! ### What is not shown -/

def Token.unplaced (t : Token) : Token := { t with line := 0 }

mutual

/-- The tree without ids and lines. -/
def Expr.unplaced : Expr → Expr
  | .literal _ v => .literal 0 v
  | .grouping _ inner => .grouping 0 inner.unplaced
  | .unary _ operator operand => .unary 0 operator.unplaced operand.unplaced
  | .binary _ left operator right => .binary 0 left.unplaced operator.unplaced right.unplaced
  | .logical _ left operator right => .logical 0 left.unplaced operator.unplaced right.unplaced
  | .assign _ name value => .assign 0 name.unplaced value.unplaced
  | .var _ name => .var 0 name.unplaced
  | .call _ callee paren arguments =>
      .call 0 callee.unplaced paren.unplaced (Expr.unplacedList arguments)
  | .get _ object name => .get 0 object.unplaced name.unplaced
  | .set _ object name value => .set 0 object.unplaced name.unplaced value.unplaced
  | .this _ keyword => .this 0 keyword.unplaced
  | .super _ keyword method => .super 0 keyword.unplaced method.unplaced
  | .comma _ left right => .comma 0 left.unplaced right.unplaced
  | .ternary _ condition yes no => .ternary 0 condition.unplaced yes.unplaced no.unplaced

def Expr.unplacedList : List Expr → List Expr
  | [] => []
  | e :: es => e.unplaced :: Expr.unplacedList es

end

mutual

def Stmt.unplaced : Stmt → Stmt
  | .expression e => .expression e.unplaced
  | .print e => .print e.unplaced
  | .varDecl name e => .varDecl name.unplaced (e.map Expr.unplaced)
  | .block body => .block (Stmt.unplacedList body)
  | .ifThen condition yes => .ifThen condition.unplaced yes.unplaced
  | .ifElse condition yes no => .ifElse condition.unplaced yes.unplaced no.unplaced
  | .whileLoop condition body => .whileLoop condition.unplaced body.unplaced
  | .funDecl f => .funDecl f.unplaced
  | .returnStmt keyword e => .returnStmt keyword.unplaced (e.map Expr.unplaced)
  | .classDecl name superclass methods =>
      .classDecl name.unplaced (superclass.map Expr.unplaced) (FunctionDecl.unplacedList methods)

def Stmt.unplacedList : List Stmt → List Stmt
  | [] => []
  | s :: ss => s.unplaced :: Stmt.unplacedList ss

def FunctionDecl.unplaced : FunctionDecl → FunctionDecl
  | ⟨name, parameters, body⟩ =>
      ⟨name.unplaced, parameters.map Token.unplaced, Stmt.unplacedList body⟩

def FunctionDecl.unplacedList : List FunctionDecl → List FunctionDecl
  | [] => []
  | f :: fs => f.unplaced :: FunctionDecl.unplacedList fs

end

/-- The written form tells the literal: it is no string, which is written without its quotes, and no
number that is out of range. -/
def Literal.Shown : Literal → Prop
  | .string _ => False
  | .number n => Number.magnitude n ≠ Number.infinite
  | _ => True

mutual

/-- Every literal of the tree is shown. -/
def Expr.Shown : Expr → Prop
  | .literal _ v => v.Shown
  | .grouping _ inner => inner.Shown
  | .unary _ _ operand => operand.Shown
  | .binary _ left _ right => left.Shown ∧ right.Shown
  | .logical _ left _ right => left.Shown ∧ right.Shown
  | .assign _ _ value => value.Shown
  | .var _ _ => True
  | .call _ callee _ arguments => callee.Shown ∧ Expr.ShownList arguments
  | .get _ object _ => object.Shown
  | .set _ object _ value => object.Shown ∧ value.Shown
  | .this _ _ => True
  | .super _ _ _ => True
  | .comma _ left right => left.Shown ∧ right.Shown
  | .ternary _ condition yes no => condition.Shown ∧ yes.Shown ∧ no.Shown

def Expr.ShownList : List Expr → Prop
  | [] => True
  | e :: es => e.Shown ∧ Expr.ShownList es

end

mutual

def Stmt.Shown : Stmt → Prop
  | .expression e => e.Shown
  | .print e => e.Shown
  | .varDecl _ none => True
  | .varDecl _ (some e) => e.Shown
  | .block body => Stmt.ShownList body
  | .ifThen condition yes => condition.Shown ∧ yes.Shown
  | .ifElse condition yes no => condition.Shown ∧ yes.Shown ∧ no.Shown
  | .whileLoop condition body => condition.Shown ∧ body.Shown
  | .funDecl f => f.Shown
  | .returnStmt _ none => True
  | .returnStmt _ (some e) => e.Shown
  | .classDecl _ none methods => FunctionDecl.ShownList methods
  | .classDecl _ (some e) methods => e.Shown ∧ FunctionDecl.ShownList methods

def Stmt.ShownList : List Stmt → Prop
  | [] => True
  | s :: ss => s.Shown ∧ Stmt.ShownList ss

def FunctionDecl.Shown : FunctionDecl → Prop
  | ⟨_, _, body⟩ => Stmt.ShownList body

def FunctionDecl.ShownList : List FunctionDecl → Prop
  | [] => True
  | f :: fs => f.Shown ∧ FunctionDecl.ShownList fs

end

instance : DecidablePred Literal.Shown
  | .string _ => .isFalse id
  | .number n => inferInstanceAs (Decidable (Number.magnitude n ≠ Number.infinite))
  | .bool _ => .isTrue trivial
  | .nil => .isTrue trivial

mutual

def Expr.decideShown : (e : Expr) → Decidable e.Shown
  | .literal _ v => inferInstanceAs (Decidable v.Shown)
  | .grouping _ a => a.decideShown
  | .unary _ _ a => a.decideShown
  | .binary _ a _ b => @instDecidableAnd _ _ a.decideShown b.decideShown
  | .logical _ a _ b => @instDecidableAnd _ _ a.decideShown b.decideShown
  | .assign _ _ a => a.decideShown
  | .var _ _ => .isTrue trivial
  | .call _ a _ es => @instDecidableAnd _ _ a.decideShown (Expr.decideShownList es)
  | .get _ a _ => a.decideShown
  | .set _ a _ b => @instDecidableAnd _ _ a.decideShown b.decideShown
  | .this _ _ => .isTrue trivial
  | .super _ _ _ => .isTrue trivial
  | .comma _ a b => @instDecidableAnd _ _ a.decideShown b.decideShown
  | .ternary _ a b c =>
      @instDecidableAnd _ _ a.decideShown (@instDecidableAnd _ _ b.decideShown c.decideShown)

def Expr.decideShownList : (es : List Expr) → Decidable (Expr.ShownList es)
  | [] => .isTrue trivial
  | e :: es => @instDecidableAnd _ _ e.decideShown (Expr.decideShownList es)

end

mutual

def Stmt.decideShown : (s : Stmt) → Decidable s.Shown
  | .expression e => e.decideShown
  | .print e => e.decideShown
  | .varDecl _ none => .isTrue trivial
  | .varDecl _ (some e) => e.decideShown
  | .block body => Stmt.decideShownList body
  | .ifThen e yes => @instDecidableAnd _ _ e.decideShown yes.decideShown
  | .ifElse e yes no =>
      @instDecidableAnd _ _ e.decideShown (@instDecidableAnd _ _ yes.decideShown no.decideShown)
  | .whileLoop e body => @instDecidableAnd _ _ e.decideShown body.decideShown
  | .funDecl f => f.decideShown
  | .returnStmt _ none => .isTrue trivial
  | .returnStmt _ (some e) => e.decideShown
  | .classDecl _ none methods => FunctionDecl.decideShownList methods
  | .classDecl _ (some e) methods =>
      @instDecidableAnd _ _ e.decideShown (FunctionDecl.decideShownList methods)

def Stmt.decideShownList : (ss : List Stmt) → Decidable (Stmt.ShownList ss)
  | [] => .isTrue trivial
  | s :: ss => @instDecidableAnd _ _ s.decideShown (Stmt.decideShownList ss)

def FunctionDecl.decideShown : (f : FunctionDecl) → Decidable f.Shown
  | ⟨_, _, body⟩ => Stmt.decideShownList body

def FunctionDecl.decideShownList : (fs : List FunctionDecl) → Decidable (FunctionDecl.ShownList fs)
  | [] => .isTrue trivial
  | f :: fs => @instDecidableAnd _ _ f.decideShown (FunctionDecl.decideShownList fs)

end

instance : DecidablePred Stmt.Shown := Stmt.decideShown

/-! ### Words -/

open Region (IsWord IsNumber IsLetter IsDigit)

theorem Mark.plain {m : Mark} (notParen : m ≠ .leftParen ∧ m ≠ .rightParen) :
    (Piece.word m.text).Fine := by
  obtain ⟨notLeft, notRight⟩ := notParen
  unfold Piece.Fine Piece.Plain
  cases m with
  | leftParen => exact absurd rfl notLeft
  | rightParen => exact absurd rfl notRight
  | _ => decide

theorem Keyword.plain (w : Keyword) : (Piece.word w.text).Fine := by
  unfold Piece.Fine Piece.Plain
  cases w <;> decide

theorem isPlain_of_part {c : Char} (part : IsLetter c ∨ IsDigit c ∨ c = '.') :
    Piece.isPlain c = true := by
  rw [← Region.isWordStart_iff, ← Region.isDigit_iff] at part
  rw [Piece.isPlain, Bool.not_eq_true', Bool.eq_false_iff]
  intro stop
  have among := List.contains_iff_mem.1 stop
  simp only [List.mem_cons, List.not_mem_nil, or_false] at among
  rcases among with rfl | rfl | rfl <;> exact absurd part (by decide)

theorem plain_of_word {s : String} (word : IsWord s.toList) : (Piece.word s).Fine := by
  obtain ⟨first, rest, chars, isLetter, parts⟩ := word
  constructor
  · rw [chars]
    exact List.cons_ne_nil first rest
  · apply Piece.plain_iff.2
    intro c among
    rw [chars] at among
    apply isPlain_of_part
    rcases List.mem_cons.1 among with rfl | among
    · exact .inl isLetter
    · exact (parts c among).imp_right .inl

theorem plain_of_number {s : String} (number : IsNumber s.toList) : (Piece.word s).Fine := by
  obtain ⟨whole, some, digits, form⟩ := number
  constructor
  · rcases form with form | ⟨part, -, -, form⟩ <;> simp [form, some]
  · apply Piece.plain_iff.2
    intro c among
    apply isPlain_of_part
    rcases form with form | ⟨part, -, digits', form⟩
    · rw [form] at among
      exact .inr (.inl (digits c among))
    · rw [form] at among
      rcases List.mem_append.1 among with among | among
      · exact .inr (.inl (digits c among))
      · rcases List.mem_cons.1 among with rfl | among
        · exact .inr (.inr rfl)
        · exact .inr (.inl (digits' c among))

theorem Token.IsName.plain {t : Token} (name : t.IsName Token.Scanned) : (Piece.word t.lexeme).Fine := by
  obtain ⟨scanned, isIdentifier⟩ := name
  have kind := TokenKind.isIdentifier_iff.1 isIdentifier
  unfold Token.Scanned at scanned
  rw [kind] at scanned
  exact plain_of_word scanned.1

/-- The operators of expressions. -/
def TokenKind.IsOperator (k : TokenKind) : Prop :=
  k.isUnary = true ∨ k.isBinary = true ∨ k.isLogical = true

theorem Token.Scanned.operator {t : Token} (scanned : t.Scanned) (operator : t.kind.IsOperator) :
    (∃ m : Mark, (m ≠ .leftParen ∧ m ≠ .rightParen) ∧ t.kind = .mark m ∧ t.lexeme = m.text) ∨
      ∃ w : Keyword, t.kind = .keyword w ∧ t.lexeme = w.text := by
  obtain ⟨kind, lexeme, line⟩ := t
  unfold Token.Scanned at scanned
  cases kind with
  | mark m =>
    refine .inl ⟨m, ?_, rfl, scanned⟩
    constructor <;>
      (rintro rfl
       rcases operator with other | other | other <;> cases other)
  | keyword w => exact .inr ⟨w, rfl, scanned⟩
  | _ => rcases operator with other | other | other <;> cases other

theorem Token.Scanned.plain {t : Token} (scanned : t.Scanned) (operator : t.kind.IsOperator) :
    (Piece.word t.lexeme).Fine := by
  rcases scanned.operator operator with ⟨m, notParen, -, spelled⟩ | ⟨w, -, spelled⟩
  · rw [spelled]
    exact Mark.plain notParen
  · rw [spelled]
    exact w.plain

theorem Literal.plain {v : Literal} (unsigned : v.Unsigned) (shown : v.Shown) :
    (Piece.word v.written).Fine := by
  cases v with
  | number n =>
    have finite := Nat.lt_of_le_of_ne unsigned.2 shown
    exact plain_of_number (Number.treeText_reads unsigned.1 finite).1
  | string => exact False.elim shown
  | bool b =>
    cases b with
    | true => exact Keyword.plain .true
    | false => exact Keyword.plain .false
  | nil => exact Keyword.plain .nil

/-- The heads of pieces, apart from operators. -/
def Piece.heads : List String :=
  ["group", "=", "call", ".", "super", ",", "?:", ";", "print", "var", "block", "if", "if-else",
    "while", "fun", "return", "class", "method", "<", "this"]

theorem Piece.head_fine : ∀ head ∈ heads, (Piece.word head).Fine := by
  unfold Fine Plain
  decide

theorem Piece.headed_fine {head : String} {parts : List Piece} (known : head ∈ heads)
    (fine : FineList parts) : (headed head parts).Fine :=
  ⟨rfl, head_fine head known, fine⟩

mutual

theorem Expr.piece_fine (e : Expr) (scanned : e.Scanned) (shown : e.Shown) : e.piece.Fine := by
  match e with
  | .literal _ v => exact Literal.plain scanned shown
  | .var _ name => exact Token.IsName.plain scanned
  | .this .. => exact Piece.head_fine _ (by decide)
  | .super .. => exact Piece.headed_fine (by decide) ⟨Token.IsName.plain scanned.2.2, trivial⟩
  | .grouping _ a => exact Piece.headed_fine (by decide) ⟨a.piece_fine scanned shown, trivial⟩
  | .unary _ operator a =>
    exact ⟨rfl, scanned.1.plain (.inl scanned.2.1), a.piece_fine scanned.2.2 shown, trivial⟩
  | .binary _ a operator b =>
    exact ⟨rfl, scanned.2.1.plain (.inr (.inl scanned.2.2.1)), a.piece_fine scanned.1 shown.1,
      b.piece_fine scanned.2.2.2 shown.2, trivial⟩
  | .logical _ a operator b =>
    exact ⟨rfl, scanned.2.1.plain (.inr (.inr scanned.2.2.1)), a.piece_fine scanned.1 shown.1,
      b.piece_fine scanned.2.2.2 shown.2, trivial⟩
  | .assign _ name a =>
    exact Piece.headed_fine (by decide)
      ⟨Token.IsName.plain scanned.1, a.piece_fine scanned.2 shown, trivial⟩
  | .call _ a _ es =>
    exact Piece.headed_fine (by decide)
      ⟨a.piece_fine scanned.1 shown.1, Expr.pieces_fine es scanned.2.2.2 shown.2⟩
  | .get _ a name =>
    exact Piece.headed_fine (by decide)
      ⟨a.piece_fine scanned.1 shown, Token.IsName.plain scanned.2, trivial⟩
  | .set _ a name b =>
    have property : (Piece.headed "." [a.piece, .word name.lexeme]).Fine :=
      Piece.headed_fine (by decide)
        ⟨a.piece_fine scanned.1 shown.1, Token.IsName.plain scanned.2.1, trivial⟩
    exact Piece.headed_fine (by decide) ⟨property, b.piece_fine scanned.2.2 shown.2, trivial⟩
  | .comma _ a b =>
    exact Piece.headed_fine (by decide)
      ⟨a.piece_fine scanned.1 shown.1, b.piece_fine scanned.2 shown.2, trivial⟩
  | .ternary _ a b c =>
    exact Piece.headed_fine (by decide)
      ⟨a.piece_fine scanned.1 shown.1, b.piece_fine scanned.2.1 shown.2.1,
        c.piece_fine scanned.2.2 shown.2.2, trivial⟩

theorem Expr.pieces_fine (es : List Expr) (scanned : Expr.ScannedList es)
    (shown : Expr.ShownList es) : Piece.FineList (Expr.pieces es) := by
  match es with
  | [] => trivial
  | e :: es => exact ⟨e.piece_fine scanned.1 shown.1, Expr.pieces_fine es scanned.2 shown.2⟩

end

theorem Token.pieces_fine {ts : List Token} (names : ∀ t ∈ ts, t.IsName Token.Scanned) :
    Piece.FineList (ts.map Token.piece) := by
  induction ts with
  | nil => trivial
  | cons t ts ih =>
    obtain ⟨name, names⟩ := List.forall_mem_cons.1 names
    exact ⟨name.plain, ih names⟩

mutual

theorem Stmt.piece_fine (s : Stmt) (scanned : s.Scanned) (shown : s.Shown) : s.piece.Fine := by
  match s with
  | .expression e | .print e =>
    exact Piece.headed_fine (by decide) ⟨e.piece_fine scanned shown, trivial⟩
  | .varDecl name none => exact Piece.headed_fine (by decide) ⟨Token.IsName.plain scanned, trivial⟩
  | .varDecl name (some e) =>
    exact Piece.headed_fine (by decide)
      ⟨Token.IsName.plain scanned.1, e.piece_fine scanned.2 shown, trivial⟩
  | .block body => exact Piece.headed_fine (by decide) (Stmt.pieces_fine body scanned shown)
  | .ifThen e yes | .whileLoop e yes =>
    exact Piece.headed_fine (by decide)
      ⟨e.piece_fine scanned.1 shown.1, yes.piece_fine scanned.2 shown.2, trivial⟩
  | .ifElse e yes no =>
    exact Piece.headed_fine (by decide)
      ⟨e.piece_fine scanned.1 shown.1, yes.piece_fine scanned.2.1 shown.2.1,
        no.piece_fine scanned.2.2 shown.2.2, trivial⟩
  | .funDecl f => exact f.piece_fine (by decide) scanned shown
  | .returnStmt _ none => exact Piece.headed_fine (by decide) trivial
  | .returnStmt _ (some e) =>
    exact Piece.headed_fine (by decide) ⟨e.piece_fine scanned.2 shown, trivial⟩
  | .classDecl name none methods =>
    exact Piece.headed_fine (by decide)
      ⟨Token.IsName.plain scanned.1, FunctionDecl.pieces_fine methods scanned.2 shown⟩
  | .classDecl name (some e) methods =>
    exact Piece.headed_fine (by decide)
      ⟨Token.IsName.plain scanned.1, Piece.head_fine "<" (by decide),
        e.piece_fine scanned.2.1 shown.1, FunctionDecl.pieces_fine methods scanned.2.2 shown.2⟩

theorem Stmt.pieces_fine (ss : List Stmt) (scanned : Stmt.ScannedList ss)
    (shown : Stmt.ShownList ss) : Piece.FineList (Stmt.pieces ss) := by
  match ss with
  | [] => trivial
  | s :: ss => exact ⟨s.piece_fine scanned.1 shown.1, Stmt.pieces_fine ss scanned.2 shown.2⟩

theorem FunctionDecl.piece_fine {head : String} (known : head ∈ Piece.heads) (f : FunctionDecl)
    (scanned : f.Scanned) (shown : f.Shown) : (f.piece head).Fine := by
  match f with
  | ⟨name, parameters, body⟩ =>
    exact Piece.headed_fine known
      ⟨⟨(Token.IsName.plain scanned.1).2, Token.pieces_fine scanned.2.1⟩,
        Stmt.pieces_fine body scanned.2.2 shown⟩

theorem FunctionDecl.pieces_fine (fs : List FunctionDecl) (scanned : FunctionDecl.ScannedList fs)
    (shown : FunctionDecl.ShownList fs) : Piece.FineList (FunctionDecl.pieces fs) := by
  match fs with
  | [] => trivial
  | ⟨name, parameters, body⟩ :: fs =>
    exact ⟨FunctionDecl.piece_fine (by decide) ⟨name, parameters, body⟩ scanned.1 shown.1,
      FunctionDecl.pieces_fine fs scanned.2 shown.2⟩

end

/-! ### Reading back -/

namespace Piece

/-- The token that a word spells. -/
def token (s : String) : Token :=
  match Mark.ofChars? s.toList with
  | some m => ⟨.mark m, s, 0⟩
  | none => ⟨.ofWord s, s, 0⟩

def leaf (s : String) : Expr :=
  if s.toList.head?.any Char.isDigit then
    .literal 0 (.number (Number.Decimal.ofLiteral s.toList).toPattern)
  else
    match (token s).kind with
    | .keyword .true => .literal 0 (.bool true)
    | .keyword .false => .literal 0 (.bool false)
    | .keyword .nil => .literal 0 .nil
    | .keyword .this => .this 0 (token s)
    | _ => .var 0 (token s)

/-- The expression with this head and these parts. Names are read as expressions first. -/
def joined (head : String) (parts : List Expr) : Expr :=
  match head, parts with
  | "group", [e] => .grouping 0 e
  | "call", callee :: arguments => .call 0 callee (token ")") arguments
  | ".", [object, .var _ name] => .get 0 object name
  | "=", [.var _ name, value] => .assign 0 name value
  | "=", [.get _ object name, value] => .set 0 object name value
  | "super", [.var _ name] => .super 0 (token "super") name
  | ",", [left, right] => .comma 0 left right
  | "?:", [condition, yes, no] => .ternary 0 condition yes no
  | _, [operand] => .unary 0 (token head) operand
  | _, [left, right] =>
      match (token head).kind with
      | .keyword _ => .logical 0 left (token head) right
      | _ => .binary 0 left (token head) right
  | _, _ => .literal 0 .nil

mutual

def expr : Piece → Expr
  | .word s => leaf s
  | .form _ (.word head :: parts) => joined head (exprs parts)
  | .form _ _ => .literal 0 .nil

def exprs : List Piece → List Expr
  | [] => []
  | p :: ps => p.expr :: exprs ps

end

def function : Stmt → FunctionDecl
  | .funDecl f => f
  | _ => ⟨token "", [], []⟩

def name : Piece → Token
  | .word s => token s
  | .form s _ => token s

/-- The statement with this head and these parts, which are read as statements, too. -/
def stated (head : String) (parts : List Piece) (inner : List Stmt) : Stmt :=
  match head, parts, inner with
  | ";", [e], _ => .expression e.expr
  | "print", [e], _ => .print e.expr
  | "var", [x], _ => .varDecl x.name none
  | "var", [x, e], _ => .varDecl x.name (some e.expr)
  | "block", _, body => .block body
  | "if", [condition, _], [_, yes] => .ifThen condition.expr yes
  | "if-else", [condition, _, _], [_, yes, no] => .ifElse condition.expr yes no
  | "while", [condition, _], [_, body] => .whileLoop condition.expr body
  | "return", [], _ => .returnStmt (token "return") none
  | "return", [e], _ => .returnStmt (token "return") (some e.expr)
  | "class", x :: .word _ :: e :: _, _ :: _ :: _ :: methods =>
      .classDecl x.name (some e.expr) (methods.map function)
  | "class", x :: _, _ :: methods => .classDecl x.name none (methods.map function)
  | _, .form x parameters :: _, _ :: body => .funDecl ⟨token x, parameters.map name, body⟩
  | _, _, _ => .block []

mutual

def stmt : Piece → Stmt
  | .form _ (.word head :: parts) => stated head parts (stmts parts)
  | _ => .block []

def stmts : List Piece → List Stmt
  | [] => []
  | p :: ps => p.stmt :: stmts ps

end

theorem token_mark (m : Mark) : token m.text = ⟨.mark m, m.text, 0⟩ := by
  cases m <;> rfl

theorem token_keyword (w : Keyword) : token w.text = ⟨.keyword w, w.text, 0⟩ := by
  cases w <;> rfl

theorem token_name {t : Token} (isName : t.IsName Token.Scanned) : token t.lexeme = t.unplaced := by
  obtain ⟨kind, lexeme, line⟩ := t
  obtain ⟨scanned, isIdentifier⟩ := isName
  obtain rfl : kind = .identifier := TokenKind.isIdentifier_iff.1 isIdentifier
  obtain ⟨⟨first, rest, chars, isLetter, -⟩, other⟩ := scanned
  have noMark : Mark.ofChars? lexeme.toList = none := by
    rw [Option.eq_none_iff_forall_ne_some]
    intro m found
    have starts : m.chars.head? = some first := by
      rw [Mark.ofChars?_eq_some.1 found]
      exact congrArg List.head? chars
    have noLetter := (Mark.chars_start starts).2.2.2
    rw [Region.isWordStart_iff.2 isLetter] at noLetter
    cases noLetter
  rw [token, noMark, (Region.keyword_iff lexeme).2.2 other]
  rfl

theorem token_operator {t : Token} (scanned : t.Scanned) (operator : t.kind.IsOperator) :
    token t.lexeme = t.unplaced := by
  rcases scanned.operator operator with ⟨m, -, kind, spelled⟩ | ⟨w, kind, spelled⟩
  · rw [spelled, token_mark, Token.unplaced, kind, spelled]
  · rw [spelled, token_keyword, Token.unplaced, kind, spelled]

/-- A word that starts with a letter is no number. -/
theorem leaf_name {t : Token} (isName : t.IsName Token.Scanned) :
    leaf t.lexeme = .var 0 t.unplaced := by
  have same := token_name isName
  obtain ⟨kind, lexeme, line⟩ := t
  obtain ⟨scanned, isIdentifier⟩ := isName
  obtain rfl : kind = .identifier := TokenKind.isIdentifier_iff.1 isIdentifier
  obtain ⟨⟨first, rest, chars, isLetter, -⟩, -⟩ := scanned
  have noNumber : (lexeme.toList.head?.any Char.isDigit) = false := by
    have chars : lexeme.toList = first :: rest := chars
    rw [chars]
    exact Bool.eq_false_iff.2 fun digit => isLetter.not_digit (Region.isDigit_iff.1 digit)
  unfold leaf
  rw [noNumber, same]
  rfl

theorem leaf_literal {v : Literal} (unsigned : v.Unsigned) (shown : v.Shown) :
    leaf v.written = .literal 0 v := by
  cases v with
  | number n =>
    have finite := Nat.lt_of_le_of_ne unsigned.2 shown
    obtain ⟨isNumber, reads⟩ := Number.treeText_reads unsigned.1 finite
    have digit : ((Number.treeText n).toList.head?.any Char.isDigit) = true := by
      obtain ⟨c, more, chars, isDigit⟩ := isNumber.starts
      rw [chars]
      exact Region.isDigit_iff.2 isDigit
    unfold leaf Literal.written
    rw [digit, reads]
    rfl
  | string => exact False.elim shown
  | bool b => cases b <;> rfl
  | nil => rfl

theorem joined_unary {t : Token} (scanned : t.Scanned) (isUnary : t.kind.isUnary = true) (a : Expr) :
    joined t.lexeme [a] = .unary 0 t.unplaced a := by
  rw [← token_operator scanned (.inl isUnary)]
  rcases scanned.operator (.inl isUnary) with ⟨m, -, kind, spelled⟩ | ⟨w, kind, spelled⟩
  · rw [kind] at isUnary
    rw [spelled]
    cases m <;> first | rfl | cases isUnary
  · rw [kind] at isUnary
    cases isUnary

theorem joined_binary {t : Token} (scanned : t.Scanned) (isBinary : t.kind.isBinary = true)
    (a b : Expr) : joined t.lexeme [a, b] = .binary 0 a t.unplaced b := by
  rw [← token_operator scanned (.inr (.inl isBinary))]
  rcases scanned.operator (.inr (.inl isBinary)) with ⟨m, -, kind, spelled⟩ | ⟨w, kind, spelled⟩
  · rw [kind] at isBinary
    rw [spelled]
    cases m <;> first | rfl | cases isBinary
  · rw [kind] at isBinary
    cases isBinary

theorem joined_logical {t : Token} (scanned : t.Scanned) (isLogical : t.kind.isLogical = true)
    (a b : Expr) : joined t.lexeme [a, b] = .logical 0 a t.unplaced b := by
  rw [← token_operator scanned (.inr (.inr isLogical))]
  rcases scanned.operator (.inr (.inr isLogical)) with ⟨m, -, kind, spelled⟩ | ⟨w, kind, spelled⟩
  · rw [kind] at isLogical
    cases isLogical
  · rw [kind] at isLogical
    rw [spelled]
    cases w <;> first | rfl | cases isLogical

theorem expr_headed (head : String) (parts : List Piece) :
    (headed head parts).expr = joined head (exprs parts) := rfl

theorem stmt_headed (head : String) (parts : List Piece) :
    (headed head parts).stmt = stated head parts (stmts parts) := rfl

end Piece

open Piece in
mutual

/-- The expression is read back from its pieces. -/
theorem Expr.expr_piece (e : Expr) (scanned : e.Scanned) (shown : e.Shown) :
    e.piece.expr = e.unplaced := by
  match e with
  | .literal _ v => exact leaf_literal scanned shown
  | .var _ name => exact leaf_name scanned
  | .this _ ⟨kind, lexeme, line⟩ =>
    obtain ⟨spelled, rfl⟩ := scanned
    obtain rfl : lexeme = "this" := spelled
    rfl
  | .super _ ⟨kind, lexeme, line⟩ method =>
    obtain ⟨spelled, rfl, isName⟩ := scanned
    obtain rfl : lexeme = "super" := spelled
    have parts : exprs [.word method.lexeme] = [.var 0 method.unplaced] :=
      congrArg (· :: []) (leaf_name isName)
    rw [Expr.piece, expr_headed, parts]
    rfl
  | .grouping _ a =>
    have parts : exprs [a.piece] = [a.unplaced] := congrArg (· :: []) (a.expr_piece scanned shown)
    rw [Expr.piece, expr_headed, parts]
    rfl
  | .unary _ operator a =>
    have parts : exprs [a.piece] = [a.unplaced] := congrArg (· :: []) (a.expr_piece scanned.2.2 shown)
    rw [Expr.piece, expr_headed, parts]
    exact joined_unary scanned.1 scanned.2.1 _
  | .binary _ a operator b =>
    have parts : exprs [a.piece, b.piece] = [a.unplaced, b.unplaced] := by
      simp only [exprs, a.expr_piece scanned.1 shown.1, b.expr_piece scanned.2.2.2 shown.2]
    rw [Expr.piece, expr_headed, parts]
    exact joined_binary scanned.2.1 scanned.2.2.1 _ _
  | .logical _ a operator b =>
    have parts : exprs [a.piece, b.piece] = [a.unplaced, b.unplaced] := by
      simp only [exprs, a.expr_piece scanned.1 shown.1, b.expr_piece scanned.2.2.2 shown.2]
    rw [Expr.piece, expr_headed, parts]
    exact joined_logical scanned.2.1 scanned.2.2.1 _ _
  | .assign _ name a =>
    have parts : exprs [.word name.lexeme, a.piece] = [.var 0 name.unplaced, a.unplaced] := by
      simp only [exprs, expr, leaf_name scanned.1, a.expr_piece scanned.2 shown]
    rw [Expr.piece, expr_headed, parts]
    rfl
  | .call _ a ⟨kind, lexeme, line⟩ es =>
    obtain ⟨isCallee, spelled, rfl, isArguments⟩ := scanned
    obtain rfl : lexeme = ")" := spelled
    have parts : exprs (a.piece :: Expr.pieces es) = a.unplaced :: Expr.unplacedList es := by
      simp only [exprs, a.expr_piece isCallee shown.1, Expr.exprs_pieces es isArguments shown.2]
    rw [Expr.piece, expr_headed, parts]
    rfl
  | .get _ a name =>
    have parts : exprs [a.piece, .word name.lexeme] = [a.unplaced, .var 0 name.unplaced] := by
      simp only [exprs, expr, leaf_name scanned.2, a.expr_piece scanned.1 shown]
    rw [Expr.piece, expr_headed, parts]
    rfl
  | .set _ a name b =>
    have property : exprs [a.piece, .word name.lexeme] = [a.unplaced, .var 0 name.unplaced] := by
      simp only [exprs, expr, leaf_name scanned.2.1, a.expr_piece scanned.1 shown.1]
    have parts : exprs [.headed "." [a.piece, .word name.lexeme], b.piece] =
        [.get 0 a.unplaced name.unplaced, b.unplaced] := by
      simp only [exprs, b.expr_piece scanned.2.2 shown.2]
      rw [expr_headed, property]
      rfl
    rw [Expr.piece, expr_headed, parts]
    rfl
  | .comma _ a b =>
    have parts : exprs [a.piece, b.piece] = [a.unplaced, b.unplaced] := by
      simp only [exprs, a.expr_piece scanned.1 shown.1, b.expr_piece scanned.2 shown.2]
    rw [Expr.piece, expr_headed, parts]
    rfl
  | .ternary _ a b c =>
    have parts : exprs [a.piece, b.piece, c.piece] = [a.unplaced, b.unplaced, c.unplaced] := by
      simp only [exprs, a.expr_piece scanned.1 shown.1, b.expr_piece scanned.2.1 shown.2.1,
        c.expr_piece scanned.2.2 shown.2.2]
    rw [Expr.piece, expr_headed, parts]
    rfl

theorem Expr.exprs_pieces (es : List Expr) (scanned : Expr.ScannedList es)
    (shown : Expr.ShownList es) : exprs (Expr.pieces es) = Expr.unplacedList es := by
  match es with
  | [] => rfl
  | e :: es =>
    exact congrArg₂ List.cons (e.expr_piece scanned.1 shown.1)
      (Expr.exprs_pieces es scanned.2 shown.2)

end

open Piece in
theorem Token.names_pieces {ts : List Token} (names : ∀ t ∈ ts, t.IsName Token.Scanned) :
    (ts.map Token.piece).map Piece.name = ts.map Token.unplaced := by
  rw [List.map_map]
  exact List.map_congr_left fun t among => token_name (names t among)

open Piece in
mutual

/-- The statement is read back from its pieces. -/
theorem Stmt.stmt_piece (s : Stmt) (scanned : s.Scanned) (shown : s.Shown) :
    s.piece.stmt = s.unplaced := by
  match s with
  | .expression e | .print e =>
    have value := e.expr_piece scanned shown
    rw [Stmt.piece, stmt_headed, Stmt.unplaced, ← value]
    rfl
  | .varDecl name none =>
    have isName : name.piece.name = name.unplaced := token_name scanned
    rw [Stmt.piece, stmt_headed, Stmt.unplaced, ← isName]
    rfl
  | .varDecl name (some e) =>
    have isName : name.piece.name = name.unplaced := token_name scanned.1
    have value := e.expr_piece scanned.2 shown
    rw [Stmt.piece, stmt_headed, Stmt.unplaced, Option.map_some, ← isName, ← value]
    rfl
  | .block body =>
    rw [Stmt.piece, stmt_headed, Stmt.stmts_pieces body scanned shown]
    rfl
  | .ifThen e yes =>
    have condition := e.expr_piece scanned.1 shown.1
    have branch := yes.stmt_piece scanned.2 shown.2
    rw [Stmt.piece, stmt_headed, Stmt.unplaced, ← condition, ← branch]
    rfl
  | .whileLoop e body =>
    have condition := e.expr_piece scanned.1 shown.1
    have repeated := body.stmt_piece scanned.2 shown.2
    rw [Stmt.piece, stmt_headed, Stmt.unplaced, ← condition, ← repeated]
    rfl
  | .ifElse e yes no =>
    have condition := e.expr_piece scanned.1 shown.1
    have branch := yes.stmt_piece scanned.2.1 shown.2.1
    have other := no.stmt_piece scanned.2.2 shown.2.2
    rw [Stmt.piece, stmt_headed, Stmt.unplaced, ← condition, ← branch, ← other]
    rfl
  | .funDecl f => exact f.stmt_piece (.inl rfl) scanned shown
  | .returnStmt ⟨kind, lexeme, line⟩ none =>
    obtain ⟨spelled, rfl⟩ := scanned
    obtain rfl : lexeme = "return" := spelled
    rfl
  | .returnStmt ⟨kind, lexeme, line⟩ (some e) =>
    obtain ⟨⟨spelled, rfl⟩, isScanned⟩ := scanned
    obtain rfl : lexeme = "return" := spelled
    have value := e.expr_piece isScanned shown
    rw [Stmt.piece, stmt_headed, Stmt.unplaced, Option.map_some, ← value]
    rfl
  | .classDecl name none methods =>
    have isName : name.piece.name = name.unplaced := token_name scanned.1
    have functions := FunctionDecl.functions_pieces methods scanned.2 shown
    rw [Stmt.piece, stmt_headed, Stmt.unplaced, ← isName, ← functions]
    -- The first method has to be seen as a form, lest it might be the mark before a superclass.
    match methods with
    | [] => rfl
    | ⟨_, _, _⟩ :: _ => rfl
  | .classDecl name (some e) methods =>
    have isName : name.piece.name = name.unplaced := token_name scanned.1
    have parent := e.expr_piece scanned.2.1 shown.1
    have functions := FunctionDecl.functions_pieces methods scanned.2.2 shown.2
    rw [Stmt.piece, stmt_headed, Stmt.unplaced, Option.map_some, ← isName, ← parent, ← functions]
    rfl

theorem Stmt.stmts_pieces (ss : List Stmt) (scanned : Stmt.ScannedList ss)
    (shown : Stmt.ShownList ss) : stmts (Stmt.pieces ss) = Stmt.unplacedList ss := by
  match ss with
  | [] => rfl
  | s :: ss =>
    exact congrArg₂ List.cons (s.stmt_piece scanned.1 shown.1)
      (Stmt.stmts_pieces ss scanned.2 shown.2)

theorem FunctionDecl.stmt_piece {head : String} (known : head = "fun" ∨ head = "method")
    (f : FunctionDecl) (scanned : f.Scanned) (shown : f.Shown) :
    (f.piece head).stmt = .funDecl f.unplaced := by
  match f with
  | ⟨name, parameters, body⟩ =>
    have isName : token name.lexeme = name.unplaced := token_name scanned.1
    have names := Token.names_pieces scanned.2.1
    have inside := Stmt.stmts_pieces body scanned.2.2 shown
    rw [FunctionDecl.piece, stmt_headed, FunctionDecl.unplaced, ← isName, ← names, ← inside]
    rcases known with rfl | rfl <;> rfl

theorem FunctionDecl.functions_pieces (fs : List FunctionDecl)
    (scanned : FunctionDecl.ScannedList fs) (shown : FunctionDecl.ShownList fs) :
    (stmts (FunctionDecl.pieces fs)).map function = FunctionDecl.unplacedList fs := by
  match fs with
  | [] => rfl
  | ⟨name, parameters, body⟩ :: fs =>
    have first := FunctionDecl.stmt_piece (.inr rfl) ⟨name, parameters, body⟩ scanned.1 shown.1
    exact congrArg₂ List.cons (congrArg function first)
      (FunctionDecl.functions_pieces fs scanned.2 shown.2)

end

/-- Trees that are written alike are the same tree, up to ids and lines, if they were read from texts
and show all their literals. -/
theorem Grammar.written_injective :
    (∀ e e' : Expr, BuildsExpr e → BuildsExpr e' → e.Shown → e'.Shown →
      e.written = e'.written → e.unplaced = e'.unplaced) ∧
    ∀ s s' : Stmt, BuildsStmt s → BuildsStmt s' → s.Shown → s'.Shown →
      s.written = s'.written → s.unplaced = s'.unplaced := by
  have ended : Piece.Stops [] := by nofun
  constructor
  · intro e e' builds builds' shown shown' same
    have texts : e.piece.text ++ [] = e'.piece.text ++ [] := by
      rw [← e.toList_written, ← e'.toList_written, same]
    obtain ⟨pieces, -⟩ := Piece.text_injective _ _ (e.piece_fine builds.scanned shown)
      (e'.piece_fine builds'.scanned shown') ended ended texts
    rw [← e.expr_piece builds.scanned shown, ← e'.expr_piece builds'.scanned shown', pieces]
  · intro s s' builds builds' shown shown' same
    have texts : s.piece.text ++ [] = s'.piece.text ++ [] := by
      rw [← s.toList_written, ← s'.toList_written, same]
    obtain ⟨pieces, -⟩ := Piece.text_injective _ _ (s.piece_fine builds.scanned shown)
      (s'.piece_fine builds'.scanned shown') ended ended texts
    rw [← s.stmt_piece builds.scanned shown, ← s'.stmt_piece builds'.scanned shown', pieces]

/-- The only statement of a text. -/
def Grammar.onlyStatement (source : String) (firstId : ExprId) : Stmt :=
  (Session.statements (recoverProgram (Scan.tokens (Scan.items source)) firstId).value).headD
    (.block [])

def loopInLines : String := "for (var i; i < 2.50; i = i.next)\n  a.b =\n -f(i) ? this : i;"

def loopWithBlock : String :=
  "\x7b var i; while (i<2.5) \x7b a . b = -f(i) ? this : i; i = i . next; \x7d \x7d"

theorem Grammar.written_injective_loop :
    let s := onlyStatement loopInLines 0
    let s' := onlyStatement loopWithBlock 7
    BuildsStmt s ∧ BuildsStmt s' ∧ s.Shown ∧ s'.Shown ∧ s.written = s'.written ∧
      s.unplaced = s'.unplaced := by
  intro s s'
  have builds (source : String) (firstId : ExprId)
      (one : (Session.statements
        (recoverProgram (Scan.tokens (Scan.items source)) firstId).value).length = 1) :
      BuildsStmt (onlyStatement source firstId) := by
    obtain ⟨only, known⟩ := List.length_eq_one_iff.1 one
    refine ⟨source, firstId, [only], [], .inr known, .top ?_⟩
    rw [onlyStatement, known]
    exact List.mem_singleton_self only
  have isBuilt : BuildsStmt s := builds loopInLines 0 (by decide +kernel)
  have isBuilt' : BuildsStmt s' := builds loopWithBlock 7 (by decide +kernel)
  have shown : s.Shown := by decide +kernel
  have shown' : s'.Shown := by decide +kernel
  have same : s.written = s'.written := by decide +kernel
  exact ⟨isBuilt, isBuilt', shown, shown', same,
    written_injective.2 s s' isBuilt isBuilt' shown shown' same⟩

end Lox
