import Mathlib
import Lox.Syntax.Written

/-!
The written form of a tree is put together from words and from pieces in parentheses. Where a piece
ends, and which piece it is, can be told from the text at any nesting.
-/

namespace Lox

/-! ### Pieces of a written form -/

/-- A word, or a list in parentheses that may follow a name directly. -/
inductive Piece where
  | word (text : String)
  | form (name : String) (parts : List Piece)

namespace Piece

mutual

def text : Piece → List Char
  | .word s => s.toList
  | .form name parts => name.toList ++ '(' :: (textList parts ++ [')'])

/-- The parts are parted by blanks. -/
def textList : List Piece → List Char
  | [] => []
  | [p] => p.text
  | p :: q :: rest => p.text ++ ' ' :: textList (q :: rest)

end

def headed (head : String) (parts : List Piece) : Piece := .form "" (.word head :: parts)

def isPlain (c : Char) : Bool := !([' ', '(', ')'].contains c)

def Plain (s : String) : Prop := s.toList.all isPlain = true

theorem plain_iff {s : String} : Plain s ↔ ∀ c ∈ s.toList, isPlain c = true := List.all_eq_true

mutual

/-- Words are not empty, and hold no blank and no parenthesis. -/
def Fine : Piece → Prop
  | .word s => s.toList ≠ [] ∧ Plain s
  | .form name parts => Plain name ∧ FineList parts

def FineList : List Piece → Prop
  | [] => True
  | p :: ps => p.Fine ∧ FineList ps

end

/-- What can follow a piece. -/
def Stops (rest : List Char) : Prop := ∀ c ∈ rest.head?, c = ' ' ∨ c = ')'

theorem span_plain {s : String} (plain : Plain s) {rest : List Char}
    (ends : ∀ c ∈ rest.head?, isPlain c = false) :
    (s.toList ++ rest).takeWhile isPlain = s.toList ∧ (s.toList ++ rest).dropWhile isPlain = rest := by
  rw [plain_iff] at plain
  rw [List.takeWhile_append_of_pos plain, List.dropWhile_append_of_pos plain]
  cases rest with
  | nil => simp
  | cons c rest =>
    have other := ends c rfl
    simp [other]

/-- A plain text is told by where the first character stands that is not plain. -/
theorem plain_injective {s t : String} (plain : Plain s) (plain' : Plain t) {rest rest' : List Char}
    (ends : ∀ c ∈ rest.head?, isPlain c = false) (ends' : ∀ c ∈ rest'.head?, isPlain c = false)
    (same : s.toList ++ rest = t.toList ++ rest') : s = t ∧ rest = rest' := by
  obtain ⟨first, left⟩ := span_plain plain ends
  obtain ⟨first', left'⟩ := span_plain plain' ends'
  rw [same] at first left
  constructor
  · exact String.toList_inj.1 (first.symm.trans first')
  · exact left.symm.trans left'

theorem Stops.ends {rest : List Char} (stops : Stops rest) :
    ∀ c ∈ rest.head?, isPlain c = false := by
  intro c first
  rcases stops c first with rfl | rfl <;> rfl

theorem Stops.ne_open {rest : List Char} (stops : Stops rest) (more : List Char) :
    rest ≠ '(' :: more := by
  rintro rfl
  rcases stops '(' rfl with other | other <;> cases other

theorem stops_cons {c : Char} (isStop : c = ' ' ∨ c = ')') (rest : List Char) : Stops (c :: rest) := by
  rintro d ⟨⟩
  exact isStop

theorem text_form (name : String) (parts : List Piece) (rest : List Char) :
    (form name parts).text ++ rest = name.toList ++ '(' :: (textList parts ++ ')' :: rest) := by
  simp [text]

/-- A piece does not start with a closing parenthesis. -/
theorem text_start {p : Piece} (fine : p.Fine) (rest more : List Char) :
    p.text ++ rest ≠ ')' :: more := by
  have plain {s : String} (plain : Plain s) (c : Char) (cs : List Char) (chars : s.toList = c :: cs) :
      c ≠ ')' := by
    rintro rfl
    have closing := plain_iff.1 plain ')' (by rw [chars]; exact List.mem_cons_self)
    cases closing
  intro same
  cases p with
  | word s =>
    obtain ⟨some, isPlain⟩ := fine
    obtain ⟨c, cs, chars⟩ := List.exists_cons_of_ne_nil some
    rw [text, chars, List.cons_append] at same
    exact plain isPlain c cs chars (List.cons.inj same).1
  | form name parts =>
    rw [text_form] at same
    cases chars : name.toList with
    | nil =>
      rw [chars] at same
      cases (List.cons.inj same).1
    | cons c cs =>
      rw [chars] at same
      exact plain fine.1 c cs chars (List.cons.inj same).1

mutual

/-- Where a piece ends, and which piece it is, is told by the text. -/
theorem text_injective (p q : Piece) (fine : p.Fine) (fine' : q.Fine) {rest rest' : List Char}
    (stops : Stops rest) (stops' : Stops rest') (same : p.text ++ rest = q.text ++ rest') :
    p = q ∧ rest = rest' := by
  have opens (more : List Char) : ∀ c ∈ ('(' :: more).head?, isPlain c = false := by
    rintro c ⟨⟩
    rfl
  match p, q with
  | .word s, .word t =>
    obtain ⟨rfl, left⟩ := plain_injective fine.2 fine'.2 stops.ends stops'.ends same
    exact ⟨rfl, left⟩
  | .word s, .form name parts =>
    rw [text_form] at same
    obtain ⟨-, left⟩ := plain_injective fine.2 fine'.1 stops.ends (opens _) same
    exact absurd left (stops.ne_open _)
  | .form name parts, .word s =>
    rw [text_form] at same
    obtain ⟨-, left⟩ := plain_injective fine.1 fine'.2 (opens _) stops'.ends same
    exact absurd left.symm (stops'.ne_open _)
  | .form name parts, .form name' parts' =>
    rw [text_form, text_form] at same
    obtain ⟨rfl, left⟩ := plain_injective fine.1 fine'.1 (opens _) (opens _) same
    obtain ⟨rfl, after⟩ := textList_injective parts parts' fine.2 fine'.2 (List.cons.inj left).2
    exact ⟨rfl, after⟩

theorem textList_injective (ps qs : List Piece) (fine : FineList ps) (fine' : FineList qs)
    {rest rest' : List Char} (same : textList ps ++ ')' :: rest = textList qs ++ ')' :: rest') :
    ps = qs ∧ rest = rest' := by
  match ps, qs with
  | [], [] => exact ⟨rfl, (List.cons.inj same).2⟩
  | [], [q] => exact absurd same.symm (text_start fine'.1 _ _)
  | [], q :: q' :: qs =>
    rw [textList, textList, List.append_assoc] at same
    exact absurd same.symm (text_start fine'.1 _ _)
  | [p], [] => exact absurd same (text_start fine.1 _ _)
  | p :: p' :: ps, [] =>
    rw [textList, textList, List.append_assoc] at same
    exact absurd same (text_start fine.1 _ _)
  | [p], [q] =>
    obtain ⟨rfl, left⟩ := text_injective p q fine.1 fine'.1 (stops_cons (.inr rfl) _)
      (stops_cons (.inr rfl) _) same
    exact ⟨rfl, (List.cons.inj left).2⟩
  | [p], q :: q' :: qs =>
    rw [textList, textList, List.append_assoc] at same
    obtain ⟨-, left⟩ := text_injective p q fine.1 fine'.1 (stops_cons (.inr rfl) _)
      (stops_cons (.inl rfl) _) same
    cases (List.cons.inj left).1
  | p :: p' :: ps, [q] =>
    rw [textList, textList, List.append_assoc] at same
    obtain ⟨-, left⟩ := text_injective p q fine.1 fine'.1 (stops_cons (.inl rfl) _)
      (stops_cons (.inr rfl) _) same
    cases (List.cons.inj left).1
  | p :: p' :: ps, q :: q' :: qs =>
    rw [textList, textList, List.append_assoc, List.append_assoc] at same
    obtain ⟨rfl, left⟩ := text_injective p q fine.1 fine'.1 (stops_cons (.inl rfl) _)
      (stops_cons (.inl rfl) _) same
    obtain ⟨same', left'⟩ := textList_injective (p' :: ps) (q' :: qs) fine.2 fine'.2
      (List.cons.inj left).2
    exact ⟨congrArg (p :: ·) same', left'⟩

end

theorem toList_intercalate {strings : List String} {parts : List Piece}
    (same : strings.map String.toList = parts.map text) :
    (" ".intercalate strings).toList = textList parts := by
  induction parts generalizing strings with
  | nil =>
    obtain rfl := List.map_eq_nil_iff.1 same
    rfl
  | cons p ps ih =>
    cases strings with
    | nil => cases same
    | cons s ss =>
      obtain ⟨first, others⟩ := List.cons.inj same
      have later := ih others
      cases ss with
      | nil =>
        cases ps with
        | nil => simpa [textList] using first
        | cons => cases others
      | cons s' ss =>
        cases ps with
        | nil => cases others
        | cons q ps =>
          rw [String.intercalate_cons_cons, String.toList_append, String.toList_append, later, first,
            textList, List.append_assoc]
          rfl

theorem toList_form {strings : List String} {parts : List Piece}
    (same : strings.map String.toList = parts.map text) :
    (Lox.form strings).toList = (form "" parts).text := by
  rw [Lox.form, String.toList_append, String.toList_append, toList_intercalate same, text,
    List.append_assoc]
  rfl

end Piece

/-! ### The pieces of a tree -/

mutual

def Expr.piece : Expr → Piece
  | .literal _ v => .word v.written
  | .grouping _ inner => .headed "group" [inner.piece]
  | .unary _ operator operand => .headed operator.lexeme [operand.piece]
  | .binary _ left operator right => .headed operator.lexeme [left.piece, right.piece]
  | .logical _ left operator right => .headed operator.lexeme [left.piece, right.piece]
  | .assign _ name value => .headed "=" [.word name.lexeme, value.piece]
  | .var _ name => .word name.lexeme
  | .call _ callee _ arguments => .headed "call" (callee.piece :: Expr.pieces arguments)
  | .get _ object name => .headed "." [object.piece, .word name.lexeme]
  | .set _ object name value =>
      .headed "=" [.headed "." [object.piece, .word name.lexeme], value.piece]
  | .this _ _ => .word "this"
  | .super _ _ method => .headed "super" [.word method.lexeme]
  | .comma _ left right => .headed "," [left.piece, right.piece]
  | .ternary _ condition yes no => .headed "?:" [condition.piece, yes.piece, no.piece]

def Expr.pieces : List Expr → List Piece
  | [] => []
  | e :: es => e.piece :: Expr.pieces es

end

def Token.piece (t : Token) : Piece := .word t.lexeme

mutual

def Stmt.piece : Stmt → Piece
  | .expression e => .headed ";" [e.piece]
  | .print e => .headed "print" [e.piece]
  | .varDecl name (some e) => .headed "var" [name.piece, e.piece]
  | .varDecl name none => .headed "var" [name.piece]
  | .block body => .headed "block" (Stmt.pieces body)
  | .ifThen condition yes => .headed "if" [condition.piece, yes.piece]
  | .ifElse condition yes no => .headed "if-else" [condition.piece, yes.piece, no.piece]
  | .whileLoop condition body => .headed "while" [condition.piece, body.piece]
  | .funDecl f => f.piece "fun"
  | .returnStmt _ (some e) => .headed "return" [e.piece]
  | .returnStmt _ none => .headed "return" []
  | .classDecl name none methods => .headed "class" (name.piece :: FunctionDecl.pieces methods)
  | .classDecl name (some e) methods =>
      .headed "class" (name.piece :: .word "<" :: e.piece :: FunctionDecl.pieces methods)

def Stmt.pieces : List Stmt → List Piece
  | [] => []
  | s :: ss => s.piece :: Stmt.pieces ss

def FunctionDecl.piece (head : String) : FunctionDecl → Piece
  | ⟨name, parameters, body⟩ =>
      .headed head (.form name.lexeme (parameters.map Token.piece) :: Stmt.pieces body)

def FunctionDecl.pieces : List FunctionDecl → List Piece
  | [] => []
  | m :: ms => m.piece "method" :: FunctionDecl.pieces ms

end

mutual

theorem Expr.toList_written (e : Expr) : e.written.toList = e.piece.text := by
  match e with
  | .literal .. | .var .. | .this .. => rfl
  | .super .. => exact Piece.toList_form rfl
  | .grouping _ a | .unary _ _ a =>
    apply Piece.toList_form
    simp [Piece.text, a.toList_written]
  | .assign _ _ a | .get _ a _ =>
    apply Piece.toList_form
    simp [Piece.text, a.toList_written]
  | .binary _ a _ b | .logical _ a _ b | .comma _ a b =>
    apply Piece.toList_form
    simp [Piece.text, a.toList_written, b.toList_written]
  | .set _ a name b =>
    have property : (Lox.form [".", a.written, name.lexeme]).toList =
        (Piece.headed "." [a.piece, .word name.lexeme]).text := by
      apply Piece.toList_form
      simp [Piece.text, a.toList_written]
    apply Piece.toList_form
    simp only [List.map_cons, List.map_nil, property, b.toList_written]
    rfl
  | .ternary _ a b c =>
    apply Piece.toList_form
    simp [Piece.text, a.toList_written, b.toList_written, c.toList_written]
  | .call _ a _ es =>
    apply Piece.toList_form
    simp [Piece.text, a.toList_written, Expr.toList_writtenList es]

theorem Expr.toList_writtenList (es : List Expr) :
    (Expr.writtenList es).map String.toList = (Expr.pieces es).map Piece.text := by
  match es with
  | [] => rfl
  | e :: es => exact congrArg₂ List.cons e.toList_written (Expr.toList_writtenList es)

end

theorem toList_parameterPart (name : Token) (parameters : List Token) :
    (parameterPart name parameters).toList =
      (Piece.form name.lexeme (parameters.map Token.piece)).text := by
  have inside : (" ".intercalate (parameters.map (·.lexeme))).toList =
      Piece.textList (parameters.map Token.piece) := by
    apply Piece.toList_intercalate
    simp [Function.comp_def, Token.piece, Piece.text]
  rw [parameterPart, String.toList_append, String.toList_append, String.toList_append, inside,
    Piece.text, List.append_assoc, List.append_assoc]
  rfl

mutual

theorem Stmt.toList_written (s : Stmt) : s.written.toList = s.piece.text := by
  match s with
  | .returnStmt _ none => exact Piece.toList_form rfl
  | .varDecl name none => exact Piece.toList_form rfl
  | .expression e | .print e | .returnStmt _ (some e) =>
    apply Piece.toList_form
    simp [Piece.text, e.toList_written]
  | .varDecl name (some e) =>
    apply Piece.toList_form
    simp [Piece.text, Token.piece, e.toList_written]
  | .block body =>
    apply Piece.toList_form
    simp [Piece.text, Stmt.toList_writtenList body]
  | .ifThen e yes | .whileLoop e yes =>
    apply Piece.toList_form
    simp [Piece.text, e.toList_written, yes.toList_written]
  | .ifElse e yes no =>
    apply Piece.toList_form
    simp [Piece.text, e.toList_written, yes.toList_written, no.toList_written]
  | .funDecl f => exact f.toList_written "fun"
  | .classDecl name none methods =>
    apply Piece.toList_form
    simp [Piece.text, Token.piece, superclassPart, Stmt.toList_writtenMethods methods]
  | .classDecl name (some e) methods =>
    apply Piece.toList_form
    simp [Piece.text, Token.piece, superclassPart, e.toList_written,
      Stmt.toList_writtenMethods methods]

theorem Stmt.toList_writtenList (ss : List Stmt) :
    (Stmt.writtenList ss).map String.toList = (Stmt.pieces ss).map Piece.text := by
  match ss with
  | [] => rfl
  | s :: ss => exact congrArg₂ List.cons s.toList_written (Stmt.toList_writtenList ss)

theorem FunctionDecl.toList_written (head : String) (f : FunctionDecl) :
    (f.written head).toList = (f.piece head).text := by
  match f with
  | ⟨name, parameters, body⟩ =>
    apply Piece.toList_form
    rw [List.map_cons, List.map_cons, toList_parameterPart, Stmt.toList_writtenList body]
    rfl

theorem Stmt.toList_writtenMethods (fs : List FunctionDecl) :
    (Stmt.writtenMethods fs).map String.toList = (FunctionDecl.pieces fs).map Piece.text := by
  match fs with
  | [] => rfl
  | ⟨name, parameters, body⟩ :: fs =>
    refine congrArg₂ List.cons ?_ (Stmt.toList_writtenMethods fs)
    exact FunctionDecl.toList_written "method" ⟨name, parameters, body⟩

end

end Lox
