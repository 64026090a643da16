import Lox.Token

/-!
Lexical regions: a text is cut from left to right into blanks, comments, literals, words, marks and
pieces that belong to none of these. Each region is as long as its kind allows.
-/

namespace Lox

inductive RegionKind where
  | blank
  | lineComment
  | blockComment
  | string
  | number
  | word
  | mark (mark : Mark)
  | foreign (c : Char)
  | openString
  | openComment
  deriving DecidableEq, Repr

structure Region where
  kind : RegionKind
  text : List Char
  deriving DecidableEq, Repr

namespace Region

def isBlank (c : Char) : Bool := c = ' ' ∨ c = '\t' ∨ c = '\r' ∨ c = '\n'

/-- Words are made of the unaccented letters, digits and the underscore. -/
def isWordStart (c : Char) : Bool := c.isAlpha ∨ c = '_'

def isWordPart (c : Char) : Bool := c.isAlphanum ∨ c = '_'

/-- A text up to and with its first `*/`, and what follows. -/
def splitComment? : List Char → Option (List Char × List Char)
  | [] => none
  | '*' :: '/' :: rest => some (['*', '/'], rest)
  | c :: rest => (splitComment? rest).map fun (inside, after) => (c :: inside, after)

/-- The region that `c`, a slash, opens before `rest`. -/
def slash (rest : List Char) : Region × List Char :=
  match rest with
  | '/' :: _ =>
      (⟨.lineComment, '/' :: rest.takeWhile (· ≠ '\n')⟩, rest.dropWhile (· ≠ '\n'))
  | '*' :: inside =>
      match splitComment? inside with
      | some (closed, after) => (⟨.blockComment, '/' :: '*' :: closed⟩, after)
      | none => (⟨.openComment, '/' :: rest⟩, [])
  | _ => (⟨.mark .slash, ['/']⟩, rest)

def string (rest : List Char) : Region × List Char :=
  match rest.dropWhile (· ≠ '"') with
  | quote :: after => (⟨.string, '"' :: rest.takeWhile (· ≠ '"') ++ [quote]⟩, after)
  | [] => (⟨.openString, '"' :: rest⟩, [])

/-- The fraction that `rest` starts with: a point and at least one digit. -/
def fraction (rest : List Char) : List Char :=
  match rest with
  | '.' :: digits =>
      if (digits.takeWhile Char.isDigit).isEmpty then [] else '.' :: digits.takeWhile Char.isDigit
  | _ => []

def number (c : Char) (rest : List Char) : Region × List Char :=
  let whole := rest.takeWhile Char.isDigit
  let after := rest.dropWhile Char.isDigit
  (⟨.number, c :: whole ++ fraction after⟩, after.drop (fraction after).length)

def word (c : Char) (rest : List Char) : Region × List Char :=
  (⟨.word, c :: rest.takeWhile isWordPart⟩, rest.dropWhile isWordPart)

/-- A mark of two characters if there is one, else one of a single character. -/
def markOrForeign (c : Char) (rest : List Char) : Region × List Char :=
  match Mark.ofChars? (c :: rest.take 1) with
  | some m => (⟨.mark m, c :: rest.take 1⟩, rest.drop 1)
  | none =>
      match Mark.ofChars? [c] with
      | some m => (⟨.mark m, [c]⟩, rest)
      | none => (⟨.foreign c, [c]⟩, rest)

/-- The first region of `c :: rest`, and the text after it. -/
def first (c : Char) (rest : List Char) : Region × List Char :=
  if isBlank c then (⟨.blank, [c]⟩, rest)
  else if c = '/' then slash rest
  else if c = '"' then string rest
  else if c.isDigit then number c rest
  else if isWordStart c then word c rest
  else markOrForeign c rest

theorem splitComment?_append {text closed after : List Char}
    (found : splitComment? text = some (closed, after)) : closed ++ after = text := by
  fun_induction splitComment? text generalizing closed after with
  | case1 => simp at found
  | case2 rest =>
    simp only [Option.some.injEq, Prod.mk.injEq] at found
    obtain ⟨rfl, rfl⟩ := found
    rfl
  | case3 c rest _ ih =>
    obtain ⟨⟨inside, tail⟩, split, same⟩ := Option.map_eq_some_iff.1 found
    simp only [Prod.mk.injEq] at same
    obtain ⟨rfl, rfl⟩ := same
    simp [ih split]

theorem fraction_append (rest : List Char) :
    fraction rest ++ rest.drop (fraction rest).length = rest := by
  unfold fraction
  split
  · rename_i digits
    split
    · simp
    · have whole := List.takeWhile_append_dropWhile (p := Char.isDigit) (l := digits)
      have tail : digits.drop (digits.takeWhile Char.isDigit).length
          = digits.dropWhile Char.isDigit := by
        have left : (digits.takeWhile Char.isDigit ++ digits.dropWhile Char.isDigit).drop
            (digits.takeWhile Char.isDigit).length = digits.dropWhile Char.isDigit := List.drop_left
        rwa [whole] at left
      simp [tail, whole]
  · simp

/-- Cutting off a region loses nothing. -/
theorem first_append (c : Char) (rest : List Char) :
    (first c rest).1.text ++ (first c rest).2 = c :: rest := by
  unfold first
  split
  · rfl
  split
  · rename_i isSlash
    subst isSlash
    unfold slash
    split
    · simp [List.takeWhile_append_dropWhile]
    · split
      · rename_i found
        simp [splitComment?_append found]
      · simp
    · rfl
  split
  · rename_i isQuote
    subst isQuote
    have whole := List.takeWhile_append_dropWhile (p := fun x => decide (x ≠ '"')) (l := rest)
    unfold string
    split
    · rename_i found
      rw [found] at whole
      simpa using whole
    · simp
  split
  · have whole := List.takeWhile_append_dropWhile (p := Char.isDigit) (l := rest)
    simp only [number, List.cons_append, List.append_assoc, fraction_append, whole]
  split
  · simp [word, List.takeWhile_append_dropWhile]
  · unfold markOrForeign
    split
    · cases rest <;> simp
    · split <;> rfl

theorem first_text_ne_nil (c : Char) (rest : List Char) : (first c rest).1.text ≠ [] := by
  unfold first slash string number word markOrForeign
  repeat' split
  all_goals simp

theorem first_rest_length (c : Char) (rest : List Char) :
    (first c rest).2.length < (c :: rest).length := by
  have whole := congrArg List.length (first_append c rest)
  have some := List.length_pos_iff.2 (first_text_ne_nil c rest)
  simp only [List.length_append] at whole
  omega

/-- The regions of a text, in order. -/
def cut : List Char → List Region
  | [] => []
  | c :: rest => (first c rest).1 :: cut (first c rest).2
termination_by text => text.length
decreasing_by exact first_rest_length c rest

def newlines (text : List Char) : Nat := text.count '\n'

end Region

end Lox
