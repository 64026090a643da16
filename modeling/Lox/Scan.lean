import Lox.Fault
import Lox.Region

/-!
Scanning: each region of a text that is no blank and no comment gives one token or one error, and
the end of the text gives the end token. The line of an item is the line its region ends on.
-/

namespace Lox

/-- The decimal that a number literal spells. -/
def Number.Decimal.ofLiteral (text : List Char) : Number.Decimal :=
  let whole := text.takeWhile Char.isDigit
  let fraction := (text.dropWhile Char.isDigit).drop 1
  ⟨(whole ++ fraction).foldl (fun n c => 10 * n + (c.toNat - '0'.toNat)) 0, -fraction.length⟩

/-- A word that is no keyword is a name. -/
def TokenKind.ofWord (word : String) : TokenKind :=
  match Keyword.ofText? word with
  | some k => .keyword k
  | none => .identifier

abbrev ScanItem := Except LexError Token

def Region.item? (r : Region) (line : Nat) : Option ScanItem :=
  let lexeme := String.ofList r.text
  match r.kind with
  | .blank => none
  | .lineComment => none
  | .blockComment => none
  | .string => some (.ok ⟨.string (String.ofList (r.text.drop 1).dropLast), lexeme, line⟩)
  | .number => some (.ok ⟨.number (Number.Decimal.ofLiteral r.text).toPattern, lexeme, line⟩)
  | .word => some (.ok ⟨.ofWord lexeme, lexeme, line⟩)
  | .mark m => some (.ok ⟨.mark m, lexeme, line⟩)
  | .foreign c => some (.error ⟨line, .unexpectedCharacter c⟩)
  | .openString => some (.error ⟨line, .unterminatedString⟩)
  | .openComment => some (.error ⟨line, .unterminatedComment⟩)

/-- What is left to scan: the text from `line` on, or nothing once the end has been told. -/
structure Scanner where
  rest : List Char
  line : Nat
  ended : Bool

namespace Scanner

def start (source : String) : Scanner := ⟨source.toList, 1, false⟩

/-- The first item of a text that starts on `line`. Blanks and comments are passed over. -/
def advance (line : Nat) : List Char → ScanItem × Scanner
  | [] => (.ok ⟨.endOfText, "", line⟩, ⟨[], line, true⟩)
  | c :: rest =>
      let piece := Region.first c rest
      let line := line + Region.newlines piece.1.text
      match piece.1.item? line with
      | some item => (item, ⟨piece.2, line, false⟩)
      | none => advance line piece.2
termination_by text => text.length
decreasing_by exact Region.first_rest_length c rest

def next (s : Scanner) : Option ScanItem × Scanner :=
  if s.ended then (none, s)
  else
    let (item, after) := advance s.line s.rest
    (some item, after)

/-- The items up to the end, at most `bound` of them. -/
def drain : Nat → Scanner → List ScanItem
  | 0, _ => []
  | bound + 1, s =>
      match s.next with
      | (none, _) => []
      | (some item, after) => item :: drain bound after

end Scanner

namespace Scan

/-- No text has more items than characters, apart from the end. -/
def items (source : String) : List ScanItem :=
  (Scanner.start source).drain (source.toList.length + 1)

def tokens (items : List ScanItem) : List Token := items.filterMap fun
  | .ok t => some t
  | .error _ => none

def errors (items : List ScanItem) : List LexError := items.filterMap fun
  | .ok _ => none
  | .error e => some e

/-- The items of the regions that start on `line`. -/
def itemsFrom (line : Nat) : List Region → List ScanItem
  | [] => [.ok ⟨.endOfText, "", line⟩]
  | r :: rest =>
      let line := line + Region.newlines r.text
      (r.item? line).toList ++ itemsFrom line rest

end Scan

namespace Scanner

/-- The items that are still to come. -/
def remaining (s : Scanner) : List ScanItem :=
  if s.ended then [] else Scan.itemsFrom s.line (Region.cut s.rest)

theorem itemsFrom_advance (line : Nat) (text : List Char) :
    Scan.itemsFrom line (Region.cut text) = (advance line text).1 :: (advance line text).2.remaining := by
  fun_induction advance line text with
  | case1 line => simp [Region.cut, Scan.itemsFrom, remaining]
  | case2 line c rest piece after item made =>
    rw [Region.cut, Scan.itemsFrom]
    simp only [remaining, Bool.false_eq_true, if_false]
    rw [made]
    rfl
  | case3 line c rest piece after silent ih =>
    rw [Region.cut, Scan.itemsFrom, silent, ← ih]
    rfl

/-- The next item is the first of those to come, if there is one. -/
theorem next_remaining (s : Scanner) :
    (s.next = (none, s) ∧ s.remaining = []) ∨
      ∃ item after, s.next = (some item, after) ∧ s.remaining = item :: after.remaining := by
  by_cases ended : s.ended = true
  · exact .inl ⟨by simp [next, ended], by simp [remaining, ended]⟩
  · refine .inr ⟨(advance s.line s.rest).1, (advance s.line s.rest).2, by simp [next, ended], ?_⟩
    rw [← itemsFrom_advance, remaining, if_neg ended]

theorem drain_eq (bound : Nat) (s : Scanner) : s.drain bound = s.remaining.take bound := by
  induction bound generalizing s with
  | zero => simp [drain]
  | succ bound ih =>
    rcases s.next_remaining with ⟨last, nothing⟩ | ⟨item, after, first, more⟩
    · simp [drain, last, nothing]
    · simp [drain, first, more, ih after]

end Scanner

namespace Scan

theorem itemsFrom_length (line : Nat) (text : List Char) :
    (itemsFrom line (Region.cut text)).length ≤ text.length + 1 := by
  fun_induction Region.cut text generalizing line with
  | case1 => simp [itemsFrom]
  | case2 c rest ih =>
    have shorter := Region.first_rest_length c rest
    have later := ih (line + Region.newlines (Region.first c rest).1.text)
    have one := Option.length_toList_le
      (o := (Region.first c rest).1.item? (line + Region.newlines (Region.first c rest).1.text))
    simp only [itemsFrom, List.length_append]
    omega

/-- All items are those of the regions, in order. -/
theorem items_eq (source : String) : items source = itemsFrom 1 (Region.cut source.toList) := by
  rw [items, Scanner.drain_eq]
  exact List.take_of_length_le (itemsFrom_length 1 source.toList)

end Scan

end Lox
