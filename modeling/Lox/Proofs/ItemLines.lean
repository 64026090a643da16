import Mathlib
import Lox.Proofs.MaximalMunch

/-!
The line of an item is the line that its text ends on. However the line breaks before it are
scattered over blanks, comments, literals and errors, each of them is counted once.
-/

namespace Lox

open Region (newlines)

/-- The line that an item is told for. -/
def Scan.lineOf : ScanItem → Nat
  | .ok t => t.line
  | .error e => e.line

/-- Nothing can come after such an item but the end. -/
def Scan.ReachesEnd : ScanItem → Prop
  | .ok t => t.kind = .endOfText
  | .error e => e.cause = .unterminatedString ∨ e.cause = .unterminatedComment

/-- What an item is about: the text up to its end, and the text that is left. -/
structure Scan.Placed (source : List Char) (item : ScanItem) (consumed rest : List Char) : Prop where
  whole : consumed ++ rest = source
  /-- The item is that of the last region consumed, or it is the end. -/
  told : (∃ (before : List Char) (r : Region), consumed = before ++ r.text ∧ r.Leads rest ∧ r.isSilent = false ∧
      r.Gives item) ∨ ((∃ t, item = .ok t ∧ t.kind = .endOfText ∧ t.lexeme = "") ∧ rest = [])
  line : Scan.lineOf item = 1 + consumed.count '\n'

namespace Region

/-- An item is told for the line that its region ends on. -/
theorem lineOf_item? {r : Region} {line : Nat} {item : ScanItem} (given : r.item? line = some item) :
    Scan.lineOf item = line := by
  obtain ⟨kind, text⟩ := r
  cases kind <;> (cases given <;> rfl)

/-- A word is a keyword or a name. -/
theorem Gives.word_kind {t : Token}
    (own : (∀ k : Keyword, t.kind = .keyword k ↔ t.lexeme = k.text) ∧
      (t.kind = .identifier ↔ ∀ k : Keyword, t.lexeme ≠ k.text)) :
    (∃ k, t.kind = .keyword k) ∨ t.kind = .identifier := by
  by_cases keyword : ∃ k : Keyword, t.lexeme = k.text
  · obtain ⟨k, spelled⟩ := keyword
    exact .inl ⟨k, (own.1 k).2 spelled⟩
  · exact .inr (own.2.2 (not_exists.1 keyword))

/-- Only string literals give string tokens. -/
theorem Gives.string {r : Region} {t : Token} {value : String} (gives : r.Gives (.ok t))
    (kind : t.kind = .string value) : r.text = '"' :: value.toList ++ ['"'] := by
  obtain ⟨form, text⟩ := r
  obtain ⟨-, own⟩ := gives
  cases form with
  | string =>
    obtain ⟨body, rfl, same⟩ := own
    obtain rfl := TokenKind.string.inj (kind.symm.trans same)
    simp
  | word =>
    rcases Gives.word_kind own with ⟨k, same⟩ | same <;> cases kind.symm.trans same
  | number | mark m => cases kind.symm.trans own
  | _ => exact own.elim

/-- A region that gives such an item goes on to the end of the text. -/
theorem Leads.reachesEnd {r : Region} {rest : List Char} {item : ScanItem} (leads : r.Leads rest)
    (gives : r.Gives item) (reaches : Scan.ReachesEnd item) : rest = [] := by
  obtain ⟨form, text⟩ := r
  cases item with
  | ok t =>
    obtain ⟨-, own⟩ := gives
    cases form with
    | string =>
      obtain ⟨body, -, same⟩ := own
      cases reaches.symm.trans same
    | word =>
      rcases Gives.word_kind own with ⟨k, same⟩ | same <;> cases reaches.symm.trans same
    | number | mark m => cases reaches.symm.trans own
    | _ => exact own.elim
  | error e =>
    cases form with
    | foreign c => rcases reaches with same | same <;> cases gives.symm.trans same
    | openString | openComment =>
      obtain ⟨body, -, -, ends⟩ := leads
      exact ends
    | _ => exact gives.elim

end Region

namespace Scan.Placed

variable {source consumed rest : List Char} {item : ScanItem}

/-- A string literal is told for the line of its closing quote. -/
theorem closing (placed : Placed source item consumed rest) {t : Token} {value : String}
    (token : item = .ok t) (kind : t.kind = .string value) :
    '"' :: value.toList ++ ['"'] <:+ consumed := by
  subst token
  rcases placed.told with ⟨before, r, rfl, -, -, gives⟩ | ⟨⟨t', same, ends, -⟩, -⟩
  · rw [← gives.string kind]
    exact List.suffix_append before r.text
  · cases same
    cases kind.symm.trans ends

/-- What reaches the end is told for the last line of the text. -/
theorem last (placed : Placed source item consumed rest) (reaches : ReachesEnd item) :
    lineOf item = 1 + source.count '\n' := by
  have ends : rest = [] := by
    rcases placed.told with ⟨before, r, -, leads, -, gives⟩ | ⟨-, ends⟩
    · exact leads.reachesEnd gives reaches
    · exact ends
  rw [← placed.whole, ends, List.append_nil]
  exact placed.line

end Scan.Placed

namespace Scanner

/-- The scanner when it has been asked `n` times. -/
def after : Nat → Scanner → Scanner
  | 0, s => s
  | n + 1, s => after n s.next.2

theorem nth_after (n : Nat) (s : Scanner) : s.nth n = (s.after n).next.1 := by
  induction n generalizing s with
  | zero => rfl
  | succ n ih => exact ih s.next.2

theorem after_add (n k : Nat) (s : Scanner) : s.after (n + k) = (s.after n).after k := by
  induction n generalizing s with
  | zero => rw [Nat.zero_add, after]
  | succ n ih => rw [Nat.succ_add, after, after, ih]

/-- The scanner stands in the text behind what was consumed, on the line that it says. -/
structure Stands (source : List Char) (s : Scanner) (consumed : List Char) : Prop where
  whole : consumed ++ s.rest = source
  line : s.line = 1 + consumed.count '\n'

/-- The first item of a text is placed where what was passed over and its own text end. -/
theorem advance_placed (source before text : List Char) (whole : before ++ text = source) :
    ∃ consumed, before <+: consumed ∧
      Scan.Placed source (advance (1 + before.count '\n') text).1 consumed
        (advance (1 + before.count '\n') text).2.rest ∧
      Stands source (advance (1 + before.count '\n') text).2 consumed := by
  generalize from_ : 1 + before.count '\n' = line
  fun_induction advance line text generalizing before with
  | case1 line =>
    subst from_
    exact ⟨before, List.prefix_refl before, ⟨whole, .inr ⟨⟨_, rfl, rfl, rfl⟩, rfl⟩, rfl⟩, whole, rfl⟩
  | case2 line c rest piece later item given =>
    have parts : before ++ piece.1.text ++ piece.2 = source := by
      rw [List.append_assoc, Region.first_append, whole]
    have counted : later = 1 + (before ++ piece.1.text).count '\n' := by
      simp only [later, ← from_, List.count_append, Region.newlines, Nat.add_assoc]
    have leads : piece.1.Leads piece.2 := Region.first_leads c rest
    rcases Region.item?_gives leads later with ⟨-, silent⟩ | ⟨speaks, own, same, gives⟩
    · cases silent.symm.trans given
    · obtain rfl := Option.some.inj (same.symm.trans given)
      refine ⟨before ++ piece.1.text, List.prefix_append before _, ⟨parts, .inl ?_, ?_⟩, parts, counted⟩
      · exact ⟨before, piece.1, rfl, leads, speaks, gives⟩
      · rw [Region.lineOf_item? given, counted]
  | case3 line c rest piece later silent ih =>
    have parts : before ++ piece.1.text ++ piece.2 = source := by
      rw [List.append_assoc, Region.first_append, whole]
    have counted : 1 + (before ++ piece.1.text).count '\n' = later := by
      simp only [later, ← from_, List.count_append, Region.newlines, Nat.add_assoc]
    obtain ⟨consumed, more, placed, stands⟩ := ih (before ++ piece.1.text) parts counted
    exact ⟨consumed, (List.prefix_append before _).trans more, placed, stands⟩

/-- One question: the item is placed where the scanner stands then. -/
theorem Stands.next {source consumed : List Char} {s : Scanner} (stands : Stands source s consumed) :
    ∃ consumed', consumed <+: consumed' ∧ Stands source s.next.2 consumed' ∧
      ∀ item, s.next.1 = some item → Scan.Placed source item consumed' s.next.2.rest := by
  by_cases ended : s.ended = true
  · refine ⟨consumed, List.prefix_refl consumed, ?_, fun item given => ?_⟩
    · simpa [Scanner.next, ended] using stands
    · simp [Scanner.next, ended] at given
  · obtain ⟨consumed', more, placed, stands'⟩ := advance_placed source consumed s.rest stands.whole
    rw [← stands.line] at placed stands'
    have step : s.next = (some (advance s.line s.rest).1, (advance s.line s.rest).2) := by
      simp [Scanner.next, ended]
    rw [step]
    refine ⟨consumed', more, stands', fun item given => ?_⟩
    cases given
    exact placed

/-- Question by question the scanner goes on in the text. -/
theorem Stands.nth {source consumed : List Char} {s : Scanner} (stands : Stands source s consumed)
    (n : Nat) : ∃ consumed', consumed <+: consumed' ∧ Stands source (s.after (n + 1)) consumed' ∧
      ∀ item, s.nth n = some item → Scan.Placed source item consumed' (s.after (n + 1)).rest := by
  induction n generalizing s consumed with
  | zero => exact stands.next
  | succ n ih =>
    obtain ⟨middle, more, standsNext, -⟩ := stands.next
    obtain ⟨consumed', more', told⟩ := ih standsNext
    exact ⟨consumed', more.trans more', told⟩

theorem stands_start (source : String) : Stands source.toList (start source) [] := ⟨rfl, rfl⟩

/-- The line of an item is one more than the number of line breaks before the end of the text that
is consumed for it. For a string literal this is the line of its closing quote; for what is left
open, and for the end, the last line of the text. So no item is told for a line above that of an
earlier one. -/
theorem lines_exact (source : String) (n : Nat) (item : ScanItem)
    (given : (start source).nth n = some item) :
    (∃ consumed, Scan.Placed source.toList item consumed ((start source).after (n + 1)).rest ∧
      ∀ t value, item = .ok t → t.kind = .string value →
        '"' :: value.toList ++ ['"'] <:+ consumed) ∧
      (Scan.ReachesEnd item → Scan.lineOf item = 1 + source.toList.count '\n') ∧
      ∀ k later, n ≤ k → (start source).nth k = some later → Scan.lineOf item ≤ Scan.lineOf later := by
  obtain ⟨consumed, -, stands, told⟩ := (stands_start source).nth n
  have placed := told item given
  refine ⟨⟨consumed, placed, fun t value => placed.closing⟩, placed.last, fun k later le given' => ?_⟩
  rcases Nat.eq_or_lt_of_le le with rfl | lt
  · cases given.symm.trans given'
    exact Nat.le_refl _
  · obtain ⟨j, rfl⟩ := Nat.exists_eq_add_of_lt lt
    obtain ⟨consumed', more, -, told'⟩ := stands.nth j
    have again : ((start source).after (n + 1)).nth j = some later := by
      rwa [nth_after, ← after_add, Nat.add_right_comm, ← nth_after]
    rw [placed.line, (told' later again).line]
    exact Nat.add_le_add_left (more.sublist.count_le '\n') 1

/-- A string over two lines, a comment and a foreign character come before a comment left open. -/
theorem lines_exact_openComment :
    (start "\"a\nb\" // c\n\u00e9/*\n*").nth 2 = some (.error ⟨4, .unterminatedComment⟩) ∧
      (4 : Nat) = 1 + "\"a\nb\" // c\n\u00e9/*\n*".toList.count '\n' := by
  have given : (start "\"a\nb\" // c\n\u00e9/*\n*").nth 2 = some (.error ⟨4, .unterminatedComment⟩) := by
    cbv
  exact ⟨given, (lines_exact _ 2 _ given).2.1 (.inr rfl)⟩

end Scanner

end Lox
