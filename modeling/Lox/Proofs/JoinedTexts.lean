import Mathlib
import Lox.Proofs.MaximalMunch
import Lox.Proofs.Shifts

/-!
Scanning two texts as one, a line break between them: no region goes on over the break unless it is
left open, so the tokens are those of the first text and those of the second, further down.
-/

namespace Lox

namespace Region

/-- What does not hold `c` ends before the first one. -/
theorem prefix_before {c : Char} {piece text more : List Char} (inside : c ∉ piece)
    (leads : piece <+: text ++ c :: more) : piece <+: text := by
  rcases Nat.lt_or_ge text.length piece.length with longer | shorter
  · have whole : text ++ [c] <+: text ++ c :: more := by
      simp
    have shorter : (text ++ [c]).length ≤ piece.length := by
      simp only [List.length_append, List.length_singleton]
      omega
    have part := List.prefix_of_prefix_length_le whole leads shorter
    exact absurd (part.subset (by simp)) inside
  · exact List.prefix_of_prefix_length_le leads (List.prefix_append _ _) shorter

theorem Longest.before {c : Char} {form : List Char → Prop} {text after : List Char}
    (longest : Longest form text after) (inside : ∀ piece, form piece → c ∉ piece)
    (more : List Char) : Longest form text (after ++ c :: more) := by
  constructor
  · exact longest.1
  · intro longer fits leads
    rw [← List.append_assoc] at leads
    exact longest.2 longer fits (prefix_before (inside longer fits) leads)

/-- A blank is neither a letter nor a digit. -/
theorem not_part_of_blank {c : Char} (blank : isBlank c = true) : ¬ IsLetter c ∧ ¬ IsDigit c := by
  rw [isBlank_iff] at blank
  simp only [List.mem_cons, List.not_mem_nil, or_false] at blank
  unfold IsLetter IsDigit
  rcases blank with rfl | rfl | rfl | rfl <;> decide

/-! Numbers, words and marks hold no blank. -/

theorem IsNumber.unbroken {text : List Char} (number : IsNumber text) {c : Char}
    (blank : isBlank c = true) : c ∉ text := by
  have digits {part : List Char} (all : ∀ d ∈ part, IsDigit d) : c ∉ part := by
    intro among
    exact (not_part_of_blank blank).2 (all c among)
  have point : c ≠ '.' := by
    rintro rfl
    exact absurd blank (by decide)
  obtain ⟨whole, -, all, rfl | ⟨part, -, all', rfl⟩⟩ := number
  · exact digits all
  · simp [digits all, digits all', point]

theorem IsWord.unbroken {text : List Char} (word : IsWord text) {c : Char}
    (blank : isBlank c = true) : c ∉ text := by
  obtain ⟨letter, digit⟩ := not_part_of_blank blank
  obtain ⟨first, rest, rfl, isLetter, parts⟩ := word
  intro among
  rcases List.mem_cons.1 among with rfl | among
  · exact letter isLetter
  · rcases parts c among with isLetter | isDigit
    · exact letter isLetter
    · exact digit isDigit

theorem IsMark.unbroken {text : List Char} (mark : IsMark text) {c : Char}
    (blank : isBlank c = true) : c ∉ text := by
  obtain ⟨m, rfl⟩ := mark
  intro among
  cases m <;>
    simp only [Mark.chars, List.mem_cons, List.not_mem_nil, or_false] at among <;>
    (rcases among with rfl | rfl <;> cases blank)

/-- A string or comment that the end of the text cuts off. -/
def IsOpen (r : Region) : Prop := r.kind = .openString ∨ r.kind = .openComment

/-- A region that is not open is not changed by what follows a line break. -/
theorem Leads.before_newline {r : Region} {after : List Char} (leads : r.Leads after)
    (closed : ¬ r.IsOpen) (more : List Char) : r.Leads (after ++ '\n' :: more) := by
  obtain ⟨kind, text⟩ := r
  cases kind with
  | blank | blockComment | string | foreign c => exact leads
  | lineComment =>
    obtain ⟨body, same, inside, ends⟩ := leads
    refine ⟨body, same, inside, .inr ?_⟩
    rcases ends with rfl | starts
    · rfl
    · rw [List.head?_append, starts]
      rfl
  | number => exact Longest.before leads (fun _ number => number.unbroken rfl) more
  | word => exact Longest.before leads (fun _ word => word.unbroken rfl) more
  | mark m =>
    obtain ⟨same, longest, line, block⟩ := leads
    refine ⟨same, longest.before (fun _ mark => mark.unbroken rfl) more, ?_, ?_⟩
    · intro opens
      rw [← List.append_assoc] at opens
      exact line (prefix_before (by decide) opens)
    · intro opens
      rw [← List.append_assoc] at opens
      exact block (prefix_before (by decide) opens)
  | openString => exact absurd (.inl rfl) closed
  | openComment => exact absurd (.inr rfl) closed

def lineBreak : Region := ⟨.blank, ['\n']⟩

theorem Decomposes.joined {text more : List Char} {rs rs' : List Region}
    (parts : Decomposes text rs) (parts' : Decomposes more rs') (closed : ∀ r ∈ rs, ¬ r.IsOpen) :
    Decomposes (text ++ '\n' :: more) (rs ++ lineBreak :: rs') := by
  induction parts with
  | done =>
    have leads : lineBreak.Leads more := ⟨'\n', by decide, rfl⟩
    exact .next leads parts'
  | @next r after rs leads rest ih =>
    rw [List.append_assoc]
    refine .next (leads.before_newline (closed r List.mem_cons_self) more) ?_
    exact ih fun r among => closed r (List.mem_cons_of_mem _ among)

end Region

namespace Scan

open Region

theorem errors_append (items more : List ScanItem) :
    errors (items ++ more) = errors items ++ errors more := List.filterMap_append

theorem tokens_append (items more : List ScanItem) :
    tokens (items ++ more) = tokens items ++ tokens more := List.filterMap_append

/-- The token of a region is not that of the end. -/
theorem item?_inside {r : Region} {line : Nat} {t : Token} (item : r.item? line = some (.ok t)) :
    t.kind.isEnd = false := by
  obtain ⟨kind, text⟩ := r
  cases kind <;> simp only [Region.item?, Option.some.injEq, Except.ok.injEq, reduceCtorEq] at item
  case word =>
    subst item
    unfold TokenKind.ofWord
    cases Keyword.ofText? (String.ofList text) <;> rfl
  all_goals
    subst item
    rfl

/-- The items of regions come before those of what follows, and the end comes once. -/
theorem itemsFrom_append (line : Nat) (rs : List Region) :
    ∃ before, (∀ t ∈ tokens before, t.kind.isEnd = false) ∧ itemsFrom line rs =
        before ++ [.ok ⟨.endOfText, "", line + newlines (rs.flatMap (·.text))⟩] ∧
      ∀ more, itemsFrom line (rs ++ more) =
        before ++ itemsFrom (line + newlines (rs.flatMap (·.text))) more := by
  induction rs generalizing line with
  | nil => exact ⟨[], fun _ among => (nomatch among), rfl, fun _ => rfl⟩
  | cons r rs ih =>
    obtain ⟨before, inside, own, joined⟩ := ih (line + newlines r.text)
    have lines : line + newlines r.text + newlines (rs.flatMap (·.text)) =
        line + newlines ((r :: rs).flatMap (·.text)) := by
      simp [newlines, Nat.add_assoc]
    rw [lines] at own joined
    refine ⟨(r.item? (line + newlines r.text)).toList ++ before, fun t among => ?_, ?_,
      fun more => ?_⟩
    · rw [tokens_append, List.mem_append] at among
      rcases among with among | among
      · obtain ⟨item, own, same⟩ := List.mem_filterMap.1 among
        cases item with
        | error e => cases same
        | ok t' =>
          cases same
          exact item?_inside (Option.mem_toList.1 own)
      · exact inside t among
    · rw [itemsFrom, own, List.append_assoc]
    · rw [List.cons_append, itemsFrom, joined more, List.append_assoc]

/-- The same items, told for lines further down. -/
def lowered (lines : Nat) : ScanItem → ScanItem
  | .ok t => .ok (Shift.token ⟨0, lines⟩ t)
  | .error e => .error { e with line := e.line + lines }

theorem item?_lowered (lines line : Nat) (r : Region) :
    r.item? (line + lines) = (r.item? line).map (lowered lines) := by
  obtain ⟨kind, text⟩ := r
  cases kind <;> rfl

theorem itemsFrom_lowered (lines line : Nat) (rs : List Region) :
    itemsFrom (line + lines) rs = (itemsFrom line rs).map (lowered lines) := by
  induction rs generalizing line with
  | nil => rfl
  | cons r rs ih =>
    have next := ih (line + newlines r.text)
    rw [Nat.add_right_comm] at next
    simp only [itemsFrom, List.map_append]
    rw [next, Nat.add_right_comm, item?_lowered]
    cases r.item? (line + newlines r.text) <;> rfl

theorem tokens_lowered (lines : Nat) (items : List ScanItem) :
    tokens (items.map (lowered lines)) = (tokens items).map (Shift.token ⟨0, lines⟩) := by
  induction items with
  | nil => rfl
  | cons item items ih =>
    cases item with
    | ok t => exact congrArg (List.cons _) ih
    | error e => exact ih

theorem errors_lowered (lines : Nat) {items : List ScanItem} (fine : errors items = []) :
    errors (items.map (lowered lines)) = [] := by
  induction items with
  | nil => rfl
  | cons item items ih =>
    cases item with
    | ok t => exact ih fine
    | error e => cases fine

/-- No string and no comment is left open. -/
def Closes (items : List ScanItem) : Prop :=
  ∀ e ∈ errors items, e.cause ≠ .unterminatedString ∧ e.cause ≠ .unterminatedComment

theorem closes_of_errors {items : List ScanItem} (fine : errors items = []) : Closes items := by
  intro e among
  rw [fine] at among
  cases among

/-- A region that is left open is told as an error. -/
theorem Closes.regions {line : Nat} {rs : List Region} (closes : Closes (itemsFrom line rs)) :
    ∀ r ∈ rs, ¬ r.IsOpen := by
  induction rs generalizing line with
  | nil => exact fun r among => nomatch among
  | cons r rs ih =>
    have parts : ∀ e, e ∈ errors (r.item? (line + newlines r.text)).toList ∨
        e ∈ errors (itemsFrom (line + newlines r.text) rs) →
          e.cause ≠ .unterminatedString ∧ e.cause ≠ .unterminatedComment := by
      intro e among
      apply closes e
      rw [itemsFrom, errors_append]
      exact List.mem_append.2 among
    intro r' among
    rcases List.mem_cons.1 among with rfl | among
    · obtain ⟨kind, text⟩ := r'
      rintro (open_ | open_) <;> cases open_
      · exact (parts _ (.inl List.mem_cons_self)).1 rfl
      · exact (parts _ (.inl List.mem_cons_self)).2 rfl
    · exact ih (fun e inside => parts e (.inr inside)) r' among

/-- The items of a text end with the token of its end, which comes once. -/
theorem items_ended (source : String) :
    ∃ before line, (∀ t ∈ tokens before, t.kind.isEnd = false) ∧
      items source = before ++ [.ok ⟨.endOfText, "", line⟩] := by
  obtain ⟨before, inside, own, -⟩ := itemsFrom_append 1 (cut source.toList)
  exact ⟨before, _, inside, (items_eq source).trans own⟩

/-- The lines that a text goes down. -/
def linesOf (source : String) : Nat := newlines source.toList

/-- Two texts, the second from a new line on. -/
theorem items_joined_of_closes (a b : String) (closes : Closes (items a)) :
    ∃ before line, (∀ t ∈ tokens before, t.kind.isEnd = false) ∧
      items a = before ++ [.ok ⟨.endOfText, "", line⟩] ∧
      items (a ++ "\n" ++ b) = before ++ (items b).map (lowered (linesOf a + 1)) := by
  have parts := decomposes_iff.2 (Eq.refl (cut a.toList))
  have parts' := decomposes_iff.2 (Eq.refl (cut b.toList))
  rw [items_eq] at closes
  have joined := decomposes_iff.1 (parts.joined parts' closes.regions)
  obtain ⟨before, inside, own, more⟩ := itemsFrom_append 1 (cut a.toList)
  have text : (a ++ "\n" ++ b).toList = a.toList ++ '\n' :: b.toList := by simp
  have down : 1 + newlines a.toList + newlines lineBreak.text = 1 + (linesOf a + 1) := by
    simp [linesOf, newlines, lineBreak, Nat.add_assoc]
  refine ⟨before, _, inside, (items_eq a).trans own, ?_⟩
  rw [items_eq, text, joined, more, parts.flatMap, itemsFrom, down, itemsFrom_lowered, items_eq]
  rfl

theorem items_joined (a b : String) (fine : errors (items a) = []) :
    ∃ before line, (∀ t ∈ tokens before, t.kind.isEnd = false) ∧
      items a = before ++ [.ok ⟨.endOfText, "", line⟩] ∧
      items (a ++ "\n" ++ b) = before ++ (items b).map (lowered (linesOf a + 1)) :=
  items_joined_of_closes a b (closes_of_errors fine)

/-- A line break separates. Whatever the first text ends with, unless a string or a comment is left
open, it gives its items, and then the second text gives its own, with the lines further down. -/
theorem items_across_break (a b : String) (closes : Closes (items a)) :
    (∃ line, (items a).getLast? = some (.ok ⟨.endOfText, "", line⟩)) ∧
      items (a ++ "\n" ++ b) =
        (items a).dropLast ++ (items b).map (lowered (a.toList.count '\n' + 1)) := by
  obtain ⟨before, line, -, own, joined⟩ := items_joined_of_closes a b closes
  rw [joined, own]
  refine ⟨⟨line, by simp⟩, ?_⟩
  rw [List.dropLast_concat]
  rfl

/-- After the foreign character the first text ends with half of what would begin a comment. -/
theorem items_across_break_slashes :
    Closes (items "\u00e9\n!/") ∧
      items ("\u00e9\n!/" ++ "\n" ++ "/ 1.5 \"") =
        (items "\u00e9\n!/").dropLast ++ (items "/ 1.5 \"").map (lowered 2) := by
  have told : errors (items "\u00e9\n!/") = [⟨1, .unexpectedCharacter '\u00e9'⟩] := by
    cbv
  have closes : Closes (items "\u00e9\n!/") := by
    intro e among
    rw [told, List.mem_singleton] at among
    subst among
    exact ⟨LexCause.noConfusion, LexCause.noConfusion⟩
  exact ⟨closes, (items_across_break _ _ closes).2⟩

end Scan

end Lox
