import Mathlib
import Lox.Scan

/-!
Scanning by the rule of the longest match: what a region of each kind is, told without the way it is
found, and that the regions cut from a text are the only ones that fit this rule. What the scanner
gives is told by the regions alone.
-/

namespace Lox

namespace Mark

theorem ofChars?_eq_some {cs : List Char} {m : Mark} :
    ofChars? cs = some m ↔ m.chars = cs := by
  constructor
  · intro found
    simpa using List.find?_some found
  · rintro rfl
    cases m <;> rfl

theorem chars_length (m : Mark) : m.chars.length = 1 ∨ m.chars.length = 2 := by
  cases m <;> simp [chars]

/-- The first character of a mark is a mark by itself. -/
theorem ofChars?_start {m : Mark} {c : Char} (starts : m.chars.head? = some c) :
    (ofChars? [c]).isSome = true := by
  cases m <;> (cases starts; rfl)

/-- No mark is written with what starts a region of another kind. -/
theorem chars_start {m : Mark} {c : Char} (starts : m.chars.head? = some c) :
    Region.isBlank c = false ∧ c ≠ '"' ∧ c.isDigit = false ∧ Region.isWordStart c = false := by
  cases m <;> (cases starts; decide)

end Mark

namespace Region

/-! ### What regions are -/

def IsLetter (c : Char) : Prop := ('a' ≤ c ∧ c ≤ 'z') ∨ ('A' ≤ c ∧ c ≤ 'Z') ∨ c = '_'

def IsDigit (c : Char) : Prop := '0' ≤ c ∧ c ≤ '9'

/-- Digits, and perhaps a point with digits on both sides. -/
def IsNumber (text : List Char) : Prop :=
  ∃ whole, whole ≠ [] ∧ (∀ c ∈ whole, IsDigit c) ∧
    (text = whole ∨ ∃ part, part ≠ [] ∧ (∀ c ∈ part, IsDigit c) ∧ text = whole ++ '.' :: part)

def IsWord (text : List Char) : Prop :=
  ∃ c rest, text = c :: rest ∧ IsLetter c ∧ ∀ d ∈ rest, IsLetter d ∨ IsDigit d

def IsMark (text : List Char) : Prop := ∃ m : Mark, text = m.chars

/-- No longer piece of this form starts where `text` starts, `after` being what follows it. -/
def Longest (form : List Char → Prop) (text after : List Char) : Prop :=
  form text ∧ ∀ longer, form longer → longer <+: text ++ after → longer.length ≤ text.length

/-- The text up to the first `*/`. -/
def Closed (inside : List Char) : Prop :=
  ∃ body, inside = body ++ ['*', '/'] ∧ ∀ earlier, earlier ++ ['*', '/'] <+: inside → earlier = body

/-- A character that no other region starts with. -/
def IsForeign (c : Char) : Prop :=
  c ∉ [' ', '\t', '\r', '\n', '"'] ∧ ¬ IsLetter c ∧ ¬ IsDigit c ∧ ∀ m : Mark, m.chars.head? ≠ some c

/-- The region is one that a text can start with, `after` being what follows it. -/
def Leads (r : Region) (after : List Char) : Prop :=
  match r.kind with
  | .blank => ∃ c ∈ [' ', '\t', '\r', '\n'], r.text = [c]
  | .lineComment =>
      ∃ body, r.text = '/' :: '/' :: body ∧ '\n' ∉ body ∧ (after = [] ∨ after.head? = some '\n')
  | .blockComment => ∃ inside, r.text = '/' :: '*' :: inside ∧ Closed inside
  | .string => ∃ body, r.text = '"' :: body ++ ['"'] ∧ '"' ∉ body
  | .number => Longest IsNumber r.text after
  | .word => Longest IsWord r.text after
  | .mark m =>
      r.text = m.chars ∧ Longest IsMark r.text after ∧
        ¬ ['/', '/'] <+: r.text ++ after ∧ ¬ ['/', '*'] <+: r.text ++ after
  | .foreign c => r.text = [c] ∧ IsForeign c
  | .openString => ∃ body, r.text = '"' :: body ∧ '"' ∉ body ∧ after = []
  | .openComment => ∃ body, r.text = '/' :: '*' :: body ∧ ¬ ['*', '/'] <:+: body ∧ after = []

/-- The text is cut into these regions. -/
inductive Decomposes : List Char → List Region → Prop
  | done : Decomposes [] []
  | next {r : Region} {after : List Char} {rs : List Region} (leads : r.Leads after)
      (rest : Decomposes after rs) : Decomposes (r.text ++ after) (r :: rs)

/-! ### Characters -/

theorem isDigit_iff {c : Char} : c.isDigit = true ↔ IsDigit c := by
  simp [Char.isDigit, IsDigit, Char.le_def]

theorem isWordStart_iff {c : Char} : isWordStart c = true ↔ IsLetter c := by
  simp [isWordStart, Char.isAlpha, Char.isUpper, Char.isLower, IsLetter, Char.le_def]
  grind

theorem isWordPart_iff {c : Char} : isWordPart c = true ↔ IsLetter c ∨ IsDigit c := by
  rw [← isWordStart_iff, ← isDigit_iff]
  simp [isWordPart, isWordStart, Char.isAlphanum]
  grind

theorem isBlank_iff {c : Char} : isBlank c = true ↔ c ∈ [' ', '\t', '\r', '\n'] := by
  simp [isBlank]

/-! ### Longest pieces -/

theorem Longest.unique {form : List Char → Prop} {text after text' after' : List Char}
    (longest : Longest form text after) (longest' : Longest form text' after')
    (same : text ++ after = text' ++ after') : text = text' ∧ after = after' := by
  have le := longest.2 text' longest'.1 ⟨after', same.symm⟩
  have ge := longest'.2 text longest.1 ⟨after, same⟩
  exact List.append_inj same (Nat.le_antisymm ge le)

/-- What is taken from the front is all that goes on fulfilling `p`. -/
theorem length_le_takeWhile {p : Char → Bool} {start text : List Char} (all : ∀ c ∈ start, p c = true)
    (leads : start <+: text) : start.length ≤ (text.takeWhile p).length := by
  obtain ⟨after, rfl⟩ := leads
  rw [List.takeWhile_append_of_pos all, List.length_append]
  exact Nat.le_add_right _ _

theorem word_longest {c : Char} (rest : List Char) (letter : IsLetter c) :
    Longest IsWord (c :: rest.takeWhile isWordPart) (rest.dropWhile isWordPart) := by
  refine ⟨⟨c, _, rfl, letter, fun d among => isWordPart_iff.1 (List.mem_takeWhile_imp among)⟩, ?_⟩
  rintro _ ⟨d, more, rfl, -, parts⟩ leads
  rw [List.cons_append, List.takeWhile_append_dropWhile, List.cons_prefix_cons] at leads
  have bound := length_le_takeWhile (fun d among => isWordPart_iff.2 (parts d among)) leads.2
  exact Nat.succ_le_succ bound

/-- The fraction is as long as any point with digits that the text starts with. -/
theorem le_fraction {part text : List Char} (some : part ≠ []) (digits : ∀ c ∈ part, IsDigit c)
    (leads : '.' :: part <+: text) : part.length + 1 ≤ (fraction text).length := by
  obtain ⟨after, rfl⟩ := leads
  have bound : part.length ≤ ((part ++ after).takeWhile Char.isDigit).length :=
    length_le_takeWhile (fun c among => isDigit_iff.2 (digits c among)) (List.prefix_append part after)
  have positive := List.length_pos_iff.2 some
  have found : (part ++ after).takeWhile Char.isDigit ≠ [] := by
    rw [← List.length_pos_iff]
    omega
  simp only [fraction, List.cons_append, List.isEmpty_iff, found, if_false, List.length_cons]
  omega

theorem fraction_cases (text : List Char) :
    fraction text = [] ∨
      ∃ part, part ≠ [] ∧ (∀ c ∈ part, IsDigit c) ∧ fraction text = '.' :: part := by
  unfold fraction
  split
  · rename_i digits
    by_cases none : digits.takeWhile Char.isDigit = []
    · simp [none]
    · refine .inr ⟨digits.takeWhile Char.isDigit, none, fun c among => ?_, by simp [none]⟩
      exact isDigit_iff.1 (List.mem_takeWhile_imp among)
  · exact .inl rfl

theorem number_append (c : Char) (rest : List Char) :
    (number c rest).1.text ++ (number c rest).2 = c :: rest := by
  simp only [number, List.cons_append, List.append_assoc, fraction_append,
    List.takeWhile_append_dropWhile]

theorem number_longest {c : Char} (rest : List Char) (digit : IsDigit c) :
    Longest IsNumber (number c rest).1.text (number c rest).2 := by
  have whole : c :: rest.takeWhile Char.isDigit = (c :: rest).takeWhile Char.isDigit :=
    (List.takeWhile_cons_of_pos (isDigit_iff.2 digit)).symm
  have length : (number c rest).1.text.length = ((c :: rest).takeWhile Char.isDigit).length
      + (fraction (rest.dropWhile Char.isDigit)).length := by
    rw [← whole, ← List.length_append]
    rfl
  have digits : ∀ d ∈ c :: rest.takeWhile Char.isDigit, IsDigit d := by
    intro d among
    rw [whole] at among
    exact isDigit_iff.1 (List.mem_takeWhile_imp among)
  constructor
  · refine ⟨c :: rest.takeWhile Char.isDigit, List.cons_ne_nil _ _, digits, ?_⟩
    rcases fraction_cases (rest.dropWhile Char.isDigit) with none | ⟨part, some, all, found⟩
    · exact .inl (by simp [number, none])
    · exact .inr ⟨part, some, all, by simp [number, found]⟩
  · rintro longer ⟨start, some, all, form⟩ leads
    rw [number_append] at leads
    have within : start.length ≤ ((c :: rest).takeWhile Char.isDigit).length := by
      refine length_le_takeWhile (fun d among => isDigit_iff.2 (all d among)) ?_
      rcases form with rfl | ⟨part, -, -, rfl⟩
      · exact leads
      · exact (List.prefix_append _ _).trans leads
    rcases form with rfl | ⟨part, somePart, allPart, rfl⟩
    · omega
    · have dropped : (c :: rest).dropWhile Char.isDigit = rest.dropWhile Char.isDigit :=
        List.dropWhile_cons_of_pos (isDigit_iff.2 digit)
      obtain ⟨after, same⟩ := leads
      rw [← same, List.append_assoc, List.dropWhile_append_of_pos fun d among =>
        isDigit_iff.2 (all d among)] at dropped
      have point : '.' :: part <+: rest.dropWhile Char.isDigit := by
        rw [← dropped]
        exact List.prefix_append _ _
      have fits := le_fraction somePart allPart point
      rw [length, List.length_append, List.length_cons]
      omega

/-! ### Comments -/

theorem Closed.unique {a b after after' : List Char} (closed : Closed a) (closed' : Closed b)
    (same : a ++ after = b ++ after') : a = b ∧ after = after' := by
  obtain ⟨body, rfl, first⟩ := closed
  obtain ⟨body', rfl, first'⟩ := closed'
  have bodies : body = body' := by
    have left : body ++ ['*', '/'] <+: body' ++ ['*', '/'] ++ after' :=
      same ▸ List.prefix_append _ after
    rcases List.prefix_or_prefix_of_prefix left (List.prefix_append _ after') with shorter | shorter
    · exact first' body shorter
    · exact (first body' shorter).symm
  subst bodies
  exact ⟨rfl, List.append_cancel_left same⟩

theorem splitComment?_closed {text closed after : List Char}
    (found : splitComment? text = some (closed, after)) : Closed closed := by
  fun_induction splitComment? text generalizing closed after with
  | case1 => simp at found
  | case2 rest =>
    obtain ⟨rfl, rfl⟩ := Prod.mk.inj (Option.some.inj found)
    refine ⟨[], rfl, fun earlier leads => ?_⟩
    have bound := leads.length_le
    simpa using bound
  | case3 c rest other ih =>
    obtain ⟨⟨inside, tail⟩, split, same⟩ := Option.map_eq_some_iff.1 found
    obtain ⟨rfl, rfl⟩ := Prod.mk.inj same
    obtain ⟨body, rfl, first⟩ := ih split
    refine ⟨c :: body, rfl, fun earlier leads => ?_⟩
    cases earlier with
    | nil =>
      -- The comment cannot close at once, for then the reader would have seen it.
      obtain ⟨star, more, slash⟩ := List.cons_prefix_cons.1 leads
      refine absurd ?_ (other (more ++ tail) star.symm)
      rw [← splitComment?_append split, ← slash]
      simp
    | cons d earlier =>
      obtain ⟨rfl, later⟩ := List.cons_prefix_cons.1 leads
      rw [first earlier later]

theorem splitComment?_eq_none {text : List Char} :
    splitComment? text = none ↔ ¬ ['*', '/'] <:+: text := by
  fun_induction splitComment? text with
  | case1 => simp
  | case2 rest => simpa using ⟨[], rest, rfl⟩
  | case3 c rest other ih =>
    have opens : ¬ ['*', '/'] <+: c :: rest := by
      rintro ⟨more, same⟩
      obtain ⟨rfl, rfl⟩ := List.cons.inj same
      exact other more rfl rfl
    rw [Option.map_eq_none_iff, ih, List.infix_cons_iff]
    simp [opens]

theorem splitComment?_eq_some {inside : List Char} (closed : Closed inside) (after : List Char) :
    splitComment? (inside ++ after) = some (inside, after) := by
  cases found : splitComment? (inside ++ after) with
  | none =>
    obtain ⟨body, rfl, -⟩ := closed
    exact absurd ⟨body, after, rfl⟩ (splitComment?_eq_none.1 found)
  | some split =>
    obtain ⟨inside', after'⟩ := split
    obtain ⟨rfl, rfl⟩ := (splitComment?_closed found).unique closed (splitComment?_append found)
    rfl

/-! ### Which region a character starts -/

theorem first_slash (rest : List Char) : first '/' rest = slash rest := by
  simp [first, isBlank]

theorem first_quote (rest : List Char) : first '"' rest = string rest := by
  simp [first, isBlank]

theorem IsLetter.not_digit {c : Char} (letter : IsLetter c) : ¬ IsDigit c := by
  rintro ⟨-, le⟩
  rcases letter with ⟨ge, -⟩ | ⟨ge, -⟩ | rfl
  · exact absurd (Char.le_trans ge le) (by decide)
  · exact absurd (Char.le_trans ge le) (by decide)
  · exact absurd le (by decide)

/-- Digits and letters are neither blanks nor the start of a comment or of a string. -/
theorem plain_start {c : Char} (starts : c.isDigit = true ∨ isWordStart c = true) :
    isBlank c = false ∧ c ≠ '/' ∧ c ≠ '"' := by
  have other (d : Char) (no : ¬ (d.isDigit = true ∨ isWordStart d = true)) : c ≠ d := by
    rintro rfl
    exact no starts
  refine ⟨?_, other '/' (by decide), other '"' (by decide)⟩
  rw [Bool.eq_false_iff, Ne, isBlank_iff]
  simp [other ' ' (by decide), other '\t' (by decide), other '\r' (by decide), other '\n' (by decide)]

theorem first_number {c : Char} (digit : IsDigit c) (rest : List Char) :
    first c rest = number c rest := by
  obtain ⟨blank, slash, quote⟩ := plain_start (.inl (isDigit_iff.2 digit))
  simp [first, blank, slash, quote, isDigit_iff.2 digit]

theorem first_word {c : Char} (letter : IsLetter c) (rest : List Char) :
    first c rest = word c rest := by
  have starts := isWordStart_iff.2 letter
  have digit := Bool.eq_false_iff.2 (isDigit_iff.not.2 letter.not_digit)
  obtain ⟨blank, slash, quote⟩ := plain_start (.inr starts)
  simp [first, blank, slash, quote, digit, starts]

theorem first_mark {m : Mark} {c : Char} (starts : m.chars.head? = some c) (other : c ≠ '/')
    (rest : List Char) : first c rest = markOrForeign c rest := by
  obtain ⟨blank, quote, digit, letter⟩ := Mark.chars_start starts
  simp [first, blank, quote, digit, letter, other]

theorem first_foreign {c : Char} (isForeign : IsForeign c) (rest : List Char) :
    first c rest = (⟨.foreign c, [c]⟩, rest) := by
  obtain ⟨special, letter, digit, marks⟩ := isForeign
  have notMark (text : List Char) : Mark.ofChars? (c :: text) = none := by
    rw [Option.eq_none_iff_forall_ne_some]
    intro m found
    exact marks m (by rw [Mark.ofChars?_eq_some.1 found]; rfl)
  have slash : c ≠ '/' := fun same => marks .slash (by rw [same]; rfl)
  have blank : isBlank c = false := by
    rw [Bool.eq_false_iff, Ne, isBlank_iff]
    exact fun among => special (List.mem_append_left ['"'] among)
  have quote : c ≠ '"' := fun same => special (by simp [same])
  rw [← isDigit_iff, Bool.not_eq_true] at digit
  rw [← isWordStart_iff, Bool.not_eq_true] at letter
  simp [first, blank, slash, quote, digit, letter, markOrForeign, notMark]

/-! ### The first region -/

theorem markOrForeign_leads {c : Char} (rest : List Char) (special : c ∉ [' ', '\t', '\r', '\n', '"'])
    (slash : c ≠ '/') (letter : ¬ IsLetter c) (digit : ¬ IsDigit c) :
    (markOrForeign c rest).1.Leads (markOrForeign c rest).2 := by
  have comment (text : List Char) (d : Char) : ¬ ['/', d] <+: c :: text := fun leads =>
    slash (List.cons_prefix_cons.1 leads).1.symm
  unfold markOrForeign
  split
  · rename_i m found
    have chars := Mark.ofChars?_eq_some.1 found
    refine ⟨chars.symm, ⟨⟨m, chars.symm⟩, ?_⟩, comment _ _, comment _ _⟩
    rintro _ ⟨m', rfl⟩ leads
    have bound := leads.length_le
    have most := m'.chars_length
    simp only [List.length_append, List.length_cons, List.length_take, List.length_drop] at bound ⊢
    omega
  · rename_i noPair
    split
    · rename_i m found
      have chars := Mark.ofChars?_eq_some.1 found
      refine ⟨chars.symm, ⟨⟨m, chars.symm⟩, ?_⟩, comment _ _, comment _ _⟩
      rintro _ ⟨m', rfl⟩ leads
      rcases m'.chars_length with one | two
      · exact Nat.le_of_eq one
      · obtain ⟨a, b, pair⟩ := List.length_eq_two.1 two
        rw [pair] at leads
        obtain ⟨rfl, inRest⟩ := List.cons_prefix_cons.1 leads
        obtain ⟨more, rfl⟩ := inRest
        have found' : Mark.ofChars? (a :: ([b] ++ more).take 1) = some m' :=
          Mark.ofChars?_eq_some.2 pair
        cases noPair.symm.trans found'
    · rename_i noSingle
      refine ⟨rfl, special, letter, digit, fun m starts => ?_⟩
      have single := Mark.ofChars?_start starts
      rw [noSingle] at single
      cases single

/-- What is left when all but `c` was passed over. -/
theorem dropWhile_ne (c : Char) (text : List Char) :
    text.dropWhile (· ≠ c) = [] ∨ ∃ after, text.dropWhile (· ≠ c) = c :: after := by
  induction text with
  | nil => exact .inl rfl
  | cons d text ih =>
    by_cases same : d = c
    · exact .inr ⟨text, by simp [same]⟩
    · rwa [List.dropWhile_cons_of_pos (by simpa using same)]

/-- Up to the first `c` all is passed over. -/
theorem takeWhile_ne {c : Char} {body after : List Char} (inside : c ∉ body)
    (ends : after = [] ∨ after.head? = some c) :
    (body ++ after).takeWhile (· ≠ c) = body ∧ (body ++ after).dropWhile (· ≠ c) = after := by
  have all : ∀ d ∈ body, decide (d ≠ c) = true := by
    intro d among
    simpa using fun same : d = c => inside (same ▸ among)
  rw [List.takeWhile_append_of_pos all, List.dropWhile_append_of_pos all]
  rcases ends with rfl | starts
  · simp
  · obtain ⟨more, rfl⟩ := List.head?_eq_some_iff.1 starts
    simp

theorem slash_leads (rest : List Char) : (slash rest).1.Leads (slash rest).2 := by
  unfold slash
  split
  · rename_i more
    refine ⟨more.takeWhile (· ≠ '\n'), rfl, fun among => ?_, ?_⟩
    · simpa using List.mem_takeWhile_imp among
    · exact (dropWhile_ne '\n' ('/' :: more)).imp id fun ⟨after, left⟩ => by rw [left]; rfl
  · rename_i inside
    split
    · rename_i closed after found
      exact ⟨closed, rfl, splitComment?_closed found⟩
    · rename_i open_
      exact ⟨inside, rfl, splitComment?_eq_none.1 open_, rfl⟩
  · rename_i line block
    refine ⟨rfl, ⟨⟨.slash, rfl⟩, ?_⟩, ?_, ?_⟩
    · rintro _ ⟨m, rfl⟩ leads
      cases m <;> simp [Mark.chars] at leads ⊢
    · intro leads
      obtain ⟨more, same⟩ := (List.cons_prefix_cons.1 leads).2
      exact line more same.symm
    · intro leads
      obtain ⟨more, same⟩ := (List.cons_prefix_cons.1 leads).2
      exact block more same.symm

theorem string_leads (rest : List Char) : (string rest).1.Leads (string rest).2 := by
  have body : '"' ∉ rest.takeWhile (· ≠ '"') := fun among => by
    simpa using List.mem_takeWhile_imp among
  unfold string
  split
  · rename_i quote after left
    rcases dropWhile_ne '"' rest with none | ⟨after', some⟩
    · cases left.symm.trans none
    · obtain ⟨rfl, -⟩ := List.cons.inj (left.symm.trans some)
      exact ⟨_, rfl, body⟩
  · rename_i left
    have whole := List.takeWhile_append_dropWhile (p := fun x => decide (x ≠ '"')) (l := rest)
    rw [left, List.append_nil] at whole
    rw [whole] at body
    exact ⟨rest, rfl, body, rfl⟩

/-- The region that is found first is one that the text can start with. -/
theorem first_leads (c : Char) (rest : List Char) : (first c rest).1.Leads (first c rest).2 := by
  unfold first
  split
  · rename_i blank
    exact ⟨c, isBlank_iff.1 blank, rfl⟩
  rename_i blank
  split
  · exact slash_leads rest
  rename_i slash
  split
  · exact string_leads rest
  rename_i quote
  split
  · rename_i digit
    exact number_longest rest (isDigit_iff.1 digit)
  rename_i digit
  split
  · rename_i letter
    exact word_longest rest (isWordStart_iff.1 letter)
  rename_i letter
  rw [isBlank_iff] at blank
  rw [isDigit_iff] at digit
  rw [isWordStart_iff] at letter
  refine markOrForeign_leads rest ?_ slash letter digit
  simp only [List.mem_cons, List.not_mem_nil, or_false, not_or] at blank ⊢
  exact ⟨blank.1, blank.2.1, blank.2.2.1, blank.2.2.2, quote⟩

theorem IsNumber.starts {text : List Char} (number : IsNumber text) :
    ∃ c more, text = c :: more ∧ IsDigit c := by
  obtain ⟨whole, some, digits, form⟩ := number
  obtain ⟨c, more, rfl⟩ := List.exists_cons_of_ne_nil some
  have digit := digits c List.mem_cons_self
  rcases form with rfl | ⟨part, -, -, rfl⟩
  · exact ⟨c, more, rfl, digit⟩
  · exact ⟨c, more ++ '.' :: part, rfl, digit⟩

/-- A mark that leads the text is the one that is found. -/
theorem markOrForeign_eq {m : Mark} {c : Char} {after rest : List Char}
    (longest : Longest IsMark m.chars after) (text : m.chars ++ after = c :: rest) :
    markOrForeign c rest = (⟨.mark m, m.chars⟩, after) := by
  rcases m.chars_length with one | two
  · obtain ⟨d, chars⟩ := List.length_eq_one_iff.1 one
    rw [chars] at longest text ⊢
    simp only [List.singleton_append, List.cons.injEq] at text
    obtain ⟨rfl, rfl⟩ := text
    have single : Mark.ofChars? [d] = some m := Mark.ofChars?_eq_some.2 chars
    cases after with
    | nil => simp [markOrForeign, single]
    | cons e after =>
      have noPair : Mark.ofChars? [d, e] = none := by
        rw [Option.eq_none_iff_forall_ne_some]
        intro m' found
        have form : IsMark [d, e] := ⟨m', (Mark.ofChars?_eq_some.1 found).symm⟩
        have bound := longest.2 [d, e] form ⟨after, rfl⟩
        exact absurd bound (by simp)
      simp [markOrForeign, single, noPair]
  · obtain ⟨d, e, chars⟩ := List.length_eq_two.1 two
    rw [chars] at text ⊢
    simp only [List.cons_append, List.nil_append, List.cons.injEq] at text
    obtain ⟨rfl, rfl⟩ := text
    have pair : Mark.ofChars? [d, e] = some m := Mark.ofChars?_eq_some.2 chars
    simp [markOrForeign, pair]

/-- No other region can lead the text. -/
theorem Leads.first_eq {r : Region} {c : Char} {after rest : List Char} (leads : r.Leads after)
    (text : r.text ++ after = c :: rest) : first c rest = (r, after) := by
  obtain ⟨kind, piece⟩ := r
  cases kind with
  | blank =>
    obtain ⟨d, blank, rfl⟩ := leads
    obtain ⟨rfl, rfl⟩ := List.cons.inj text
    simp [first, isBlank_iff.2 blank]
  | lineComment =>
    obtain ⟨body, rfl, inside, ends⟩ := leads
    simp only [List.cons_append, List.cons.injEq] at text
    obtain ⟨rfl, rfl⟩ := text
    have lineInside : '\n' ∉ '/' :: body := by simpa using inside
    have parts := takeWhile_ne lineInside ends
    rw [List.cons_append] at parts
    simp only [first_slash, slash, parts.1, parts.2]
  | blockComment =>
    obtain ⟨inside, rfl, closed⟩ := leads
    simp only [List.cons_append, List.cons.injEq] at text
    obtain ⟨rfl, rfl⟩ := text
    simp only [first_slash, slash, splitComment?_eq_some closed after]
  | string =>
    obtain ⟨body, rfl, inside⟩ := leads
    simp only [List.cons_append, List.append_assoc, List.nil_append, List.cons.injEq] at text
    obtain ⟨rfl, rfl⟩ := text
    have ends : ('"' :: after).head? = some '"' := rfl
    have parts := takeWhile_ne inside (.inr ends)
    simp only [first_quote, string, parts.1, parts.2]
  | openString =>
    obtain ⟨body, rfl, inside, rfl⟩ := leads
    simp only [List.append_nil, List.cons.injEq] at text
    obtain ⟨rfl, rfl⟩ := text
    have parts := takeWhile_ne inside (.inl rfl)
    rw [List.append_nil] at parts
    simp only [first_quote, string, parts.2]
  | openComment =>
    obtain ⟨body, rfl, inside, rfl⟩ := leads
    simp only [List.append_nil, List.cons.injEq] at text
    obtain ⟨rfl, rfl⟩ := text
    simp only [first_slash, slash, splitComment?_eq_none.2 inside]
  | number =>
    obtain ⟨d, more, rfl, digit⟩ := leads.1.starts
    obtain ⟨rfl, -⟩ := List.cons.inj text
    have same := (number_longest rest digit).unique leads ((number_append d rest).trans text.symm)
    rw [first_number digit]
    exact Prod.ext (congrArg (Region.mk .number) same.1) same.2
  | word =>
    obtain ⟨d, more, rfl, letter, -⟩ := leads.1
    obtain ⟨rfl, -⟩ := List.cons.inj text
    have same := (word_longest rest letter).unique leads (by simpa using text.symm)
    rw [first_word letter]
    exact Prod.ext (congrArg (Region.mk .word) same.1) same.2
  | mark m =>
    obtain ⟨rfl, longest, line, block⟩ := leads
    by_cases opens : c = '/'
    · subst opens
      rw [text] at line block
      have same : m = .slash ∧ after = rest := by
        cases m <;> (cases text; try exact ⟨rfl, rfl⟩)
      obtain ⟨rfl, rfl⟩ := same
      rw [first_slash]
      unfold slash
      split
      · exact absurd (List.prefix_append ['/', '/'] _) line
      · exact absurd (List.prefix_append ['/', '*'] _) block
      · rfl
    · have starts : m.chars.head? = some c := by
        cases m <;> (cases text; rfl)
      rw [first_mark starts opens]
      exact markOrForeign_eq longest text
  | foreign d =>
    obtain ⟨rfl, isForeign⟩ := leads
    obtain ⟨rfl, rfl⟩ := List.cons.inj text
    exact first_foreign isForeign _

theorem Leads.nonempty {r : Region} {after : List Char} (leads : r.Leads after) : r.text ≠ [] := by
  obtain ⟨kind, text⟩ := r
  rintro rfl
  cases kind with
  | blank =>
    obtain ⟨c, -, same⟩ := leads
    cases same
  | lineComment | blockComment | string | openString | openComment =>
    obtain ⟨body, same, -⟩ := leads
    cases same
  | number =>
    obtain ⟨c, more, same, -⟩ := leads.1.starts
    cases same
  | word =>
    obtain ⟨c, more, same, -⟩ := leads.1
    cases same
  | mark m => cases m <;> cases leads.1
  | foreign c => cases leads.1

/-- A text is cut into regions in one way only. -/
theorem decomposes_iff {text : List Char} {rs : List Region} : Decomposes text rs ↔ cut text = rs := by
  constructor
  · intro parts
    induction parts with
    | done => rw [cut]
    | @next r after rs leads rest ih =>
      obtain ⟨c, more, whole⟩ := List.exists_cons_of_ne_nil leads.nonempty
      have start : r.text ++ after = c :: (more ++ after) := by rw [whole, List.cons_append]
      have found := leads.first_eq start
      rw [whole, List.cons_append, cut, found, ih]
  · rintro rfl
    fun_induction cut text with
    | case1 => exact .done
    | case2 c rest ih =>
      rw [← first_append c rest]
      exact .next (first_leads c rest) ih

/-- The regions make up the text. -/
theorem Decomposes.flatMap {text : List Char} {rs : List Region} (parts : Decomposes text rs) :
    rs.flatMap (·.text) = text := by
  induction parts with
  | done => rfl
  | next _ _ ih => rw [List.flatMap_cons, ih]

/-! ### What regions give -/

def isSilent (r : Region) : Bool :=
  match r.kind with
  | .blank | .lineComment | .blockComment => true
  | _ => false

/-- The item that is given for the region. -/
def Gives (r : Region) : ScanItem → Prop
  | .ok t =>
      t.lexeme = String.ofList r.text ∧
        match r.kind with
        | .string => ∃ body, r.text = '"' :: body ++ ['"'] ∧ t.kind = .string (String.ofList body)
        | .number => t.kind = .number (Number.Decimal.ofLiteral r.text).toPattern
        | .word =>
            (∀ k : Keyword, t.kind = .keyword k ↔ t.lexeme = k.text) ∧
              (t.kind = .identifier ↔ ∀ k : Keyword, t.lexeme ≠ k.text)
        | .mark m => t.kind = .mark m
        | _ => False
  | .error e =>
      match r.kind with
      | .foreign c => e.cause = .unexpectedCharacter c
      | .openString => e.cause = .unterminatedString
      | .openComment => e.cause = .unterminatedComment
      | _ => False

theorem keyword_iff (word : String) :
    (∀ k : Keyword, TokenKind.ofWord word = .keyword k ↔ word = k.text) ∧
      (TokenKind.ofWord word = .identifier ↔ ∀ k : Keyword, word ≠ k.text) := by
  unfold TokenKind.ofWord
  cases found : Keyword.ofText? word with
  | none =>
    have other (k : Keyword) : word ≠ k.text := by
      rintro rfl
      cases found.symm.trans k.ofText?_text
    simp [other]
  | some k =>
    have same : k.text = word := by simpa using List.find?_some found
    subst same
    refine ⟨fun k' => ⟨fun eq => ?_, fun eq => ?_⟩, by simp⟩
    · cases eq
      rfl
    · rw [eq, Keyword.ofText?_text] at found
      cases found
      rfl

/-- A region gives one item, or none if it is silent. -/
theorem item?_gives {r : Region} {after : List Char} (leads : r.Leads after) (line : Nat) :
    (r.isSilent = true ∧ r.item? line = none) ∨
      (r.isSilent = false ∧ ∃ item, r.item? line = some item ∧ r.Gives item) := by
  obtain ⟨kind, text⟩ := r
  cases kind with
  | blank | lineComment | blockComment => exact .inl ⟨rfl, rfl⟩
  | string =>
    obtain ⟨body, rfl, -⟩ := leads
    refine .inr ⟨rfl, _, rfl, rfl, body, rfl, ?_⟩
    simp
  | number => exact .inr ⟨rfl, _, rfl, rfl, rfl⟩
  | word => exact .inr ⟨rfl, _, rfl, rfl, keyword_iff _⟩
  | mark m => exact .inr ⟨rfl, _, rfl, rfl, rfl⟩
  | foreign c => exact .inr ⟨rfl, _, rfl, rfl⟩
  | openString | openComment => exact .inr ⟨rfl, _, rfl, rfl⟩

theorem Decomposes.items {text : List Char} {rs : List Region} (parts : Decomposes text rs)
    (line : Nat) :
    ∃ items, List.Forall₂ Gives (rs.filter (!·.isSilent)) items ∧
      Scan.itemsFrom line rs = items ++ [.ok ⟨.endOfText, "", line + newlines text⟩] := by
  induction parts generalizing line with
  | done => exact ⟨[], .nil, rfl⟩
  | @next r after rs leads rest ih =>
    obtain ⟨items, given, same⟩ := ih (line + newlines r.text)
    have lines : line + newlines r.text + newlines after = line + newlines (r.text ++ after) := by
      simp [newlines, Nat.add_assoc]
    rw [lines] at same
    rcases item?_gives leads (line + newlines r.text) with ⟨silent, none⟩ | ⟨speaks, item, one, gives⟩
    · refine ⟨items, by simpa [silent] using given, ?_⟩
      simp [Scan.itemsFrom, none, same]
    · refine ⟨item :: items, by simpa [speaks] using ⟨gives, given⟩, ?_⟩
      simp [Scan.itemsFrom, one, same]

end Region

namespace Scanner

/-- What the scanner gives when it is asked once more after `n` times. -/
def nth : Nat → Scanner → Option ScanItem
  | 0, s => s.next.1
  | n + 1, s => nth n s.next.2

theorem nth_remaining (n : Nat) (s : Scanner) : s.nth n = s.remaining[n]? := by
  induction n generalizing s with
  | zero =>
    rcases s.next_remaining with ⟨last, nothing⟩ | ⟨item, after, first, more⟩
    · simp [nth, last, nothing]
    · simp [nth, first, more]
  | succ n ih =>
    rcases s.next_remaining with ⟨last, nothing⟩ | ⟨item, after, first, more⟩
    · simp [nth, last, nothing, ih]
    · simp [nth, first, more, ih]

/-- The text is cut by the rule of the longest match, in the only way there is. The scanner gives one
item for each region that is no blank and no comment, then the end, and then nothing, however often
it is asked. -/
theorem yields_longest_matches (source : String) :
    ∃ rs items,
      Region.Decomposes source.toList rs ∧ (∀ rs', Region.Decomposes source.toList rs' → rs' = rs) ∧
      rs.flatMap (·.text) = source.toList ∧
      List.Forall₂ Region.Gives (rs.filter (!·.isSilent)) items ∧
      ∀ n, (start source).nth n =
        (items ++ [.ok ⟨.endOfText, "", 1 + Region.newlines source.toList⟩])[n]? := by
  have parts := Region.decomposes_iff.2 (Eq.refl (Region.cut source.toList))
  obtain ⟨items, given, same⟩ := parts.items 1
  refine ⟨_, items, parts, fun rs' parts' => (Region.decomposes_iff.1 parts').symm, parts.flatMap,
    given, fun n => ?_⟩
  rw [nth_remaining, ← same]
  rfl

end Scanner

end Lox
