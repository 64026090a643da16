import Mathlib
import Lox.Proofs.CompleteReading

/-!
Readers that look one token ahead. What such a reader does depends on the tokens that it takes and
on the one after them alone; it stops before whatever may close its phrase; and where it asks for
something that is not there, the tokens taken so far can be completed. Rules carry this from the
readers of single tokens to those of whole phrases.
-/

namespace Lox

open Reader
open Grammar (Next)

variable {ι κ α β : Type}

/-- The reader takes these tokens off the front of a text, unless they assign to what is no target. -/
def Finishes (r : Reader α) (used rest : List Token) (id : ExprId) : Prop :=
  (∃ a id', r ⟨used ++ rest, id⟩ = .ok a ⟨rest, id'⟩) ∨
    ∃ t d, r ⟨used ++ rest, id⟩ = .error ⟨t, .invalidAssignmentTarget⟩ d

theorem Finishes.bind {r : Reader α} {f : α → Reader β} {used more rest : List Token} {id : ExprId}
    (first : Finishes r used (more ++ rest) id)
    (second : ∀ a id', Finishes (f a) more rest id') :
    Finishes (r >>= f) (used ++ more) rest id := by
  rcases first with ⟨a, id', reads⟩ | ⟨t, d, fails⟩
  · rcases second a id' with ⟨b, id'', reads'⟩ | ⟨t, d, fails⟩
    · exact .inl ⟨b, id'', by rw [List.append_assoc, bind_of_ok reads, reads']⟩
    · exact .inr ⟨t, d, by rw [List.append_assoc, bind_of_ok reads, fails]⟩
  · exact .inr ⟨t, d, by rw [List.append_assoc, bind_of_error fails]⟩

theorem Finishes.congr {r s : Reader α} {used used' rest : List Token} {id id' : ExprId}
    (finishes : Finishes s used' rest id')
    (same : r ⟨used ++ rest, id⟩ = s ⟨used' ++ rest, id'⟩) : Finishes r used rest id := by
  unfold Finishes
  rwa [same]

/-- A success at `d` after the tokens `used`: every reader of the family `r'` that has room for them
gives the same before the same next token, and before all that closes the phrase. A phrase that
needs tokens, as `least` says, has taken some. -/
structure ToldOk (may : TokenKind → Bool) (closes : List Token → Prop) (least : List Token)
    (size : ι → Nat) (r' : ι → Reader α) (c d : Cursor) (a : α) (used : List Token) : Prop where
  split : c.rest = used ++ d.rest
  kinds : ∀ t ∈ used, may t.kind = true
  takes : least ≠ [] → used ≠ []
  alike : ∀ rest, rest.head? = d.rest.head? ∨ closes rest → ∀ i, (used ++ rest).length < size i →
    r' i ⟨used ++ rest, c.nextId⟩ = .ok a ⟨rest, d.nextId⟩

/-- An error at `d` after the tokens `used`: the others fail alike before the same next token, and
where something was asked for once the phrase had begun, there are tokens that complete it. -/
structure ToldError (known : Token → Prop) (may : TokenKind → Bool) (closes : List Token → Prop)
    (size : ι → Nat) (r' : ι → Reader α) (c d : Cursor) (e : SyntaxError) (used : List Token) :
    Prop where
  split : c.rest = used ++ d.rest
  kinds : ∀ t ∈ used, may t.kind = true
  blamed : e.token = d.next ∨ e.token ∈ used ∨ known e.token
  asks : ∀ what, e.cause = .expected what → e.token = d.next
  alike : ∀ rest, rest.head? = d.rest.head? → ∀ i, (used ++ rest).length < size i →
    r' i ⟨used ++ rest, c.nextId⟩ = .error e ⟨rest, d.nextId⟩
  mended : ∀ what, e.cause = .expected what → used ≠ [] → ∃ more, ∀ rest, closes rest →
    ∀ i, (used ++ more ++ rest).length < size i → Finishes (r' i) (used ++ more) rest c.nextId

def Told (known : Token → Prop) (may : TokenKind → Bool) (closes : List Token → Prop)
    (least : List Token) (size : ι → Nat) (r' : ι → Reader α) (c : Cursor) :
    EStateM.Result SyntaxError Cursor α → Prop
  | .ok a d => ∃ used, ToldOk may closes least size r' c d a used
  | .error e d => ∃ used, ToldError known may closes size r' c d e used

/-- Readings of fewer than `n` tokens tell of those by the readers `r'`, of fewer tokens each than
`size` says. Tokens taken are of kinds that `may` be, and errors that point further back point to
`known` tokens. -/
def Foretells (known : Token → Prop) (may : TokenKind → Bool) (closes : List Token → Prop)
    (least : List Token) (n : Nat) (size : ι → Nat) (r : Reader α) (r' : ι → Reader α) : Prop :=
  ∀ c, c.rest.length < n → Told known may closes least size r' c (r c)

/-- The tokens `least` are a phrase. -/
def Seeded (closes : List Token → Prop) (least : List Token) (size : ι → Nat)
    (r' : ι → Reader α) : Prop :=
  ∀ rest i id, closes rest → (least ++ rest).length < size i → Finishes (r' i) least rest id

structure Predicts (known : Token → Prop) (may : TokenKind → Bool) (closes : List Token → Prop)
    (least : List Token) (n : Nat) (size : ι → Nat) (r : Reader α) (r' : ι → Reader α) : Prop where
  foretells : Foretells known may closes least n size r r'
  seeded : Seeded closes least size r'

/-- What is read after the token `t`: a phrase, or nothing, as the list is too long already. -/
inductive Proceeds (known : Token → Prop) (may : TokenKind → Bool) (closes : List Token → Prop)
    (t : Token) (n : Nat) (size : ι → Nat) (r : Reader α) (r' : ι → Reader α) : Prop where
  | phrase (least : List Token)
      (predicts : Predicts (fun u => u = t ∨ known u) may closes least n size r r')
  | tooMany (role : ListRole) (refused : r = refuse (.tooMany role))
      (refused' : ∀ i, r' i = refuse (.tooMany role))

/-- The same for a reader that goes on after a look at the next token. -/
def ForetellsFrom (t : Token) (known : Token → Prop) (may : TokenKind → Bool)
    (closes : List Token → Prop) (least : List Token) (n : Nat) (size : ι → Nat) (r : Reader α)
    (r' : ι → Reader α) : Prop :=
  ∀ c, c.rest.length < n → c.next = t → Told known may closes least size r' c (r c)

/-- A token of this kind, for what nobody has written. -/
def Token.bare (kind : TokenKind) : Token := ⟨kind, "", 1⟩

theorem head_alike {used rest rest' : List Token} (next : used = [] → rest.head? = rest'.head?) :
    (used ++ rest).head? = (used ++ rest').head? := by
  cases used with
  | nil => exact next rfl
  | cons t used => rfl

theorem next_alike {rest rest' : List Token} (id id' : ExprId) (same : rest.head? = rest'.head?) :
    Cursor.next ⟨rest, id⟩ = Cursor.next ⟨rest', id'⟩ := by
  simp only [Cursor.next, List.headD_eq_head?_getD, same]

theorem Grammar.Next.alike {fits : TokenKind → Bool} {rest rest' : List Token}
    (same : rest.head? = rest'.head?) (next : Next fits rest) : Next fits rest' := by
  rwa [Next, ← same]

theorem accept?_some {fits : TokenKind → Bool} {t : Token} (rest : List Token) (id : ExprId)
    (inside : t.kind.isEnd = false) (fitting : fits t.kind = true) :
    accept? fits ⟨t :: rest, id⟩ = .ok (some t) ⟨rest, id⟩ := by
  simp [accept?, inside, fitting]

theorem accept?_none {fits : TokenKind → Bool} {rest : List Token} (id : ExprId)
    (absent : ¬ Next fits rest) : accept? fits ⟨rest, id⟩ = .ok none ⟨rest, id⟩ := by
  cases rest with
  | nil => rfl
  | cons t rest =>
    refine if_neg fun fitting => absent ⟨t, rfl, ?_⟩
    simpa using fitting

section Rules

variable {known known' : Token → Prop} {may may' : TokenKind → Bool}
  {closes closes' : List Token → Prop} {least least' : List Token} {n m k : Nat}
  {size size' : ι → Nat} {r s : Reader α} {r' s' : ι → Reader α} {f : α → Reader β}
  {f' : ι → α → Reader β}

/-- No reading is of fewer tokens than none. -/
theorem Foretells.vacuous : Foretells known may closes least 0 size r r' :=
  fun _ short => absurd short (Nat.not_lt_zero _)

/-- A reader of the family that has room for all tokens gives the same reading. -/
theorem Foretells.enough (foretells : Foretells known may closes least n size r r') {c : Cursor}
    (short : c.rest.length < n) {i : ι} (room : c.rest.length < size i) : r' i c = r c := by
  have told := foretells c short
  cases reading : r c with
  | ok a d =>
    rw [reading] at told
    obtain ⟨used, told⟩ := told
    have same := told.alike d.rest (.inl rfl) i (by rwa [← told.split])
    rwa [← told.split] at same
  | error e d =>
    rw [reading] at told
    obtain ⟨used, told⟩ := told
    have same := told.alike d.rest rfl i (by rwa [← told.split])
    rwa [← told.split] at same

/-! ### The same readers, told of less -/

theorem Told.imp {c : Cursor} {result : EStateM.Result SyntaxError Cursor α}
    (told : Told known may closes least size r' c result)
    (more : ∀ t, known t → known' t) (wider : ∀ k, may k = true → may' k = true)
    (fewer : ∀ rest, closes' rest → closes rest) :
    Told known' may' closes' least size r' c result := by
  cases result with
  | ok a d =>
    obtain ⟨used, told⟩ := told
    refine ⟨used, told.split, fun t among => wider _ (told.kinds t among), told.takes, ?_⟩
    intro rest next i fits
    exact told.alike rest (next.imp_right (fewer rest)) i fits
  | error e d =>
    obtain ⟨used, told⟩ := told
    refine ⟨used, told.split, fun t among => wider _ (told.kinds t among),
      told.blamed.imp_right (Or.imp_right (more _)), told.asks, told.alike, ?_⟩
    intro what is some
    obtain ⟨added, mends⟩ := told.mended what is some
    exact ⟨added, fun rest closing => mends rest (fewer rest closing)⟩

theorem Predicts.imp (predicts : Predicts known may closes least n size r r')
    (more : ∀ t, known t → known' t) (wider : ∀ k, may k = true → may' k = true)
    (fewer : ∀ rest, closes' rest → closes rest) :
    Predicts known' may' closes' least n size r r' := by
  constructor
  · exact fun c short => (predicts.foretells c short).imp more wider fewer
  · exact fun rest i id closing fits => predicts.seeded rest i id (fewer rest closing) fits

/-- What is told of some readers is told of others, under other names, that do the same with the
tokens taken, be it before the same next token or before what closes the phrase. -/
theorem Told.transfer {size' : κ → Nat} {s' : κ → Reader α} {c : Cursor}
    {result : EStateM.Result SyntaxError Cursor α}
    (told : Told known may closes least size r' c result) (g : κ → ι)
    (smaller : ∀ i, size' i ≤ size (g i))
    (same : ∀ used left after, c.rest = used ++ left →
      (used = [] → after.head? = left.head? ∨ least = [] ∧ closes after) → ∀ i,
        (used ++ after).length < size' i →
          s' i ⟨used ++ after, c.nextId⟩ = r' (g i) ⟨used ++ after, c.nextId⟩) :
    Told known may closes least size' s' c result := by
  cases result with
  | ok a d =>
    obtain ⟨used, told⟩ := told
    refine ⟨used, told.split, told.kinds, told.takes, fun after follows i room => ?_⟩
    rw [same used d.rest after told.split ?_ i room]
    · exact told.alike after follows (g i) (Nat.lt_of_lt_of_le room (smaller i))
    · intro nothing
      refine follows.imp_right fun closing => ⟨?_, closing⟩
      by_contra some
      exact told.takes some nothing
  | error e d =>
    obtain ⟨used, told⟩ := told
    refine ⟨used, told.split, told.kinds, told.blamed, told.asks, fun after next i room => ?_,
      fun what is some => ?_⟩
    · rw [same used d.rest after told.split (fun _ => .inl next) i room]
      exact told.alike after next (g i) (Nat.lt_of_lt_of_le room (smaller i))
    · obtain ⟨added, mends⟩ := told.mended what is some
      refine ⟨added, fun after closing i room => ?_⟩
      refine (mends after closing (g i) (Nat.lt_of_lt_of_le room (smaller i))).congr ?_
      rw [List.append_assoc] at room ⊢
      exact same used d.rest (added ++ after) told.split (fun none => absurd none some) i room

/-- A phrase may be empty, though none of those told of is. -/
theorem Told.possibly {c : Cursor} {result : EStateM.Result SyntaxError Cursor α}
    (told : Told known may closes least size r' c result) :
    Told known may closes [] size r' c result := by
  cases result with
  | ok a d =>
    obtain ⟨used, told⟩ := told
    exact ⟨used, told.split, told.kinds, fun some => absurd rfl some, told.alike⟩
  | error e d => exact told

/-- Readers that do the same wherever there is room for it, under other names. -/
theorem Foretells.congr {size' : κ → Nat} {s' : κ → Reader α}
    (foretells : Foretells known may closes least n size r r') (g : κ → ι) (shorter : m ≤ n)
    (smaller : ∀ i, size' i ≤ size (g i)) (same : ∀ c, c.rest.length < m → s c = r c)
    (same' : ∀ i c, c.rest.length < size' i → s' i c = r' (g i) c) :
    Foretells known may closes least m size' s s' := by
  intro c short
  rw [same c short]
  exact (foretells c (Nat.lt_of_lt_of_le short shorter)).transfer g smaller
    fun _ _ _ _ _ i room => same' i _ room

theorem Seeded.congr {size' : κ → Nat} {s' : κ → Reader α} (seeded : Seeded closes least size r')
    (g : κ → ι) (smaller : ∀ i, size' i ≤ size (g i))
    (same' : ∀ i c, c.rest.length < size' i → s' i c = r' (g i) c) :
    Seeded closes least size' s' := by
  intro rest i id closing fits
  refine (seeded rest (g i) id closing (Nat.lt_of_lt_of_le fits (smaller i))).congr ?_
  exact same' i ⟨least ++ rest, id⟩ fits

theorem Predicts.congr (predicts : Predicts known may closes least n size r r')
    (same : ∀ c, c.rest.length < n → s c = r c)
    (same' : ∀ i c, c.rest.length < size i → s' i c = r' i c) :
    Predicts known may closes least n size s s' := by
  constructor
  · exact predicts.foretells.congr id (Nat.le_refl n) (fun _ => Nat.le_refl _) same same'
  · exact predicts.seeded.congr id (fun _ => Nat.le_refl _) same'

/-- Readers of a family, renamed and with less room. -/
theorem Predicts.within {size' : κ → Nat} (predicts : Predicts known may closes least n size r r')
    (g : κ → ι) (shorter : m ≤ n) (smaller : ∀ i, size' i ≤ size (g i)) :
    Predicts known may closes least m size' r (fun i => r' (g i)) := by
  constructor
  · exact predicts.foretells.congr g shorter smaller (fun _ _ => rfl) fun _ _ _ => rfl
  · exact predicts.seeded.congr g smaller fun _ _ _ => rfl

theorem Predicts.later (predicts : Predicts known may closes least n size r r') :
    Predicts known may closes least (n - 1) (fun i => size i - 1) r r' :=
  predicts.within id (Nat.sub_le n 1) fun i => Nat.sub_le (size i) 1

/-! ### Sequences -/

/-- The second part begins where the first one ended, which is `k` tokens further at least. -/
theorem Seeded.bind (first : Seeded closes' least' size r')
    (second : ∀ a, Seeded closes least (fun i => size i - k) (fun i => f' i a))
    (fits : ∀ rest, closes rest → closes' (least ++ rest)) (further : k ≤ least'.length) :
    Seeded closes (least' ++ least) size (fun i => r' i >>= f' i) := by
  intro rest i id closing short
  simp only [List.length_append] at short
  refine Finishes.bind (first (least ++ rest) i id (fits rest closing) ?_) fun a id' => ?_
  · simp only [List.length_append]
    omega
  · refine second a rest i id' closing ?_
    simp only [List.length_append]
    omega

/-- The first part fails. -/
theorem ToldError.thenMore {c d : Cursor} {e : SyntaxError} {used : List Token} (short : k ≤ 1)
    (told : ToldError known may closes' size r' c d e used)
    (seeded : ∀ a, Seeded closes least (fun i => size i - k) fun i => f' i a)
    (fits : ∀ rest, closes rest → closes' (least ++ rest)) :
    ToldError known may closes size (fun i => r' i >>= f' i) c d e used := by
  refine ⟨told.split, told.kinds, told.blamed, told.asks, ?_, ?_⟩
  · intro rest next i room
    exact bind_of_error (told.alike rest next i room)
  · intro what is some
    have some' := List.length_pos_iff.2 some
    obtain ⟨added, mends⟩ := told.mended what is some
    refine ⟨added ++ least, fun rest closing i room => ?_⟩
    simp only [List.length_append] at room
    rw [← List.append_assoc]
    refine Finishes.bind (mends (least ++ rest) (fits rest closing) i ?_) fun a id' => ?_
    · simp only [List.length_append]
      omega
    · refine seeded a rest i id' closing ?_
      simp only [List.length_append]
      omega

/-- The first part goes the same way where its next token is the same or its phrase is closed. -/
theorem ToldOk.before {c d : Cursor} {a : α} {used used' after : List Token} {i : ι}
    (told : ToldOk may closes' least' size r' c d a used)
    (next : (used' ++ after).head? = d.rest.head? ∨ closes' (used' ++ after))
    (room : (used ++ used' ++ after).length < size i) :
    (r' i >>= f' i) ⟨used ++ used' ++ after, c.nextId⟩ = f' i a ⟨used' ++ after, d.nextId⟩ := by
  rw [List.append_assoc] at room ⊢
  exact bind_of_ok (told.alike (used' ++ after) next i room)

/-- The second part fails. Where it has taken nothing, its least phrase follows the first part. -/
theorem ToldOk.thenError {c d d' : Cursor} {a : α} {e : SyntaxError} {used used' : List Token}
    (told : ToldOk may closes' least' size r' c d a used)
    (told' : ToldError known may closes (fun i => size i - k) (fun i => f' i a) d d' e used')
    (seeded : Seeded closes least (fun i => size i - k) fun i => f' i a)
    (fits : ∀ rest, closes rest → closes' (least ++ rest)) (gone : k ≤ used.length) :
    ToldError known may closes size (fun i => r' i >>= f' i) c d' e (used ++ used') := by
  have heads {after : List Token} (next : used' = [] → after.head? = d'.rest.head?) :
      (used' ++ after).head? = d.rest.head? := by
    rw [told'.split]
    exact head_alike next
  refine ⟨?_, ?_, ?_, told'.asks, ?_, ?_⟩
  · rw [told.split, told'.split, List.append_assoc]
  · exact fun t among => (List.mem_append.1 among).elim (told.kinds t) (told'.kinds t)
  · exact told'.blamed.imp_right (Or.imp_left (List.mem_append_right used))
  · intro after next i room
    rw [told.before (.inl (heads fun _ => next)) room]
    refine told'.alike after next i ?_
    simp only [List.length_append] at room ⊢
    omega
  · intro what is _
    by_cases nothing : used' = []
    · subst nothing
      refine ⟨least, fun after closing i room => ?_⟩
      have finishes := seeded after i d.nextId closing (by
        simp only [List.length_append] at room ⊢
        omega)
      rw [List.append_nil] at room ⊢
      exact finishes.congr (told.before (.inr (fits after closing)) room)
    · obtain ⟨added, mends⟩ := told'.mended what is nothing
      refine ⟨added, fun after closing i room => ?_⟩
      have head : (used' ++ (added ++ after)).head? = d.rest.head? :=
        heads fun none => absurd none nothing
      refine (mends after closing i ?_).congr ?_
      · simp only [List.length_append] at room ⊢
        omega
      · rw [List.append_assoc _ added] at room
        rw [List.append_assoc _ added, List.append_assoc _ added]
        exact told.before (.inl head) room

/-- Both parts succeed. -/
theorem ToldOk.thenOk {c d d' : Cursor} {a : α} {b : β} {used used' : List Token}
    (told : ToldOk may closes' least' size r' c d a used)
    (told' : ToldOk may closes least (fun i => size i - k) (fun i => f' i a) d d' b used')
    (fits : ∀ rest, closes rest → closes' (least ++ rest)) (gone : k ≤ used.length) :
    ToldOk may closes (least' ++ least) size (fun i => r' i >>= f' i) c d' b (used ++ used') := by
  refine ⟨?_, ?_, ?_, ?_⟩
  · rw [told.split, told'.split, List.append_assoc]
  · exact fun t among => (List.mem_append.1 among).elim (told.kinds t) (told'.kinds t)
  · intro some none
    obtain ⟨none, none'⟩ := List.append_eq_nil_iff.1 none
    by_cases first : least' = []
    · exact told'.takes (fun second => some (by rw [first, second]; rfl)) none'
    · exact told.takes first none
  · intro after next i room
    have follows : (used' ++ after).head? = d.rest.head? ∨ closes' (used' ++ after) := by
      rw [told'.split]
      cases used' with
      | cons t used' => exact .inl rfl
      | nil =>
        have none : least = [] := by
          by_contra some
          exact told'.takes some rfl
        rcases next with next | closing
        · exact .inl next
        · refine .inr ?_
          have := fits after closing
          rwa [none] at this
    rw [told.before follows room]
    refine told'.alike after next i ?_
    simp only [List.length_append] at room ⊢
    omega

/-- The second part begins where the first one ended. -/
theorem Foretells.bind (first : Foretells known may closes' least' n size r r')
    (second : ∀ a, Predicts known may closes least (n - k) (fun i => size i - k) (f a)
      fun i => f' i a)
    (fits : ∀ rest, closes rest → closes' (least ++ rest))
    (further : k = 0 ∨ k = 1 ∧ least' ≠ []) :
    Foretells known may closes (least' ++ least) n size (r >>= f) (fun i => r' i >>= f' i) := by
  intro c short
  have begun := first c short
  cases reading : r c with
  | error e d =>
    rw [reading] at begun
    obtain ⟨used, told⟩ := begun
    rw [bind_of_error reading]
    exact ⟨used, told.thenMore (by omega) (fun a => (second a).seeded) fits⟩
  | ok a d =>
    rw [reading] at begun
    obtain ⟨used, told⟩ := begun
    have gone : k ≤ used.length := by
      rcases further with none | ⟨one, some⟩
      · omega
      · have := List.length_pos_iff.2 (told.takes some)
        omega
    have left : d.rest.length < n - k := by
      rw [told.split, List.length_append] at short
      omega
    have rest := (second a).foretells d left
    rw [bind_of_ok reading]
    cases reading' : f a d with
    | error e d' =>
      rw [reading'] at rest
      obtain ⟨used', told'⟩ := rest
      exact ⟨used ++ used', told.thenError told' (second a).seeded fits gone⟩
    | ok b d' =>
      rw [reading'] at rest
      obtain ⟨used', told'⟩ := rest
      exact ⟨used ++ used', told.thenOk told' fits gone⟩

theorem Predicts.bind (first : Predicts known may closes' least' n size r r')
    (second : ∀ a, Predicts known may closes least n size (f a) (fun i => f' i a))
    (fits : ∀ rest, closes rest → closes' (least ++ rest)) :
    Predicts known may closes (least' ++ least) n size (r >>= f) (fun i => r' i >>= f' i) := by
  constructor
  · exact first.foretells.bind (k := 0) second fits (.inl rfl)
  · exact first.seeded.bind (k := 0) (fun a => (second a).seeded) fits (Nat.zero_le _)

/-- The same where the first part takes a token, so that less is left for the second. -/
theorem Predicts.bindTaken (first : Predicts known may closes' least' n size r r')
    (some : least' ≠ [])
    (second : ∀ a, Predicts known may closes least (n - 1) (fun i => size i - 1) (f a)
      fun i => f' i a)
    (fits : ∀ rest, closes rest → closes' (least ++ rest)) :
    Predicts known may closes (least' ++ least) n size (r >>= f) (fun i => r' i >>= f' i) := by
  constructor
  · exact first.foretells.bind second fits (.inr ⟨rfl, some⟩)
  · exact first.seeded.bind (fun a => (second a).seeded) fits (List.length_pos_iff.2 some)

theorem Predicts.pure (a : α) :
    Predicts known may closes [] n size (Pure.pure a) (fun _ => Pure.pure a) := by
  constructor
  · intro c _
    exact ⟨[], rfl, List.forall_mem_nil _, fun some => absurd rfl some, fun _ _ _ _ => rfl⟩
  · exact fun rest i id _ _ => .inl ⟨a, id, rfl⟩

theorem Predicts.make (build : ExprId → Expr) :
    Predicts known may closes [] n size (make build) (fun _ => make build) := by
  constructor
  · intro c _
    exact ⟨[], rfl, List.forall_mem_nil _, fun some => absurd rfl some, fun _ _ _ _ => rfl⟩
  · exact fun rest i id _ _ => .inl ⟨build id, id + 1, rfl⟩

/-- Nothing was asked for where the target of an assignment is none. -/
theorem Predicts.misassigned {equals : Token} (told : known equals) :
    Predicts known may closes [] n size (throw ⟨equals, .invalidAssignmentTarget⟩ : Reader α)
      (fun _ : ι => throw ⟨equals, .invalidAssignmentTarget⟩) := by
  constructor
  · intro c _
    exact ⟨[], rfl, List.forall_mem_nil _, .inr (.inr told), nofun, fun _ _ _ _ => rfl, nofun⟩
  · exact fun rest i id _ _ => .inr ⟨equals, ⟨rest, id⟩, rfl⟩

theorem Predicts.last {g : α → β} (first : Predicts known may closes least n size r r') :
    Predicts known may closes (least ++ []) n size (r >>= fun a => Pure.pure (g a))
      (fun i => r' i >>= fun a => Pure.pure (g a)) :=
  first.bind (fun a => .pure (g a)) fun _ closing => closing

/-! ### Tokens -/

theorem Predicts.expect {fits : TokenKind → Bool} {what : Expectation} {t : Token}
    (inside : t.kind.isEnd = false) (fitting : fits t.kind = true)
    (allowed : ∀ k, k.isEnd = false → fits k = true → may k = true) :
    Predicts known may closes [t] n size (expect fits what) (fun _ => expect fits what) := by
  have takes {t' : Token} (rest : List Token) (id : ExprId) (inside : t'.kind.isEnd = false)
      (fitting : fits t'.kind = true) :
      Reader.expect fits what ⟨t' :: rest, id⟩ = .ok t' ⟨rest, id⟩ := by
    unfold Reader.expect
    rw [bind_of_ok (accept?_some rest id inside fitting)]
    rfl
  have refuses {rest : List Token} (id : ExprId) (absent : ¬ Next fits rest) :
      Reader.expect fits what ⟨rest, id⟩ =
        .error ⟨Cursor.next ⟨rest, id⟩, .expected what⟩ ⟨rest, id⟩ := by
    unfold Reader.expect
    rw [bind_of_ok (accept?_none id absent)]
    rfl
  constructor
  · rintro ⟨rest, id⟩ _
    by_cases next : Next fits rest
    · obtain ⟨t', first, inside', fitting'⟩ := next
      obtain ⟨rest, rfl⟩ := List.head?_eq_some_iff.1 first
      rw [takes rest id inside' fitting']
      refine ⟨[t'], rfl, ?_, fun _ => List.cons_ne_nil _ _, fun after _ i _ => ?_⟩
      · exact List.forall_mem_singleton.2 (allowed _ inside' fitting')
      · exact takes after id inside' fitting'
    · rw [refuses id next]
      refine ⟨[], rfl, List.forall_mem_nil _, .inl rfl, fun _ _ => rfl, fun after same i _ => ?_,
        fun _ _ some => absurd rfl some⟩
      rw [List.nil_append, next_alike id id same.symm]
      exact refuses id fun next' => next (next'.alike same)
  · exact fun rest i id _ _ => .inl ⟨t, id, takes rest id inside fitting⟩

theorem Predicts.mark {m : Mark} {what : Expectation} (allowed : may (.mark m) = true) :
    Predicts known may closes [.bare (.mark m)] n size (expectMark m what)
      (fun _ => expectMark m what) := by
  refine .expect rfl (TokenKind.isMark_iff.2 rfl) fun k _ is => ?_
  rwa [TokenKind.isMark_iff.1 is]

theorem Predicts.name {what : Expectation} (allowed : may .identifier = true) :
    Predicts known may closes [.bare .identifier] n size (expectName what)
      (fun _ => expectName what) := by
  refine .expect rfl rfl fun k _ is => ?_
  rwa [TokenKind.isIdentifier_iff.1 is]

/-! Parts that do not look at what comes after them. -/

theorem Predicts.makeThen {build : ExprId → Expr} {f : Expr → Reader β} {f' : ι → Expr → Reader β}
    (second : ∀ e, Predicts known may closes least n size (f e) fun i => f' i e) :
    Predicts known may closes least n size (Reader.make build >>= f)
      (fun i => Reader.make build >>= f' i) := by
  have first : Predicts known may (fun _ => True) [] n size (Reader.make build)
      (fun _ : ι => Reader.make build) := .make build
  exact first.bind second fun _ _ => trivial

theorem Predicts.markThen {m : Mark} {what : Expectation} {f : Token → Reader β}
    {f' : ι → Token → Reader β} (allowed : may (.mark m) = true)
    (second : ∀ t, Predicts known may closes least n size (f t) fun i => f' i t) :
    Predicts known may closes (.bare (.mark m) :: least) n size (expectMark m what >>= f)
      (fun i => expectMark m what >>= f' i) := by
  have first : Predicts known may (fun _ => True) [.bare (.mark m)] n size (expectMark m what)
      (fun _ : ι => expectMark m what) := .mark allowed
  exact first.bind second fun _ _ => trivial

theorem Predicts.nameThen {what : Expectation} {f : Token → Reader β} {f' : ι → Token → Reader β}
    (allowed : may .identifier = true)
    (second : ∀ t, Predicts known may closes least n size (f t) fun i => f' i t) :
    Predicts known may closes (.bare .identifier :: least) n size (expectName what >>= f)
      (fun i => expectName what >>= f' i) := by
  have first : Predicts known may (fun _ => True) [.bare .identifier] n size (expectName what)
      (fun _ : ι => expectName what) := .name allowed
  exact first.bind second fun _ _ => trivial

/-- A token stands before what was taken. -/
theorem ToldOk.taking {t : Token} {a : α} {used rest : List Token} {id : ExprId} {d : Cursor}
    (told : ToldOk may closes least' (fun i => size i - 1) s' ⟨rest, id⟩ d a used)
    (allowed : may t.kind = true) (does : ∀ i after, r' i ⟨t :: after, id⟩ = s' i ⟨after, id⟩) :
    ToldOk may closes least size r' ⟨t :: rest, id⟩ d a (t :: used) := by
  refine ⟨congrArg (t :: ·) told.split, List.forall_mem_cons.2 ⟨allowed, told.kinds⟩,
    fun _ => List.cons_ne_nil _ _, fun after next i room => ?_⟩
  rw [List.cons_append, does]
  exact told.alike after next i (Nat.lt_sub_of_add_lt room)

/-- The same for an error, which may point to this token. Where nothing else was taken, the phrase
is still to come. -/
theorem ToldError.taking {t : Token} {e : SyntaxError} {used rest : List Token} {id : ExprId}
    {d : Cursor} (told : ToldError (fun u => u = t ∨ known u) may closes (fun i => size i - 1) s'
      ⟨rest, id⟩ d e used)
    (seeded : Seeded closes least' (fun i => size i - 1) s') (allowed : may t.kind = true)
    (does : ∀ i after, r' i ⟨t :: after, id⟩ = s' i ⟨after, id⟩) :
    ToldError known may closes size r' ⟨t :: rest, id⟩ d e (t :: used) := by
  have blamed : e.token = d.next ∨ e.token ∈ t :: used ∨ known e.token := by
    rcases told.blamed with next | among | rfl | known
    · exact .inl next
    · exact .inr (.inl (List.mem_cons_of_mem t among))
    · exact .inr (.inl List.mem_cons_self)
    · exact .inr (.inr known)
  refine ⟨congrArg (t :: ·) told.split, List.forall_mem_cons.2 ⟨allowed, told.kinds⟩, blamed,
    told.asks, ?_, ?_⟩
  · intro after next i room
    rw [List.cons_append, does]
    exact told.alike after next i (Nat.lt_sub_of_add_lt room)
  · intro what is _
    have completes : ∃ added, ∀ after, closes after → ∀ i,
        (used ++ added ++ after).length < size i - 1 →
          Finishes (s' i) (used ++ added) after id := by
      by_cases nothing : used = []
      · subst nothing
        exact ⟨least', fun after closing i room => seeded after i id closing room⟩
      · exact told.mended what is nothing
    obtain ⟨added, mends⟩ := completes
    refine ⟨added, fun after closing i room => ?_⟩
    exact (mends after closing i (Nat.lt_sub_of_add_lt room)).congr (does i _)

/-- What comes after a token, told from that token on. -/
theorem Proceeds.after {t : Token}
    (proceeds : Proceeds known may closes t (n - 1) (fun i => size i - 1) s s')
    (allowed : may t.kind = true) {rest : List Token} {id : ExprId}
    (short : (t :: rest).length < n) (does : ∀ i after, r' i ⟨t :: after, id⟩ = s' i ⟨after, id⟩) :
    Told known may closes least size r' ⟨t :: rest, id⟩ (s ⟨rest, id⟩) := by
  rw [List.length_cons] at short
  cases proceeds with
  | tooMany role refused refused' =>
    rw [refused]
    refine ⟨[t], rfl, List.forall_mem_singleton.2 allowed, .inl rfl, fun _ _ => rfl,
      fun after same i _ => ?_, fun _ is => nomatch is⟩
    rw [List.singleton_append, does, refused', refuse, next_alike id id same]
  | phrase follows predicts =>
    have told := predicts.foretells ⟨rest, id⟩ (Nat.lt_sub_of_add_lt short)
    cases reading : s ⟨rest, id⟩ with
    | ok b d =>
      rw [reading] at told
      obtain ⟨used, told⟩ := told
      exact ⟨t :: used, told.taking allowed does⟩
    | error e d =>
      rw [reading] at told
      obtain ⟨used, told⟩ := told
      exact ⟨t :: used, told.taking predicts.seeded allowed does⟩

theorem Predicts.proceeds {t : Token} (predicts : Predicts known may closes least n size r r') :
    Proceeds known may closes t n size r r' :=
  .phrase least (predicts.imp (fun _ => .inr) (fun _ allowed => allowed) fun _ closing => closing)

/-- A choice by whether the next token fits. -/
theorem Predicts.accept {fits : TokenKind → Bool} {f : Option Token → Reader β}
    {f' : ι → Option Token → Reader β}
    (taken : ∀ t, fits t.kind = true →
      Proceeds known may closes t (n - 1) (fun i => size i - 1) (f (some t)) fun i => f' i (some t))
    (other : Predicts known may closes least n size (f none) fun i => f' i none)
    (allowed : ∀ k, k.isEnd = false → fits k = true → may k = true)
    (apart : ∀ rest, closes rest → ¬ Next fits (least ++ rest)) :
    Predicts known may closes least n size (accept? fits >>= f) fun i => accept? fits >>= f' i := by
  have leaves {rest : List Token} (id : ExprId) (absent : ¬ Next fits rest) (i : ι) :
      (accept? fits >>= f' i) ⟨rest, id⟩ = f' i none ⟨rest, id⟩ :=
    bind_of_ok (accept?_none id absent)
  constructor
  · rintro ⟨rest, id⟩ short
    by_cases next : Next fits rest
    · obtain ⟨t, first, inside, fitting⟩ := next
      obtain ⟨rest, rfl⟩ := List.head?_eq_some_iff.1 first
      rw [bind_of_ok (accept?_some rest id inside fitting)]
      refine (taken t fitting).after (allowed _ inside fitting) short fun i after => ?_
      exact bind_of_ok (accept?_some after id inside fitting)
    · rw [bind_of_ok (accept?_none id next)]
      -- What is read before the same next token is left by the choice too.
      refine (other.foretells ⟨rest, id⟩ short).transfer (fun i => i) (fun _ => Nat.le_refl _)
        fun used left after split follows i _ => leaves id ?_ i
      change rest = used ++ left at split
      by_cases nothing : used = []
      · rcases follows nothing with same | ⟨none, closing⟩
        · exact fun next' => next (next'.alike (by rw [split]; exact head_alike fun _ => same))
        · rw [nothing, ← none]
          exact apart after closing
      · refine fun next' => next (next'.alike ?_)
        rw [split]
        exact head_alike fun none => absurd none nothing
  · intro rest i id closing room
    exact (other.seeded rest i id closing room).congr (leaves id (apart rest closing) i)

/-! ### Looking at the next token -/

theorem Foretells.seen {t : Token} (foretells : Foretells known may closes least n size r r') :
    ForetellsFrom t known may closes least n size r r' := fun c short _ => foretells c short

theorem ForetellsFrom.refused {t : Token} {cause : SyntaxCause} :
    ForetellsFrom t known may closes least n size (refuse cause : Reader α)
      (fun _ : ι => refuse cause) := by
  intro c _ _
  refine ⟨[], rfl, List.forall_mem_nil _, .inl rfl, fun _ _ => rfl, fun after same i _ => ?_,
    fun _ _ some => absurd rfl some⟩
  rw [List.nil_append, refuse, next_alike c.nextId c.nextId same]

/-- The token is passed over. -/
theorem Predicts.skipped {t : Token} {k : TokenKind}
    (predicts : Predicts known may closes least' (n - 1) (fun i => size i - 1) r r')
    (is : t.kind = k) (inside : k.isEnd = false) (allowed : may k = true) :
    ForetellsFrom t known may closes least n size (skip >>= fun _ => r)
      (fun i => skip >>= fun _ => r' i) := by
  subst is
  rintro ⟨rest, id⟩ short next
  cases rest with
  | nil =>
    subst next
    cases inside
  | cons first rest =>
    obtain rfl : first = t := next
    exact predicts.proceeds.after allowed short fun _ _ => rfl

theorem Predicts.look {f : Token → Reader β} {f' : ι → Token → Reader β}
    (each : ∀ t, ForetellsFrom t known may closes least n size (f t) fun i => f' i t)
    (some : least ≠ []) (seeded : Seeded closes least size fun i => peek >>= f' i) :
    Predicts known may closes least n size (peek >>= f) fun i => peek >>= f' i := by
  refine ⟨fun c short => ?_, seeded⟩
  refine (each c.next c short rfl).transfer (fun i => i) (fun _ => Nat.le_refl _)
    fun used left after split follows i _ => ?_
  have same (none : used = []) : after.head? = left.head? :=
    (follows none).resolve_right fun closing => some closing.1
  show f' i (Cursor.next ⟨used ++ after, c.nextId⟩) _ = _
  rw [next_alike c.nextId c.nextId (head_alike same), ← split]

/-- Nothing where the next token stops it, something else where it does not. -/
theorem Predicts.unless (stop : TokenKind → Bool) (x : α)
    (other : Foretells known may closes least n size s s') (some : least ≠ [])
    (does : ∀ c, c.rest.length < n → r c = if stop c.next.kind then .ok x c else s c)
    (does' : ∀ i c, c.rest.length < size i → r' i c = if stop c.next.kind then .ok x c else s' i c)
    (stops : ∀ rest, closes rest → stop (rest.headD Token.endOfInput).kind = true) :
    Predicts known may closes [] n size r r' := by
  constructor
  · intro c short
    rw [does c short]
    by_cases stopped : stop c.next.kind = true
    · rw [if_pos stopped]
      refine ⟨[], rfl, List.forall_mem_nil _, fun some => absurd rfl some,
        fun after follows i room => ?_⟩
      rw [List.nil_append] at room ⊢
      rw [does' i ⟨after, c.nextId⟩ room]
      rcases follows with same | closing
      · rw [next_alike c.nextId c.nextId same]
        exact if_pos stopped
      · exact if_pos (stops after closing)
    · rw [if_neg stopped]
      refine ((other c short).transfer (fun i => i) (fun _ => Nat.le_refl _)
        fun used left after split follows i room => ?_).possibly
      have same (none : used = []) : after.head? = left.head? :=
        (follows none).resolve_right fun closing => some closing.1
      rw [does' i ⟨used ++ after, c.nextId⟩ room,
        next_alike c.nextId c.nextId (head_alike same), ← split]
      exact if_neg stopped
  · intro rest i id closing room
    refine .inl ⟨x, id, ?_⟩
    rw [does' i ⟨[] ++ rest, id⟩ room]
    exact if_pos (stops rest closing)

end Rules

end Lox
