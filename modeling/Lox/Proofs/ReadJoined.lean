import Mathlib
import Lox.Grammar.Program
import Lox.Proofs.Stateful

/-!
Reading a text that goes on where it ended before. A reader looks at one token past what it takes,
so what was read before the end of the text is read the same before more text, unless the end was
needed to know that it was complete.
-/

namespace Lox

/-- The two readers read the same from the tokens `ts`, the first before `e` and the second before
`more`, unless the first one fails or comes to the end. -/
def UpToEnd {α : Type} (e : Token) (more ts : List Token) (r r' : Reader α) : Prop :=
  ∀ lo, (∃ a rest hi, rest ≠ [] ∧ rest <:+ ts ∧ r ⟨ts ++ [e], lo⟩ = .ok a ⟨rest ++ [e], hi⟩ ∧
      r' ⟨ts ++ more, lo⟩ = .ok a ⟨rest ++ more, hi⟩) ∨
    (∃ a hi, r ⟨ts ++ [e], lo⟩ = .ok a ⟨[e], hi⟩) ∨ ∃ x d, r ⟨ts ++ [e], lo⟩ = .error x d

/-- The two read the same, up to the end as well, unless the first one fails. -/
def ToEnd {α : Type} (e : Token) (more ts : List Token) (r r' : Reader α) : Prop :=
  ∀ lo, (∃ a rest hi, rest <:+ ts ∧ r ⟨ts ++ [e], lo⟩ = .ok a ⟨rest ++ [e], hi⟩ ∧
      r' ⟨ts ++ more, lo⟩ = .ok a ⟨rest ++ more, hi⟩) ∨ ∃ x d, r ⟨ts ++ [e], lo⟩ = .error x d

/-- The same, and at least one token is taken. -/
def TakesToEnd {α : Type} (e : Token) (more ts : List Token) (r r' : Reader α) : Prop :=
  ∀ lo, (∃ a rest hi, rest.length < ts.length ∧ rest <:+ ts ∧
      r ⟨ts ++ [e], lo⟩ = .ok a ⟨rest ++ [e], hi⟩ ∧
        r' ⟨ts ++ more, lo⟩ = .ok a ⟨rest ++ more, hi⟩) ∨ ∃ x d, r ⟨ts ++ [e], lo⟩ = .error x d

section Rules

open Reader

variable {α β : Type} {e : Token} {more ts : List Token} {r r' : Reader α} {f f' : α → Reader β}

theorem TakesToEnd.toEnd (takes : TakesToEnd e more ts r r') : ToEnd e more ts r r' := by
  intro lo
  rcases takes lo with ⟨a, rest, hi, -, part, reads, reads'⟩ | fails
  · exact .inl ⟨a, rest, hi, part, reads, reads'⟩
  · exact .inr fails

theorem ToEnd.upToEnd (toEnd : ToEnd e more ts r r') : UpToEnd e more ts r r' := by
  intro lo
  rcases toEnd lo with ⟨a, rest, hi, part, reads, reads'⟩ | fails
  · cases rest with
    | nil => exact .inr (.inl ⟨a, hi, reads⟩)
    | cons t rest => exact .inl ⟨a, t :: rest, hi, List.cons_ne_nil t rest, part, reads, reads'⟩
  · exact .inr (.inr fails)

/-- Where no token is left, none can be taken. -/
theorem TakesToEnd.fails (takes : TakesToEnd e more [] r r') (lo : ExprId) :
    ∃ x d, r ⟨[e], lo⟩ = .error x d := by
  rcases takes lo with ⟨_, _, _, shorter, -⟩ | fails
  · exact absurd shorter (Nat.not_lt_zero _)
  · exact fails

/-- At the end, a reader stays there or fails. -/
theorem UpToEnd.stays (upToEnd : UpToEnd e more [] r r') (lo : ExprId) :
    (∃ a hi, r ⟨[e], lo⟩ = .ok a ⟨[e], hi⟩) ∨ ∃ x d, r ⟨[e], lo⟩ = .error x d := by
  rcases upToEnd lo with ⟨_, _, _, some, part, -⟩ | stays
  · exact absurd (List.suffix_nil.1 part) some
  · exact stays

theorem UpToEnd.bind (first : UpToEnd e more ts r r')
    (second : ∀ a rest, rest <:+ ts → UpToEnd e more rest (f a) (f' a)) :
    UpToEnd e more ts (r >>= f) (r' >>= f') := by
  intro lo
  rcases first lo with ⟨a, rest, hi, -, part, reads, reads'⟩ | ⟨a, hi, reads⟩ | ⟨x, d, fails⟩
  · rw [bind_of_ok reads, bind_of_ok reads']
    rcases second a rest part hi with ⟨b, rest', hi', some, part', next, next'⟩ | stays
    · exact .inl ⟨b, rest', hi', some, part'.trans part, next, next'⟩
    · exact .inr stays
  · rw [bind_of_ok reads]
    exact .inr ((second a [] (List.nil_suffix)).stays hi)
  · exact .inr (.inr ⟨x, d, bind_of_error fails⟩)

/-- What takes a token after all that was read shows that it was complete. -/
theorem UpToEnd.then_takes (first : UpToEnd e more ts r r')
    (second : ∀ a rest, rest <:+ ts → TakesToEnd e more rest (f a) (f' a)) :
    TakesToEnd e more ts (r >>= f) (r' >>= f') := by
  intro lo
  rcases first lo with ⟨a, rest, hi, -, part, reads, reads'⟩ | ⟨a, hi, reads⟩ | ⟨x, d, fails⟩
  · rw [bind_of_ok reads, bind_of_ok reads']
    rcases second a rest part hi with ⟨b, rest', hi', shorter, part', next, next'⟩ | fails
    · exact .inl ⟨b, rest', hi', Nat.lt_of_lt_of_le shorter part.length_le, part'.trans part, next,
        next'⟩
    · exact .inr fails
  · rw [bind_of_ok reads]
    exact .inr ((second a [] (List.nil_suffix)).fails hi)
  · exact .inr ⟨x, d, bind_of_error fails⟩

theorem TakesToEnd.bind (first : TakesToEnd e more ts r r')
    (second : ∀ a rest, rest <:+ ts → ToEnd e more rest (f a) (f' a)) :
    TakesToEnd e more ts (r >>= f) (r' >>= f') := by
  intro lo
  rcases first lo with ⟨a, rest, hi, shorter, part, reads, reads'⟩ | ⟨x, d, fails⟩
  · rw [bind_of_ok reads, bind_of_ok reads']
    rcases second a rest part hi with ⟨b, rest', hi', part', next, next'⟩ | fails
    · exact .inl ⟨b, rest', hi', Nat.lt_of_le_of_lt part'.length_le shorter, part'.trans part, next,
        next'⟩
    · exact .inr fails
  · exact .inr ⟨x, d, bind_of_error fails⟩

theorem ToEnd.bind (first : ToEnd e more ts r r')
    (second : ∀ a rest, rest <:+ ts → ToEnd e more rest (f a) (f' a)) :
    ToEnd e more ts (r >>= f) (r' >>= f') := by
  intro lo
  rcases first lo with ⟨a, rest, hi, part, reads, reads'⟩ | ⟨x, d, fails⟩
  · rw [bind_of_ok reads, bind_of_ok reads']
    rcases second a rest part hi with ⟨b, rest', hi', part', next, next'⟩ | fails
    · exact .inl ⟨b, rest', hi', part'.trans part, next, next'⟩
    · exact .inr fails
  · exact .inr ⟨x, d, bind_of_error fails⟩

theorem ToEnd.pure (a : α) : ToEnd e more ts (Pure.pure a) (Pure.pure a) :=
  fun lo => .inl ⟨a, ts, lo, List.suffix_refl ts, rfl, rfl⟩

theorem ToEnd.make (build : ExprId → Expr) : ToEnd e more ts (make build) (make build) :=
  fun lo => .inl ⟨build lo, ts, lo + 1, List.suffix_refl ts, rfl, rfl⟩

theorem TakesToEnd.refuse (cause : SyntaxCause) (r' : Reader α) :
    TakesToEnd e more ts (refuse cause) r' := fun _ => .inr ⟨_, _, rfl⟩

theorem TakesToEnd.throw (x : SyntaxError) (r' : Reader α) :
    TakesToEnd e more ts (throw x) r' := fun _ => .inr ⟨_, _, rfl⟩

variable (ends : e.kind.isEnd = true)
include ends

theorem accept?_end (fits : TokenKind → Bool) (lo : ExprId) :
    accept? fits ⟨[e], lo⟩ = .ok none ⟨[e], lo⟩ := by
  simp [accept?, ends]

omit ends in
theorem accept?_cons (fits : TokenKind → Bool) (t : Token) (after : List Token) (lo : ExprId) :
    accept? fits ⟨t :: after, lo⟩ =
      if !t.kind.isEnd && fits t.kind then .ok (some t) ⟨after, lo⟩
      else .ok none ⟨t :: after, lo⟩ := rfl

/-- A token that fits is taken, and the rest is shorter; or the reader goes on without it. -/
theorem UpToEnd.accept_then {fits : TokenKind → Bool} {f f' : Option Token → Reader β}
    (taken : ∀ t rest, ts = t :: rest → UpToEnd e more rest (f (some t)) (f' (some t)))
    (other : UpToEnd e more ts (f none) (f' none)) :
    UpToEnd e more ts (accept? fits >>= f) (accept? fits >>= f') := by
  intro lo
  cases ts with
  | nil =>
    rw [List.nil_append, bind_of_ok (accept?_end ends fits lo)]
    exact .inr (other.stays lo)
  | cons t ts =>
    by_cases fitting : (!t.kind.isEnd && fits t.kind) = true
    · have reads (after : List Token) : accept? fits ⟨t :: after, lo⟩ = .ok (some t) ⟨after, lo⟩ := by
        rw [accept?_cons, if_pos fitting]
      rw [List.cons_append, List.cons_append, bind_of_ok (reads _), bind_of_ok (reads _)]
      rcases taken t ts rfl lo with ⟨a, rest, hi, some, part, next, next'⟩ | stays
      · exact .inl ⟨a, rest, hi, some, part.trans (List.suffix_cons t ts), next, next'⟩
      · exact .inr stays
    · have reads (after : List Token) : accept? fits ⟨t :: after, lo⟩ = .ok none ⟨t :: after, lo⟩ := by
        rw [accept?_cons, if_neg fitting]
      rw [List.cons_append, List.cons_append, bind_of_ok (reads _), bind_of_ok (reads _)]
      exact other lo

/-- The same up to the end, if no token that fits comes first in what follows. -/
theorem ToEnd.accept_then {fits : TokenKind → Bool} {f f' : Option Token → Reader β}
    (apart : ∀ t ∈ more.head?, fits t.kind = false)
    (taken : ∀ t rest, ts = t :: rest → ToEnd e more rest (f (some t)) (f' (some t)))
    (other : ToEnd e more ts (f none) (f' none)) :
    ToEnd e more ts (accept? fits >>= f) (accept? fits >>= f') := by
  intro lo
  cases ts with
  | nil =>
    have reads' : accept? fits ⟨more, lo⟩ = .ok none ⟨more, lo⟩ := by
      cases more with
      | nil => rfl
      | cons t more =>
        have differ : ¬ (!t.kind.isEnd && fits t.kind) = true := by simp [apart t rfl]
        rw [accept?_cons, if_neg differ]
    rw [List.nil_append, List.nil_append, bind_of_ok (accept?_end ends fits lo), bind_of_ok reads']
    exact other lo
  | cons t ts =>
    by_cases fitting : (!t.kind.isEnd && fits t.kind) = true
    · have reads (after : List Token) : accept? fits ⟨t :: after, lo⟩ = .ok (some t) ⟨after, lo⟩ := by
        rw [accept?_cons, if_pos fitting]
      rw [List.cons_append, List.cons_append, bind_of_ok (reads _), bind_of_ok (reads _)]
      rcases taken t ts rfl lo with ⟨a, rest, hi, part, next, next'⟩ | fails
      · exact .inl ⟨a, rest, hi, part.trans (List.suffix_cons t ts), next, next'⟩
      · exact .inr fails
    · have reads (after : List Token) : accept? fits ⟨t :: after, lo⟩ = .ok none ⟨t :: after, lo⟩ := by
        rw [accept?_cons, if_neg fitting]
      rw [List.cons_append, List.cons_append, bind_of_ok (reads _), bind_of_ok (reads _)]
      exact other lo

/-- The same, if the reader takes a token also where it goes on without this one. -/
theorem TakesToEnd.accept_then {fits : TokenKind → Bool} {f f' : Option Token → Reader β}
    (taken : ∀ t rest, ts = t :: rest → ToEnd e more rest (f (some t)) (f' (some t)))
    (other : TakesToEnd e more ts (f none) (f' none)) :
    TakesToEnd e more ts (accept? fits >>= f) (accept? fits >>= f') := by
  intro lo
  cases ts with
  | nil =>
    rw [List.nil_append, bind_of_ok (accept?_end ends fits lo)]
    exact .inr (other.fails lo)
  | cons t ts =>
    by_cases fitting : (!t.kind.isEnd && fits t.kind) = true
    · have reads (after : List Token) : accept? fits ⟨t :: after, lo⟩ = .ok (some t) ⟨after, lo⟩ := by
        rw [accept?_cons, if_pos fitting]
      rw [List.cons_append, List.cons_append, bind_of_ok (reads _), bind_of_ok (reads _)]
      rcases taken t ts rfl lo with ⟨a, rest, hi, part, next, next'⟩ | fails
      · exact .inl ⟨a, rest, hi, Nat.lt_succ_of_le part.length_le,
          part.trans (List.suffix_cons t ts), next, next'⟩
      · exact .inr fails
    · have reads (after : List Token) : accept? fits ⟨t :: after, lo⟩ = .ok none ⟨t :: after, lo⟩ := by
        rw [accept?_cons, if_neg fitting]
      rw [List.cons_append, List.cons_append, bind_of_ok (reads _), bind_of_ok (reads _)]
      exact other lo

theorem TakesToEnd.expect (fits : TokenKind → Bool) (what : Expectation) :
    TakesToEnd e more ts (expect fits what) (expect fits what) := by
  intro lo
  unfold Reader.expect
  cases ts with
  | nil =>
    rw [List.nil_append, bind_of_ok (accept?_end ends fits lo)]
    exact .inr ⟨_, _, rfl⟩
  | cons t ts =>
    by_cases fitting : (!t.kind.isEnd && fits t.kind) = true
    · have reads (after : List Token) : accept? fits ⟨t :: after, lo⟩ = .ok (some t) ⟨after, lo⟩ := by
        rw [accept?_cons, if_pos fitting]
      rw [List.cons_append, List.cons_append, bind_of_ok (reads _), bind_of_ok (reads _)]
      exact .inl ⟨t, ts, lo, Nat.lt_succ_self _, List.suffix_cons t ts, rfl, rfl⟩
    · have reads (after : List Token) : accept? fits ⟨t :: after, lo⟩ = .ok none ⟨t :: after, lo⟩ := by
        rw [accept?_cons, if_neg fitting]
      rw [List.cons_append, bind_of_ok (reads _)]
      exact .inr ⟨_, _, rfl⟩

theorem TakesToEnd.expectMark (m : Mark) (what : Expectation) :
    TakesToEnd e more ts (expectMark m what) (expectMark m what) := .expect ends _ what

theorem TakesToEnd.expectName (what : Expectation) :
    TakesToEnd e more ts (expectName what) (expectName what) := .expect ends _ what

omit ends in
theorem UpToEnd.check (fits : TokenKind → Bool) :
    UpToEnd e more ts (check fits) (check fits) := by
  intro lo
  cases ts with
  | nil => exact .inr (.inl ⟨_, lo, rfl⟩)
  | cons t ts => exact .inl ⟨_, t :: ts, lo, List.cons_ne_nil t ts, List.suffix_refl _, rfl, rfl⟩

omit ends in
theorem UpToEnd.peek_then {f f' : Token → Reader β}
    (inside : ∀ t rest, ts = t :: rest → UpToEnd e more ts (f t) (f' t))
    (atEnd : ts = [] → UpToEnd e more [] (f e) (f e)) :
    UpToEnd e more ts (peek >>= f) (peek >>= f') := by
  intro lo
  cases ts with
  | nil => exact .inr ((atEnd rfl).stays lo)
  | cons t ts => exact inside t ts rfl lo

omit ends in
theorem TakesToEnd.peek_then {f f' : Token → Reader β}
    (inside : ∀ t rest, ts = t :: rest → TakesToEnd e more (t :: rest) (f t) (f' t))
    (atEnd : ts = [] → TakesToEnd e more [] (f e) (f e)) :
    TakesToEnd e more ts (peek >>= f) (peek >>= f') := by
  intro lo
  cases ts with
  | nil => exact .inr ((atEnd rfl).fails lo)
  | cons t ts => exact inside t ts rfl lo

omit ends in
theorem TakesToEnd.skip_then {t : Token} {f f' : Unit → Reader β}
    (next : ToEnd e more ts (f ()) (f' ())) :
    TakesToEnd e more (t :: ts) (skip >>= f) (skip >>= f') := by
  intro lo
  rcases next lo with ⟨a, rest, hi, part, reads, reads'⟩ | fails
  · exact .inl ⟨a, rest, hi, Nat.lt_succ_of_le part.length_le, part.trans (List.suffix_cons t ts),
      reads, reads'⟩
  · exact .inr fails

/-! ### Lists -/

variable {bound bound' size : Nat}

theorem UpToEnd.moreItems {role : ListRole}
    (item : ∀ rest, rest.length ≤ size → UpToEnd e more rest r r') (long : ts.length ≤ size)
    (enough : ts.length ≤ bound) (fits : bound ≤ bound') (count : Nat) :
    UpToEnd e more ts (moreItems role r bound count) (moreItems role r' bound' count) := by
  induction bound generalizing bound' ts count with
  | zero =>
    obtain rfl := List.length_eq_zero_iff.1 (Nat.le_zero.1 enough)
    exact fun lo => .inr (.inl ⟨[], lo, rfl⟩)
  | succ bound ih =>
    obtain ⟨bound', rfl⟩ := Nat.exists_eq_add_of_le' (Nat.le_trans (Nat.succ_pos bound) fits)
    refine UpToEnd.accept_then ends (fun comma rest same => ?_) (ToEnd.pure []).upToEnd
    subst same
    have shorter : rest.length ≤ bound := Nat.le_of_succ_le_succ enough
    have within : rest.length ≤ size := Nat.le_of_succ_le long
    dsimp only
    split
    · exact (TakesToEnd.refuse _ _).toEnd.upToEnd
    · refine (item rest within).bind fun x after part => ?_
      have le := part.length_le
      exact (ih (Nat.le_trans le within) (Nat.le_trans le shorter) (Nat.le_of_succ_le_succ fits)
        (count + 1)).bind fun xs _ _ => (ToEnd.pure _).upToEnd

theorem UpToEnd.items {role : ListRole}
    (item : ∀ rest, rest.length ≤ size → UpToEnd e more rest r r') (long : ts.length ≤ size)
    (enough : ts.length ≤ bound) (fits : bound ≤ bound') :
    UpToEnd e more ts (items role r bound) (items role r' bound') := by
  refine (UpToEnd.check _).bind fun closing rest part => ?_
  have le := part.length_le
  cases closing with
  | true => exact (ToEnd.pure _).upToEnd
  | false =>
    refine (item rest (Nat.le_trans le long)).bind fun x after part' => ?_
    have le' := Nat.le_trans part'.length_le le
    exact (UpToEnd.moreItems ends item (Nat.le_trans le' long) (Nat.le_trans le' enough) fits
      1).bind fun xs _ _ => (ToEnd.pure _).upToEnd

theorem UpToEnd.itemsToBrace
    (item : ∀ rest, rest.length ≤ size → TakesToEnd e more rest r r') (long : ts.length ≤ size)
    (enough : ts.length ≤ bound) (fits : bound ≤ bound') :
    UpToEnd e more ts (itemsToBrace r bound) (itemsToBrace r' bound') := by
  induction bound generalizing bound' ts with
  | zero =>
    obtain rfl := List.length_eq_zero_iff.1 (Nat.le_zero.1 enough)
    exact fun lo => .inr (.inl ⟨[], lo, rfl⟩)
  | succ bound ih =>
    obtain ⟨bound', rfl⟩ := Nat.exists_eq_add_of_le' (Nat.le_trans (Nat.succ_pos bound) fits)
    refine UpToEnd.peek_then (fun t rest same => ?_) fun _ => ?_
    · split
      · exact (ToEnd.pure _).upToEnd
      · intro lo
        -- the first item takes a token, so the bound is enough for the items after it
        rcases item ts long lo with ⟨x, after, mid, shorter, part, reads, reads'⟩ | ⟨x, d, fails⟩
        · rw [bind_of_ok reads, bind_of_ok reads']
          have rest := (ih (Nat.le_trans part.length_le long)
            (Nat.le_of_lt_succ (Nat.lt_of_lt_of_le shorter enough)) (Nat.le_of_succ_le_succ fits)).bind
              fun xs _ _ => (ToEnd.pure (x :: xs)).upToEnd
          rcases rest mid with ⟨xs, last, hi, some, part', next, next'⟩ | stays
          · exact .inl ⟨xs, last, hi, some, part'.trans part, next, next'⟩
          · exact .inr stays
        · exact .inr (.inr ⟨x, d, bind_of_error fails⟩)
    · simp only [ends, Bool.true_or, if_true]
      exact (ToEnd.pure _).upToEnd

end Rules

namespace Grammar

open Reader

variable {e : Token} {more ts : List Token} {nested nested' : Reader Expr}
  {bound bound' size : Nat} (ends : e.kind = .endOfText)
include ends

theorem isEnd_of_kind : e.kind.isEnd = true := by rw [ends]; rfl

/-! ### Expressions -/

theorem chainFrom_joined (level : Level)
    (operand : ∀ rest, rest.length ≤ size → UpToEnd e more rest nested nested')
    (long : ts.length ≤ size) (enough : ts.length ≤ bound) (fits : bound ≤ bound') (left : Expr) :
    UpToEnd e more ts (chainFrom level nested bound left) (chainFrom level nested' bound' left) := by
  induction bound generalizing bound' ts left with
  | zero =>
    obtain rfl := List.length_eq_zero_iff.1 (Nat.le_zero.1 enough)
    exact fun lo => .inr (.inl ⟨left, lo, rfl⟩)
  | succ bound ih =>
    obtain ⟨bound', rfl⟩ := Nat.exists_eq_add_of_le' (Nat.le_trans (Nat.succ_pos bound) fits)
    refine UpToEnd.accept_then (isEnd_of_kind ends) (fun operator rest same => ?_)
      (ToEnd.pure _).upToEnd
    subst same
    refine (operand rest (Nat.le_of_succ_le long)).bind fun right after part =>
      (ToEnd.make _).upToEnd.bind fun tree after' part' => ?_
    have le := (part'.trans part).length_le
    exact ih (Nat.le_trans le (Nat.le_of_succ_le long))
      (Nat.le_trans le (Nat.le_of_succ_le_succ enough)) (Nat.le_of_succ_le_succ fits) tree

theorem chain_joined (level : Level)
    (operand : ∀ rest, rest.length ≤ size → UpToEnd e more rest nested nested')
    (long : ts.length ≤ size) (enough : ts.length ≤ bound) (fits : bound ≤ bound') :
    UpToEnd e more ts (chain level nested bound) (chain level nested' bound') :=
  (operand ts long).bind fun left _ part => chainFrom_joined ends level operand
    (Nat.le_trans part.length_le long) (Nat.le_trans part.length_le enough) fits left

theorem primary_joined
    (inner : ∀ rest, rest.length ≤ size → UpToEnd e more rest nested nested')
    (long : ts.length ≤ size + 1) (enough : ts.length ≤ bound) (fits : bound ≤ bound') :
    TakesToEnd e more ts (primary nested bound) (primary nested' bound') := by
  refine TakesToEnd.peek_then (fun t rest same => ?_) fun _ => ?_
  · subst same
    have made (build : ExprId → Expr) : TakesToEnd e more (t :: rest)
        (skip >>= fun _ => make build) (skip >>= fun _ => make build) :=
      TakesToEnd.skip_then (ToEnd.make build)
    have end_ := isEnd_of_kind ends
    obtain ⟨kind, lexeme, line⟩ := t
    cases kind with
    | number n => exact made _
    | string s => exact made _
    | identifier => exact made _
    | keyword word =>
      cases word with
      | false => exact made _
      | true => exact made _
      | nil => exact made _
      | this => exact made _
      | super =>
        exact TakesToEnd.skip_then ((TakesToEnd.expectMark end_ _ _).bind fun _ _ _ =>
          ((TakesToEnd.expectName end_ _).bind fun _ _ _ => .make _).toEnd).toEnd
      | _ => exact .refuse _ _
    | mark m =>
      cases m with
      | leftParen =>
        have enclosed : UpToEnd e more rest (expressionOf nested bound) (expressionOf nested' bound') :=
          chain_joined ends commaLevel inner (Nat.le_of_succ_le_succ long) (Nat.le_of_succ_le enough)
            fits
        exact TakesToEnd.skip_then (enclosed.then_takes fun inner _ _ =>
          (TakesToEnd.expectMark end_ _ _).bind fun _ _ _ => .make _).toEnd
      | _ => exact .refuse _ _
    | _ => exact .refuse _ _
  · simp only [ends]
    exact .refuse _ _

theorem suffixesFrom_joined
    (inner : ∀ rest, rest.length ≤ size → UpToEnd e more rest nested nested')
    (long : ts.length ≤ size + 1) (enough : ts.length ≤ bound) (fits : bound ≤ bound')
    (object : Expr) :
    UpToEnd e more ts (suffixesFrom nested bound object) (suffixesFrom nested' bound' object) := by
  have end_ := isEnd_of_kind ends
  induction bound generalizing bound' ts object with
  | zero =>
    obtain rfl := List.length_eq_zero_iff.1 (Nat.le_zero.1 enough)
    exact fun lo => .inr (.inl ⟨object, lo, rfl⟩)
  | succ bound ih =>
    obtain ⟨bound', rfl⟩ := Nat.exists_eq_add_of_le' (Nat.le_trans (Nat.succ_pos bound) fits)
    have goOn {rest after : List Token} {t : Token} (same : ts = t :: rest) (part : after <:+ rest)
        (tree : Expr) : UpToEnd e more after (suffixesFrom nested bound tree)
          (suffixesFrom nested' bound' tree) := by
      subst same
      have le := part.length_le
      exact ih (Nat.le_trans le (Nat.le_of_succ_le long))
        (Nat.le_trans le (Nat.le_of_succ_le_succ enough)) (Nat.le_of_succ_le_succ fits) tree
    refine UpToEnd.accept_then end_ (fun opening rest same => ?_) ?_
    · have shorter : rest.length ≤ size ∧ rest.length ≤ bound := by
        subst same
        exact ⟨Nat.le_of_succ_le_succ long, Nat.le_of_succ_le_succ enough⟩
      refine (UpToEnd.items end_ inner shorter.1 shorter.2 (Nat.le_of_succ_le_succ fits)).bind
        fun arguments after part => ?_
      refine (TakesToEnd.expectMark end_ _ _).toEnd.upToEnd.bind fun paren after' part' => ?_
      refine (ToEnd.make _).upToEnd.bind fun tree after'' part'' => ?_
      exact goOn same (part''.trans (part'.trans part)) tree
    · refine UpToEnd.accept_then end_ (fun dot rest same => ?_) (ToEnd.pure _).upToEnd
      refine (TakesToEnd.expectName end_ _).toEnd.upToEnd.bind fun name after part => ?_
      refine (ToEnd.make _).upToEnd.bind fun tree after' part' => ?_
      exact goOn same (part'.trans part) tree

theorem unaryFrom_joined
    (inner : ∀ rest, rest.length ≤ size → UpToEnd e more rest nested nested')
    (long : ts.length ≤ size + 1) (enough : ts.length ≤ bound) (fits : bound ≤ bound')
    {operators operators' : Nat} (enoughOperators : ts.length ≤ operators)
    (fitsOperators : operators ≤ operators') :
    UpToEnd e more ts (unaryFrom nested bound operators) (unaryFrom nested' bound' operators') := by
  have operand {rest : List Token} (part : rest <:+ ts) :
      UpToEnd e more rest (call nested bound) (call nested' bound') := by
    have le := part.length_le
    refine (primary_joined ends inner (Nat.le_trans le long) (Nat.le_trans le enough)
      fits).toEnd.upToEnd.bind fun object after part' => ?_
    have le' := Nat.le_trans part'.length_le le
    exact suffixesFrom_joined ends inner (Nat.le_trans le' long) (Nat.le_trans le' enough) fits object
  induction operators generalizing operators' ts with
  | zero =>
    obtain rfl := List.length_eq_zero_iff.1 (Nat.le_zero.1 enoughOperators)
    exact fun lo => .inr ((operand (List.suffix_refl [])).stays lo)
  | succ operators ih =>
    obtain ⟨operators', rfl⟩ :=
      Nat.exists_eq_add_of_le' (Nat.le_trans (Nat.succ_pos operators) fitsOperators)
    refine UpToEnd.accept_then (isEnd_of_kind ends) (fun operator rest same => ?_)
      (operand (List.suffix_refl ts))
    subst same
    have part := List.suffix_cons operator rest
    refine (ih (Nat.le_of_succ_le long) (Nat.le_of_succ_le enough)
      (Nat.le_of_succ_le_succ enoughOperators) (Nat.le_of_succ_le_succ fitsOperators)
      fun part' => operand (part'.trans part)).bind fun _ _ _ => (ToEnd.make _).upToEnd

theorem binary_joined
    (inner : ∀ rest, rest.length ≤ size → UpToEnd e more rest nested nested') (fits : bound ≤ bound')
    (tighter : List Level) (long : ts.length ≤ size + 1) (enough : ts.length ≤ bound) :
    UpToEnd e more ts (binary nested bound tighter) (binary nested' bound' tighter) := by
  induction tighter generalizing ts with
  | nil => exact unaryFrom_joined ends inner long enough fits enough fits
  | cons level tighter ih =>
    exact chain_joined ends level (fun rest le => ih (Nat.le_trans le long) (Nat.le_trans le enough))
      (Nat.le_refl _) enough fits

theorem ternary_joined
    (inner : ∀ rest, rest.length ≤ size → UpToEnd e more rest nested nested')
    (long : ts.length ≤ size + 1) (enough : ts.length ≤ bound) (fits : bound ≤ bound') :
    UpToEnd e more ts (ternary nested bound) (ternary nested' bound') := by
  have end_ := isEnd_of_kind ends
  refine (binary_joined ends inner fits levels long enough).bind fun condition rest part => ?_
  refine UpToEnd.accept_then end_ (fun question after same => ?_) (ToEnd.pure _).upToEnd
  subst same
  have le : after.length ≤ size := Nat.le_of_succ_le_succ (Nat.le_trans part.length_le long)
  refine (inner after le).bind fun yes after' part' => ?_
  refine (TakesToEnd.expectMark end_ _ _).toEnd.upToEnd.bind fun _ after'' part'' => ?_
  refine (inner after'' (Nat.le_trans (part''.trans part').length_le le)).bind fun no _ _ => ?_
  exact (ToEnd.make _).upToEnd

omit ends in
theorem assignTo_joined (target : Expr) (equals : Token) (value : Expr) :
    ToEnd e more ts (assignTo target equals value) (assignTo target equals value) := by
  cases target with
  | var id name =>
    rw [assignTo]
    exact .make _
  | get id object name =>
    rw [assignTo]
    exact .make _
  | _ => exact (TakesToEnd.throw _ _).toEnd

theorem assignment_joined (enough : ts.length ≤ bound) (fits : bound ≤ bound') :
    UpToEnd e more ts (assignment bound) (assignment bound') := by
  induction bound generalizing bound' ts with
  | zero => exact (TakesToEnd.refuse _ _).toEnd.upToEnd
  | succ bound ih =>
    obtain ⟨bound', rfl⟩ := Nat.exists_eq_add_of_le' (Nat.le_trans (Nat.succ_pos bound) fits)
    have inner (rest : List Token) (le : rest.length ≤ bound) :
        UpToEnd e more rest (assignment bound) (assignment bound') :=
      ih le (Nat.le_of_succ_le_succ fits)
    refine (ternary_joined ends inner enough enough fits).bind fun target rest part => ?_
    refine UpToEnd.accept_then (isEnd_of_kind ends) (fun equals after same => ?_)
      (ToEnd.pure _).upToEnd
    subst same
    have le := Nat.le_of_succ_le_succ (Nat.le_trans part.length_le enough)
    exact (inner after le).bind fun value _ _ => (assignTo_joined target equals value).upToEnd

theorem expression_joined (enough : ts.length ≤ bound) (fits : bound ≤ bound') :
    UpToEnd e more ts (expression bound) (expression bound') :=
  chain_joined ends commaLevel (fun _ le => assignment_joined ends le fits) enough enough fits

/-! ### Statements -/

variable {declared declared' stated stated' : Reader Stmt}

theorem block_joined
    (inner : ∀ rest, rest.length ≤ size → TakesToEnd e more rest declared declared')
    (long : ts.length ≤ size) (enough : ts.length ≤ bound) (fits : bound ≤ bound') :
    TakesToEnd e more ts (block declared bound) (block declared' bound') :=
  (UpToEnd.itemsToBrace (isEnd_of_kind ends) inner long enough fits).then_takes fun body _ _ =>
    (TakesToEnd.expectMark (isEnd_of_kind ends) _ _).bind fun _ _ _ => .pure body

theorem function_joined (role : FunctionRole)
    (inner : ∀ rest, rest.length ≤ size → TakesToEnd e more rest declared declared')
    (long : ts.length ≤ size) (enough : ts.length ≤ bound) (fits : bound ≤ bound') :
    TakesToEnd e more ts (function role declared bound) (function role declared' bound') := by
  have end_ := isEnd_of_kind ends
  refine (TakesToEnd.expectName end_ _).bind fun name a partA => ?_
  refine ((TakesToEnd.expectMark end_ _ _).bind fun _ b partB => ?_).toEnd
  have leB := (partB.trans partA).length_le
  have parameters : UpToEnd e more b (items .parameters (expectName .parameterName) bound)
      (items .parameters (expectName .parameterName) bound') :=
    UpToEnd.items end_ (fun _ _ => (TakesToEnd.expectName end_ _).toEnd.upToEnd)
      (Nat.le_refl _) (Nat.le_trans leB enough) fits
  refine (parameters.then_takes fun parameters c partC => ?_).toEnd
  refine (TakesToEnd.expectMark end_ _ _).bind fun _ d partD => ?_
  refine ((TakesToEnd.expectMark end_ _ _).bind fun _ f partF => ?_).toEnd
  have le := Nat.le_trans (partF.trans (partD.trans partC)).length_le leB
  exact ((block_joined ends inner (Nat.le_trans le long) (Nat.le_trans le enough) fits).bind
    fun body _ _ => .pure _).toEnd

theorem superclass_joined : UpToEnd e more ts superclass superclass := by
  have end_ := isEnd_of_kind ends
  refine UpToEnd.accept_then end_ (fun less rest same => ?_) (ToEnd.pure _).upToEnd
  exact ((TakesToEnd.expectName end_ _).bind fun name _ _ => (ToEnd.make _).bind fun tree _ _ =>
    .pure _).toEnd.upToEnd

theorem classDeclaration_joined
    (inner : ∀ rest, rest.length ≤ size → TakesToEnd e more rest declared declared')
    (long : ts.length ≤ size) (enough : ts.length ≤ bound) (fits : bound ≤ bound') :
    TakesToEnd e more ts (classDeclaration declared bound) (classDeclaration declared' bound') := by
  have end_ := isEnd_of_kind ends
  refine (TakesToEnd.expectName end_ _).bind fun name a partA => ?_
  refine ((superclass_joined ends).then_takes fun parent b partB => ?_).toEnd
  refine (TakesToEnd.expectMark end_ _ _).bind fun _ c partC => ?_
  have le := (partC.trans (partB.trans partA)).length_le
  have methods : UpToEnd e more c (itemsToBrace (function .method declared bound) bound)
      (itemsToBrace (function .method declared' bound') bound') :=
    UpToEnd.itemsToBrace end_ (fun rest le' => function_joined ends .method inner
      (Nat.le_trans le' (Nat.le_trans le long)) (Nat.le_trans le' (Nat.le_trans le enough)) fits)
      (Nat.le_refl _) (Nat.le_trans le enough) fits
  exact (methods.then_takes fun methods _ _ => (TakesToEnd.expectMark end_ _ _).bind fun _ _ _ =>
    .pure _).toEnd

theorem varDeclaration_joined (enough : ts.length ≤ bound) (fits : bound ≤ bound') :
    TakesToEnd e more ts (varDeclaration bound) (varDeclaration bound') := by
  have end_ := isEnd_of_kind ends
  refine (TakesToEnd.expectName end_ _).bind fun name a partA => ?_
  refine (TakesToEnd.accept_then end_ (fun equals rest same => ?_) ?_).toEnd
  · subst same
    have le := Nat.le_trans (Nat.le_of_succ_le partA.length_le) enough
    exact ((expression_joined ends le fits).then_takes fun _ _ _ =>
      (TakesToEnd.expectMark end_ _ _).bind fun _ _ _ => .pure _).toEnd
  · exact (TakesToEnd.expectMark end_ _ _).bind fun _ _ _ => .pure _

theorem expressionStatement_joined (enough : ts.length ≤ bound) (fits : bound ≤ bound') :
    TakesToEnd e more ts (expressionStatement bound) (expressionStatement bound') :=
  (expression_joined ends enough fits).then_takes fun _ _ _ =>
    (TakesToEnd.expectMark (isEnd_of_kind ends) _ _).bind fun _ _ _ => .pure _

theorem printStatement_joined (enough : ts.length ≤ bound) (fits : bound ≤ bound') :
    TakesToEnd e more ts (printStatement bound) (printStatement bound') :=
  (expression_joined ends enough fits).then_takes fun _ _ _ =>
    (TakesToEnd.expectMark (isEnd_of_kind ends) _ _).bind fun _ _ _ => .pure _

theorem expressionUnless_joined (last : Mark) (enough : ts.length ≤ bound) (fits : bound ≤ bound') :
    UpToEnd e more ts (expressionUnless last bound) (expressionUnless last bound') := by
  refine (UpToEnd.check _).bind fun closing rest part => ?_
  cases closing with
  | true => exact (ToEnd.pure _).upToEnd
  | false =>
    exact (expression_joined ends (Nat.le_trans part.length_le enough) fits).bind fun _ _ _ =>
      (ToEnd.pure _).upToEnd

theorem returnStatement_joined (keyword : Token) (enough : ts.length ≤ bound)
    (fits : bound ≤ bound') :
    TakesToEnd e more ts (returnStatement keyword bound) (returnStatement keyword bound') :=
  (expressionUnless_joined ends _ enough fits).then_takes fun _ _ _ =>
    (TakesToEnd.expectMark (isEnd_of_kind ends) _ _).bind fun _ _ _ => .pure _

theorem ifStatement_joined (apart : ∀ t ∈ more.head?, t.kind.isKeyword .else_ = false)
    (inner : ∀ rest, rest.length ≤ size → TakesToEnd e more rest stated stated')
    (long : ts.length ≤ size) (enough : ts.length ≤ bound) (fits : bound ≤ bound') :
    TakesToEnd e more ts (ifStatement stated bound) (ifStatement stated' bound') := by
  have end_ := isEnd_of_kind ends
  refine (TakesToEnd.expectMark end_ _ _).bind fun _ a partA => ?_
  refine ((expression_joined ends (Nat.le_trans partA.length_le enough) fits).then_takes
    fun condition b partB => ?_).toEnd
  refine (TakesToEnd.expectMark end_ _ _).bind fun _ c partC => ?_
  have part := partC.trans (partB.trans partA)
  refine ((inner c (Nat.le_trans part.length_le long)).bind fun yes d partD => ?_).toEnd
  refine ToEnd.accept_then end_ apart (fun word rest same => ?_) (.pure _)
  subst same
  have le := Nat.le_of_succ_le (partD.trans part).length_le
  exact ((inner rest (Nat.le_trans le long)).bind fun no _ _ => .pure _).toEnd

theorem whileStatement_joined
    (inner : ∀ rest, rest.length ≤ size → TakesToEnd e more rest stated stated')
    (long : ts.length ≤ size) (enough : ts.length ≤ bound) (fits : bound ≤ bound') :
    TakesToEnd e more ts (whileStatement stated bound) (whileStatement stated' bound') := by
  have end_ := isEnd_of_kind ends
  refine (TakesToEnd.expectMark end_ _ _).bind fun _ a partA => ?_
  refine ((expression_joined ends (Nat.le_trans partA.length_le enough) fits).then_takes
    fun condition b partB => ?_).toEnd
  refine (TakesToEnd.expectMark end_ _ _).bind fun _ c partC => ?_
  have part := partC.trans (partB.trans partA)
  exact ((inner c (Nat.le_trans part.length_le long)).bind fun body _ _ => .pure _).toEnd

theorem forInitializer_joined (enough : ts.length ≤ bound) (fits : bound ≤ bound') :
    UpToEnd e more ts (forInitializer bound) (forInitializer bound') := by
  have end_ := isEnd_of_kind ends
  refine UpToEnd.accept_then end_ (fun _ _ _ => (ToEnd.pure _).upToEnd) ?_
  refine UpToEnd.accept_then end_ (fun word rest same => ?_) ?_
  · subst same
    exact ((varDeclaration_joined ends (Nat.le_of_succ_le enough) fits).bind fun s _ _ =>
      .pure _).toEnd.upToEnd
  · exact ((expressionStatement_joined ends enough fits).bind fun s _ _ => .pure _).toEnd.upToEnd

omit ends in
theorem forCondition_joined (condition : Option Expr) :
    ToEnd e more ts (forCondition condition) (forCondition condition) := by
  cases condition with
  | none =>
    rw [forCondition]
    exact .make _
  | some condition => exact .pure condition

theorem forStatement_joined
    (inner : ∀ rest, rest.length ≤ size → TakesToEnd e more rest stated stated')
    (long : ts.length ≤ size) (enough : ts.length ≤ bound) (fits : bound ≤ bound') :
    TakesToEnd e more ts (forStatement stated bound) (forStatement stated' bound') := by
  have end_ := isEnd_of_kind ends
  refine (TakesToEnd.expectMark end_ _ _).bind fun _ a partA => ?_
  have leA := Nat.le_trans partA.length_le enough
  refine ((forInitializer_joined ends leA fits).then_takes fun initializer b partB => ?_).toEnd
  have leB := Nat.le_trans partB.length_le leA
  refine (expressionUnless_joined ends _ leB fits).then_takes fun condition c partC => ?_
  refine (TakesToEnd.expectMark end_ _ _).bind fun _ d partD => ?_
  have leD := Nat.le_trans (partD.trans partC).length_le leB
  refine ((expressionUnless_joined ends _ leD fits).then_takes fun increment f partF => ?_).toEnd
  refine (TakesToEnd.expectMark end_ _ _).bind fun _ g partG => ?_
  have part := (partG.trans partF).trans ((partD.trans partC).trans (partB.trans partA))
  refine ((inner g (Nat.le_trans part.length_le long)).bind fun body _ _ => ?_).toEnd
  exact (forCondition_joined condition).bind fun condition _ _ => .pure _

section Keywords

variable (apart : ∀ t ∈ more.head?, t.kind.isKeyword .else_ = false)
include apart

theorem statementOf_joined
    (inner : ∀ rest, rest.length ≤ size → TakesToEnd e more rest declared declared')
    (innerStated : ∀ rest, rest.length ≤ size → TakesToEnd e more rest stated stated')
    (long : ts.length ≤ size + 1) (enough : ts.length ≤ bound) (fits : bound ≤ bound') :
    TakesToEnd e more ts (statementOf declared stated bound) (statementOf declared' stated' bound') := by
  have plain : TakesToEnd e more ts (expressionStatement bound) (expressionStatement bound') :=
    expressionStatement_joined ends enough fits
  refine TakesToEnd.peek_then (fun t rest same => ?_) fun none => ?_
  · subst same
    have skips {f f' : Reader Stmt} (next : TakesToEnd e more rest f f') :
        TakesToEnd e more (t :: rest) (skip >>= fun _ => f) (skip >>= fun _ => f') :=
      TakesToEnd.skip_then next.toEnd
    have within : rest.length ≤ size := Nat.le_of_succ_le_succ long
    have shorter : rest.length ≤ bound := Nat.le_of_succ_le enough
    obtain ⟨kind, lexeme, line⟩ := t
    cases kind with
    | keyword word =>
      cases word with
      | for_ => exact skips (forStatement_joined ends innerStated within shorter fits)
      | if_ => exact skips (ifStatement_joined ends apart innerStated within shorter fits)
      | while_ => exact skips (whileStatement_joined ends innerStated within shorter fits)
      | return_ => exact skips (returnStatement_joined ends _ shorter fits)
      | print => exact skips (printStatement_joined ends shorter fits)
      | _ => exact plain
    | mark m =>
      cases m with
      | leftBrace =>
        exact skips ((block_joined ends inner within shorter fits).bind fun body _ _ =>
          .pure _)
      | _ => exact plain
    | _ => exact plain
  · subst none
    simp only [ends]
    exact expressionStatement_joined ends enough (Nat.le_refl bound)

theorem declarationOf_joined
    (inner : ∀ rest, rest.length ≤ size → TakesToEnd e more rest declared declared')
    (innerStated : ∀ rest, rest.length ≤ size → TakesToEnd e more rest stated stated')
    (long : ts.length ≤ size + 1) (enough : ts.length ≤ bound) (fits : bound ≤ bound') :
    TakesToEnd e more ts (declarationOf declared stated bound)
      (declarationOf declared' stated' bound') := by
  have statement := statementOf_joined ends apart inner innerStated long enough fits
  refine TakesToEnd.peek_then (fun t rest same => ?_) fun none => ?_
  · subst same
    have skips {f f' : Reader Stmt} (next : TakesToEnd e more rest f f') :
        TakesToEnd e more (t :: rest) (skip >>= fun _ => f) (skip >>= fun _ => f') :=
      TakesToEnd.skip_then next.toEnd
    have within : rest.length ≤ size := Nat.le_of_succ_le_succ long
    have shorter : rest.length ≤ bound := Nat.le_of_succ_le enough
    obtain ⟨kind, lexeme, line⟩ := t
    cases kind with
    | keyword word =>
      cases word with
      | class_ => exact skips (classDeclaration_joined ends inner within shorter fits)
      | fun_ =>
        exact skips ((function_joined ends .function inner within shorter fits).bind fun f _ _ =>
          .pure _)
      | var => exact skips (varDeclaration_joined ends shorter fits)
      | _ => exact statement
    | _ => exact statement
  · subst none
    simp only [ends]
    exact fun lo => .inr (statement.fails lo)

theorem declaration_joined (enough : ts.length ≤ bound) (fits : bound ≤ bound') :
    TakesToEnd e more ts (declaration bound) (declaration bound') ∧
      TakesToEnd e more ts (statement bound) (statement bound') := by
  induction bound generalizing bound' ts with
  | zero => exact ⟨.refuse _ _, .refuse _ _⟩
  | succ bound ih =>
    obtain ⟨bound', rfl⟩ := Nat.exists_eq_add_of_le' (Nat.le_trans (Nat.succ_pos bound) fits)
    have inner (rest : List Token) (le : rest.length ≤ bound) :=
      ih le (Nat.le_of_succ_le_succ fits)
    exact ⟨declarationOf_joined ends apart (fun rest le => (inner rest le).1)
        (fun rest le => (inner rest le).2) enough enough fits,
      statementOf_joined ends apart (fun rest le => (inner rest le).1)
        (fun rest le => (inner rest le).2) enough enough fits⟩

end Keywords

end Grammar

end Lox
