import Mathlib
import Lox.Proofs.PredictiveStatements
import Lox.Proofs.ReadTrees
import Lox.Session

/-!
Reading with recovery, item by item. Each item takes tokens, and together they take all tokens
before the first end token. The place of an error is among the tokens that its item took, or at the
end after the last item, so later errors stand further on. Up to the first error the items are what
a plain reading gives.
-/

namespace Lox.Grammar

open Reader
open Session (syntaxErrors)

/-- The next statement or error, unless the tokens have ended, and the cursor after it. -/
def nextItem (c : Cursor) : Option (Except SyntaxError Stmt) × Cursor :=
  if c.atEnd then (none, c)
  else
    match declaration c.rest.length c with
    | .ok s after => (some (.ok s), after)
    | .error e after => (some (.error e), { after with rest := resume after.rest })

/-- The cursor after asking `n` times. -/
def cursorAfter : Nat → Cursor → Cursor
  | 0, c => c
  | n + 1, c => cursorAfter n (nextItem c).2

/-- What is given when it is asked once more after `n` times. -/
def nthItem (n : Nat) (c : Cursor) : Option (Except SyntaxError Stmt) :=
  (nextItem (cursorAfter n c)).1

/-! ### Passing over tokens -/

theorem boundaryAfter_skips (last : Token) (rest : List Token) : ∃ skipped,
    rest = skipped ++ boundaryAfter last rest ∧ ∀ t ∈ skipped, t.kind.isEnd = false := by
  induction rest generalizing last with
  | nil => exact ⟨[], rfl, List.forall_mem_nil _⟩
  | cons t rest ih =>
    by_cases stops : (t.kind.isEnd || last.kind.isMark .semicolon || startsStatement t.kind) = true
    · refine ⟨[], ?_, List.forall_mem_nil _⟩
      rw [boundaryAfter, if_pos stops]
      rfl
    · obtain ⟨skipped, split, inside⟩ := ih t
      refine ⟨t :: skipped, ?_, List.forall_mem_cons.2 ⟨?_, inside⟩⟩
      · rw [boundaryAfter, if_neg stops, List.cons_append, ← split]
      · simp only [Bool.or_eq_true, not_or, Bool.not_eq_true] at stops
        exact stops.1.1

theorem resume_ended {rest : List Token} (ended : EndsProgram rest) : resume rest = rest := by
  cases rest with
  | nil => rfl
  | cons t rest => exact if_pos ended

theorem resume_skips {t : Token} (rest : List Token) (inside : t.kind.isEnd = false) : ∃ skipped,
    t :: rest = t :: skipped ++ resume (t :: rest) ∧ ∀ u ∈ skipped, u.kind.isEnd = false := by
  obtain ⟨skipped, split, others⟩ := boundaryAfter_skips t rest
  refine ⟨skipped, ?_, others⟩
  rw [resume, inside, if_neg Bool.false_ne_true, List.cons_append, ← split]

/-! ### One item -/

/-- What reading declarations of up to `n` tokens tells of all readings of declarations. -/
theorem declaration_foretells (n : Nat) :
    Foretells (fun _ => False) TokenKind.inside NoElse aStatement (n + 1) (fun n : Nat => n + 1)
      (declaration n) declaration :=
  (statements_predict (Nat.le_refl _) fun _ => Nat.le_refl _).1.foretells

theorem declaration_told (c : Cursor) :
    Told (fun _ => False) TokenKind.inside NoElse aStatement (fun n : Nat => n + 1) declaration c
      (declaration c.rest.length c) :=
  declaration_foretells c.rest.length c (Nat.lt_succ_self _)

/-- Any bound that leaves room for all tokens gives the same reading. -/
theorem declaration_enough {bound : Nat} {c : Cursor} (room : c.rest.length ≤ bound) :
    declaration bound c = declaration c.rest.length c :=
  (declaration_foretells c.rest.length).enough (Nat.lt_succ_self _) (Nat.lt_succ_of_le room)

/-- An item takes tokens off the front. An error points to one of them, or to the end. -/
structure Step (c : Cursor) (used : List Token) (item : Except SyntaxError Stmt) (d : Cursor) :
    Prop where
  gives : nextItem c = (some item, d)
  split : c.rest = used ++ d.rest
  takes : used ≠ []
  inside : ∀ t ∈ used, t.kind.isEnd = false
  blamed : ∀ e, item = .error e → e.token ∈ used ∨ e.token = d.next ∧ d.atEnd = true

theorem inside_of_kinds {used : List Token} (kinds : ∀ t ∈ used, t.kind.inside = true) :
    ∀ t ∈ used, t.kind.isEnd = false := by
  intro t among
  have inside := kinds t among
  rwa [TokenKind.inside, Bool.not_eq_true'] at inside

section Errors

variable {c d : Cursor} {e : SyntaxError} {used : List Token}
  (told : ToldError (fun _ => False) TokenKind.inside NoElse (fun n : Nat => n + 1) declaration
    c d e used)
  (gives : nextItem c = (some (.error e), { d with rest := resume d.rest }))
include told gives

/-- The tokens have ended where the error was found. -/
theorem Step.ended (goesOn : c.atEnd = false) (ended : EndsProgram d.rest) :
    Step c used (.error e) { d with rest := resume d.rest } := by
  rw [resume_ended ended] at gives ⊢
  refine ⟨gives, told.split, ?_, inside_of_kinds told.kinds, ?_⟩
  · rintro rfl
    have whole : c.rest = d.rest := told.split
    rw [Cursor.atEnd, Cursor.next, whole] at goesOn
    cases goesOn.symm.trans ended
  · rintro e' ⟨⟩
    rcases told.blamed with next | among | none
    · exact .inr ⟨next, ended⟩
    · exact .inl among
    · exact none.elim

/-- Others are passed over, the token in error first. -/
theorem Step.resumed {t : Token} {rest : List Token} (left : d.rest = t :: rest)
    (first : t.kind.isEnd = false) :
    ∃ more, Step c (used ++ more) (.error e) { d with rest := resume d.rest } := by
  obtain ⟨skipped, split, others⟩ := resume_skips rest first
  rw [← left] at split
  refine ⟨t :: skipped, gives, ?_, ?_, ?_, ?_⟩
  · rw [List.append_assoc, ← split]
    exact told.split
  · exact List.append_ne_nil_of_right_ne_nil _ (List.cons_ne_nil _ _)
  · exact List.forall_mem_append.2
      ⟨inside_of_kinds told.kinds, List.forall_mem_cons.2 ⟨first, others⟩⟩
  · rintro e' ⟨⟩
    refine .inl (List.mem_append.2 ?_)
    rcases told.blamed with next | among | none
    · rw [next, Cursor.next, left]
      exact .inr List.mem_cons_self
    · exact .inl among
    · exact none.elim

end Errors

theorem nextItem_step {c : Cursor} (goesOn : c.atEnd = false) :
    ∃ used item d, Step c used item d := by
  have told := declaration_told c
  cases reading : declaration c.rest.length c with
  | ok s d =>
    rw [reading] at told
    obtain ⟨used, told⟩ := told
    refine ⟨used, .ok s, d, ?_, told.split, told.takes (List.cons_ne_nil _ _),
      inside_of_kinds told.kinds, nofun⟩
    simp only [nextItem, goesOn, reading, Bool.false_eq_true, if_false]
  | error e d =>
    rw [reading] at told
    obtain ⟨used, told⟩ := told
    have gives : nextItem c = (some (.error e), { d with rest := resume d.rest }) := by
      simp only [nextItem, goesOn, reading, Bool.false_eq_true, if_false]
    by_cases ended : EndsProgram d.rest
    · exact ⟨used, .error e, _, Step.ended told gives goesOn ended⟩
    · cases left : d.rest with
      | nil =>
        rw [left] at ended
        exact absurd rfl ended
      | cons t rest =>
        rw [left] at ended
        obtain ⟨more, step⟩ := Step.resumed told gives left (Bool.eq_false_iff.2 ended)
        exact ⟨used ++ more, .error e, _, step⟩

/-- How the item was read. -/
theorem Step.reads {c d : Cursor} {used : List Token} {item : Except SyntaxError Stmt}
    (step : Step c used item d) : c.atEnd = false ∧
      ((∃ s, item = .ok s ∧ declaration c.rest.length c = .ok s d) ∨
        ∃ e after, item = .error e ∧ declaration c.rest.length c = .error e after ∧
          d = { after with rest := resume after.rest }) := by
  have gives := step.gives
  unfold nextItem at gives
  cases ends : c.atEnd with
  | true =>
    rw [ends] at gives
    cases gives
  | false =>
    rw [ends] at gives
    refine ⟨rfl, ?_⟩
    cases reading : declaration c.rest.length c with
    | ok s after =>
      rw [reading] at gives
      cases gives
      exact .inl ⟨s, rfl, rfl⟩
    | error e after =>
      rw [reading] at gives
      cases gives
      exact .inr ⟨e, after, rfl, rfl, rfl⟩

/-- A step leaves less to read. -/
theorem Step.leaves {c d : Cursor} {used : List Token} {item : Except SyntaxError Stmt}
    (step : Step c used item d) {bound : Nat} (room : c.rest.length ≤ bound) :
    ∃ less, bound = less + 1 ∧ d.rest.length ≤ less := by
  have some := List.length_pos_iff.2 step.takes
  rw [step.split, List.length_append] at room
  exact ⟨bound - 1, by omega, by omega⟩

theorem declarations_goesOn {c : Cursor} (goesOn : c.atEnd = false) (bound : Nat) :
    declarations (bound + 1) c =
      (do let s ← declaration (bound + 1); let rest ← declarations bound; pure (s :: rest)) c := by
  show (if c.atEnd = true then _ else _ : Reader _) c = _
  rw [goesOn]
  rfl

/-! ### All items -/

/-- Asking for items until the tokens have ended. -/
inductive Drains : Cursor → Parts (Except SyntaxError Stmt) → Cursor → Prop
  | ended {c : Cursor} (ends : c.atEnd = true) : Drains c [] c
  | item {c d last : Cursor} {used : List Token} {item : Except SyntaxError Stmt}
      {parts : Parts (Except SyntaxError Stmt)} (step : Step c used item d)
      (more : Drains d parts last) : Drains c ((used, item) :: parts) last

theorem drains (c : Cursor) : ∃ parts last, Drains c parts last := by
  induction size : c.rest.length using Nat.strong_induction_on generalizing c with
  | _ n ih =>
    cases ends : c.atEnd with
    | true => exact ⟨[], c, .ended ends⟩
    | false =>
      obtain ⟨used, item, d, step⟩ := nextItem_step ends
      have shorter : d.rest.length < n := by
        have := List.length_pos_iff.2 step.takes
        rw [← size, step.split, List.length_append]
        omega
      obtain ⟨parts, last, more⟩ := ih d.rest.length shorter d rfl
      exact ⟨(used, item) :: parts, last, .item step more⟩

namespace Drains

variable {c last : Cursor} {parts : Parts (Except SyntaxError Stmt)}

theorem split (drained : Drains c parts last) : c.rest = parts.tokens ++ last.rest := by
  induction drained with
  | ended => rfl
  | item step _ ih =>
    rw [step.split, ih, Parts.tokens_cons, List.append_assoc]

theorem inside (drained : Drains c parts last) : ∀ t ∈ parts.tokens, t.kind.isEnd = false := by
  induction drained with
  | ended => exact List.forall_mem_nil _
  | item step _ ih =>
    rw [Parts.tokens_cons]
    intro t among
    exact (List.mem_append.1 among).elim (step.inside t) (ih t)

theorem atEnd (drained : Drains c parts last) : last.atEnd = true := by
  induction drained with
  | ended ends => exact ends
  | item _ _ ih => exact ih

theorem takes (drained : Drains c parts last) : ∀ p ∈ parts, p.1 ≠ [] := by
  induction drained with
  | ended => exact List.forall_mem_nil _
  | item step _ ih => exact List.forall_mem_cons.2 ⟨step.takes, ih⟩

theorem length_le (drained : Drains c parts last) : parts.length ≤ parts.tokens.length := by
  induction drained with
  | ended => exact Nat.le_refl _
  | item step _ ih =>
    have some := List.length_pos_iff.2 step.takes
    simp only [Parts.tokens_cons, List.length_cons, List.length_append]
    omega

theorem tokens_eq (drained : Drains c parts last) :
    parts.tokens = c.rest.takeWhile fun t => !t.kind.isEnd := by
  rw [drained.split]
  refine (takeWhile_inside drained.inside fun t first => ?_).symm
  have ended := drained.atEnd
  rwa [Cursor.atEnd, Cursor.next, List.headD_eq_head?_getD, Option.mem_def.1 first] at ended

/-- The items come one after the other, and then there are none. -/
theorem nth (drained : Drains c parts last) (k : Nat) :
    nthItem k c = parts.trees[k]? ∧
      (cursorAfter k c).rest = Parts.tokens (parts.drop k) ++ last.rest ∧
      (parts.length ≤ k → cursorAfter k c = last) := by
  induction drained generalizing k with
  | @ended c ends =>
    have stays (k : Nat) : cursorAfter k c = c := by
      induction k with
      | zero => rfl
      | succ k ih => simpa only [cursorAfter, nextItem, ends, if_true] using ih
    refine ⟨?_, ?_, fun _ => stays k⟩
    · simp [nthItem, stays, nextItem, ends, Parts.trees]
    · simp [stays, Parts.tokens]
  | @item c d last used item parts step more ih =>
    cases k with
    | zero =>
      refine ⟨?_, ?_, fun none => absurd none (Nat.not_succ_le_zero _)⟩
      · rw [nthItem, cursorAfter, step.gives]
        rfl
      · exact (Drains.item step more).split
    | succ k =>
      obtain ⟨given, left, after⟩ := ih k
      have moves : cursorAfter (k + 1) c = cursorAfter k d := by rw [cursorAfter, step.gives]
      refine ⟨?_, ?_, fun beyond => ?_⟩
      · rw [nthItem, moves]
        exact given
      · rw [moves]
        exact left
      · rw [moves]
        exact after (Nat.le_of_succ_le_succ beyond)

theorem recovers (drained : Drains c parts last) {bound : Nat} (room : c.rest.length ≤ bound) :
    recoverFrom bound c = (parts.trees, last) := by
  induction drained generalizing bound with
  | ended ends => exact recoverFrom_ended ends bound
  | @item c d last used item parts step more ih =>
    obtain ⟨bound, rfl, room'⟩ := step.leaves room
    obtain ⟨goesOn, ⟨s, rfl, reading⟩ | ⟨e, after, rfl, reading, rfl⟩⟩ := step.reads
    · rw [recoverFrom, goesOn, if_neg Bool.false_ne_true, declaration_enough room, reading]
      simp only [ih room']
      rfl
    · rw [recoverFrom, goesOn, if_neg Bool.false_ne_true, declaration_enough room, reading]
      simp only [ih room']
      rfl

/-- Up to the first error a plain reading gives the same. -/
theorem reads (drained : Drains c parts last) {bound : Nat} (room : c.rest.length ≤ bound) :
    (∃ program, parts.trees = program.map .ok ∧ declarations bound c = .ok program last) ∨
      ∃ e after, (syntaxErrors parts.trees).head? = some e ∧
        declarations bound c = .error e after := by
  induction drained generalizing bound with
  | ended ends => exact .inl ⟨[], rfl, declarations_ended ends bound⟩
  | @item c d last used item parts step more ih =>
    obtain ⟨bound, rfl, room'⟩ := step.leaves room
    obtain ⟨goesOn, ⟨s, rfl, reading⟩ | ⟨e, after, rfl, reading, rfl⟩⟩ := step.reads
    · have first := (declaration_enough room).trans reading
      rw [declarations_goesOn goesOn, bind_of_ok first]
      rcases ih room' with ⟨program, trees, reads⟩ | ⟨e, after, errors, fails⟩
      · refine .inl ⟨s :: program, congrArg (_ :: ·) trees, ?_⟩
        rw [bind_of_ok reads]
        rfl
      · exact .inr ⟨e, after, errors, bind_of_error fails⟩
    · have first := (declaration_enough room).trans reading
      rw [declarations_goesOn goesOn, bind_of_error first]
      exact .inr ⟨e, after, rfl, rfl⟩

/-- The errors stand one after the other, none before the tokens left and none beyond their end. -/
theorem places (drained : Drains c parts last) (before : List Token) : ∃ places,
    List.Forall₂ (fun e p => e.token = (before ++ c.rest).getD p Token.endOfInput)
      (syntaxErrors parts.trees) places ∧
    places.Pairwise (· < ·) ∧
    ∀ p ∈ places, before.length ≤ p ∧ p ≤ before.length + parts.tokens.length := by
  induction drained generalizing before with
  | ended => exact ⟨[], .nil, .nil, List.forall_mem_nil _⟩
  | @item c d last used item parts step more ih =>
    obtain ⟨places, point, later, within⟩ := ih (before ++ used)
    rw [List.append_assoc, ← step.split] at point
    rw [List.length_append] at within
    have after : ∀ p ∈ places, before.length + used.length ≤ p ∧
        p ≤ before.length + (Parts.tokens ((used, item) :: parts)).length := by
      intro p among
      have := within p among
      simp only [Parts.tokens_cons, List.length_append]
      omega
    cases item with
    | ok s =>
      exact ⟨places, point, later, fun p among =>
        ⟨Nat.le_trans (Nat.le_add_right _ _) (after p among).1, (after p among).2⟩⟩
    | error e =>
      simp only [Parts.tokens_cons, List.length_append] at after ⊢
      rcases step.blamed e rfl with among | ⟨next, ends⟩
      · obtain ⟨i, inside, there⟩ := List.getElem_of_mem among
        refine ⟨(before.length + i) :: places, .cons ?_ point, .cons ?_ later, ?_⟩
        · rw [step.split, ← List.append_assoc, List.getD_eq_getElem?_getD,
            List.getElem?_append_left (by rw [List.length_append]; omega),
            List.getElem?_append_right (Nat.le_add_right _ _), Nat.add_sub_cancel_left,
            List.getElem?_eq_getElem inside, there]
          rfl
        · intro p among
          have := after p among
          omega
        · refine List.forall_mem_cons.2 ⟨by omega, fun p among => ?_⟩
          have := after p among
          omega
      · -- Nothing comes after an error at the end.
        cases more with
        | item step' => cases ends.symm.trans step'.reads.1
        | ended =>
          refine ⟨[(before ++ used).length], .cons ?_ .nil, List.pairwise_singleton _ _, ?_⟩
          · rw [step.split, ← List.append_assoc, List.getD_eq_getElem?_getD,
              List.getElem?_append_right (Nat.le_refl _), Nat.sub_self, ← List.head?_eq_getElem?,
              next, Cursor.next, List.headD_eq_head?_getD]
          · rw [List.length_append]
            exact List.forall_mem_singleton.2 ⟨by omega, by omega⟩

end Drains

theorem syntaxErrors_ok (program : List Stmt) : syntaxErrors (program.map .ok) = [] := by
  induction program with
  | nil => rfl
  | cons s program ih => exact ih

/-- What asking for all items of a program comes to: these parts, each with its tokens, and then
nothing, with this id left for the next expression. -/
structure Drained (tokens : List Token) (firstId : ExprId) (parts : Parts (Except SyntaxError Stmt))
    (nextId : ExprId) : Prop where
  /-- The items come one after the other, and then there are none, however often it is asked. -/
  yields : ∀ k, nthItem k ⟨tokens, firstId⟩ = parts.trees[k]?
  /-- There are no more of them than tokens before the first end token. -/
  few : parts.length ≤ (tokens.takeWhile fun t => !t.kind.isEnd).length
  /-- Each takes the tokens of its part off the front of those left. -/
  ranges : ∀ k, (cursorAfter k ⟨tokens, firstId⟩).rest =
    Parts.tokens (parts.drop k) ++ tokens.dropWhile fun t => !t.kind.isEnd
  whole : parts.tokens = tokens.takeWhile fun t => !t.kind.isEnd
  takes : ∀ p ∈ parts, p.1 ≠ []
  ends : ∀ k, parts.length ≤ k → (cursorAfter k ⟨tokens, firstId⟩).nextId = nextId
  /-- Each error points further on than the one before, and none beyond the first end token. -/
  places : ∃ places, List.Forall₂ (fun e p => e.token = tokens.getD p Token.endOfInput)
    (syntaxErrors parts.trees) places ∧ places.Pairwise (· < ·) ∧
    ∀ p ∈ places, p ≤ (tokens.takeWhile fun t => !t.kind.isEnd).length
  recovers : recoverProgram tokens firstId = ⟨parts.trees, nextId⟩
  reads : ∀ program id, readProgram tokens firstId = ⟨.ok program, id⟩ ↔
    parts.trees = program.map .ok ∧ nextId = id
  fails : ∀ e, (readProgram tokens firstId).value = .error e ↔
    (syntaxErrors parts.trees).head? = some e

/-- Reading with recovery ends, takes tokens for each item, and agrees with a plain reading. -/
theorem recovering_agrees (tokens : List Token) (firstId : ExprId) :
    ∃ parts nextId, Drained tokens firstId parts nextId := by
  obtain ⟨parts, last, drained⟩ := drains ⟨tokens, firstId⟩
  have whole := drained.tokens_eq
  have left : last.rest = tokens.dropWhile fun t => !t.kind.isEnd := by
    have split : tokens = parts.tokens ++ last.rest := drained.split
    have parted := List.takeWhile_append_dropWhile (p := fun t : Token => !t.kind.isEnd) (l := tokens)
    rw [← whole] at parted
    exact (List.append_cancel_left (parted.trans split)).symm
  obtain ⟨places, point, later, within⟩ := drained.places []
  rw [whole, List.length_nil, Nat.zero_add] at within
  have plain := drained.reads (Nat.le_refl tokens.length)
  refine ⟨parts, last.nextId, fun k => (drained.nth k).1, ?_, fun k => ?_, whole, drained.takes,
    fun k beyond => by rw [(drained.nth k).2.2 beyond],
    ⟨places, point, later, fun p among => (within p among).2⟩, ?_, fun program id => ?_, fun e => ?_⟩
  · rw [← whole]
    exact Drains.length_le drained
  · rw [(drained.nth k).2.1, left]
  · rw [recoverProgram, drained.recovers (Nat.le_refl _)]
  · rcases plain with ⟨program', trees, reading⟩ | ⟨e, after, errors, reading⟩
    · rw [readProgram, reading, trees, List.map_inj_right fun _ _ => Except.ok.inj]
      simp [readingOf]
    · rw [readProgram, reading]
      constructor
      · intro same
        cases same
      · intro same
        rw [same.1, syntaxErrors_ok] at errors
        cases errors
  · rcases plain with ⟨program', trees, reading⟩ | ⟨e', after, errors, reading⟩
    · rw [readProgram, reading, trees, syntaxErrors_ok]
      simp [readingOf]
    · rw [readProgram, reading, errors]
      simp [readingOf]

end Lox.Grammar
