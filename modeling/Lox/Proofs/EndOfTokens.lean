import Mathlib
import Lox.Proofs.Lookahead
import Lox.Proofs.RecoveringReader

/-!
Nothing is read from the first end token on. Two lists of tokens that go on differently after their
end are read the same, and a list that just stops is read as if an end token came next.
-/

namespace Lox

open Reader
open Grammar (EndsProgram)

variable {α β : Type} {e e' : List Token}

/-! ### Two ends -/

/-- The same error, told for the other end if it is told for the end. -/
def Blames (e e' : List Token) (x x' : SyntaxError) : Prop :=
  x = x' ∨ x.cause = x'.cause ∧ x.token = e.headD Token.endOfInput ∧
    x'.token = e'.headD Token.endOfInput

/-- From tokens that end differently the same was read, with the same tokens left before the end. -/
inductive Agrees (e e' : List Token) : EStateM.Result SyntaxError Cursor α →
    EStateM.Result SyntaxError Cursor α → Prop
  | ok (a : α) (ts : List Token) (id : ExprId) : Agrees e e' (.ok a ⟨ts ++ e, id⟩) (.ok a ⟨ts ++ e', id⟩)
  | error {x x' : SyntaxError} (same : Blames e e' x x') (ts : List Token) (id : ExprId) :
      Agrees e e' (.error x ⟨ts ++ e, id⟩) (.error x' ⟨ts ++ e', id⟩)

theorem Agrees.bind {r r' : Reader α} {f f' : α → Reader β} {c c' : Cursor}
    (first : Agrees e e' (r c) (r' c'))
    (second : ∀ a ts id, Agrees e e' (f a ⟨ts ++ e, id⟩) (f' a ⟨ts ++ e', id⟩)) :
    Agrees e e' ((r >>= f) c) ((r' >>= f') c') := by
  cases reading : r c with
  | ok a d =>
    rw [reading] at first
    cases reading' : r' c' with
    | ok a' d' =>
      rw [reading'] at first
      rw [bind_of_ok reading, bind_of_ok reading']
      cases first with
      | ok a ts id => exact second a ts id
    | error x d' =>
      rw [reading'] at first
      cases first
  | error x d =>
    rw [reading] at first
    cases reading' : r' c' with
    | ok a' d' =>
      rw [reading'] at first
      cases first
    | error x' d' =>
      rw [reading'] at first
      rw [bind_of_error reading, bind_of_error reading']
      cases first with
      | error same ts id => exact .error same ts id

theorem Grammar.EndsProgram.unfit (ends : EndsProgram e) {fits : TokenKind → Bool} :
    (!(e.headD Token.endOfInput).kind.isEnd && fits (e.headD Token.endOfInput).kind) = false := by
  rw [show (e.headD Token.endOfInput).kind.isEnd = true from ends]
  rfl

theorem Grammar.EndsProgram.accept?_none (ends : EndsProgram e) (fits : TokenKind → Bool) (id : ExprId) :
    accept? fits ⟨e, id⟩ = .ok none ⟨e, id⟩ := by
  cases e with
  | nil => rfl
  | cons t e => exact if_neg (Bool.eq_false_iff.1 ends.unfit)

theorem next_of_mem_none (c : Cursor) : ∀ t ∈ (none : Option Token), c.next = t :=
  fun t known => absurd known (Option.not_mem_none t)

/-- A reader put together of looks at the tokens does the same before either end. -/
theorem Lookahead.agrees {o : Option Token} {r : Reader α} (looks : Lookahead o r)
    (ends : EndsProgram e) (ends' : EndsProgram e') (ts : List Token) (id : ExprId)
    (next : ∀ t ∈ o, Cursor.next ⟨ts ++ e, id⟩ = t) :
    Agrees e e' (r ⟨ts ++ e, id⟩) (r ⟨ts ++ e', id⟩) := by
  induction looks generalizing ts id with
  | pure a => exact .ok a ts id
  | make build => exact .ok (build id) ts (id + 1)
  | throw x => exact .error (.inl rfl) ts id
  | refuse cause =>
    cases ts with
    | nil =>
      have told : Blames e e' ⟨e.headD Token.endOfInput, cause⟩ ⟨e'.headD Token.endOfInput, cause⟩ :=
        .inr ⟨rfl, rfl, rfl⟩
      exact .error told [] id
    | cons t ts => exact .error (.inl rfl) (t :: ts) id
  | accept? fits =>
    cases ts with
    | nil =>
      rw [List.nil_append, List.nil_append, ends.accept?_none, ends'.accept?_none]
      exact .ok none [] id
    | cons t ts =>
      by_cases fitting : (!t.kind.isEnd && fits t.kind) = true
      · simp only [Reader.accept?, List.cons_append, if_pos fitting]
        exact .ok (some t) ts id
      · simp only [Reader.accept?, List.cons_append, if_neg fitting]
        exact .ok none (t :: ts) id
  | check fits =>
    cases ts with
    | nil =>
      simp only [Reader.check, Cursor.next, List.nil_append, ends.unfit, ends'.unfit]
      exact .ok false [] id
    | cons t ts => exact .ok _ (t :: ts) id
  | @skip t inside =>
    cases ts with
    | nil =>
      have isNext : e.headD Token.endOfInput = t := next t rfl
      rw [← isNext, show (e.headD Token.endOfInput).kind.isEnd = true from ends] at inside
      cases inside
    | cons t ts => exact .ok () ts id
  | bind first second ih ih' =>
    exact (ih ts id next).bind fun a ts id => ih' a ts id (next_of_mem_none _)
  | @look o α f each same ih =>
    have read (c : Cursor) : (peek >>= f) c = f c.next c := rfl
    have first := ih (Cursor.next ⟨ts ++ e, id⟩) ts id fun t known => Option.some.inj known
    rw [read, read]
    cases ts with
    | nil =>
      have alike : f (Cursor.next ⟨[] ++ e', id⟩) = f (Cursor.next ⟨[] ++ e, id⟩) :=
        same _ _ ends' ends
      rwa [alike]
    | cons t ts => exact first
  | seen _ ih => exact ih ts id (next_of_mem_none _)

/-- A reader that has seen no token before it does the same before either end. -/
theorem Lookahead.agrees_unseen {r : Reader α} (looks : Lookahead none r) (ends : EndsProgram e)
    (ends' : EndsProgram e') (ts : List Token) (id : ExprId) :
    Agrees e e' (r ⟨ts ++ e, id⟩) (r ⟨ts ++ e', id⟩) :=
  looks.agrees ends ends' ts id (next_of_mem_none _)

namespace Grammar

/-! ### Room for all tokens -/

theorem declaration_shortens {bound : Nat} {c d : Cursor} {s : Stmt} (room : c.rest.length ≤ bound)
    (reading : declaration bound c = .ok s d) : d.rest.length < c.rest.length := by
  have told := declaration_told c
  rw [← declaration_enough room, reading] at told
  obtain ⟨used, told⟩ := told
  have some := List.length_pos_iff.2 (told.takes (List.cons_ne_nil _ _))
  rw [told.split, List.length_append]
  omega

/-- Bounds that leave room for all tokens give the same reading. -/
theorem declarations_enough {bound bound' : Nat} {c : Cursor} (room : c.rest.length ≤ bound)
    (room' : c.rest.length ≤ bound') : declarations bound c = declarations bound' c := by
  induction size : c.rest.length using Nat.strong_induction_on generalizing c bound bound' with
  | _ n ih =>
    cases ends : c.atEnd with
    | true => rw [declarations_ended ends, declarations_ended ends]
    | false =>
      have some : 0 < c.rest.length := by
        refine List.length_pos_iff.2 fun none => ?_
        rw [Cursor.atEnd, Cursor.next, none] at ends
        cases ends
      obtain ⟨bound, rfl⟩ := Nat.exists_eq_add_of_le' (Nat.le_trans some room)
      obtain ⟨bound', rfl⟩ := Nat.exists_eq_add_of_le' (Nat.le_trans some room')
      have same := (declaration_enough room).trans (declaration_enough room').symm
      rw [declarations_goesOn ends, declarations_goesOn ends]
      cases reading : declaration (bound + 1) c with
      | error x d => rw [bind_of_error reading, bind_of_error (same.symm.trans reading)]
      | ok s d =>
        have shorter := declaration_shortens room reading
        have rest : declarations bound d = declarations bound' d :=
          ih _ (size ▸ shorter) (by omega) (by omega) rfl
        rw [bind_of_ok reading, bind_of_ok (same.symm.trans reading)]
        simp only [bind, EStateM.bind, rest]

theorem expression_enough {bound bound' : Nat} {c : Cursor} (room : c.rest.length ≤ bound)
    (room' : c.rest.length ≤ bound') : expression bound c = expression bound' c := by
  have predicts : Predicts (fun _ => False) TokenKind.inExpression (Stops .expression) [aNil]
      (c.rest.length + 1) (fun n : Nat => n + 1) (expression c.rest.length) expression :=
    expression_predicts (Nat.le_refl _) fun _ => Nat.le_refl _
  have same {bound : Nat} (room : c.rest.length ≤ bound) :
      expression bound c = expression c.rest.length c :=
    predicts.foretells.enough (Nat.lt_succ_self _) (Nat.lt_succ_of_le room)
  rw [same room, same room']

section

variable {bound : Nat} {ts : List Token} (room : ts.length ≤ bound) (id : ExprId)
include room

theorem readProgram_enough : readProgram ts id = readingOf (declarations bound ⟨ts, id⟩) :=
  congrArg readingOf (declarations_enough (Nat.le_refl ts.length) room)

theorem recoverProgram_enough : recoverProgram ts id =
    ⟨(recoverFrom bound ⟨ts, id⟩).1, (recoverFrom bound ⟨ts, id⟩).2.nextId⟩ := by
  obtain ⟨parts, last, drained⟩ := drains ⟨ts, id⟩
  rw [recoverProgram, drained.recovers (Nat.le_refl _), drained.recovers room]

theorem readExpression_enough : readExpression ts id = readingOf (wholeExpression bound ⟨ts, id⟩) := by
  have same : expression ts.length ⟨ts, id⟩ = expression bound ⟨ts, id⟩ :=
    expression_enough (Nat.le_refl ts.length) room
  unfold readExpression wholeExpression
  simp only [bind, EStateM.bind, same]

end

end Grammar

/-! ### What errors tell -/

/-- What a user is told of a syntax error. -/
structure Notice where
  line : Nat
  place : String
  message : String
  deriving DecidableEq

def SyntaxError.notice (x : SyntaxError) : Notice :=
  ⟨x.token.line, Fault.place x.token, x.cause.message⟩

namespace Grammar

variable {γ : Type}

/-- The reading with something told of each error. -/
def Reading.errorsAs (tell : SyntaxError → γ) (r : Reading (Except SyntaxError α)) :
    Reading (Except γ α) := ⟨r.value.mapError tell, r.nextId⟩

def Reading.allErrorsAs (tell : SyntaxError → γ) (r : Reading (List (Except SyntaxError α))) :
    Reading (List (Except γ α)) := ⟨r.value.map (Except.mapError tell), r.nextId⟩

theorem Reading.errorsAs_id (r : Reading (Except SyntaxError α)) : r.errorsAs id = r := by
  obtain ⟨value, next⟩ := r
  cases value <;> rfl

theorem Reading.allErrorsAs_id (r : Reading (List (Except SyntaxError α))) :
    r.allErrorsAs id = r := by
  have each : Except.mapError (α := α) (@id SyntaxError) = id := by
    funext item
    cases item <;> rfl
  rw [allErrorsAs, each, List.map_id]

/-! ### Whole readings -/

theorem boundaryAfter_parts (last : Token) (ts : List Token) :
    ∃ left, ∀ e, EndsProgram e → boundaryAfter last (ts ++ e) = left ++ e := by
  induction ts generalizing last with
  | nil =>
    refine ⟨[], fun e ends => ?_⟩
    cases e with
    | nil => rfl
    | cons t e =>
      have ended : t.kind.isEnd = true := ends
      simp [boundaryAfter, ended]
  | cons t ts ih =>
    by_cases stops : (t.kind.isEnd || last.kind.isMark .semicolon || startsStatement t.kind) = true
    · refine ⟨t :: ts, fun e _ => ?_⟩
      rw [List.cons_append, boundaryAfter, if_pos stops]
    · obtain ⟨left, passes⟩ := ih t
      refine ⟨left, fun e ends => ?_⟩
      rw [List.cons_append, boundaryAfter, if_neg stops]
      exact passes e ends

theorem resume_parts (ts : List Token) :
    ∃ left, ∀ e, EndsProgram e → resume (ts ++ e) = left ++ e := by
  cases ts with
  | nil => exact ⟨[], fun e ends => resume_ended ends⟩
  | cons t ts =>
    cases ended : t.kind.isEnd with
    | true =>
      refine ⟨t :: ts, fun e _ => ?_⟩
      rw [List.cons_append, resume, ended, if_pos rfl]
    | false =>
      obtain ⟨left, passes⟩ := boundaryAfter_parts t ts
      refine ⟨left, fun e ends => ?_⟩
      rw [List.cons_append, resume, ended, if_neg Bool.false_ne_true]
      exact passes e ends

section

variable (ends : EndsProgram e) (ends' : EndsProgram e') {tell : SyntaxError → γ}
  (same : ∀ x x', Blames e e' x x' → tell x = tell x')
include same

theorem readingOf_agrees {a b : EStateM.Result SyntaxError Cursor α} (agrees : Agrees e e' a b) :
    (readingOf a).errorsAs tell = (readingOf b).errorsAs tell := by
  cases agrees with
  | ok => rfl
  | error blames => simp only [readingOf, Reading.errorsAs, Except.mapError, same _ _ blames]

include ends ends'

/-- Items with recovery are read alike up to either end. -/
theorem recoverFrom_agrees (bound : Nat) (ts : List Token) (id : ExprId) :
    let read := recoverFrom bound ⟨ts ++ e, id⟩
    let read' := recoverFrom bound ⟨ts ++ e', id⟩
    read.1.map (Except.mapError tell) = read'.1.map (Except.mapError tell) ∧
      read.2.nextId = read'.2.nextId := by
  induction bound generalizing ts id with
  | zero => exact ⟨rfl, rfl⟩
  | succ bound ih =>
    have alike : Cursor.atEnd ⟨ts ++ e', id⟩ = Cursor.atEnd ⟨ts ++ e, id⟩ := by
      cases ts with
      | nil => exact Eq.trans ends' (Eq.symm ends)
      | cons t ts => rfl
    have agrees := (statements_look (bound + 1)).1.agrees_unseen ends ends' ts id
    rw [recoverFrom, recoverFrom, alike]
    by_cases ended : Cursor.atEnd ⟨ts ++ e, id⟩ = true
    · rw [if_pos ended, if_pos ended]
      exact ⟨rfl, rfl⟩
    · rw [if_neg ended, if_neg ended]
      generalize declaration (bound + 1) ⟨ts ++ e, id⟩ = first at agrees
      generalize declaration (bound + 1) ⟨ts ++ e', id⟩ = second at agrees
      cases agrees with
      | ok s ts' id' =>
        obtain ⟨items, next⟩ := ih ts' id'
        exact ⟨congrArg (_ :: ·) items, next⟩
      | @error x x' blames ts' id' =>
        obtain ⟨left, passes⟩ := resume_parts ts'
        obtain ⟨items, next⟩ := ih left id'
        dsimp only
        rw [passes e ends, passes e' ends', List.map_cons, List.map_cons, items]
        exact ⟨by rw [Except.mapError, Except.mapError, same x x' blames], next⟩

theorem reads_agree (ts : List Token) (id : ExprId) :
    (readProgram (ts ++ e) id).errorsAs tell = (readProgram (ts ++ e') id).errorsAs tell ∧
      (recoverProgram (ts ++ e) id).allErrorsAs tell =
        (recoverProgram (ts ++ e') id).allErrorsAs tell ∧
      (readExpression (ts ++ e) id).errorsAs tell =
        (readExpression (ts ++ e') id).errorsAs tell := by
  -- A bound with room for either list serves both.
  have room : (ts ++ e).length ≤ (ts ++ e).length + (ts ++ e').length := Nat.le_add_right _ _
  have room' : (ts ++ e').length ≤ (ts ++ e).length + (ts ++ e').length := Nat.le_add_left _ _
  generalize (ts ++ e).length + (ts ++ e').length = bound at room room'
  have alike {α : Type} {r : Reader α} (looks : Lookahead none r) :
      (readingOf (r ⟨ts ++ e, id⟩)).errorsAs tell = (readingOf (r ⟨ts ++ e', id⟩)).errorsAs tell :=
    readingOf_agrees same (looks.agrees_unseen ends ends' ts id)
  refine ⟨?_, ?_, ?_⟩
  · rw [readProgram_enough room, readProgram_enough room']
    exact alike (declarations_look bound)
  · obtain ⟨items, next⟩ := recoverFrom_agrees ends ends' same bound ts id
    rw [recoverProgram_enough room, recoverProgram_enough room']
    simp only [Reading.allErrorsAs, items, next]
  · rw [readExpression_enough room, readExpression_enough room']
    exact alike (wholeExpression_looks bound)

end

/-- What stands after an end token changes neither what is read, nor the errors, nor the ids given
out. Without an end token the same is read, and told, as before one on the first line. -/
theorem nothing_after_end (ts more : List Token) (lexeme : String) (line : Nat) (firstId : ExprId) :
    let ended := ts ++ [⟨.endOfText, lexeme, line⟩]
    let longer := ts ++ ⟨.endOfText, lexeme, line⟩ :: more
    let first := ts ++ [⟨.endOfText, lexeme, 1⟩]
    (readProgram longer firstId = readProgram ended firstId ∧
      recoverProgram longer firstId = recoverProgram ended firstId ∧
      readExpression longer firstId = readExpression ended firstId) ∧
    (readProgram ts firstId).errorsAs SyntaxError.notice =
        (readProgram first firstId).errorsAs SyntaxError.notice ∧
      (recoverProgram ts firstId).allErrorsAs SyntaxError.notice =
        (recoverProgram first firstId).allErrorsAs SyntaxError.notice ∧
      (readExpression ts firstId).errorsAs SyntaxError.notice =
        (readExpression first firstId).errorsAs SyntaxError.notice := by
  intro ended longer first
  constructor
  · have alike := @reads_agree (⟨.endOfText, lexeme, line⟩ :: more) [⟨.endOfText, lexeme, line⟩] _
      rfl rfl id ?_ ts firstId
    · simpa only [Reading.errorsAs_id, Reading.allErrorsAs_id] using alike
    · rintro ⟨t, cause⟩ ⟨t', cause'⟩ (same | ⟨cause, told, told'⟩)
      · exact same
      · cases cause
        cases told.trans told'.symm
        rfl
  · have alike := @reads_agree [] [⟨.endOfText, lexeme, 1⟩] _ rfl rfl SyntaxError.notice ?_ ts firstId
    · simpa only [List.append_nil] using alike
    · rintro ⟨t, cause⟩ ⟨t', cause'⟩ (same | ⟨cause, told, told'⟩)
      · rw [same]
      · cases cause
        cases told
        cases told'
        rfl

end Grammar

end Lox
