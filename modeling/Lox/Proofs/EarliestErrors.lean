import Mathlib
import Lox.Proofs.PredictiveStatements

/-!
Where a program asks for something that is not there, the tokens before that place can still be
completed, and nothing that comes after the token found there matters.
-/

namespace Lox.Grammar

open Reader

/-- The error that a program is read up to, and how many tokens stand before the place where it was
found. -/
def failure? (tokens : List Token) (firstId : ExprId) : Option (SyntaxError × Nat) :=
  match declarations tokens.length ⟨tokens, firstId⟩ with
  | .ok _ _ => none
  | .error e after => some (e, tokens.length - after.rest.length)

theorem failure?_eq_some {tokens : List Token} {firstId : ExprId} {e : SyntaxError} {k : Nat} :
    failure? tokens firstId = some (e, k) ↔ ∃ after,
      declarations tokens.length ⟨tokens, firstId⟩ = .error e after ∧
        tokens.length - after.rest.length = k := by
  unfold failure?
  cases reading : declarations tokens.length ⟨tokens, firstId⟩ <;> simp

/-- The program is read, or only the target of an assignment is wrong. -/
def Completes (tokens : List Token) (firstId : ExprId) : Prop :=
  (∃ program, (readProgram tokens firstId).value = .ok program) ∨
    ∃ t, (readProgram tokens firstId).value = .error ⟨t, .invalidAssignmentTarget⟩

theorem readProgram_error {tokens : List Token} {firstId : ExprId} {e : SyntaxError} :
    (readProgram tokens firstId).value = .error e ↔ ∃ k, failure? tokens firstId = some (e, k) := by
  unfold readProgram failure?
  cases declarations tokens.length ⟨tokens, firstId⟩ <;> simp [readingOf]

theorem completes_of_finishes {tokens : List Token} {firstId : ExprId}
    (finishes : Finishes (declarations tokens.length) tokens [] firstId) :
    Completes tokens firstId := by
  unfold Finishes at finishes
  rw [List.append_nil] at finishes
  rcases finishes with ⟨program, id, reading⟩ | ⟨t, d, reading⟩
  · refine .inl ⟨program, ?_⟩
    rw [readProgram, reading]
    rfl
  · exact .inr ⟨t, readProgram_error.2 ⟨_, failure?_eq_some.2 ⟨d, reading, rfl⟩⟩⟩

/-- What an error in reading a program tells of all readings of programs. -/
def ToldOfPrograms (tokens : List Token) (firstId : ExprId) (after : Cursor) (e : SyntaxError)
    (used : List Token) : Prop :=
  ToldError (fun _ => False) TokenKind.inside EndsProgram (fun n : Nat => n + 1) declarations
    ⟨tokens, firstId⟩ after e used

theorem toldOfPrograms {tokens : List Token} {firstId : ExprId} {e : SyntaxError} {k : Nat}
    (place : failure? tokens firstId = some (e, k)) :
    ∃ used after, ToldOfPrograms tokens firstId after e used ∧ used.length = k := by
  have predicts : Predicts (fun _ => False) TokenKind.inside EndsProgram [] (tokens.length + 1)
      (fun n : Nat => n + 1) (declarations tokens.length) declarations :=
    declarations_predict (Nat.le_refl _) fun _ => Nat.le_refl _
  have told := predicts.foretells ⟨tokens, firstId⟩ (Nat.lt_succ_self _)
  obtain ⟨after, reading, rfl⟩ := failure?_eq_some.1 place
  rw [reading] at told
  obtain ⟨used, told⟩ := told
  refine ⟨used, after, told, ?_⟩
  have split : tokens = used ++ after.rest := told.split
  rw [split, List.length_append]
  omega

section Told

variable {tokens used : List Token} {firstId : ExprId} {e : SyntaxError} {after : Cursor}
  (told : ToldOfPrograms tokens firstId after e used)
include told

/-- The tokens before the error can be completed. -/
theorem ToldOfPrograms.completes {what : Expectation} (asks : e.cause = .expected what) :
    ∃ more, Completes (used ++ more) firstId := by
  by_cases nothing : used = []
  · subst nothing
    exact ⟨[], .inl ⟨[], rfl⟩⟩
  · obtain ⟨more, mends⟩ := told.mended what asks nothing
    refine ⟨more, completes_of_finishes (mends [] rfl _ ?_)⟩
    rw [List.append_nil]
    exact Nat.lt_succ_self _

/-- What comes after the token in error does not matter. -/
theorem ToldOfPrograms.again {rest : List Token} (same : rest.head? = after.rest.head?) :
    failure? (used ++ rest) firstId = some (e, used.length) := by
  refine failure?_eq_some.2 ⟨_, told.alike rest same _ (Nat.lt_succ_self _), ?_⟩
  rw [List.length_append]
  exact Nat.add_sub_cancel _ _

end Told

/-- Where something was asked for is the first place at which the program goes wrong. -/
theorem errors_are_earliest (tokens : List Token) (firstId : ExprId) (e : SyntaxError)
    (fails : (readProgram tokens firstId).value = .error e)
    (asks : ∃ what, e.cause = .expected what) :
    ∃ k ≤ tokens.length, failure? tokens firstId = some (e, k) ∧
      e.token = tokens.getD k Token.endOfInput ∧
      (∃ more, Completes (tokens.take k ++ more) firstId) ∧
      ∀ other, other.take (k + 1) = tokens.take (k + 1) →
        (readProgram other firstId).value = .error e ∧ failure? other firstId = some (e, k) := by
  obtain ⟨k, place⟩ := readProgram_error.1 fails
  obtain ⟨what, asks⟩ := asks
  obtain ⟨used, after, told, rfl⟩ := toldOfPrograms place
  have split : tokens = used ++ after.rest := told.split
  have front : tokens.take used.length = used := by rw [split, List.take_left]
  have next : tokens[used.length]? = after.rest.head? := by
    rw [split, List.getElem?_append_right (Nat.le_refl _), Nat.sub_self, List.head?_eq_getElem?]
  refine ⟨used.length, ?_, place, ?_, ?_, ?_⟩
  · rw [split, List.length_append]
    omega
  · rw [told.asks what asks, List.getD_eq_getElem?_getD, next, Cursor.next,
      List.headD_eq_head?_getD]
  · rw [front]
    exact told.completes asks
  · intro other agrees
    have front' : other.take used.length = used := by
      have shorter := congrArg (List.take used.length) agrees
      rwa [List.take_take, List.take_take, Nat.min_eq_left (Nat.le_succ _), front] at shorter
    have next' : (other.drop used.length).head? = after.rest.head? := by
      have there := congrArg (fun l => l[used.length]?) agrees
      simp only [List.getElem?_take_of_succ] at there
      rw [List.head?_drop, there, next]
    have again := told.again next'
    have whole := List.take_append_drop used.length other
    rw [front'] at whole
    rw [whole] at again
    exact ⟨readProgram_error.2 ⟨_, again⟩, again⟩

/-- In `print x y` the semicolon is missed at `y`, whatever follows. -/
theorem missed_semicolon_is_earliest :
    let print : Token := ⟨.keyword .print, "print", 1⟩
    let x : Token := ⟨.identifier, "x", 1⟩
    let y : Token := ⟨.identifier, "y", 1⟩
    (readProgram [print, x, y] 0).value = .error ⟨y, .expected .printEnd⟩ ∧
      (∃ more, Completes ([print, x] ++ more) 0) ∧
      ∀ other, other.take 3 = [print, x, y] →
        (readProgram other 0).value = .error ⟨y, .expected .printEnd⟩ := by
  intro print x y
  have fails : (readProgram [print, x, y] 0).value = .error ⟨y, .expected .printEnd⟩ := by rfl
  obtain ⟨k, -, place, -, completes, alike⟩ := errors_are_earliest _ _ _ fails ⟨_, rfl⟩
  obtain rfl : 2 = k := congrArg Prod.snd (Option.some.inj place)
  exact ⟨fails, completes, fun other same => (alike other same).1⟩

end Lox.Grammar
