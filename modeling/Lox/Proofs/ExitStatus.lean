import Lox.Command.Outcome
import Lox.Proofs.RejectedChunks

/-!
What the exit status of a failed chunk tells. A chunk that is rejected is not run, and has the status
of errors in the text; one that is run has that of errors while it runs, unless its sink was full.
-/

namespace Lox

namespace Session

variable {s after : Session} {fuel : Nat} {source : String} {faults : List Fault}

theorem Rejects.status (rejects : s.Rejects source faults after) : statusOf faults = dataStatus := by
  have static : faults.any Fault.isRuntime = false := by
    cases rejects <;> simp [Fault.isRuntime]
  rw [statusOf, static]
  rfl

theorem Rejects.not_accepts (rejects : s.Rejects source faults after) : ¬ s.Accepts source := by
  rintro ⟨scanned, read, resolved⟩
  cases rejects with
  | lex errors => exact errors scanned
  | parse _ errors => exact errors read
  | resolve _ _ error => cases resolved.symm.trans error

/-- A chunk that is accepted fails as its run does. -/
theorem Accepts.failed (accepts : s.Accepts source) (failed : (s.run fuel source).1 = .failed faults) :
    (∃ e, (s.firstStep fuel source).halt? = some (.runtime e) ∧ faults = [.runtime e]) ∨
      (s.firstStep fuel source).halt? = some .sinkFull ∧ faults = [.sinkFull] := by
  rw [run_accepted fuel accepts] at failed
  cases ended : (s.firstStep fuel source).halt? with
  | none =>
    rw [ended] at failed
    cases failed
  | some h =>
    rw [ended] at failed
    cases h with
    | runtime e =>
      cases failed
      exact .inl ⟨e, rfl, rfl⟩
    | sinkFull =>
      cases failed
      exact .inr ⟨rfl, rfl⟩
    | outOfFuel => cases failed

/-- The status is that of a run exactly if the chunk was run and ended with a run-time error. It is
that of the text if the chunk was not accepted, and then nothing was run or printed, but also if the
sink was full while the chunk was run. -/
theorem exit_status (failed : (s.run fuel source).1 = .failed faults) :
    (statusOf faults = softwareStatus ↔
      s.Accepts source ∧ ∃ e, (s.firstStep fuel source).halt? = some (.runtime e)) ∧
    (statusOf faults = dataStatus ↔
      ¬ s.Accepts source ∨ (s.firstStep fuel source).halt? = some .sinkFull) ∧
    (¬ s.Accepts source → s.Rejects source faults (s.run fuel source).2 ∧
      (s.run fuel source).2.machine =
        { s.machine with distances := (s.run fuel source).2.machine.distances }) := by
  have differ : dataStatus ≠ softwareStatus := by decide
  rcases s.accepts_or_rejects source with accepts | ⟨given, after, rejects⟩
  · have notRejected : ¬ ¬ s.Accepts source := not_not_intro accepts
    rcases accepts.failed failed with ⟨e, ended, rfl⟩ | ⟨ended, rfl⟩
    · have status : statusOf [.runtime e] = softwareStatus := rfl
      refine ⟨iff_of_true status ⟨accepts, e, ended⟩, iff_of_false ?_ ?_, fun refused => ?_⟩
      · rw [status]
        exact differ.symm
      · rw [ended]
        rintro (refused | full)
        · exact refused accepts
        · cases full
      · exact (refused accepts).elim
    · have status : statusOf [.sinkFull] = dataStatus := rfl
      refine ⟨iff_of_false ?_ ?_, iff_of_true status (.inr ended), fun refused => ?_⟩
      · rw [status]
        exact differ
      · rw [ended]
        rintro ⟨-, e, raised⟩
        cases raised
      · exact (refused accepts).elim
  · have ran := run_rejected fuel rejects
    rw [ran] at failed ⊢
    cases failed
    have refused := rejects.not_accepts
    refine ⟨iff_of_false ?_ fun run => refused run.1, iff_of_true rejects.status (.inl refused),
      fun _ => ⟨rejects, rejects.machine.1⟩⟩
    rw [rejects.status]
    exact differ

/-- A run-time error two calls deep. -/
def nestedNegation : String := "fun f() \x7b return -true; \x7d fun g() \x7b return f(); \x7d g();"

theorem exit_status_nestedNegation :
    ∃ faults, ((Session.initial .unlimited 0).run 20 nestedNegation).1 = .failed faults ∧
      statusOf faults = softwareStatus ∧
      ∃ e, ((Session.initial .unlimited 0).firstStep 20 nestedNegation).halt? = some (.runtime e) := by
  have status : ((Session.initial .unlimited 0).run 20 nestedNegation).1.status = softwareStatus := by
    decide +kernel
  cases ended : ((Session.initial .unlimited 0).run 20 nestedNegation).1 with
  | failed faults =>
    rw [ended] at status
    exact ⟨faults, rfl, status, ((exit_status ended).1.1 status).2⟩
  | _ =>
    rw [ended] at status
    cases status

/-- A chunk that is run and fails, since its sink is full, has the status of errors in the text. -/
theorem full_sink_status :
    (Session.initial ⟨some 0, #[]⟩ 0).Accepts "print true;" ∧
      ((Session.initial ⟨some 0, #[]⟩ 0).run 9 "print true;").1 = .failed [.sinkFull] ∧
      statusOf [.sinkFull] = dataStatus := by
  have accepts : (Session.initial ⟨some 0, #[]⟩ 0).Accepts "print true;" := by
    constructor
    · exact List.isEmpty_iff.1 (by decide +kernel)
    · exact List.isEmpty_iff.1 (by decide +kernel)
    · exact Option.isNone_iff_eq_none.1 (by decide +kernel)
  have status : ((Session.initial ⟨some 0, #[]⟩ 0).run 9 "print true;").1.status = dataStatus := by
    decide +kernel
  refine ⟨accepts, ?_, rfl⟩
  cases ended : ((Session.initial ⟨some 0, #[]⟩ 0).run 9 "print true;").1 with
  | failed faults =>
    rw [ended] at status
    rcases accepts.failed ended with ⟨e, -, rfl⟩ | ⟨-, rfl⟩
    · cases status
    · rfl
  | _ =>
    rw [ended] at status
    cases status

end Session

end Lox
