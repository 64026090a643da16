import Mathlib
import Lox.Proofs.SessionsBeside

/-!
A chunk that is rejected before it is run leaves no trace. All it does is to use up ids and to record
distances for them, and no other chunk can tell.
-/

namespace Lox

/-- The report tells of faults of the text, found by the scanner, the grammar or static scoping. -/
def Report.isRejection : Report → Bool
  | .failed (.lex _ :: _) => true
  | .failed (.parse _ :: _) => true
  | .failed (.resolve _ :: _) => true
  | _ => false

namespace Session

variable {s t : Session} {fuel : Nat} {source : String} {faults : List Fault}

theorem rejects_of_report (rejected : (s.run fuel source).1.isRejection = true) :
    ∃ faults after, s.Rejects source faults after ∧ s.run fuel source = (.failed faults, after) := by
  rcases accepts_or_rejects s source with accepts | ⟨faults, after, rejects⟩
  · rw [run_accepted fuel accepts] at rejected
    cases ended : (s.firstStep fuel source).halt? with
    | none =>
      rw [ended] at rejected
      cases rejected
    | some h =>
      rw [ended] at rejected
      cases h <;> cases rejected
  · exact ⟨faults, after, rejects, run_rejected fuel rejects⟩

/-- A rejected chunk changes distances only, and none of those for earlier ids. -/
theorem Rejects.machine (rejects : s.Rejects source faults t) :
    t.machine = { s.machine with distances := t.machine.distances } ∧ s.nextId ≤ t.nextId ∧
      ∀ id, id < s.nextId → t.machine.distances[id]? = s.machine.distances[id]? := by
  cases rejects with
  | lex => exact ⟨rfl, Nat.le_refl _, fun _ _ => rfl⟩
  | parse => exact ⟨rfl, (program_handed s source).le, fun _ _ => rfl⟩
  | resolve =>
    exact ⟨bound_machine s source, (program_handed s source).le, fun id old => bound_distances s source old⟩

/-- The ids of later chunks come later by as many as the rejected one has used up. -/
def skipping (s t : Session) : Offset :=
  ⟨s.nextId, t.nextId - s.nextId, fun _ l => l, Eq, fun _ _ _ => rfl, fun _ => rfl⟩

/-- A session with more distances for ids that are yet to be given out. -/
theorem Sound.beside_later (sound : s.Sound) (after : t.Sound)
    (machine : t.machine = { s.machine with distances := t.machine.distances })
    (later : s.nextId ≤ t.nextId)
    (before : ∀ id, id < s.nextId → t.machine.distances[id]? = s.machine.distances[id]?) :
    Beside (skipping s t) s t := by
  have moves (id : ExprId) (old : id < s.nextId) : (s.between (skipping s t)).Moves .none id :=
    ⟨if_pos old, fun _ => rfl⟩
  have self := sound.like (c := s.between (skipping s t)) (fun id old => ⟨old, moves id old⟩)
    ⟨fun _ => rfl, rfl⟩ fun id old => ⟨rfl, by rw [(moves id old).ids]; rfl⟩
  have grown : Machine.Like (s.between (skipping s t)) _
      { s.machine with distances := s.machine.distances }
      { s.machine with distances := t.machine.distances } :=
    self.later (.refl _) fun id old => ⟨rfl, by rw [(moves id old).ids]; exact before id old⟩
  rw [← machine] at grown
  exact ⟨sound, after, Nat.le_refl _, (Nat.add_sub_of_le later).symm, _, grown⟩

theorem Sound.beside_rejected (sound : s.Sound) (after : t.Sound)
    (rejects : s.Rejects source faults t) : Beside (skipping s t) s t :=
  sound.beside_later after rejects.machine.1 rejects.machine.2.1 rejects.machine.2.2

theorem Tells.same {s : Session} {r r' : Report} (tells : Tells (fun _ l => l) s fuel source r r') :
    r' = r := by
  by_cases runs : ∃ e, r = .failed [.runtime e]
  · obtain ⟨e, rfl⟩ := runs
    obtain ⟨id, -, same⟩ := tells.runtime e rfl
    exact same
  · exact tells.other fun e same => runs ⟨e, same⟩

/-- What each of the chunks ends with, and the sink with what has been printed by then. -/
def outcomes (s : Session) : List (Nat × String) → List (Report × Sink)
  | [] => []
  | (fuel, source) :: rest =>
      let (report, after) := s.run fuel source
      (report, after.machine.sink) :: after.outcomes rest

theorem outcomes_append (s : Session) (chunks more : List (Nat × String)) :
    s.outcomes (chunks ++ more) = s.outcomes chunks ++ (s.after chunks).outcomes more := by
  induction chunks generalizing s with
  | nil => rfl
  | cons chunk chunks ih => exact congrArg (List.cons _) (ih _)

theorem length_outcomes (s : Session) (chunks : List (Nat × String)) :
    (s.outcomes chunks).length = chunks.length := by
  induction chunks generalizing s with
  | nil => rfl
  | cons chunk chunks ih => exact congrArg Nat.succ (ih _)

/-- Where no line differs, two sessions side by side cannot be told apart. -/
theorem Beside.outcomes {o : Offset} {s' : Session} (beside : Beside o s s')
    (still : o.line = fun _ l => l) (chunks : List (Nat × String)) :
    s'.outcomes chunks = s.outcomes chunks := by
  induction chunks generalizing s s' with
  | nil => rfl
  | cons chunk chunks ih =>
    obtain ⟨next, tells⟩ := beside.run chunk.1 chunk.2
    rw [still] at tells
    exact congrArg₂ List.cons (Prod.ext tells.same next.sink) (ih next)

end Session

end Lox
