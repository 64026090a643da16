import Lox.Proofs.ReadChunks
import Lox.Proofs.ScopeRecords
import Lox.Proofs.Steps

/-!
The stages of a chunk: what it is read as, the session whose machine holds its distances, and the
first step of its run. A chunk is either accepted and run or ends with faults of one stage.
-/

namespace Lox

theorem Machine.setDistances_eq (m : Machine) (found : List (ExprId × Nat)) :
    m.setDistances found =
      { m with distances := found.foldl (fun t use => t.insert use.1 use.2) m.distances } := by
  induction found generalizing m with
  | nil => rfl
  | cons use found ih =>
    rw [Machine.setDistances, List.foldl_cons]
    exact ih (m.setDistance use.1 use.2)

section Distances

variable {m : Machine} {found : List (ExprId × Nat)} {id : ExprId}

theorem Machine.setDistances_other (other : ∀ use ∈ found, use.1 ≠ id) :
    (m.setDistances found).distances[id]? = m.distances[id]? := by
  induction found generalizing m with
  | nil => rfl
  | cons use found ih =>
    have later := @ih (m.setDistance use.1 use.2) fun use member =>
      other use (List.mem_cons_of_mem _ member)
    refine Eq.trans later ?_
    have differ : use.1 ≠ id := other use List.mem_cons_self
    simp [Machine.setDistance, Std.TreeMap.getElem?_insert, differ]

theorem Machine.setDistances_found {d : Nat} (distinct : (found.map Prod.fst).Nodup)
    (member : (id, d) ∈ found) : (m.setDistances found).distances[id]? = some d := by
  induction found generalizing m with
  | nil => cases member
  | cons use found ih =>
    rw [List.map_cons, List.nodup_cons] at distinct
    rcases List.mem_cons.1 member with rfl | member
    · refine (Machine.setDistances_other (m := m.setDistance id d) fun use among same => ?_).trans ?_
      · exact distinct.1 (List.mem_map.2 ⟨use, among, same⟩)
      · simp [Machine.setDistance]
    · exact @ih (m.setDistance use.1 use.2) distinct.2 member

end Distances

namespace Session

variable (s : Session) (fuel : Nat) (source : String)

def reading : Grammar.Reading (List (Except SyntaxError Stmt)) :=
  Grammar.recoverProgram (Scan.tokens (Scan.items source)) s.nextId

/-- The statements that the text is read as. -/
def program : List Stmt := statements (s.reading source).value

/-- The session when the statements are bound. -/
def bound : Session :=
  ⟨(s.machine.bindProgram (s.program source)).2, (s.reading source).nextId⟩

/-- No stage before the run finds a fault. -/
structure Accepts : Prop where
  scanned : Scan.errors (Scan.items source) = []
  read : syntaxErrors (s.reading source).value = []
  resolved : (resolve (s.program source)).error = none

def firstStep : Step := ⟨fuel, .program (s.program source), (s.bound source).machine⟩

/-- How a chunk ends whose run has ended with this, if at all. -/
def reportOf : Option Halt → Report
  | none => .done
  | some h => .ofHalt h

variable {s source}

theorem run_scanned (scanned : Scan.errors (Scan.items source) = []) :
    s.run fuel source =
      match syntaxErrors (s.reading source).value with
      | [] => runStatements { s with nextId := (s.reading source).nextId } fuel (s.program source)
      | errors =>
          (.failed (errors.map .parse), { s with nextId := (s.reading source).nextId }) := by
  unfold run runTokens
  simp only [scanned]
  rfl

theorem run_accepted (accepts : s.Accepts source) :
    s.run fuel source =
      (reportOf (s.firstStep fuel source).halt?, { s.bound source with
        machine := stateOf (Run.interpret fuel (s.program source) (s.bound source).machine) }) := by
  obtain ⟨scanned, read, resolved⟩ := accepts
  have bound : s.machine.bindProgram (s.program source) = (none, (s.bound source).machine) := by
    rw [← resolved]
    rfl
  simp only [run_scanned fuel scanned, read, runStatements, bound, Machine.runProgram, firstStep,
    Step.halt?]
  cases Run.interpret fuel (s.program source) (s.bound source).machine <;> rfl

/-- What a chunk that is not accepted ends with, and the session that it leaves. -/
inductive Rejects (s : Session) (source : String) : List Fault → Session → Prop
  | lex (errors : Scan.errors (Scan.items source) ≠ []) :
      Rejects s source ((Scan.errors (Scan.items source)).map .lex) s
  | parse (scanned : Scan.errors (Scan.items source) = [])
      (errors : syntaxErrors (s.reading source).value ≠ []) :
      Rejects s source ((syntaxErrors (s.reading source).value).map .parse)
        { s with nextId := (s.reading source).nextId }
  | resolve {e : ScopeError} (scanned : Scan.errors (Scan.items source) = [])
      (read : syntaxErrors (s.reading source).value = [])
      (error : (resolve (s.program source)).error = some e) :
      Rejects s source [.resolve e] (s.bound source)

theorem run_rejected {faults : List Fault} {after : Session} (rejects : s.Rejects source faults after) :
    s.run fuel source = (.failed faults, after) := by
  cases rejects with
  | lex errors =>
    unfold run
    dsimp only
    split
    · contradiction
    · rfl
  | parse scanned errors =>
    rw [run_scanned fuel scanned]
    split
    · contradiction
    · rfl
  | @resolve e scanned read error =>
    have bound : s.machine.bindProgram (s.program source) = (some e, (s.bound source).machine) := by
      rw [← error]
      rfl
    simp only [run_scanned fuel scanned, read, runStatements, bound]
    rfl

theorem accepts_or_rejects (s : Session) (source : String) :
    s.Accepts source ∨ ∃ faults after, s.Rejects source faults after := by
  by_cases scanned : Scan.errors (Scan.items source) = []
  · by_cases read : syntaxErrors (s.reading source).value = []
    · cases resolved : (resolve (s.program source)).error with
      | none => exact .inl ⟨scanned, read, resolved⟩
      | some e => exact .inr ⟨_, _, .resolve scanned read resolved⟩
    · exact .inr ⟨_, _, .parse scanned read⟩
  · exact .inr ⟨_, _, .lex scanned⟩

end Session

end Lox
