import Mathlib
import Lox.Proofs.Effects
import Lox.Proofs.Lives
import Lox.Proofs.ResolvedRuns

/-!
The order of what happens in the life of a session. A scope is opened once; a step that knows of a
scope comes after the opening, and between them there is nothing but writes.
-/

namespace Lox

open Relation (ReflTransGen)

/-- The step opens this scope with these bindings. -/
def Step.Opens (step : Step) (bindings : Table Value) (scope : ScopeId) : Prop :=
  ∃ u, step.Does (.openScope bindings) u ∧ u.scopes.size = scope

theorem Step.Effect.opens {step : Step} {bindings : Table Value} {u : Store}
    (effect : step.Effect (.openScope bindings) u) : step.Opens bindings u.scopes.size :=
  ⟨u, effect.does, rfl⟩

namespace Session

/-- The run of one of the chunks comes to this step. -/
def Happens (chunks : List Chunk) (step : Step) : Prop :=
  ∃ c ∈ chunks, c.session.Runs c.fuel c.source step

/-- The store is changed by a step, or the host binds a global name. -/
inductive Changes (chunks : List Chunk) : Store → Store → Prop
  | write {s t : Store} (writes : Writes (Happens chunks) s t) : Changes chunks s t
  | host (s : Store) (name : String) (value : Value) : Changes chunks s (s.bind 0 name value)

/-- The store has become the other one in the life of the session. -/
def Since (chunks : List Chunk) : Store → Store → Prop := ReflTransGen (Changes chunks)

variable {chunks more : List Chunk} {c : Chunk} {s : Session} {step other : Step} {d d' : Deed}
  {u v : Store}

theorem happens_closed (chunks : List Chunk) : Closed (Happens chunks) := by
  rintro step part ⟨c, given, accepts, reaches⟩ starts
  exact ⟨c, given, accepts, reaches.tail starts⟩

theorem Happens.mono (happens : Happens chunks step) (within : chunks ⊆ more) : Happens more step := by
  obtain ⟨c, given, runs⟩ := happens
  exact ⟨c, within given, runs⟩

theorem Since.mono (since : Since chunks u v) (within : chunks ⊆ more) : Since more u v := by
  refine ReflTransGen.mono (fun s t changes => ?_) u v since
  cases changes with
  | write writes =>
    obtain ⟨step, d, happens, rest⟩ := writes
    exact .write ⟨step, d, happens.mono within, rest⟩
  | host name value => exact .host s name value

theorem since_of_becomes (becomes : Becomes (Happens chunks) u v) : Since chunks u v :=
  ReflTransGen.mono (fun _ _ writes => .write writes) u v becomes

/-- What every change keeps stays. -/
theorem Since.keeps {P : Store → Prop} (since : Since chunks u v)
    (each : ∀ s t, Changes chunks s t → P s → P t) (holds : P u) : P v := by
  induction since with
  | refl => exact holds
  | tail _ changes ih => exact each _ _ changes ih

/-! ### Chunks -/

theorem happens_firstStep (given : c ∈ chunks) (accepts : c.session.Accepts c.source) :
    Happens chunks (c.session.firstStep c.fuel c.source) :=
  ⟨c, given, accepts, .refl⟩

/-- The chunk is accepted, and its run comes to a step, within this depth, that passes the test. -/
def comesTo (c : Chunk) (test : Step → Bool) (depth : Nat) : Bool :=
  (Scan.errors (Scan.items c.source)).isEmpty &&
    (syntaxErrors (c.session.reading c.source).value).isEmpty &&
      (resolve (c.session.program c.source)).error.isNone &&
        Step.comesTo test depth (c.session.firstStep c.fuel c.source)

theorem happens_of_comesTo {test : Step → Bool} {depth : Nat} (given : c ∈ chunks)
    (comes : comesTo c test depth = true) : ∃ step, Happens chunks step ∧ test step = true := by
  simp only [comesTo, Bool.and_eq_true, List.isEmpty_iff, Option.isNone_iff_eq_none] at comes
  obtain ⟨⟨⟨scanned, read⟩, resolved⟩, comes⟩ := comes
  obtain ⟨step, reaches, passes⟩ := Step.reaches_of_comesTo comes
  exact ⟨step, ⟨c, given, ⟨scanned, read, resolved⟩, reaches⟩, passes⟩

theorem firstStep_store (s : Session) (fuel : Nat) (source : String) :
    (s.firstStep fuel source).machine.store = s.machine.store :=
  (congrArg Machine.store (s.bound_machine source) :)

theorem finish_store {fuel : Nat} {source : String} (accepts : s.Accepts source) :
    (s.firstStep fuel source).finish.store = (s.run fuel source).2.machine.store := by
  rw [run_accepted fuel accepts]
  rfl

theorem run_since (fuel : Nat) (source : String) (given : ⟨s, fuel, source⟩ ∈ chunks) :
    Since chunks s.machine.store (s.run fuel source).2.machine.store := by
  rcases s.accepts_or_rejects source with accepts | ⟨faults, after, rejects⟩
  · have ran := Step.becomes_finish (happens_closed chunks) (happens_firstStep given accepts)
    rw [firstStep_store, finish_store accepts] at ran
    exact since_of_becomes ran
  · rw [run_rejected fuel rejects]
    cases rejects with
    | lex | parse => exact .refl
    | resolve => exact congrArg Machine.store (s.bound_machine source) ▸ .refl

theorem runs_started (given : c ∈ chunks) (runs : c.session.Runs c.fuel c.source step) :
    Since chunks c.session.machine.store step.machine.store := by
  have started := runs.2.started (happens_closed chunks) (happens_firstStep given runs.1)
  rw [firstStep_store] at started
  exact since_of_becomes started

theorem runs_ended (given : c ∈ chunks) (runs : c.session.Runs c.fuel c.source step) :
    Since chunks step.finish.store c.after.machine.store := by
  have ended := runs.2.ended (happens_closed chunks) (happens_firstStep given runs.1)
  rw [finish_store runs.1] at ended
  exact since_of_becomes ended

theorem Happens.since_start (happens : Happens chunks step) (does : step.Does d u) :
    Since chunks step.machine.store u :=
  since_of_becomes (does.since_start (happens_closed chunks) happens)

theorem Happens.to_finish (happens : Happens chunks step) (does : step.Does d u) :
    Since chunks (d.leaves u) step.finish.store :=
  since_of_becomes (does.to_finish (happens_closed chunks) happens)

namespace Life

/-- All that has happened is before the session as it is now. -/
theorem ended_before_now (life : Life chunks s) (happens : Happens chunks step) :
    Since chunks step.finish.store s.machine.store := by
  induction life with
  | initial =>
    obtain ⟨c, given, -⟩ := happens
    cases given
  | @run chunks s before fuel source ih =>
    obtain ⟨c, given, runs⟩ := happens
    rcases List.mem_cons.1 given with rfl | earlier
    · have ended := runs_ended given runs
      exact ended
    · exact ((ih ⟨c, earlier, runs⟩).mono (List.subset_cons_self _ _)).trans
        (run_since fuel source List.mem_cons_self)
  | defineGlobal _ name _ ih => exact (ih happens).tail (.host _ name _)
  | makeNative _ _ ih | resume _ _ _ ih => exact ih happens

/-- Of two steps, one ends before the other starts, or the run of one chunk comes to both. -/
theorem apart_or_together (life : Life chunks s) (first : Happens chunks step)
    (second : Happens chunks other) :
    Since chunks step.finish.store other.machine.store ∨
      Since chunks other.finish.store step.machine.store ∨
        ∃ root, Happens chunks root ∧ root.Reaches step ∧ root.Reaches other := by
  induction life with
  | initial =>
    obtain ⟨c, given, -⟩ := first
    cases given
  | @run chunks s before fuel source ih =>
    obtain ⟨c, given, runs⟩ := first
    obtain ⟨c', given', runs'⟩ := second
    have later {u v : Store} (since : Since chunks u v) : Since (⟨s, fuel, source⟩ :: chunks) u v :=
      since.mono (List.subset_cons_self _ _)
    rcases List.mem_cons.1 given with rfl | earlier <;>
      rcases List.mem_cons.1 given' with rfl | earlier'
    · exact .inr (.inr ⟨_, happens_firstStep given runs.1, runs.2, runs'.2⟩)
    · refine .inr (.inl ?_)
      exact (later (before.ended_before_now ⟨c', earlier', runs'⟩)).trans (runs_started given runs)
    · refine .inl ?_
      exact (later (before.ended_before_now ⟨c, earlier, runs⟩)).trans (runs_started given' runs')
    · rcases ih ⟨c, earlier, runs⟩ ⟨c', earlier', runs'⟩ with apart | apart | ⟨root, happens, together⟩
      · exact .inl (later apart)
      · exact .inr (.inl (later apart))
      · exact .inr (.inr ⟨root, happens.mono (List.subset_cons_self _ _), together⟩)
  | defineGlobal _ _ _ ih | makeNative _ _ ih | resume _ _ _ ih => exact ih first second

/-- Of a write and anything else that happens one comes first, or the write is part of the other. -/
theorem ordered (life : Life chunks s) (happens : Happens chunks step)
    (happens' : Happens chunks other) (first : step.Does d u) (second : other.Does d' v)
    (write : d.isWrite = true) :
    (step = other ∧ d = d' ∧ u = v) ∨ Since chunks (d.leaves u) v ∨ Since chunks (d'.leaves v) u ∨
      ∃ part, d' = .part part ∧ Since chunks v u := by
  rcases life.apart_or_together happens happens' with apart | apart | ⟨root, among, reaches, reaches'⟩
  · exact .inr (.inl ((happens.to_finish first).trans (apart.trans (happens'.since_start second))))
  · exact .inr (.inr (.inl ((happens'.to_finish second).trans
      (apart.trans (happens.since_start first)))))
  · rcases reaches.ordered (happens_closed chunks) reaches' among first second write with
      same | earlier | later | ⟨part, isPart, inside⟩
    · exact .inl same
    · exact .inr (.inl (since_of_becomes earlier))
    · exact .inr (.inr (.inl (since_of_becomes later)))
    · exact .inr (.inr (.inr ⟨part, isPart, since_of_becomes inside⟩))

/-- A write is before the start of a step, or after it. -/
theorem start_ordered (life : Life chunks s) (happens : Happens chunks step)
    (happens' : Happens chunks other) (does : step.Does d u) (write : d.isWrite = true) :
    Since chunks (d.leaves u) other.machine.store ∨ Since chunks other.machine.store u := by
  have closed := happens_closed chunks
  rcases life.apart_or_together happens happens' with apart | apart | ⟨root, among, reaches, reaches'⟩
  · exact .inl ((happens.to_finish does).trans apart)
  · have ran := since_of_becomes (Step.becomes_finish closed happens')
    exact .inr (ran.trans (apart.trans (happens.since_start does)))
  · rcases reaches'.cases_tail with rfl | ⟨whole, toWhole, starts⟩
    · exact .inr (since_of_becomes (reaches.since_start closed among does))
    · have ran := since_of_becomes (Step.becomes_finish closed happens')
      rcases reaches.ordered closed toWhole among does starts.does write with
        ⟨-, isPart, -⟩ | earlier | later | ⟨-, -, inside⟩
      · rw [isPart] at write
        cases write
      · exact .inl (since_of_becomes earlier)
      · exact .inr (ran.trans (since_of_becomes later))
      · exact .inr (since_of_becomes inside)

end Life

/-! ### Scopes -/

theorem Since.sizes (since : Since chunks u v) :
    u.scopes.size ≤ v.scopes.size ∧ u.instances.size ≤ v.instances.size := by
  refine since.keeps (P := fun t => u.scopes.size ≤ t.scopes.size ∧
    u.instances.size ≤ t.instances.size) ?_ ⟨Nat.le_refl _, Nat.le_refl _⟩
  rintro s t changes ⟨scopes, instances⟩
  suffices grown : s.scopes.size ≤ t.scopes.size ∧ s.instances.size ≤ t.instances.size from
    ⟨Nat.le_trans scopes grown.1, Nat.le_trans instances grown.2⟩
  have bound (scope : ScopeId) (name : String) (value : Value) :
      s.scopes.size ≤ (s.bind scope name value).scopes.size :=
    Nat.le_of_eq (Store.size_bind ..).symm
  cases changes with
  | host name value => exact ⟨bound 0 name value, Nat.le_refl _⟩
  | write writes =>
    obtain ⟨step, d, -, write, -, rfl⟩ := writes
    cases d with
    | part => cases write
    | openScope bindings =>
      exact ⟨Nat.le_of_lt (by simp [Deed.leaves, Store.size_addScope]), Nat.le_refl _⟩
    | allocate => exact ⟨Nat.le_refl _, Nat.le_of_lt (by simp [Deed.leaves, Store.addInstance])⟩
    | setField => exact ⟨Nat.le_refl _, Nat.le_of_eq (by simp [Deed.leaves, Store.setField])⟩
    | bind scope name value => exact ⟨bound scope name value, Nat.le_refl _⟩
    | define chain name value =>
      cases chain with
      | nil => exact ⟨Nat.le_refl _, Nat.le_refl _⟩
      | cons scope outer => exact ⟨bound scope name value, Nat.le_refl _⟩

theorem Since.size (since : Since chunks u v) : u.scopes.size ≤ v.scopes.size := since.sizes.1

variable {bindings bindings' : Table Value} {scope : ScopeId}

/-- A scope is opened once. -/
theorem Life.opened_once (life : Life chunks s) (happens : Happens chunks step)
    (happens' : Happens chunks other) (opens : step.Opens bindings scope)
    (opens' : other.Opens bindings' scope) : step = other ∧ bindings = bindings' := by
  obtain ⟨u, first, rfl⟩ := opens
  obtain ⟨v, second, same⟩ := opens'
  have opened (s : Store) (b : Table Value) : (Deed.openScope b).leaves s = s.addScope b := rfl
  rcases life.ordered happens happens' first second rfl with
    ⟨same, deed, -⟩ | earlier | later | ⟨part, isPart, -⟩
  · exact ⟨same, Deed.openScope.inj deed⟩
  · have grown := earlier.size
    rw [opened, Store.size_addScope] at grown
    omega
  · have grown := later.size
    rw [opened, Store.size_addScope] at grown
    omega
  · cases isPart

/-- Where a scope is known, it has been opened, and what has happened since then are changes. -/
theorem Life.opened_before (life : Life chunks s) (happens : Happens chunks step)
    (happens' : Happens chunks other) (does : step.Does (.openScope bindings) u)
    (known : u.scopes.size < other.machine.store.scopes.size) :
    Since chunks (u.addScope bindings) other.machine.store := by
  rcases life.start_ordered happens happens' does rfl with earlier | later
  · exact earlier
  · exact absurd later.size (Nat.not_le_of_lt known)

end Session

end Lox
