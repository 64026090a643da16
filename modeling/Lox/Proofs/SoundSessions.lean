import Lox.Proofs.ChunkStages
import Lox.Proofs.LikeStates
import Lox.Proofs.SafeSteps
import Lox.Proofs.ScopeWalk

/-!
The sessions that can be reached, and what all of them have in common: the store is sound, only the
global scope is in force, and nothing is recorded for ids that are yet to be given out.
-/

namespace Lox

/-- What a host can bind: a value that it makes itself, or one that the program has left somewhere. -/
def Store.Offers (s : Store) (v : Value) : Prop :=
  v.isPlain = true ∨ (∃ scope name, (s.bindings scope).get? name = some v) ∨
    ∃ object name, (s.fields object).get? name = some v

theorem Store.Sound.imp {R R' : ExprId → Option Nat → Prop} {t : Store}
    (sound : t.Sound R) (weaker : ∀ id d, R id d → R' id d) : t.Sound R' := by
  have same := Store.Grows.refl t
  refine ⟨sound.global, fun scope name v found => ?_, fun object name v found => ?_⟩
  · exact (sound.bound scope name v found).later weaker same
  · exact (sound.fields object name v found).later weaker same

namespace Session

/-- Chunks are run one after the other, whatever they end with. In between the host can bind global
names, make natives, look elsewhere for what is printed, and time passes. -/
inductive Reachable : Session → Prop
  | initial (sink : Sink) (clock : Nat) : Reachable (Session.initial sink clock)
  | run {s : Session} (before : Reachable s) (fuel : Nat) (source : String) :
      Reachable (s.run fuel source).2
  | defineGlobal {s : Session} (before : Reachable s) (name : String) {value : Value}
      (offered : s.machine.store.Offers value) : Reachable (s.defineGlobal name value)
  | makeNative {s : Session} (before : Reachable s) (native : Native) :
      Reachable { s with machine := (s.machine.makeNative native).2 }
  | resume {s : Session} (before : Reachable s) (sink : Sink) (clock : Nat) :
      Reachable { s with machine := { s.machine with sink := sink, clock := clock } }

/-- What is recorded for an id that has been given out. -/
def Recorded (s : Session) (id : ExprId) (d : Option Nat) : Prop :=
  id < s.nextId ∧ s.machine.distances[id]? = d

structure Sound (s : Session) : Prop where
  store : s.machine.store.Sound s.Recorded
  chain : s.machine.chain = globalChain
  fresh : ∀ id, s.nextId ≤ id → s.machine.distances[id]? = none

variable {s : Session} {source : String}

theorem Sound.ready (sound : s.Sound) : s.machine.Ready s.Recorded Place.outermost :=
  ⟨⟨sound.store, fun _ _ recorded => recorded.2⟩, sound.chain, Place.proper_outermost⟩

/-! ### Chunks before they are run -/

theorem program_formed (s : Session) (source : String) :
    Stmt.FormedList Token.Spelled (s.program source) := (chunk_read source s.nextId).1

theorem program_handed (s : Session) (source : String) :
    Handed s.nextId (s.reading source).nextId (Stmt.idsList (s.program source)) :=
  (chunk_read source s.nextId).2.1

/-- Binding a chunk changes distances only, and none of those for earlier ids. -/
theorem bound_machine (s : Session) (source : String) :
    (s.bound source).machine =
      { s.machine with distances := (s.bound source).machine.distances } := by
  have same : (s.bound source).machine =
      s.machine.setDistances (resolve (s.program source)).found := rfl
  rw [same, Machine.setDistances_eq]

theorem bound_distances (s : Session) (source : String) {id : ExprId} (old : id < s.nextId) :
    (s.bound source).machine.distances[id]? = s.machine.distances[id]? := by
  refine Machine.setDistances_other fun use member same => ?_
  have given := (program_handed s source).bounds use.1 (resolve_found _ use member)
  rw [same] at given
  exact Nat.not_le_of_lt old given.1

/-- What was recorded is recorded after reading, too. -/
theorem Recorded.bound {id : ExprId} {d : Option Nat} (recorded : s.Recorded id d) :
    (s.bound source).Recorded id d :=
  ⟨Nat.lt_of_lt_of_le recorded.1 (program_handed s source).le,
    (bound_distances s source recorded.1).trans recorded.2⟩

theorem Sound.read (sound : s.Sound) : Sound { s with nextId := (s.reading source).nextId } := by
  have later := (program_handed s source).le
  refine ⟨?_, sound.chain, fun id beyond => sound.fresh id (Nat.le_trans later beyond)⟩
  exact Store.Sound.imp sound.store fun id d recorded =>
    ⟨Nat.lt_of_lt_of_le recorded.1 later, recorded.2⟩

theorem Sound.bound (sound : s.Sound) : (s.bound source).Sound := by
  have handed := program_handed s source
  have same : (s.bound source).machine =
      s.machine.setDistances (resolve (s.program source)).found := rfl
  rw [Machine.setDistances_eq] at same
  refine ⟨?_, ?_, fun id beyond => ?_⟩
  · rw [same]
    exact Store.Sound.imp sound.store fun id d recorded => recorded.bound
  · rw [same]
    exact sound.chain
  · refine Eq.trans (Machine.setDistances_other fun use member same => ?_) ?_
    · have given := handed.bounds use.1 (resolve_found _ use member)
      rw [same] at given
      exact Nat.not_le_of_lt given.2 beyond
    · exact sound.fresh id (Nat.le_trans handed.le beyond)

/-- The statements of a chunk that is accepted are well scoped, with the distances that are recorded
for them. -/
theorem Accepts.scoped (accepts : s.Accepts source) (sound : s.Sound) :
    Stmt.ScopedList (s.bound source).Recorded Place.outermost (s.program source) := by
  have handed := program_handed s source
  have resolved := accepts.resolved
  unfold resolve at resolved
  cases walk : Scoping.stmts (s.program source) ScopeState.initial with
  | error e t =>
    rw [walk] at resolved
    cases resolved
  | ok u t =>
    have settled : ScopeState.initial.place.Settled := fun _ member => nomatch member
    obtain ⟨-, uses, found, known, holds⟩ := Scoping.stmts_ok _ settled handed.distinct walk
    have distances : (resolve (s.program source)).found = uses.reverse := by
      unfold resolve
      rw [walk]
      exact congrArg List.reverse (found.trans (List.append_nil uses))
    have distinct : ((resolve (s.program source)).found.map Prod.fst).Nodup := by
      rw [distances, List.map_reverse, List.nodup_reverse]
      obtain ⟨listed, same, part⟩ := known
      exact same.nodup_iff.1 (handed.distinct.sublist part)
    refine holds _ ⟨fun id d use => ⟨?_, ?_⟩, fun id member unused => ⟨?_, ?_⟩⟩
    · exact (handed.bounds id (known.subset (List.mem_map_of_mem use))).2
    · exact Machine.setDistances_found distinct (by rw [distances]; exact List.mem_reverse.2 use)
    · exact (handed.bounds id member).2
    · refine Eq.trans (Machine.setDistances_other fun use used same => ?_) ?_
      · rw [distances] at used
        subst same
        exact unused use.2 (List.mem_reverse.1 used)
      · exact sound.fresh id (handed.bounds id member).1

/-! ### Runs -/

theorem Sound.firstStep (sound : s.Sound) (accepts : s.Accepts source) (fuel : Nat) :
    (s.firstStep fuel source).Sound (s.bound source).Recorded :=
  ⟨sound.bound.ready, accepts.scoped sound, program_formed s source⟩

/-- A run of statements leaves the store sound, and the distances as they are. -/
theorem Sound.interpreted (sound : s.Sound) {program : List Stmt}
    (inside : Stmt.ScopedList s.Recorded Place.outermost program)
    (formed : Stmt.FormedList Token.Spelled program) (fuel : Nat) :
    s.machine.Kept s.Recorded (stateOf (Run.interpret fuel program s.machine)) := by
  have safe := Run.interpret_safe fuel program sound.ready inside formed
  cases run : Run.interpret fuel program s.machine with
  | ok _ n => exact (safe.ok run).1
  | error _ n => exact (safe.error run).1

theorem Sound.kept (sound : s.Sound) (accepts : s.Accepts source) (fuel : Nat) :
    (s.bound source).machine.Kept (s.bound source).Recorded
      (stateOf (Run.interpret fuel (s.program source) (s.bound source).machine)) :=
  sound.bound.interpreted (accepts.scoped sound) (program_formed s source) fuel

theorem Sound.afterwards (sound : s.Sound) {n : Machine} (kept : s.machine.Kept s.Recorded n) :
    Sound { s with machine := n } := by
  have same (id : ExprId) : n.distances[id]? = s.machine.distances[id]? :=
    congrArg (·[id]?) kept.distances
  refine ⟨?_, kept.chain.trans sound.chain, fun id beyond => (same id).trans (sound.fresh id beyond)⟩
  exact Store.Sound.imp kept.sound fun id d recorded => ⟨recorded.1, (same id).trans recorded.2⟩

theorem Sound.run (sound : s.Sound) (fuel : Nat) (source : String) :
    (s.run fuel source).2.Sound := by
  rcases accepts_or_rejects s source with accepts | ⟨faults, after, rejects⟩
  · rw [run_accepted fuel accepts]
    exact sound.bound.afterwards (sound.kept accepts fuel)
  · rw [run_rejected fuel rejects]
    cases rejects with
    | lex => exact sound
    | parse => exact sound.read
    | resolve => exact sound.bound

/-! ### The host -/

/-- What is offered is sound wherever it is bound. -/
theorem Sound.offered (sound : s.Sound) {value : Value} (offered : s.machine.store.Offers value) :
    value.Sound s.Recorded s.machine.store := by
  rcases offered with plain | ⟨scope, name, found⟩ | ⟨object, name, found⟩
  · cases value <;> first | exact trivial | cases plain
  · exact sound.store.bound scope name value found
  · exact sound.store.fields object name value found

theorem Sound.defineGlobal (sound : s.Sound) (name : String) {value : Value}
    (offered : s.machine.store.Offers value) : (s.defineGlobal name value).Sound := by
  have grows := s.machine.store.grows_global name value
  have stored := sound.store.bind grows ((sound.offered offered).grow grows)
  exact ⟨stored, sound.chain, sound.fresh⟩

theorem Sound.makeNative (sound : s.Sound) (native : Native) :
    Sound { s with machine := (s.machine.makeNative native).2 } :=
  ⟨sound.store, sound.chain, sound.fresh⟩

theorem Sound.defineNative (sound : s.Sound) (native : Native) :
    Sound { s with machine := s.machine.defineNative native } :=
  (sound.makeNative native).defineGlobal native.name (.inl rfl)

theorem Sound.initial (sink : Sink) (clock : Nat) : (Session.initial sink clock).Sound := by
  let bare : Session :=
    ⟨⟨Store.empty.addScope Table.empty, globalChain, ∅, sink, 0, clock⟩, 0⟩
  have first : bare.Sound := by
    refine ⟨⟨Nat.one_pos, fun scope name v found => ?_, fun object name v found => ?_⟩, rfl,
      fun id _ => rfl⟩
    · have bindings : bare.machine.store.bindings scope = Table.empty := by
        rw [Store.bindings_addScope]
        split <;> rfl
      rw [bindings] at found
      cases found
    · cases found
  exact (first.defineNative ⟨"clock", .clock⟩).defineNative ⟨"assert_equal", .assertEqual⟩

/-- Every session that can be reached is sound. -/
theorem Reachable.sound (reachable : s.Reachable) : s.Sound := by
  induction reachable with
  | initial sink clock => exact Sound.initial sink clock
  | run _ fuel source ih => exact ih.run fuel source
  | defineGlobal _ name offered ih => exact ih.defineGlobal name offered
  | makeNative _ native ih => exact ih.makeNative native
  | resume _ sink clock ih => exact ⟨ih.store, ih.chain, ih.fresh⟩

end Session

end Lox
