import Mathlib
import Lox.Proofs.Origins

/-!
The history of a store: all that has changed it since the beginning, the last change first. What the
fields of an object hold is what was stored last, and every object was made by a call of its class.
-/

namespace Lox

open Session (Happens Life Since Changes happens_closed since_of_becomes)

/-- The host has bound a global name, or a step has written to the store. -/
inductive Change where
  | host (name : String) (value : Value)
  | deed (step : Step) (d : Deed)

namespace Change

/-- The value that the change stores under this name in this object. -/
def stored (i : InstanceId) (name : String) : Change → Option Value
  | .deed _ (.setField object key value) => if object = i ∧ key = name then some value else none
  | _ => none

/-- The value that was stored last, if any was. -/
def lastStored (i : InstanceId) (name : String) (history : List Change) : Option Value :=
  history.findSome? (stored i name)

/-- In this history a call of the class has made the object. -/
def Created (history : List Change) (i : InstanceId) (c : Class) : Prop :=
  ∃ fuel line vs m, .deed ⟨fuel, .call line vs (.class_ c), m⟩ .allocate ∈ history ∧
    m.store.instances.size = i

end Change

open Change

theorem Store.instances_define (s : Store) (chain : Chain) (name : String) (v : Value) :
    (s.define chain name v).instances = s.instances := by
  cases chain <;> rfl

/-- The store in which every session begins. -/
def Store.initial : Store := (Machine.initial .unlimited 0).store

/-- With these changes, all of them made in the life of a session, the store has come about. -/
inductive Past (chunks : List Chunk) : List Change → Store → Prop
  | start : Past chunks [] Store.initial
  | host {history : List Change} {u : Store} (past : Past chunks history u) (name : String)
      (value : Value) : Past chunks (.host name value :: history) (u.bind 0 name value)
  | deed {history : List Change} {u : Store} {step : Step} {d : Deed} (past : Past chunks history u)
      (happens : Happens chunks step) (effect : step.Effect d u) :
      Past chunks (.deed step d :: history) (d.leaves u)

section

variable {chunks given : List Chunk} {s t : Session} {history : List Change} {step other : Step}
  {d : Deed} {u v : Store} {i : InstanceId} {c c' : Class} {name : String}

/-! ### Every store has a history -/

theorem Past.since (past : Past chunks history u) (since : Since chunks u v) :
    ∃ later, Past chunks (later ++ history) v := by
  induction since with
  | refl => exact ⟨[], past⟩
  | tail _ changes ih =>
    obtain ⟨later, past⟩ := ih
    cases changes with
    | host name value => exact ⟨_ :: later, past.host name value⟩
    | write writes =>
      obtain ⟨step, d, happens, write, does, rfl⟩ := writes
      exact ⟨_ :: later, past.deed happens (does.effect write)⟩

namespace Session

theorem Life.since_initial (life : Life given t) (within : given ⊆ chunks) :
    Since chunks Store.initial t.machine.store := by
  induction life with
  | initial => exact .refl
  | run before fuel source ih =>
    have earlier := ih fun c member => within (List.mem_cons_of_mem _ member)
    exact earlier.trans (run_since fuel source (within List.mem_cons_self))
  | defineGlobal _ name _ ih => exact (ih within).tail (.host _ name _)
  | makeNative _ _ ih | resume _ _ _ ih => exact ih within

theorem Life.started_since_initial (life : Life chunks s) (happens : Happens chunks step) :
    Since chunks Store.initial step.machine.store := by
  obtain ⟨c, among, runs⟩ := happens
  obtain ⟨given, earlier, within⟩ := life.chunk_life among
  exact (earlier.since_initial within).trans (runs_started among runs)

/-- The store that a step leaves has a history. -/
theorem Life.past_of_finish (life : Life chunks s) (happens : Happens chunks step) :
    ∃ history, Past chunks history step.finish.store := by
  have ran := since_of_becomes (Step.becomes_finish (happens_closed chunks) happens)
  obtain ⟨later, past⟩ := Past.start.since ((life.started_since_initial happens).trans ran)
  exact ⟨_, past⟩

/-- So has the one that the session has come to. -/
theorem Life.past_of_session (life : Life chunks s) :
    ∃ history, Past chunks history s.machine.store := by
  obtain ⟨later, past⟩ := Past.start.since (life.since_initial (List.Subset.refl _))
  exact ⟨_, past⟩

end Session

/-! ### What is stored -/

/-- An object that is stored to is there. -/
theorem Step.Effect.stores_to (effect : step.Effect (.setField i name v') u)
    {R : ExprId → Option Nat → Prop} (sound : step.Sound R) : i < u.instances.size := by
  cases effect with
  | set first second =>
    obtain ⟨p, ready, inside, formed⟩ := sound
    obtain ⟨readyAfter, object⟩ := evaluated ready inside.1 formed.1 first
    have kept := ((Run.runs_safe _).1 _ p _ readyAfter inside.2 formed.2.2).ok second
    exact Nat.lt_of_lt_of_le object.1 kept.1.grows.objects

/-- A field holds what was stored last. -/
theorem Past.fields (past : Past chunks history u) (life : Life chunks s) (i : InstanceId)
    (name : String) : (u.fields i).get? name = lastStored i name history := by
  induction past with
  | start => rfl
  | host _ _ _ ih =>
    rw [Store.fields_bind]
    exact ih
  | @deed history u step d past happens effect ih =>
    rw [lastStored, List.findSome?_cons]
    cases d with
    | setField object key value =>
      obtain ⟨R, sound⟩ := life.step_sound happens
      have there := effect.stores_to sound
      rw [Deed.leaves, Store.fields_setField, stored]
      by_cases same : object = i
      · subst same
        rw [if_pos ⟨rfl, there⟩, Table.get?_insert]
        by_cases isName : key = name
        · rw [if_pos isName, if_pos ⟨rfl, isName⟩]
        · rw [if_neg isName, if_neg fun both => isName both.2]
          exact ih
      · rw [if_neg fun both => same both.1, if_neg fun both => same both.1]
        exact ih
    | allocate =>
      rw [Deed.leaves, Store.fields_addInstance]
      exact ih
    | define chain key value =>
      rw [Deed.leaves, Store.fields, Store.instances_define]
      exact ih
    | openScope bindings =>
      rw [Deed.leaves, Store.fields_addScope]
      exact ih
    | bind scope key value =>
      rw [Deed.leaves, Store.fields_bind]
      exact ih
    | part => cases effect

/-! ### Which class an object is of -/

theorem Past.happens (past : Past chunks history u) (among : .deed step d ∈ history) :
    Happens chunks step := by
  induction past with
  | start => cases among
  | host _ _ _ ih =>
    rcases List.mem_cons.1 among with same | earlier
    · cases same
    · exact ih earlier
  | deed _ happens _ ih =>
    rcases List.mem_cons.1 among with same | earlier
    · cases same
      exact happens
    · exact ih earlier

/-- Every object that is there was made by a call of a class. -/
theorem Past.created (past : Past chunks history u) (there : i < u.instances.size) :
    ∃ c, Created history i c := by
  induction past with
  | start => cases there
  | host _ _ _ ih =>
    obtain ⟨c, fuel, line, vs, m, among, same⟩ := ih there
    exact ⟨c, fuel, line, vs, m, List.mem_cons_of_mem _ among, same⟩
  | @deed history u step d past happens effect ih =>
    have earlier (before : i < u.instances.size) : ∃ c, Created (.deed step d :: history) i c := by
      obtain ⟨c, fuel, line, vs, m, among, same⟩ := ih before
      exact ⟨c, fuel, line, vs, m, List.mem_cons_of_mem _ among, same⟩
    cases effect with
    | @allocate fuel line vs c m =>
      rw [Deed.leaves, Store.size_addInstance] at there
      rcases Nat.lt_succ_iff_lt_or_eq.1 there with before | rfl
      · exact earlier before
      · exact ⟨c, fuel, line, vs, m, List.mem_cons_self, rfl⟩
    | set =>
      rw [Deed.leaves, Store.size_setField] at there
      exact earlier there
    | undefined | define | function | className =>
      rw [Deed.leaves, Store.instances_define] at there
      exact earlier there
    | _ => exact earlier there

/-- An object is made once. -/
theorem Session.Life.creates_once (life : Life chunks s) (creates : c.Creates chunks i)
    (creates' : c'.Creates chunks i) : c = c' := by
  obtain ⟨fuel, line, vs, m, happens, rfl⟩ := creates
  obtain ⟨fuel', line', vs', m', happens', same⟩ := creates'
  have first : Step.Does ⟨fuel, .call line vs (.class_ c), m⟩ .allocate m.store :=
    Step.Effect.allocate.does
  have second : Step.Does ⟨fuel', .call line' vs' (.class_ c'), m'⟩ .allocate m'.store :=
    Step.Effect.allocate.does
  have grows (u : Store) : u.instances.size < (Deed.allocate.leaves u).instances.size := by
    rw [Deed.leaves, Store.size_addInstance]
    exact Nat.lt_succ_self _
  rcases life.ordered happens happens' first second rfl with
    ⟨isStep, -⟩ | earlier | later | ⟨part, isPart, -⟩
  · cases isStep
    rfl
  · exact absurd earlier.sizes.2 (Nat.not_le_of_lt (same ▸ grows m.store))
  · exact absurd later.sizes.2 (Nat.not_le_of_lt (same ▸ grows m'.store))
  · cases isPart

theorem Change.Created.creates (created : Created history i c) (past : Past chunks history u) :
    c.Creates chunks i := by
  obtain ⟨fuel, line, vs, m, among, same⟩ := created
  exact ⟨fuel, line, vs, m, past.happens among, same⟩

/-- An object that is there was made, in any history of the store, by a call of the class that the
value names. -/
theorem Past.created_by (past : Past chunks history u) (life : Life chunks s)
    (made : Value.Made chunks (.object i c)) (there : i < u.instances.size) :
    Created history i c := by
  obtain ⟨c', created⟩ := past.created there
  obtain rfl := life.creates_once made.2 (created.creates past)
  exact created

end

end Lox
