import Mathlib
import Lox.Proofs.Histories

/-!
What a property of an object is follows from the history of the session: the value stored last under
its name in this object, else the method of the nearest class that declares it. No other change makes
a difference.
-/

namespace Lox

open Change
open Session (Happens Life)

/-! ### Lookups -/

/-- What an object has under a name: a field, a method with its receiver, or nothing. -/
inductive Property where
  | field (value : Value)
  | method (method : Closure) (receiver : Value)
  | missing

/-- What the object of this class has under the name. -/
def Store.property (s : Store) (i : InstanceId) (c : Class) (name : String) : Property :=
  match (s.fields i).get? name with
  | some v => .field v
  | none =>
      match c.method? name with
      | some method => .method method (.object i c)
      | none => .missing

/-- The value of it. A method is bound anew each time. -/
def Property.give (name : Token) : Property → Run Value
  | field v => pure v
  | method m receiver => do
      let bound ← Run.bindMethod m receiver
      Run.functionValue bound
  | missing => Run.raise name.line (.undefinedProperty name.lexeme)

theorem Run.property_gives (i : InstanceId) (c : Class) (name : Token) (m : Machine) :
    property i c name m = (m.store.property i c name.lexeme).give name m := by
  unfold property Store.property
  rw [bind_of_ok (show observe _ m = .ok _ m from rfl)]
  cases (m.store.fields i).get? name.lexeme with
  | some v => rfl
  | none => cases c.method? name.lexeme <;> rfl

/-! ### Methods of class bodies -/

section

variable {methods before after : List FunctionDecl} {f : FunctionDecl} {name : String} {chain : Chain}

/-- Of the methods of one name the last one counts. -/
theorem Run.methodTable_last (named : f.name.lexeme = name)
    (last : ∀ g ∈ after, g.name.lexeme ≠ name) :
    (methodTable chain (before ++ f :: after)).get? name =
      some ⟨f, chain, f.name.lexeme = initializerName⟩ := by
  rw [methodTable, List.map_append, Table.insertAll_append, List.map_cons, Table.insertAll,
    Table.get?_insertAll_absent, named, Table.get?_insert_self]
  intro entry member
  obtain ⟨g, among, rfl⟩ := List.mem_map.1 member
  exact last g among

theorem Run.methodTable_absent (absent : ∀ g ∈ methods, g.name.lexeme ≠ name) :
    (methodTable chain methods).get? name = none := by
  refine (Table.get?_insertAll_absent ?_).trans (Table.get?_empty name)
  intro entry member
  obtain ⟨g, among, rfl⟩ := List.mem_map.1 member
  exact absent g among

theorem FunctionDecl.last_named (named : ∃ g ∈ methods, g.name.lexeme = name) :
    ∃ before f after, methods = before ++ f :: after ∧ f.name.lexeme = name ∧
      ∀ g ∈ after, g.name.lexeme ≠ name := by
  induction methods with
  | nil =>
    obtain ⟨g, among, -⟩ := named
    cases among
  | cons first rest ih =>
    by_cases later : ∃ g ∈ rest, g.name.lexeme = name
    · obtain ⟨before, f, after, rfl, found⟩ := ih later
      exact ⟨first :: before, f, after, rfl, found⟩
    · obtain ⟨g, among, isName⟩ := named
      rcases List.mem_cons.1 among with rfl | among
      · exact ⟨[], g, rest, rfl, isName, fun g' member same => later ⟨g', member, same⟩⟩
      · exact absurd ⟨g, among, isName⟩ later

end

/-- Of the bodies of the class and of the classes that it inherits from, the nearest one with a
method of this name has this one last, declared in these scopes. -/
inductive Class.Inherits (chunks : List Chunk) (name : String) : Class → FunctionDecl → Chain → Prop
  | own {declaring : Step} {n : Machine} {token : Token} {parent : Option Class}
      {before after : List FunctionDecl} {f : FunctionDecl} (declared : Happens chunks declaring)
      (declares : declaring.Declares n token parent (before ++ f :: after))
      (named : f.name.lexeme = name) (last : ∀ g ∈ after, g.name.lexeme ≠ name) :
      Inherits chunks name (n.declared token parent (before ++ f :: after)) f
        (n.methodScopes token parent)
  | above {declaring : Step} {n : Machine} {token : Token} {c : Class} {methods : List FunctionDecl}
      {f : FunctionDecl} {chain : Chain} (declared : Happens chunks declaring)
      (declares : declaring.Declares n token (some c) methods)
      (absent : ∀ g ∈ methods, g.name.lexeme ≠ name) (inherited : Inherits chunks name c f chain) :
      Inherits chunks name (n.declared token (some c) methods) f chain

section

variable {chunks : List Chunk} {s : Session} {name : String} {c : Class} {f : FunctionDecl}
  {chain : Chain} {method : Closure}

theorem Class.Inherits.method? (inherits : c.Inherits chunks name f chain) :
    c.method? name = some ⟨f, chain, f.name.lexeme = initializerName⟩ := by
  induction inherits with
  | own declared declares named last =>
    rw [Class.method?.eq_def]
    dsimp only [Machine.declared]
    rw [Run.methodTable_last named last]
    rfl
  | above declared declares absent inherited ih =>
    rw [Class.method?.eq_def]
    dsimp only [Machine.declared]
    rw [Run.methodTable_absent absent]
    exact ih

theorem Class.Made.inherits (made : c.Made chunks) (found : c.method? name = some method) :
    ∃ f chain, c.Inherits chunks name f chain := by
  induction made with
  | @mk n declaring token parent methods superclass around p ss declared declares same stands outer
      inherited ih =>
    by_cases named : ∃ g ∈ methods, g.name.lexeme = name
    · obtain ⟨before, f, after, rfl, isName, last⟩ := FunctionDecl.last_named named
      exact ⟨f, _, .own declared declares isName last⟩
    · have absent : ∀ g ∈ methods, g.name.lexeme ≠ name :=
        fun g member isName => named ⟨g, member, isName⟩
      rw [Class.method?.eq_def] at found
      dsimp only [Machine.declared] at found
      rw [Run.methodTable_absent absent] at found
      cases parent with
      | none => cases found
      | some c =>
        obtain ⟨f, chain, above⟩ := ih c rfl found
        exact ⟨f, chain, .above declared declares absent above⟩

end

/-! ### Properties in the life of a session -/

/-- What the history makes of the property: the value that was stored last, the nearest method, bound
to the object, or nothing. -/
inductive Property.Follows (chunks : List Chunk) (history : List Change) (i : InstanceId) (c : Class)
    (name : String) : Property → Prop
  | stored {v : Value} (last : lastStored i name history = some v) :
      Follows chunks history i c name (.field v)
  | inherited {f : FunctionDecl} {chain : Chain} (never : lastStored i name history = none)
      (inherits : c.Inherits chunks name f chain) :
      Follows chunks history i c name
        (.method ⟨f, chain, f.name.lexeme = initializerName⟩ (.object i c))
  | missing (never : lastStored i name history = none)
      (absent : ∀ f chain, ¬ c.Inherits chunks name f chain) : Follows chunks history i c name .missing

section

variable {chunks : List Chunk} {s : Session} {history later : List Change} {u w : Store}
  {i : InstanceId} {c : Class} {name : String} {p : Property}

theorem Past.property_follows (past : Past chunks history u) (life : Life chunks s)
    (made : c.Made chunks) : (u.property i c name).Follows chunks history i c name := by
  have fields := past.fields life i name
  unfold Store.property
  rw [fields]
  cases last : lastStored i name history with
  | some v => exact .stored last
  | none =>
    cases found : c.method? name with
    | some method =>
      obtain ⟨f, chain, inherits⟩ := made.inherits found
      rw [inherits.method?] at found
      cases found
      exact .inherited last inherits
    | none =>
      refine .missing last fun f chain inherits => ?_
      rw [inherits.method?] at found
      cases found

theorem Property.Follows.unique {q : Property} (follows : p.Follows chunks history i c name)
    (follows' : q.Follows chunks history i c name) : p = q := by
  cases follows with
  | stored last =>
    cases follows' with
    | stored last' =>
      rw [last] at last'
      cases last'
      rfl
    | inherited never | missing never =>
      rw [last] at never
      cases never
  | inherited never inherits =>
    cases follows' with
    | stored last =>
      rw [last] at never
      cases never
    | inherited _ inherits' =>
      have same := inherits.method?.symm.trans inherits'.method?
      cases same
      rfl
    | missing _ absent => exact absurd inherits (absent _ _)
  | missing never absent =>
    cases follows' with
    | stored last =>
      rw [last] at never
      cases never
    | inherited _ inherits => exact absurd inherits (absent _ _)
    | missing => rfl

theorem Change.lastStored_append (never : ∀ change ∈ later, stored i name change = none) :
    lastStored i name (later ++ history) = lastStored i name history := by
  rw [lastStored, List.findSome?_append, List.findSome?_eq_none_iff.2 never]
  rfl

theorem Change.stored_none {change : Change}
    (other : ∀ step v, change ≠ .deed step (.setField i name v)) : stored i name change = none := by
  unfold stored
  split
  · next step object key value =>
    refine if_neg fun same => ?_
    obtain ⟨rfl, rfl⟩ := same
    exact other step value rfl
  · rfl

/-- Changes that do not store under this name in this object leave its property as it was. -/
theorem Past.property_kept (past : Past chunks history u) (after : Past chunks (later ++ history) w)
    (life : Life chunks s) (other : ∀ step v, .deed step (.setField i name v) ∉ later) :
    w.property i c name = u.property i c name := by
  have never (change : Change) (among : change ∈ later) : stored i name change = none :=
    stored_none fun step v same => other step v (same ▸ among)
  unfold Store.property
  rw [past.fields life, after.fields life, lastStored_append never]

end

namespace Session

section

variable {chunks : List Chunk} {s : Session} {fuel : Nat} {e : Expr} {m n : Machine}
  {i : InstanceId} {c : Class}

theorem Life.evaluated_object (life : Life chunks s) (happens : Happens chunks ⟨fuel, .expr e, m⟩)
    (run : Run.evaluate fuel e m = .ok (.object i c) n) :
    Value.Made chunks (.object i c) ∧ i < n.store.instances.size := by
  obtain ⟨-, -, made⟩ := ((life.step_made happens).outcome life).expr run
  obtain ⟨R, p, ready, inside, formed⟩ := life.step_sound happens
  exact ⟨made, (Lox.evaluated ready inside formed run).2.1⟩

theorem Life.offered_object (life : Life chunks s) (offered : s.machine.store.Offers (.object i c)) :
    Value.Made chunks (.object i c) ∧ i < s.machine.store.instances.size :=
  ⟨Offered.made (life.store_made life (List.Subset.refl _)) offered,
    (life.reachable.sound.offered offered).1⟩

end

end Session

/-! ### A run in which a field hides a method -/

/-- The expression evaluates to an object with a field `m` whose class has a method `m`. -/
def Step.isHiding : Step → Bool
  | ⟨fuel, .expr e, m⟩ =>
      match Run.evaluate fuel e m with
      | .ok (.object i c) n => ((n.store.fields i).get? "m").isSome && (c.method? "m").isSome
      | _ => false
  | _ => false

theorem Step.of_isHiding {step : Step} (hides : step.isHiding = true) :
    ∃ fuel e m i c n v method, step = ⟨fuel, .expr e, m⟩ ∧
      Run.evaluate fuel e m = .ok (.object i c) n ∧ n.store.property i c "m" = .field v ∧
        c.method? "m" = some method := by
  obtain ⟨fuel, task, m⟩ := step
  cases task with
  | expr e =>
    simp only [isHiding] at hides
    split at hides
    · next i c n run =>
      rw [Bool.and_eq_true, Option.isSome_iff_exists, Option.isSome_iff_exists] at hides
      obtain ⟨⟨v, field⟩, method, found⟩ := hides
      refine ⟨fuel, e, m, i, c, n, v, method, rfl, run, ?_, found⟩
      rw [Store.property, field]
    · cases hides
  | _ => cases hides

namespace Session

/-- A method is hidden by a field after the names of both classes have been given other values. -/
def hidden : Chunk :=
  ⟨Session.initial .unlimited 0, 12,
    "class A { m() {} } class B < A {} var b = B(); A = B; B = nil; b.m = b; b.m;"⟩

end Session

end Lox
