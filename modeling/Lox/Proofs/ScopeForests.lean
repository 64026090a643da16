import Mathlib
import Lox.Proofs.Stores

/-!
Forests of scopes. Scopes are made one after the other, each alone or inside of one made before it,
and names are bound and overwritten through any of them. However their chains are shared, all of
them act as one store: through every chain a name is read as it was last written in the first scope
that binds it, and a write changes one binding of one scope.
-/

namespace Lox

/-- A store and the chains of the scopes made in it. A node is named by the number of nodes that were
made before it, and is the first of its own chain. -/
structure Forest where
  store : Store
  chains : Array Chain

namespace Forest

inductive Operation where
  | root
  | child (outer : Nat)
  | define (node : Nat) (name : String) (value : Value)
  | assign (node : Nat) (name : String) (value : Value)
  | assignAt (node distance : Nat) (name : String) (value : Value)

def empty : Forest := ⟨.empty, #[]⟩

/-- The chain of a node. One that was not made sees nothing. -/
def chain (f : Forest) (node : Nat) : Chain := f.chains.getD node []

def addNode (f : Forest) (outer : Chain) : Forest :=
  let store := f.store.addScope Table.empty
  ⟨store, f.chains.push (store.lastScope :: outer)⟩

def get (f : Forest) (node : Nat) (name : String) : Except RuntimeCause Value :=
  f.store.get (f.chain node) name

def getAt (f : Forest) (node distance : Nat) (name : String) : Except RuntimeCause Value :=
  f.store.getAt (f.chain node) distance name

def perform (f : Forest) : Operation → Except RuntimeCause Forest
  | .root => .ok (f.addNode [])
  | .child outer => .ok (f.addNode (f.chain outer))
  | .define node name value => .ok { f with store := f.store.define (f.chain node) name value }
  | .assign node name value =>
      (f.store.assign (f.chain node) name value).map fun store => { f with store := store }
  | .assignAt node distance name value =>
      (f.store.assignAt (f.chain node) distance name value).map fun store =>
        { f with store := store }

/-- An operation that fails leaves the forest to the next one. -/
def step (f : Forest) (op : Operation) : Forest :=
  match f.perform op with
  | .ok after => after
  | .error _ => f

def after (ops : List Operation) : Forest := ops.foldl step empty

structure Write where
  node : Nat
  name : String
  value : Value

/-- What has been done to a forest, told without any tables: for each node the one that it was made
in, and all that was written, the last of each first. -/
structure Ledger where
  outers : List (Option Nat)
  writes : List Write

namespace Ledger

/-- A node with those around it, from the inside out. -/
def path : List (Option Nat) → Nat → List Nat
  | [], _ => []
  | outer :: older, node =>
      if node = older.length then node :: (outer.map (path older)).getD [] else path older node

def chain (l : Ledger) (node : Nat) : List Nat := path l.outers node

def enclosing (l : Ledger) (node : Nat) : List Nat := (l.chain node).tail

/-- The value that was last written to the name in this node alone. -/
def last? (l : Ledger) (node : Nat) (name : String) : Option Value :=
  l.writes.findSome? fun w => if w.node = node ∧ w.name = name then some w.value else none

/-- The first node of the chain that binds the name. -/
def holder? (l : Ledger) (node : Nat) (name : String) : Option Nat :=
  (l.chain node).find? fun inner => (l.last? inner name).isSome

/-- What the operation writes, if it writes at all. -/
def write? (l : Ledger) : Operation → Option Write
  | .root | .child _ => none
  | .define node name value => (l.chain node).head?.map fun found => ⟨found, name, value⟩
  | .assign node name value => (l.holder? node name).map fun found => ⟨found, name, value⟩
  | .assignAt node distance name value =>
      (l.chain node)[distance]?.map fun found => ⟨found, name, value⟩

def record (l : Ledger) (op : Operation) : Ledger :=
  let outers := match op with
    | .root => none :: l.outers
    | .child outer => some outer :: l.outers
    | _ => l.outers
  ⟨outers, (l.write? op).toList ++ l.writes⟩

def after (ops : List Operation) : Ledger := ops.foldl record ⟨[], []⟩

end Ledger

/-- The value that a node itself binds the name to. -/
def bound? (f : Forest) (node : Nat) (name : String) : Option Value :=
  (f.store.bindings node).get? name

/-- The binding of one name in one node is now this value, and all others are as they were. -/
def Overwrites (f : Forest) (node : Nat) (name : String) (value : Value) (g : Forest) : Prop :=
  g.chains = f.chains ∧ ∀ node' name', g.bound? node' name' =
    if node' = node ∧ name' = name then some value else f.bound? node' name'

/-- The tables of a forest hold what the ledger tells. -/
structure Keeps (f : Forest) (l : Ledger) : Prop where
  chains : ∀ node, f.chain node = l.chain node
  sizes : f.chains.size = l.outers.length ∧ f.store.scopes.size = l.outers.length
  bound : ∀ node name, f.bound? node name = l.last? node name

variable {f g : Forest} {l : Ledger} {node distance : Nat} {name : String} {value : Value}

/-! ### Chains of a ledger -/

theorem Ledger.path_lt {outers : List (Option Nat)} :
    ∀ node, ∀ inner ∈ path outers node, inner < outers.length := by
  induction outers with
  | nil => exact fun node inner among => nomatch among
  | cons outer older ih =>
    intro node inner among
    rw [path] at among
    rw [List.length_cons]
    split at among
    · rcases List.mem_cons.1 among with rfl | among
      · omega
      · cases outer with
        | none => cases among
        | some o => exact Nat.lt_succ_of_lt (ih o inner among)
    · exact Nat.lt_succ_of_lt (ih node inner among)

/-- A node that was made is the first of its chain. -/
theorem Ledger.chain_made (made : node < l.outers.length) :
    l.chain node = node :: l.enclosing node := by
  unfold enclosing chain
  generalize l.outers = outers at made
  induction outers with
  | nil => exact absurd made (Nat.not_lt_zero node)
  | cons outer older ih =>
    rw [path]
    split
    · rfl
    · rename_i earlier
      rw [List.length_cons] at made
      exact ih (by omega)

theorem Ledger.last?_write (w : Write) (node : Nat) (name : String) :
    last? ⟨l.outers, w :: l.writes⟩ node name =
      if w.node = node ∧ w.name = name then some w.value else l.last? node name := by
  rw [last?, List.findSome?_cons]
  by_cases hit : w.node = node ∧ w.name = name
  · rw [if_pos hit]
    exact (if_pos hit).symm
  · rw [if_neg hit]
    exact (if_neg hit).symm

/-- A node that holds a name binds it. -/
theorem Ledger.holder?_bound {holder : Nat} (held : l.holder? node name = some holder) :
    ∃ value, l.last? holder name = some value := by
  have some := List.find?_some (p := fun inner => (l.last? inner name).isSome) held
  exact Option.isSome_iff_exists.1 some

/-- Where a binding is overwritten, every name stays with the node that holds it. -/
theorem Ledger.holder?_write {w : Write} {old : Value} (bound : l.last? w.node w.name = some old)
    (node : Nat) (name : String) :
    holder? ⟨l.outers, w :: l.writes⟩ node name = l.holder? node name := by
  have same (inner : Nat) : (last? ⟨l.outers, w :: l.writes⟩ inner name).isSome =
      (l.last? inner name).isSome := by
    rw [last?_write]
    split
    · rename_i hit
      rw [← hit.1, ← hit.2, bound]
      rfl
    · rfl
  unfold holder?
  simp only [same]
  rfl

/-! ### One write -/

theorem bound?_bind (known : node < f.store.scopes.size) (node' : Nat) (name' : String) :
    bound? { f with store := f.store.bind node name value } node' name' =
      if node = node' ∧ name = name' then some value else f.bound? node' name' := by
  unfold bound?
  rw [Store.bindings_bind]
  by_cases same : node = node'
  · subst same
    rw [if_pos ⟨rfl, known⟩, Table.get?_insert]
    by_cases hit : name = name' <;> simp [hit]
  · simp [same]

theorem overwrites_bind (known : node < f.store.scopes.size) :
    f.Overwrites node name value { f with store := f.store.bind node name value } := by
  refine ⟨rfl, fun node' name' => ?_⟩
  rw [bound?_bind known]
  simp only [eq_comm]

theorem bound?_absent (absent : f.store.scopes.size ≤ node) : f.bound? node name = none := by
  simp [bound?, Store.bindings_eq, absent, Table.get?_empty]

theorem perform_define : f.perform (.define node name value) =
    match f.chain node with
    | [] => .ok f
    | found :: _ => .ok { f with store := f.store.bind found name value } := by
  rw [perform, Store.define.eq_def]
  cases f.chain node <;> rfl

theorem perform_assign : f.perform (.assign node name value) =
    match f.store.holder? (f.chain node) name with
    | none => .error (.undefinedVariable name)
    | some found => .ok { f with store := f.store.bind found name value } := by
  rw [perform, Store.assign, Store.holder]
  cases f.store.holder? (f.chain node) name <;> rfl

theorem perform_assignAt : f.perform (.assignAt node distance name value) =
    match (f.chain node)[distance]? with
    | none => .error (.noScopeAt distance name)
    | some found => .ok { f with store := f.store.bind found name value } := by
  rw [perform, Store.assignAt, Store.ancestor]
  cases (f.chain node)[distance]? <;> rfl

/-! ### The tables and the ledger -/

namespace Keeps

theorem chain_known (keeps : f.Keeps l) {inner : Nat} (among : inner ∈ f.chain node) :
    inner < f.store.scopes.size := by
  rw [keeps.chains] at among
  rw [keeps.sizes.2]
  exact Ledger.path_lt node inner among

theorem holder? (keeps : f.Keeps l) (node : Nat) (name : String) :
    f.store.holder? (f.chain node) name = l.holder? node name := by
  unfold Store.holder? Ledger.holder?
  rw [keeps.chains]
  congr 1
  funext inner
  exact congrArg Option.isSome (keeps.bound inner name)

/-- A chain reads a name in the node that holds it. -/
theorem get (keeps : f.Keeps l) (node : Nat) (name : String) :
    f.get node name = match (l.holder? node name).bind fun inner => l.last? inner name with
      | some value => .ok value
      | none => .error (.undefinedVariable name) := by
  have found : (f.chain node).findSome? (fun inner => (f.store.bindings inner).get? name) =
      (l.holder? node name).bind fun inner => l.last? inner name := by
    unfold Ledger.holder?
    rw [keeps.chains]
    induction l.chain node with
    | nil => rfl
    | cons inner outer ih =>
      have own : (f.store.bindings inner).get? name = l.last? inner name := keeps.bound inner name
      rw [List.findSome?_cons, List.find?_cons, own, ih]
      cases held : l.last? inner name with
      | none => rfl
      | some value => exact held.symm
  unfold Forest.get Store.get
  cases read : (l.holder? node name).bind fun inner => l.last? inner name with
  | none => simp only [found, read]
  | some value => simp only [found, read]

theorem add (keeps : f.Keeps l) (outer : Option Nat) :
    (f.addNode ((outer.map f.chain).getD [])).Keeps ⟨outer :: l.outers, l.writes⟩ := by
  obtain ⟨nodes, scopes⟩ := keeps.sizes
  refine ⟨fun node => ?_, ⟨?_, ?_⟩, fun node name => ?_⟩
  · have same : outer.map f.chain = outer.map (Ledger.path l.outers) := by
      cases outer with
      | none => rfl
      | some o => exact congrArg some (keeps.chains o)
    have earlier : f.chain node = Ledger.path l.outers node := keeps.chains node
    rw [Ledger.chain, Ledger.path, same, ← earlier]
    unfold chain addNode
    simp only [Store.lastScope_addScope, Array.getD_eq_getD_getElem?, Array.getElem?_push, nodes,
      scopes]
    split
    · subst_vars
      rfl
    · rfl
  · simp [addNode, nodes]
  · simp [addNode, Store.size_addScope, scopes]
  · have empty : l.last? f.store.scopes.size name = none := by
      rw [← keeps.bound]
      exact bound?_absent le_rfl
    have earlier : Ledger.last? ⟨outer :: l.outers, l.writes⟩ node name = l.last? node name := rfl
    unfold bound? addNode
    rw [Store.bindings_addScope, earlier]
    split
    · subst_vars
      rw [empty, Table.get?_empty]
    · exact keeps.bound node name

theorem write (keeps : f.Keeps l) (known : node < f.store.scopes.size) :
    Keeps { f with store := f.store.bind node name value }
      ⟨l.outers, ⟨node, name, value⟩ :: l.writes⟩ := by
  obtain ⟨nodes, scopes⟩ := keeps.sizes
  refine ⟨keeps.chains, ⟨nodes, (Store.size_bind ..).trans scopes⟩, fun node' name' => ?_⟩
  rw [bound?_bind known, Ledger.last?_write, keeps.bound]

/-- What an operation writes is what the ledger records, and an operation that fails writes nothing. -/
theorem step (keeps : f.Keeps l) (op : Operation) : (f.step op).Keeps (l.record op) := by
  cases op with
  | root => exact keeps.add none
  | child outer => exact keeps.add (some outer)
  | define node name value =>
    have recorded : l.record (.define node name value) =
        ⟨l.outers, ((f.chain node).head?.map (⟨·, name, value⟩)).toList ++ l.writes⟩ := by
      rw [keeps.chains]
      rfl
    rw [recorded, Forest.step, perform_define]
    cases own : f.chain node with
    | nil => exact keeps
    | cons inner outer =>
      have among : inner ∈ f.chain node := by
        rw [own]
        exact List.mem_cons_self
      exact keeps.write (keeps.chain_known among)
  | assign node name value =>
    have recorded : l.record (.assign node name value) =
        ⟨l.outers, ((f.store.holder? (f.chain node) name).map (⟨·, name, value⟩)).toList ++
          l.writes⟩ := by
      rw [keeps.holder?]
      rfl
    rw [recorded, Forest.step, perform_assign]
    cases held : f.store.holder? (f.chain node) name with
    | none => exact keeps
    | some inner => exact keeps.write (keeps.chain_known (List.mem_of_find?_eq_some held))
  | assignAt node distance name value =>
    have recorded : l.record (.assignAt node distance name value) =
        ⟨l.outers, ((f.chain node)[distance]?.map (⟨·, name, value⟩)).toList ++ l.writes⟩ := by
      rw [keeps.chains]
      rfl
    rw [recorded, Forest.step, perform_assignAt]
    cases found : (f.chain node)[distance]? with
    | none => exact keeps
    | some inner => exact keeps.write (keeps.chain_known (List.mem_of_getElem? found))

end Keeps

theorem keeps_after (ops : List Operation) : (after ops).Keeps (Ledger.after ops) := by
  have start : empty.Keeps ⟨[], []⟩ := by
    refine ⟨fun node => ?_, ⟨rfl, rfl⟩, fun node name => bound?_absent (Nat.zero_le node)⟩
    simp [chain, empty, Ledger.chain, Ledger.path]
  suffices run : ∀ {f l}, Keeps f l → Keeps (ops.foldl Forest.step f) (ops.foldl Ledger.record l) from
    run start
  induction ops with
  | nil => exact fun keeps => keeps
  | cons op ops ih => exact fun keeps => ih (keeps.step op)

/-! ### One store -/

/-- The forest acts as the one store that the ledger tells of. -/
structure ActsAsOne (f : Forest) (l : Ledger) : Prop where
  /-- A name is read as it was last written in the first node of the chain that binds it. -/
  reads (node : Nat) (name : String) (value : Value) : f.get node name = .ok value ↔
    ∃ holder, l.holder? node name = some holder ∧ l.last? holder name = some value
  unbound (node : Nat) (name : String) (cause : RuntimeCause) : f.get node name = .error cause ↔
    l.holder? node name = none ∧ cause = .undefinedVariable name
  /-- A name that can be read can be overwritten, and no other. -/
  assigns (node : Nat) (name : String) (value : Value) :
    (∃ g, f.perform (.assign node name value) = .ok g) ↔ ∃ old, f.get node name = .ok old
  /-- The one binding that was read is changed, and this is seen through all chains that find the
  name in the same node. -/
  assigned (node : Nat) (name : String) (value : Value) (g : Forest) :
    f.perform (.assign node name value) = .ok g → ∃ holder, l.holder? node name = some holder ∧
      f.Overwrites holder name value g ∧ ∀ node' name', g.get node' name' =
        if name' = name ∧ l.holder? node' name' = some holder then .ok value else f.get node' name'
  refused (node : Nat) (name : String) (value : Value) (cause : RuntimeCause) :
    f.perform (.assign node name value) = .error cause →
      cause = .undefinedVariable name ∧ f.step (.assign node name value) = f
  /-- At a distance the chain tells the node, and there is one if so many lie around the first. -/
  ancestor (node distance : Nat) (name : String) (found : Nat) :
    Store.ancestor (f.chain node) distance name = .ok found ↔
      (l.chain node)[distance]? = some found
  reaches (node distance : Nat) : node < l.outers.length →
    ((∃ found, (l.chain node)[distance]? = some found) ↔ distance ≤ (l.enclosing node).length)
  /-- This node alone is read, whatever the inner ones bind. -/
  readsAt (node distance : Nat) (name : String) : f.getAt node distance name =
    match (l.chain node)[distance]? with
    | none => .error (.noScopeAt distance name)
    | some found =>
      match l.last? found name with
      | none => .error (.undefinedVariable name)
      | some value => .ok value
  /-- This node alone is written to. -/
  assignsAt (node distance : Nat) (name : String) (value : Value) :
    match (l.chain node)[distance]? with
    | none => f.perform (.assignAt node distance name value) = .error (.noScopeAt distance name) ∧
        f.step (.assignAt node distance name value) = f
    | some found => ∃ g, f.perform (.assignAt node distance name value) = .ok g ∧
        f.Overwrites found name value g

namespace Keeps

theorem reads (keeps : f.Keeps l) : f.get node name = .ok value ↔
    ∃ holder, l.holder? node name = some holder ∧ l.last? holder name = some value := by
  rw [keeps.get]
  cases held : l.holder? node name with
  | none => simp
  | some holder =>
    obtain ⟨last, bound⟩ := Ledger.holder?_bound held
    simp [bound]

theorem unbound (keeps : f.Keeps l) {cause : RuntimeCause} : f.get node name = .error cause ↔
    l.holder? node name = none ∧ cause = .undefinedVariable name := by
  rw [keeps.get]
  cases held : l.holder? node name with
  | none => simp [eq_comm]
  | some holder =>
    obtain ⟨last, bound⟩ := Ledger.holder?_bound held
    simp [bound]

/-- An overwritten binding is seen through the chains that find the name in this node. -/
theorem get_bind (keeps : f.Keeps l) {holder : Nat} (held : l.holder? node name = some holder)
    (known : holder < f.store.scopes.size) (node' : Nat) (name' : String) :
    Forest.get { f with store := f.store.bind holder name value } node' name' =
      if name' = name ∧ l.holder? node' name' = some holder then .ok value
      else f.get node' name' := by
  obtain ⟨old, bound⟩ := Ledger.holder?_bound held
  rw [(keeps.write known).get, keeps.get, Ledger.holder?_write bound]
  cases seen : l.holder? node' name' with
  | none => simp
  | some inner =>
    rw [Option.bind_some, Option.bind_some, Ledger.last?_write]
    by_cases hit : holder = inner ∧ name = name'
    · simp [hit]
    · have other : ¬ (name' = name ∧ some inner = some holder) := by
        rintro ⟨rfl, same⟩
        exact hit ⟨(Option.some.inj same).symm, rfl⟩
      rw [if_neg hit, if_neg other]

theorem perform_assign (keeps : f.Keeps l) : f.perform (.assign node name value) =
    match l.holder? node name with
    | none => .error (.undefinedVariable name)
    | some holder => .ok { f with store := f.store.bind holder name value } := by
  rw [Forest.perform_assign, keeps.holder?]
  rfl

theorem holder_known (keeps : f.Keeps l) {holder : Nat}
    (held : l.holder? node name = some holder) : holder < f.store.scopes.size := by
  rw [← keeps.holder?] at held
  exact keeps.chain_known (List.mem_of_find?_eq_some held)

/-- What can be read can be overwritten. -/
theorem assigns (keeps : f.Keeps l) :
    (∃ g, f.perform (.assign node name value) = .ok g) ↔ ∃ old, f.get node name = .ok old := by
  simp only [keeps.perform_assign, keeps.reads]
  cases held : l.holder? node name with
  | none => simp
  | some holder =>
    obtain ⟨old, bound⟩ := Ledger.holder?_bound held
    simp [bound]

theorem assigned (keeps : f.Keeps l) (done : f.perform (.assign node name value) = .ok g) :
    ∃ holder, l.holder? node name = some holder ∧ f.Overwrites holder name value g ∧
      ∀ node' name', g.get node' name' =
        if name' = name ∧ l.holder? node' name' = some holder then .ok value
        else f.get node' name' := by
  rw [keeps.perform_assign] at done
  cases held : l.holder? node name with
  | none => simp [held] at done
  | some holder =>
    have known := keeps.holder_known held
    simp only [held, Except.ok.injEq] at done
    subst done
    exact ⟨holder, rfl, overwrites_bind known, keeps.get_bind held known⟩

theorem refused (keeps : f.Keeps l) {cause : RuntimeCause}
    (failed : f.perform (.assign node name value) = .error cause) :
    cause = .undefinedVariable name ∧ f.step (.assign node name value) = f := by
  have same : f.step (.assign node name value) = f := by
    rw [Forest.step, failed]
  rw [keeps.perform_assign] at failed
  cases held : l.holder? node name with
  | none =>
    simp only [held, Except.error.injEq] at failed
    exact ⟨failed.symm, same⟩
  | some holder => simp [held] at failed

theorem ancestor (keeps : f.Keeps l) {found : Nat} :
    Store.ancestor (f.chain node) distance name = .ok found ↔
      (l.chain node)[distance]? = some found := by
  rw [keeps.chains, Store.ancestor]
  cases (l.chain node)[distance]? <;> simp

theorem readsAt (keeps : f.Keeps l) (node distance : Nat) (name : String) :
    f.getAt node distance name = match (l.chain node)[distance]? with
      | none => .error (.noScopeAt distance name)
      | some found =>
        match l.last? found name with
        | none => .error (.undefinedVariable name)
        | some value => .ok value := by
  rw [Forest.getAt, Store.getAt, Store.ancestor, keeps.chains]
  cases (l.chain node)[distance]? with
  | none => rfl
  | some found =>
    have own : (f.store.bindings found).get? name = l.last? found name := keeps.bound found name
    simp only [← own]
    change (match (f.store.bindings found).get? name with
      | some value => Except.ok value
      | none => Except.error (RuntimeCause.undefinedVariable name)) = _
    cases (f.store.bindings found).get? name <;> rfl

theorem assignsAt (keeps : f.Keeps l) (node distance : Nat) (name : String) (value : Value) :
    match (l.chain node)[distance]? with
    | none => f.perform (.assignAt node distance name value) = .error (.noScopeAt distance name) ∧
        f.step (.assignAt node distance name value) = f
    | some found => ∃ g, f.perform (.assignAt node distance name value) = .ok g ∧
        f.Overwrites found name value g := by
  rw [Forest.step, perform_assignAt, keeps.chains]
  cases found : (l.chain node)[distance]? with
  | none => exact ⟨rfl, rfl⟩
  | some inner =>
    rw [← keeps.chains] at found
    have known := keeps.chain_known (List.mem_of_getElem? found)
    exact ⟨_, rfl, overwrites_bind known⟩

end Keeps

/-- There is a node at a distance if so many lie around the first. -/
theorem Ledger.reaches (made : node < l.outers.length) :
    (∃ found, (l.chain node)[distance]? = some found) ↔ distance ≤ (l.enclosing node).length := by
  rw [← Option.isSome_iff_exists, Ledger.chain_made made, isSome_getElem?, List.length_cons]
  exact Nat.lt_succ_iff

/-- Whatever has been done to it, a forest acts as one store. -/
theorem acts_as_one (ops : List Operation) : (after ops).ActsAsOne (Ledger.after ops) where
  reads _ _ _ := (keeps_after ops).reads
  unbound _ _ _ := (keeps_after ops).unbound
  assigns _ _ _ := (keeps_after ops).assigns
  assigned _ _ _ _ done := (keeps_after ops).assigned done
  refused _ _ _ _ failed := (keeps_after ops).refused failed
  ancestor _ _ _ _ := (keeps_after ops).ancestor
  reaches _ _ made := Ledger.reaches made
  readsAt := (keeps_after ops).readsAt
  assignsAt := (keeps_after ops).assignsAt

/-- Two scopes in one: what is written through the first is read through the second. -/
example : (after [.root, .child 0, .child 0, .define 0 "x" .nil, .assign 1 "x" (.bool true)]).get 2 "x" =
    .ok (.bool true) := rfl

end Forest

end Lox
