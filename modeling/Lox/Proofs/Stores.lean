import Lox.Store

/-!
Laws of tables and stores: what a table holds after an insertion, and what each scope and each
instance holds after a step that adds or writes to one of them.
-/

namespace Lox

namespace Table

variable {α : Type} (t : Table α) (name other : String) (value : α)

theorem get?_empty : (empty : Table α).get? name = none := rfl

theorem get?_insert_self : (t.insert name value).get? name = some value := by
  simp [get?_insert]

theorem get?_insert_ne {name other : String} (differ : name ≠ other) :
    (t.insert name value).get? other = t.get? other := by
  simp [get?_insert, differ]

theorem contains_iff {t : Table α} {name : String} :
    t.contains name = true ↔ ∃ value, t.get? name = some value := by
  simp [contains, Option.isSome_iff_exists]

theorem contains_insert :
    (t.insert name value).contains other = (decide (name = other) || t.contains other) := by
  by_cases same : name = other <;> simp [contains, get?_insert, same]

theorem insert_insert (first : α) :
    (t.insert name first).insert name value = t.insert name value := by
  induction t with
  | nil => simp [insert]
  | cons entry rest ih =>
    obtain ⟨key, old⟩ := entry
    by_cases same : key = name
    · simp [insert, same]
    · simp [insert, same, ih]

/-- A list of insertions binds each of its names, and keeps what was bound. -/
theorem contains_insertAll (entries : List (String × α)) (t : Table α) :
    (t.insertAll entries).contains name = true ↔
      name ∈ entries.map Prod.fst ∨ t.contains name = true := by
  induction entries generalizing t with
  | nil => simp [insertAll]
  | cons entry rest ih =>
    obtain ⟨key, value⟩ := entry
    simp only [insertAll, ih, contains_insert, List.map_cons, List.mem_cons, Bool.or_eq_true,
      decide_eq_true_eq]
    grind

/-- What a list of insertions binds comes from the list or was bound before. -/
theorem get?_insertAll {entries : List (String × α)} {t : Table α} {name : String} {value : α}
    (found : (t.insertAll entries).get? name = some value) :
    (name, value) ∈ entries ∨ t.get? name = some value := by
  induction entries generalizing t with
  | nil => exact Or.inr found
  | cons entry rest ih =>
    obtain ⟨key, first⟩ := entry
    rcases ih found with inRest | before
    · exact Or.inl (List.mem_cons_of_mem _ inRest)
    · rw [get?_insert] at before
      by_cases same : key = name
      · simp only [same, if_true, Option.some.injEq] at before
        subst same; subst before
        exact Or.inl List.mem_cons_self
      · exact Or.inr (by simpa [same] using before)

theorem insertAll_append (t : Table α) (first second : List (String × α)) :
    t.insertAll (first ++ second) = (t.insertAll first).insertAll second := by
  induction first generalizing t with
  | nil => rfl
  | cons entry rest ih => exact ih _

theorem get?_insertAll_absent {entries : List (String × α)} {t : Table α} {name : String}
    (absent : ∀ e ∈ entries, e.1 ≠ name) : (t.insertAll entries).get? name = t.get? name := by
  induction entries generalizing t with
  | nil => rfl
  | cons entry rest ih =>
    rw [insertAll, ih fun e member => absent e (List.mem_cons_of_mem _ member)]
    exact get?_insert_ne t _ (absent entry List.mem_cons_self)

end Table

namespace Store

variable (s : Store)

theorem bindings_eq (scope : ScopeId) :
    s.bindings scope = (s.scopes[scope]?).getD Table.empty := by
  simp [bindings]

theorem fields_eq (object : InstanceId) :
    s.fields object = (s.instances[object]?).getD Table.empty := by
  simp [fields]

theorem bindings_addScope (table : Table Value) (scope : ScopeId) :
    (s.addScope table).bindings scope = if scope = s.scopes.size then table else s.bindings scope := by
  simp only [bindings_eq, addScope, Array.getElem?_push]
  split <;> simp

theorem bindings_lastScope (table : Table Value) :
    (s.addScope table).bindings s.scopes.size = table := by
  simp [bindings_addScope]

theorem lastScope_addScope (table : Table Value) :
    (s.addScope table).lastScope = s.scopes.size := by
  simp [lastScope, addScope]

theorem size_addScope (table : Table Value) :
    (s.addScope table).scopes.size = s.scopes.size + 1 := by
  simp [addScope]

theorem fields_addScope (table : Table Value) (object : InstanceId) :
    (s.addScope table).fields object = s.fields object := rfl

theorem fields_addInstance (object : InstanceId) :
    s.addInstance.fields object = s.fields object := by
  simp only [fields_eq, addInstance, Array.getElem?_push]
  split
  · rename_i last
    simp [last]
  · rfl

theorem bindings_bind (scope : ScopeId) (name : String) (value : Value) (other : ScopeId) :
    (s.bind scope name value).bindings other =
      if scope = other ∧ other < s.scopes.size then (s.bindings other).insert name value
      else s.bindings other := by
  simp only [bindings_eq, bind, Array.getElem?_modify]
  by_cases same : scope = other
  · by_cases held : other < s.scopes.size
    · simp [same, held]
    · simp [same, held]
  · simp [same]

theorem size_bind (scope : ScopeId) (name : String) (value : Value) :
    (s.bind scope name value).scopes.size = s.scopes.size := by
  simp [bind]

theorem fields_bind (scope : ScopeId) (name : String) (value : Value) (object : InstanceId) :
    (s.bind scope name value).fields object = s.fields object := rfl

theorem fields_setField (object : InstanceId) (name : String) (value : Value)
    (other : InstanceId) :
    (s.setField object name value).fields other =
      if object = other ∧ other < s.instances.size then (s.fields other).insert name value
      else s.fields other := by
  simp only [fields_eq, setField, Array.getElem?_modify]
  by_cases same : object = other
  · by_cases held : other < s.instances.size
    · simp [same, held]
    · simp [same, held]
  · simp [same]

/-- A binding after a write is the one written or one from before. -/
theorem get?_bind_cases {scope other : ScopeId} {name key : String} {value found : Value}
    (bound : ((s.bind scope name value).bindings other).get? key = some found) :
    found = value ∨ (s.bindings other).get? key = some found := by
  rw [bindings_bind] at bound
  split at bound
  · rw [Table.get?_insert] at bound
    split at bound
    · exact Or.inl (Option.some.inj bound).symm
    · exact Or.inr bound
  · exact Or.inr bound

theorem get?_setField_cases {object other : InstanceId} {name key : String}
    {value found : Value}
    (bound : ((s.setField object name value).fields other).get? key = some found) :
    found = value ∨ (s.fields other).get? key = some found := by
  rw [fields_setField] at bound
  split at bound
  · rw [Table.get?_insert] at bound
    split at bound
    · exact Or.inl (Option.some.inj bound).symm
    · exact Or.inr bound
  · exact Or.inr bound

/-! ### What is read is bound -/

section Reads

variable {s : Store} {chain : Chain} {distance : Nat} {name : String} {value : Value}

theorem getAt_ok (read : s.getAt chain distance name = .ok value) :
    ∃ scope, chain[distance]? = some scope ∧ (s.bindings scope).get? name = some value := by
  cases at_ : chain[distance]? with
  | none =>
    simp only [getAt, ancestor, at_, Bind.bind, Except.bind] at read
    cases read
  | some scope =>
    simp only [getAt, ancestor, at_, Bind.bind, Except.bind] at read
    cases found : (s.bindings scope).get? name with
    | none =>
      rw [found] at read
      cases read
    | some w =>
      rw [found] at read
      cases read
      exact ⟨scope, rfl, found⟩

theorem get_ok (read : s.get chain name = .ok value) :
    ∃ scope ∈ chain, (s.bindings scope).get? name = some value := by
  unfold get at read
  split at read
  · rename_i w found
    cases read
    exact List.exists_of_findSome?_eq_some found
  · cases read

end Reads

end Store

end Lox
