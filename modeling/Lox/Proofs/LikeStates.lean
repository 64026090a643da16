import Lox.Machine
import Lox.Proofs.LikeTrees
import Lox.Proofs.Stores

/-!
Values, stores and machines that are alike: built by the same steps from trees that are alike. A
world says how the names of each scope made so far are renamed.
-/

namespace Lox

abbrev World := List Renaming

namespace World

def at_ (w : World) (scope : ScopeId) : Renaming := w.getD scope Renaming.same

def along (w : World) (chain : Chain) : List Renaming := chain.map w.at_

variable {w w' : World} {chain : Chain}

theorem at_later (later : w <+: w') {scope : ScopeId} (held : scope < w.length) :
    w'.at_ scope = w.at_ scope := by
  obtain ⟨more, rfl⟩ := later
  simp [at_, List.getD_eq_getElem?_getD, List.getElem?_append_left held]

theorem along_later (later : w <+: w') (held : ∀ scope ∈ chain, scope < w.length) :
    w'.along chain = w.along chain :=
  List.map_congr_left fun scope among => at_later later (held scope among)

theorem at_last (w : World) (π : Renaming) : (w ++ [π]).at_ w.length = π := by
  simp [at_, List.getD_eq_getElem?_getD]

theorem use_along {d : Nat} {scope : ScopeId} (there : chain[d]? = some scope) (name : String) :
    Renaming.use (w.along chain) (some d) name = (w.at_ scope).perm name := by
  simp [Renaming.use, along, List.getD_eq_getElem?_getD, there]

end World

/-- What is known to one translation is known to the other, and goes over into the same. -/
structure Translation.Extends (c d : Translation) : Prop extends c.Covers d where
  known : ∀ id, c.known id → d.known id
  same : ∀ id, c.known id → c.SameAt d id

theorem Translation.Extends.refl (c : Translation) : c.Extends c :=
  ⟨⟨fun _ _ line => line, fun _ renames => renames⟩, fun _ known => known,
    fun _ _ => ⟨rfl, rfl, rfl⟩⟩

/-- What one table binds to a name, the other binds to the name it is renamed to. -/
structure Table.Like {α : Type} (Rel : α → α → Prop) (π : Renaming) (t t' : Table α) : Prop where
  some : ∀ name a, t.get? name = some a → ∃ b, t'.get? (π.perm name) = some b ∧ Rel a b
  none : ∀ name, t.get? name = none → t'.get? (π.perm name) = none

/-- Holds no function, class or object. -/
def Value.isPlain : Value → Bool
  | .function _ _ => false
  | .class_ _ => false
  | .object _ _ => false
  | _ => true

section Like

variable (c : Translation) (w : World)

/-- A method is yet to get the scope of `this`, the `inner` one, in front of its chain. -/
structure Closure.Like (inner : List Renaming) (a b : Closure) : Prop where
  function : a.function.Like c (inner ++ w.along a.chain) b.function
  known : ∀ id ∈ a.function.ids, c.known id
  chain : b.chain = a.chain
  held : ∀ scope ∈ a.chain, scope < w.length
  isInitializer : b.isInitializer = a.isInitializer

inductive Class.Like : Class → Class → Prop
  | base {n : Nat} {name : String} {methods methods' : Table Closure}
      (own : methods.Like (Closure.Like c w [Renaming.same]) Renaming.same methods') :
      Class.Like ⟨n, name, none, methods⟩ ⟨n, name, none, methods'⟩
  | derived {n : Nat} {name : String} {a b : Class} {methods methods' : Table Closure}
      (inherited : Class.Like a b)
      (own : methods.Like (Closure.Like c w [Renaming.same]) Renaming.same methods') :
      Class.Like ⟨n, name, some a, methods⟩ ⟨n, name, some b, methods'⟩

def Value.Like : Value → Value → Prop
  | .function n a, v' => ∃ b, v' = .function n b ∧ a.Like c w [] b
  | .class_ a, v' => ∃ b, v' = .class_ b ∧ a.Like c w b
  | .object i a, v' => ∃ b, v' = .object i b ∧ a.Like c w b
  | v, v' => v' = v

structure Store.Like (s s' : Store) : Prop where
  scopes : s'.scopes.size = s.scopes.size
  world : w.length = s.scopes.size
  global : w.head? = some Renaming.same
  bound : ∀ scope, (s.bindings scope).Like (Value.Like c w) (w.at_ scope) (s'.bindings scope)
  instances : s'.instances.size = s.instances.size
  fields : ∀ object, (s.fields object).Like (Value.Like c w) Renaming.same (s'.fields object)

structure Machine.Like (m m' : Machine) : Prop where
  store : m.store.Like c w m'.store
  chain : m'.chain = m.chain
  front : m.chain ≠ []
  held : ∀ scope ∈ m.chain, scope < w.length
  distances : ∀ id, c.known id →
    m.distances[id]? = c.recorded id ∧ m'.distances[c.ids id]? = c.recorded id
  sink : m'.sink = m.sink
  identity : m'.nextIdentity = m.nextIdentity
  clock : m'.clock = m.clock

end Like

/-! ### Tables -/

namespace Table.Like

variable {α : Type} {Rel Rel' : α → α → Prop} {π : Renaming} {t t' : Table α} {name : String}

theorem empty : Table.Like Rel π (Table.empty : Table α) Table.empty :=
  ⟨fun _ _ found => (nomatch found), fun _ _ => rfl⟩

theorem imp (like : t.Like Rel π t') (weaker : ∀ a b, Rel a b → Rel' a b) : t.Like Rel' π t' := by
  refine ⟨fun name a found => ?_, like.none⟩
  obtain ⟨b, found', related⟩ := like.some name a found
  exact ⟨b, found', weaker a b related⟩

theorem insert (like : t.Like Rel π t') {a b : α} (related : Rel a b) (name : String) :
    Table.Like Rel π (t.insert name a) (t'.insert (π.perm name) b) := by
  have renamed (key : String) : π.perm name = π.perm key ↔ name = key := π.perm.injective.eq_iff
  constructor
  · intro key first found
    rw [Table.get?_insert] at found
    rw [Table.get?_insert]
    by_cases same : name = key
    · simp only [same, if_true, Option.some.injEq] at found
      exact ⟨b, by simp [same], found ▸ related⟩
    · simp only [same, if_false] at found
      simp only [renamed, same, if_false]
      exact like.some key first found
  · intro key missing
    rw [Table.get?_insert] at missing
    rw [Table.get?_insert]
    by_cases same : name = key
    · simp [same] at missing
    · simp only [same, if_false] at missing
      simp only [renamed, same, if_false]
      exact like.none key missing

/-- Entries go in with other names where these are renamed. -/
theorem insertAll {entries entries' : List (String × α)}
    (related : List.Forall₂ (fun e e' => e'.1 = π.perm e.1 ∧ Rel e.2 e'.2) entries entries')
    (like : t.Like Rel π t') : (t.insertAll entries).Like Rel π (t'.insertAll entries') := by
  induction related generalizing t t' with
  | nil => exact like
  | @cons e e' _ _ here _ ih =>
    obtain ⟨name, a⟩ := e
    obtain ⟨name', a'⟩ := e'
    obtain ⟨rfl, related⟩ := here
    exact ih (like.insert related name)

theorem cases (like : t.Like Rel π t') (name : String) :
    (∃ a b, t.get? name = Option.some a ∧ t'.get? (π.perm name) = Option.some b ∧ Rel a b) ∨
      t.get? name = Option.none ∧ t'.get? (π.perm name) = Option.none := by
  cases found : t.get? name with
  | none => exact .inr ⟨rfl, like.none name found⟩
  | some a =>
    obtain ⟨b, found', related⟩ := like.some name a found
    exact .inl ⟨a, b, rfl, found', related⟩

theorem contains (like : t.Like Rel π t') (name : String) :
    t'.contains (π.perm name) = t.contains name := by
  rw [Table.contains, Table.contains]
  cases found : t.get? name with
  | none => rw [like.none name found]
  | some a =>
    obtain ⟨b, found', -⟩ := like.some name a found
    rw [found']
    rfl

end Table.Like

/-! ### What is alike stays alike -/

section Later

variable {c d : Translation} {w w' : World} (extends_ : c.Extends d) (grown : w <+: w')
include extends_ grown

theorem Closure.Like.later {inner : List Renaming} {a b : Closure} (like : a.Like c w inner b) :
    a.Like d w' inner b := by
  refine ⟨?_, fun id among => extends_.known id (like.known id among), like.chain,
    fun scope among => Nat.lt_of_lt_of_le (like.held scope among) grown.length_le,
    like.isInitializer⟩
  rw [World.along_later grown like.held]
  exact like.function.congr extends_.toCovers _ fun id among => extends_.same id (like.known id among)

theorem Class.Like.later {a b : Class} (like : a.Like c w b) : a.Like d w' b := by
  induction like with
  | base own => exact .base (own.imp fun _ _ like => like.later extends_ grown)
  | derived _ own ih => exact .derived ih (own.imp fun _ _ like => like.later extends_ grown)

theorem Value.Like.later {v v' : Value} (like : v.Like c w v') : v.Like d w' v' := by
  cases v with
  | function n a =>
    obtain ⟨b, rfl, like⟩ := like
    exact ⟨b, rfl, like.later extends_ grown⟩
  | class_ a =>
    obtain ⟨b, rfl, like⟩ := like
    exact ⟨b, rfl, like.later extends_ grown⟩
  | object i a =>
    obtain ⟨b, rfl, like⟩ := like
    exact ⟨b, rfl, like.later extends_ grown⟩
  | _ => exact like

end Later

namespace Value.Like

variable {c : Translation} {w : World} {v v' u u' : Value}

theorem isTruthy (like : v.Like c w v') : v'.isTruthy = v.isTruthy := by
  cases v with
  | function n a | class_ a | object i a =>
    obtain ⟨b, rfl, -⟩ := like
    rfl
  | _ => rw [show v' = _ from like]

end Value.Like

theorem FunctionDecl.Like.same {c : Translation} {scopes : List Renaming} {f f' : FunctionDecl}
    (like : f.Like c scopes f') :
    f'.name.lexeme = f.name.lexeme ∧ f'.parameters.length = f.parameters.length := by
  obtain ⟨name, parameters, body⟩ := f
  obtain ⟨π, name', parameters', body', rfl, -, likeName, likeParameters, -⟩ := like
  exact ⟨likeName.lexeme, likeParameters.length_eq.symm⟩

theorem Class.Like.same {c : Translation} {w : World} {a b : Class} (like : a.Like c w b) :
    b.identity = a.identity ∧ b.name = a.name := by
  cases like <;> exact ⟨rfl, rfl⟩

/-- Classes that are alike have methods of the same names. -/
theorem Class.Like.method? {c : Translation} {w : World} {a b : Class} (like : a.Like c w b)
    (name : String) :
    (∀ m, a.method? name = some m → ∃ m', b.method? name = some m' ∧
      m.Like c w [Renaming.same] m') ∧
      (a.method? name = none → b.method? name = none) := by
  induction like with
  | base own =>
    rw [Class.method?.eq_def, Class.method?.eq_def]
    dsimp only
    rename_i methods methods'
    cases found : methods.get? name with
    | some m =>
      obtain ⟨m', found', likeM⟩ := own.some name m found
      rw [Renaming.same_perm] at found'
      rw [found']
      refine ⟨fun other same => ?_, fun differ => nomatch differ⟩
      cases same
      exact ⟨m', rfl, likeM⟩
    | none =>
      have missing := own.none name found
      rw [Renaming.same_perm] at missing
      rw [missing]
      exact ⟨fun other differ => (nomatch differ), fun _ => rfl⟩
  | derived inherited own ih =>
    rw [Class.method?.eq_def, Class.method?.eq_def]
    dsimp only
    rename_i methods methods'
    cases found : methods.get? name with
    | some m =>
      obtain ⟨m', found', likeM⟩ := own.some name m found
      rw [Renaming.same_perm] at found'
      rw [found']
      refine ⟨fun other same => ?_, fun differ => nomatch differ⟩
      cases same
      exact ⟨m', rfl, likeM⟩
    | none =>
      have missing := own.none name found
      rw [Renaming.same_perm] at missing
      rw [missing]
      exact ih

namespace Value.Like

variable {c : Translation} {w : World} {v v' u u' : Value}

theorem text (like : v.Like c w v') : v'.text = v.text := by
  cases v with
  | function n a =>
    obtain ⟨b, rfl, like⟩ := like
    simp only [Value.text, like.function.same.1]
  | class_ a =>
    obtain ⟨b, rfl, like⟩ := like
    simp only [Value.text, like.same.2]
  | object i a =>
    obtain ⟨b, rfl, like⟩ := like
    simp only [Value.text, like.same.2]
  | _ => rw [show v' = _ from like]

theorem arity? (like : v.Like c w v') : v'.arity? = v.arity? := by
  cases v with
  | function n a =>
    obtain ⟨b, rfl, like⟩ := like
    simp only [Value.arity?, like.function.same.2]
  | class_ a =>
    obtain ⟨b, rfl, like⟩ := like
    obtain ⟨some, none⟩ := like.method? initializerName
    simp only [Value.arity?]
    cases found : a.method? initializerName with
    | some m =>
      obtain ⟨m', found', likeM⟩ := some m found
      rw [found']
      simp only [likeM.function.same.2]
    | none => rw [none found]
  | object i a =>
    obtain ⟨b, rfl, -⟩ := like
    rfl
  | _ => rw [show v' = _ from like]

theorem isEqual_left (like : v.Like c w v') (u : Value) : v'.isEqual u = v.isEqual u := by
  cases v with
  | function n a | object n a =>
    obtain ⟨b, rfl, -⟩ := like
    cases u <;> rfl
  | class_ a =>
    obtain ⟨b, rfl, same⟩ := like
    cases u <;> simp only [Value.isEqual, same.same.1]
  | _ => rw [show v' = _ from like]

theorem isEqual_right (like : u.Like c w u') (v : Value) : v.isEqual u' = v.isEqual u := by
  cases u with
  | function n a | object n a =>
    obtain ⟨b, rfl, -⟩ := like
    cases v <;> rfl
  | class_ a =>
    obtain ⟨b, rfl, same⟩ := like
    cases v <;> simp only [Value.isEqual, same.same.1]
  | _ => rw [show u' = _ from like]

/-- Values that hold no function, class or object are the same. -/
theorem plain (like : v.Like c w v') : v' = v ∨ v.isPlain = false ∧ v'.isPlain = false := by
  cases v with
  | function n a | class_ a | object n a =>
    obtain ⟨b, rfl, -⟩ := like
    exact .inr ⟨rfl, rfl⟩
  | _ => exact .inl like

theorem of_plain (plain : v.isPlain = true) : v.Like c w v := by
  cases v <;> first | rfl | cases plain

/-- Values are compared by what does not differ. -/
theorem isEqual (like : v.Like c w v') (like' : u.Like c w u') : v'.isEqual u' = v.isEqual u :=
  (like.isEqual_left u').trans (like'.isEqual_right v)

end Value.Like

theorem Value.Like.nil (c : Translation) (w : World) : Value.Like c w .nil .nil := rfl

theorem Class.Like.value {c : Translation} {w : World} {a b : Class} (like : a.Like c w b) :
    Value.Like c w (.class_ a) (.class_ b) := ⟨b, rfl, like⟩

theorem Class.Like.object {c : Translation} {w : World} {a b : Class} (like : a.Like c w b)
    (i : InstanceId) : Value.Like c w (.object i a) (.object i b) := ⟨b, rfl, like⟩

/-! ### Stores -/

namespace Store.Like

variable {c d : Translation} {w : World} {s s' : Store} {v v' : Value} {chain : Chain}

theorem addScope (like : s.Like c w s') {π : Renaming} {table table' : Table Value}
    (bound : table.Like (Value.Like c w) π table') :
    (s.addScope table).Like c (w ++ [π]) (s'.addScope table') := by
  have grown : w <+: w ++ [π] := List.prefix_append w [π]
  have extends_ := Translation.Extends.refl c
  have some : 0 < w.length := by
    have global := like.global
    cases w with
    | nil => cases global
    | cons first rest => exact Nat.succ_pos _
  refine ⟨?_, ?_, ?_, fun scope => ?_, like.instances, fun object => ?_⟩
  · rw [size_addScope, size_addScope, like.scopes]
  · rw [size_addScope, List.length_append, like.world]
    rfl
  · rw [List.head?_append, like.global]
    rfl
  · rw [bindings_addScope, bindings_addScope, like.scopes]
    by_cases last : scope = s.scopes.size
    · simp only [last, if_true]
      rw [← like.world, World.at_last]
      exact bound.imp fun _ _ related => related.later extends_ grown
    · simp only [last, if_false]
      have earlier : (w ++ [π]).at_ scope = w.at_ scope := by
        by_cases inside : scope < w.length
        · exact World.at_later grown inside
        · have differ : w.length ≠ scope := fun same => last (same.symm.trans like.world)
          have beyond : w.length < scope := Nat.lt_of_le_of_ne (Nat.not_lt.1 inside) differ
          have none : (w ++ [π])[scope]? = none := by
            rw [List.getElem?_eq_none_iff, List.length_append]
            exact beyond
          simp [World.at_, List.getD_eq_getElem?_getD, none, Nat.le_of_lt beyond]
      rw [earlier]
      exact (like.bound scope).imp fun _ _ related => related.later extends_ grown
  · exact (like.fields object).imp fun _ _ related => related.later extends_ grown

theorem addInstance (like : s.Like c w s') : s.addInstance.Like c w s'.addInstance := by
  refine ⟨like.scopes, like.world, like.global, like.bound, ?_, fun object => ?_⟩
  · simp [Store.addInstance, like.instances]
  · rw [fields_addInstance, fields_addInstance]
    exact like.fields object

theorem lastInstance (like : s.Like c w s') : s'.lastInstance = s.lastInstance := by
  rw [Store.lastInstance, Store.lastInstance, like.instances]

theorem bind (like : s.Like c w s') (scope : ScopeId) (name : String) (value : v.Like c w v') :
    (s.bind scope name v).Like c w (s'.bind scope ((w.at_ scope).perm name) v') := by
  refine ⟨?_, ?_, like.global, fun other => ?_, like.instances, like.fields⟩
  · rw [size_bind, size_bind, like.scopes]
  · rw [size_bind, like.world]
  · rw [bindings_bind, bindings_bind, like.scopes]
    by_cases here : scope = other ∧ other < s.scopes.size
    · obtain ⟨rfl, known⟩ := here
      simp only [known, and_self, if_true]
      exact (like.bound scope).insert value name
    · simp only [here, if_false]
      exact like.bound other

theorem define (like : s.Like c w s') (chain : Chain) (name : String) (value : v.Like c w v') :
    (s.define chain name v).Like c w
      (s'.define chain (Renaming.declare (w.along chain) name) v') := by
  cases chain with
  | nil => exact like
  | cons scope outer => exact like.bind scope name value

theorem setField (like : s.Like c w s') (object : InstanceId) (name : String)
    (value : v.Like c w v') : (s.setField object name v).Like c w (s'.setField object name v') := by
  refine ⟨like.scopes, like.world, like.global, like.bound, ?_, fun other => ?_⟩
  · simp [Store.setField, like.instances]
  · rw [fields_setField, fields_setField, like.instances]
    by_cases here : object = other ∧ other < s.instances.size
    · simp only [here, and_self, if_true]
      exact (like.fields other).insert value name
    · simp only [here, if_false]
      exact like.fields other

/-- A name is found at a distance in both stores or in neither. -/
theorem getAt (like : s.Like c w s') (chain : Chain) (d : Nat) (name : String) :
    (∃ v v', s.getAt chain d name = .ok v ∧
      s'.getAt chain d (Renaming.use (w.along chain) (some d) name) = .ok v' ∧ v.Like c w v') ∨
    ∃ cause cause', s.getAt chain d name = .error cause ∧
      s'.getAt chain d (Renaming.use (w.along chain) (some d) name) = .error cause' ∧
        (Renaming.use (w.along chain) (some d) name = name → cause' = cause) := by
  cases there : chain[d]? with
  | none =>
    refine .inr ⟨.noScopeAt d name, .noScopeAt d (Renaming.use (w.along chain) (some d) name),
      ?_, ?_, fun same => by rw [same]⟩
    · simp only [Store.getAt, ancestor, there, Bind.bind, Except.bind]
    · simp only [Store.getAt, ancestor, there, Bind.bind, Except.bind]
  | some scope =>
    rw [World.use_along there]
    rcases (like.bound scope).cases name with ⟨v, v', found, found', related⟩ | ⟨none, none'⟩
    · refine .inl ⟨v, v', ?_, ?_, related⟩
      · simp only [Store.getAt, ancestor, there, Bind.bind, Except.bind, found]
      · simp only [Store.getAt, ancestor, there, Bind.bind, Except.bind, found']
    · refine .inr ⟨.undefinedVariable name, .undefinedVariable ((w.at_ scope).perm name),
        ?_, ?_, fun same => by rw [same]⟩
      · simp only [Store.getAt, ancestor, there, Bind.bind, Except.bind, none]
      · simp only [Store.getAt, ancestor, there, Bind.bind, Except.bind, none']

theorem at_global (like : s.Like c w s') : w.at_ 0 = Renaming.same := by
  have global := like.global
  cases w with
  | nil => cases global
  | cons first rest =>
    simp only [List.head?_cons, Option.some.injEq] at global
    exact global

/-- Global names are the same in both stores. -/
theorem get_global (like : s.Like c w s') (name : String) :
    (∃ v v', s.get globalChain name = .ok v ∧ s'.get globalChain name = .ok v' ∧ v.Like c w v') ∨
      s.get globalChain name = .error (.undefinedVariable name) ∧
        s'.get globalChain name = .error (.undefinedVariable name) := by
  have bound := like.bound 0
  rw [like.at_global] at bound
  rcases bound.cases name with ⟨v, v', found, found', related⟩ | ⟨none, none'⟩
  · rw [Renaming.same_perm] at found'
    exact .inl ⟨v, v', by simp [Store.get, globalChain, found], by simp [Store.get, globalChain, found'],
      related⟩
  · rw [Renaming.same_perm] at none'
    exact .inr ⟨by simp [Store.get, globalChain, none], by simp [Store.get, globalChain, none']⟩

theorem holder_global (like : s.Like c w s') (name : String) :
    (s.holder globalChain name = .ok 0 ∧ s'.holder globalChain name = .ok 0) ∨
      s.holder globalChain name = .error (.undefinedVariable name) ∧
        s'.holder globalChain name = .error (.undefinedVariable name) := by
  have bound := like.bound 0
  rw [like.at_global] at bound
  have same := bound.contains name
  rw [Renaming.same_perm] at same
  cases held : (s.bindings 0).contains name with
  | true =>
    rw [held] at same
    exact .inl ⟨by simp [holder, holder?, globalChain, held],
      by simp [holder, holder?, globalChain, same]⟩
  | false =>
    rw [held] at same
    exact .inr ⟨by simp [holder, holder?, globalChain, held],
      by simp [holder, holder?, globalChain, same]⟩

end Store.Like

end Lox
