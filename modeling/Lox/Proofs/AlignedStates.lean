import Lox.Proofs.AlignedTrees
import Lox.Proofs.LikeStates

/-!
Values, stores and machines that are aligned: built by runs that differ in the scopes of their chains
only. Scopes of the left and the right store are linked in pairs; a scope that only one run has made
is linked to none.
-/

namespace Lox

/-- The left scope and the right one are counterparts. -/
abbrev Links := ScopeId → ScopeId → Prop

def Links.Within (w v : Links) : Prop := ∀ k k', w k k' → v k k'

theorem Links.Within.refl (w : Links) : w.Within w := fun _ _ linked => linked

theorem Links.Within.trans {w v u : Links} (first : w.Within v) (second : v.Within u) :
    w.Within u := fun k k' linked => second k k' (first k k' linked)

/-- The links with one more pair. -/
def Links.add (w : Links) (k k' : ScopeId) : Links := fun i i' => w i i' ∨ i = k ∧ i' = k'

theorem Links.within_add (w : Links) (k k' : ScopeId) : w.Within (w.add k k') :=
  fun _ _ linked => .inl linked

theorem Links.add_new (w : Links) (k k' : ScopeId) : w.add k k' k k' := .inr ⟨rfl, rfl⟩

namespace Alignment

/-- Where both chains have a scope, the two are linked. -/
inductive Chains (w : Links) : Alignment → Chain → Chain → Prop
  | global : Chains w [] globalChain globalChain
  | both {a : Alignment} {k k' : ScopeId} {outer outer' : Chain} (linked : w k k')
      (chains : Chains w a outer outer') : Chains w (.both :: a) (k :: outer) (k' :: outer')
  | left {a : Alignment} {k : ScopeId} {outer outer' : Chain}
      (chains : Chains w a outer outer') : Chains w (.left :: a) (k :: outer) outer'
  | right {a : Alignment} {k' : ScopeId} {outer outer' : Chain}
      (chains : Chains w a outer outer') : Chains w (.right :: a) outer (k' :: outer')

end Alignment

section Aligned

variable (D : TwoDistances) (w : Links)

/-- The right function is a copy of the left one with other ids, and is aligned in the chain of its
declaration. A method is yet to get the scopes `inner` in front of its chain. -/
structure Closure.AlignedAs (inner : Alignment) (f : ExprId → ExprId) (a : Alignment)
    (x y : Closure) : Prop where
  function : y.function = x.function.renumber f
  body : x.function.Aligned D f (inner ++ a)
  chain : a.Chains w x.chain y.chain
  isInitializer : y.isInitializer = x.isInitializer
  receiver : x.isInitializer = true → ∃ rest, inner ++ a = .both :: rest

def Closure.Aligned (inner : Alignment) (x y : Closure) : Prop := ∃ f a, x.AlignedAs D w inner f a y

inductive Class.Aligned : Class → Class → Prop
  | base {n : Nat} {name : String} {methods methods' : Table Closure}
      (own : methods.Like (Closure.Aligned D w [.both]) Renaming.same methods') :
      Class.Aligned ⟨n, name, none, methods⟩ ⟨n, name, none, methods'⟩
  | derived {n : Nat} {name : String} {x y : Class} {methods methods' : Table Closure}
      (inherited : Class.Aligned x y)
      (own : methods.Like (Closure.Aligned D w [.both]) Renaming.same methods') :
      Class.Aligned ⟨n, name, some x, methods⟩ ⟨n, name, some y, methods'⟩

/-- Values without functions are the same; functions, classes and objects have the same identity. -/
def Value.Aligned : Value → Value → Prop
  | .function n x, v' => ∃ y, v' = .function n y ∧ x.Aligned D w [] y
  | .class_ x, v' => ∃ y, v' = .class_ y ∧ x.Aligned D w y
  | .object i x, v' => ∃ y, v' = .object i y ∧ x.Aligned D w y
  | v, v' => v' = v

/-- Linked scopes bind the same names, and the same objects are there with the same fields. -/
structure Store.Aligned (s s' : Store) : Prop where
  global : w 0 0
  known : ∀ k k', w k k' → k < s.scopes.size ∧ k' < s'.scopes.size
  left : ∀ k i i', w k i → w k i' → i = i'
  right : ∀ k k' i, w k i → w k' i → k = k'
  bound : ∀ k k', w k k' → (s.bindings k).Like (Value.Aligned D w) Renaming.same (s'.bindings k')
  instances : s'.instances.size = s.instances.size
  fields : ∀ object, (s.fields object).Like (Value.Aligned D w) Renaming.same (s'.fields object)

/-- Each machine has its distances at hand, and both have written the same and counted as far. -/
structure Machine.Aligned (a : Alignment) (m m' : Machine) : Prop where
  store : m.store.Aligned D w m'.store
  chain : a.Chains w m.chain m'.chain
  distances : m.distances = D.left
  distances' : m'.distances = D.right
  sink : m'.sink = m.sink
  identity : m'.nextIdentity = m.nextIdentity
  clock : m'.clock = m.clock

def Flow.Aligned : Flow → Flow → Prop
  | .normal, f' => f' = .normal
  | .returned v, f' => ∃ v', f' = .returned v' ∧ v.Aligned D w v'

end Aligned

variable {D : TwoDistances} {w v : Links} {a : Alignment}

/-! ### Chains -/

namespace Alignment

variable {c c' : Chain}

theorem Chains.later (chains : a.Chains w c c') (within : w.Within v) : a.Chains v c c' := by
  induction chains with
  | global => exact .global
  | both linked _ ih => exact .both (within _ _ linked) ih
  | left _ ih => exact .left ih
  | right _ ih => exact .right ih

theorem Chains.meets {chain chain' : Chain} {d d' : Nat} (chains : a.Chains w chain chain')
    (meets : a.Meets d d') : ∃ k k', chain[d]? = some k ∧ chain'[d']? = some k' ∧ w k k' := by
  induction meets generalizing chain chain' with
  | here =>
    cases chains with
    | both linked chains => exact ⟨_, _, rfl, rfl, linked⟩
  | both _ ih =>
    cases chains with
    | both _ chains => exact ih chains
  | left _ ih =>
    cases chains with
    | left chains => exact ih chains
  | right _ ih =>
    cases chains with
    | right chains => exact ih chains

/-- A declaration goes to linked scopes. -/
theorem Chains.opens (chains : a.Chains w c c') (global : w 0 0) (opens : a.Opens) :
    ∃ k k' outer outer', c = k :: outer ∧ c' = k' :: outer' ∧ w k k' := by
  cases chains with
  | global => exact ⟨0, 0, [], [], rfl, rfl, global⟩
  | both linked chains => exact ⟨_, _, _, _, rfl, rfl, linked⟩
  | left chains => cases opens
  | right chains => cases opens

end Alignment

/-! ### What is aligned stays aligned -/

section Later

variable (within : w.Within v)
include within

theorem Closure.Aligned.later {inner : Alignment} {x y : Closure}
    (aligned : x.Aligned D w inner y) : x.Aligned D v inner y := by
  obtain ⟨f, a, as⟩ := aligned
  exact ⟨f, a, { as with chain := as.chain.later within }⟩

theorem Class.Aligned.later {x y : Class} (aligned : x.Aligned D w y) : x.Aligned D v y := by
  induction aligned with
  | base own => exact .base (own.imp fun _ _ aligned => aligned.later within)
  | derived _ own ih => exact .derived ih (own.imp fun _ _ aligned => aligned.later within)

theorem Value.Aligned.later {u u' : Value} (aligned : u.Aligned D w u') : u.Aligned D v u' := by
  cases u with
  | function n x | class_ x | object n x =>
    obtain ⟨y, rfl, aligned⟩ := aligned
    exact ⟨y, rfl, aligned.later within⟩
  | _ => exact aligned

end Later

/-! ### Values -/

theorem FunctionDecl.renumber_name (f : ExprId → ExprId) (d : FunctionDecl) :
    (d.renumber f).name = d.name ∧ (d.renumber f).parameters = d.parameters := by
  obtain ⟨name, parameters, body⟩ := d
  simp only [FunctionDecl.renumber, and_self]

theorem Closure.Aligned.same {inner : Alignment} {x y : Closure} (aligned : x.Aligned D w inner y) :
    y.function.name = x.function.name ∧ y.function.parameters = x.function.parameters := by
  obtain ⟨f, a, as⟩ := aligned
  rw [as.function]
  exact x.function.renumber_name f

theorem Class.Aligned.same {x y : Class} (aligned : x.Aligned D w y) :
    y.identity = x.identity ∧ y.name = x.name := by
  cases aligned <;> exact ⟨rfl, rfl⟩

/-- A method is found in both classes or in neither. -/
theorem Class.Aligned.method? {x y : Class} (aligned : x.Aligned D w y) (name : String) :
    (∃ m m', x.method? name = some m ∧ y.method? name = some m' ∧ m.Aligned D w [.both] m') ∨
      x.method? name = none ∧ y.method? name = none := by
  induction aligned with
  | base own =>
    rw [Class.method?.eq_def, Class.method?.eq_def]
    dsimp only
    rcases own.cases name with ⟨m, m', found, found', aligned⟩ | ⟨none, none'⟩
    · rw [Renaming.same_perm] at found'
      exact .inl ⟨m, m', by rw [found], by rw [found'], aligned⟩
    · rw [Renaming.same_perm] at none'
      exact .inr ⟨by rw [none], by rw [none']⟩
  | derived inherited own ih =>
    rw [Class.method?.eq_def, Class.method?.eq_def]
    dsimp only
    rcases own.cases name with ⟨m, m', found, found', aligned⟩ | ⟨none, none'⟩
    · rw [Renaming.same_perm] at found'
      exact .inl ⟨m, m', by rw [found], by rw [found'], aligned⟩
    · rw [Renaming.same_perm] at none'
      rw [none, none']
      exact ih

namespace Value.Aligned

variable {u u' x x' : Value}

theorem isTruthy (aligned : u.Aligned D w u') : u'.isTruthy = u.isTruthy := by
  cases u with
  | function n c | class_ c | object n c =>
    obtain ⟨y, rfl, -⟩ := aligned
    rfl
  | _ => rw [show u' = _ from aligned]

theorem text (aligned : u.Aligned D w u') : u'.text = u.text := by
  cases u with
  | function n c =>
    obtain ⟨y, rfl, aligned⟩ := aligned
    simp only [Value.text, aligned.same.1]
  | class_ c | object n c =>
    obtain ⟨y, rfl, aligned⟩ := aligned
    simp only [Value.text, aligned.same.2]
  | _ => rw [show u' = _ from aligned]

theorem arity? (aligned : u.Aligned D w u') : u'.arity? = u.arity? := by
  cases u with
  | function n c =>
    obtain ⟨y, rfl, aligned⟩ := aligned
    simp only [Value.arity?, aligned.same.2]
  | class_ c =>
    obtain ⟨y, rfl, aligned⟩ := aligned
    rcases aligned.method? initializerName with ⟨m, m', found, found', method⟩ | ⟨none, none'⟩
    · simp only [Value.arity?, found, found', method.same.2]
    · simp only [Value.arity?, none, none']
  | object n c =>
    obtain ⟨y, rfl, -⟩ := aligned
    rfl
  | _ => rw [show u' = _ from aligned]

theorem isEqual_left (aligned : u.Aligned D w u') (x : Value) : u'.isEqual x = u.isEqual x := by
  cases u with
  | function n c | object n c =>
    obtain ⟨y, rfl, -⟩ := aligned
    cases x <;> rfl
  | class_ c =>
    obtain ⟨y, rfl, same⟩ := aligned
    cases x <;> simp only [Value.isEqual, same.same.1]
  | _ => rw [show u' = _ from aligned]

theorem isEqual_right (aligned : x.Aligned D w x') (u : Value) : u.isEqual x' = u.isEqual x := by
  cases x with
  | function n c | object n c =>
    obtain ⟨y, rfl, -⟩ := aligned
    cases u <;> rfl
  | class_ c =>
    obtain ⟨y, rfl, same⟩ := aligned
    cases u <;> simp only [Value.isEqual, same.same.1]
  | _ => rw [show x' = _ from aligned]

theorem isEqual (aligned : u.Aligned D w u') (other : x.Aligned D w x') :
    u'.isEqual x' = u.isEqual x :=
  (aligned.isEqual_left x').trans (other.isEqual_right u)

theorem plain (aligned : u.Aligned D w u') : u' = u ∨ u.isPlain = false ∧ u'.isPlain = false := by
  cases u with
  | function n c | class_ c | object n c =>
    obtain ⟨y, rfl, -⟩ := aligned
    exact .inr ⟨rfl, rfl⟩
  | _ => exact .inl aligned

theorem of_plain (plain : u.isPlain = true) : u.Aligned D w u := by
  cases u <;> first | rfl | cases plain

end Value.Aligned

theorem Class.Aligned.value {x y : Class} (aligned : x.Aligned D w y) :
    Value.Aligned D w (.class_ x) (.class_ y) := ⟨y, rfl, aligned⟩

theorem Class.Aligned.object {x y : Class} (aligned : x.Aligned D w y) (i : InstanceId) :
    Value.Aligned D w (.object i x) (.object i y) := ⟨y, rfl, aligned⟩

/-! ### Stores -/

namespace Store.Aligned

variable {s s' : Store} {u u' : Value} {k k' : ScopeId} {name : String}

section

variable (aligned : s.Aligned D w s')
include aligned

/-- A scope that both runs make. -/
theorem addScope {table table' : Table Value}
    (bound : table.Like (Value.Aligned D w) Renaming.same table') :
    (s.addScope table).Aligned D (w.add s.scopes.size s'.scopes.size) (s'.addScope table') := by
  have within := w.within_add s.scopes.size s'.scopes.size
  have fresh {i : ScopeId} : ¬ w s.scopes.size i :=
    fun linked => Nat.lt_irrefl _ (aligned.known _ _ linked).1
  have fresh' {i : ScopeId} : ¬ w i s'.scopes.size :=
    fun linked => Nat.lt_irrefl _ (aligned.known _ _ linked).2
  refine ⟨.inl aligned.global, ?_, ?_, ?_, ?_, aligned.instances, fun object => ?_⟩
  · rintro i i' (linked | ⟨rfl, rfl⟩)
    · obtain ⟨left, right⟩ := aligned.known i i' linked
      rw [size_addScope, size_addScope]
      exact ⟨Nat.lt_succ_of_lt left, Nat.lt_succ_of_lt right⟩
    · simp [size_addScope]
  · rintro i j j' (linked | ⟨rfl, rfl⟩) (linked' | ⟨same, rfl⟩)
    · exact aligned.left i j j' linked linked'
    · exact (fresh (same ▸ linked)).elim
    · exact (fresh linked').elim
    · rfl
  · rintro i i' j (linked | ⟨rfl, rfl⟩) (linked' | ⟨rfl, same⟩)
    · exact aligned.right i i' j linked linked'
    · exact (fresh' (same ▸ linked)).elim
    · exact (fresh' linked').elim
    · rfl
  · rintro i i' (linked | ⟨rfl, rfl⟩)
    · obtain ⟨left, right⟩ := aligned.known i i' linked
      rw [bindings_addScope, if_neg (Nat.ne_of_lt left), bindings_addScope,
        if_neg (Nat.ne_of_lt right)]
      exact (aligned.bound i i' linked).imp fun _ _ related => related.later within
    · rw [bindings_lastScope, bindings_lastScope]
      exact bound.imp fun _ _ related => related.later within
  · exact (aligned.fields object).imp fun _ _ related => related.later within

/-- A scope that only the left run makes. -/
theorem addLeft (table : Table Value) : (s.addScope table).Aligned D w s' := by
  refine { aligned with known := fun i i' linked => ?_, bound := fun i i' linked => ?_ }
  · obtain ⟨left, right⟩ := aligned.known i i' linked
    rw [size_addScope]
    exact ⟨Nat.lt_succ_of_lt left, right⟩
  · rw [bindings_addScope, if_neg (Nat.ne_of_lt (aligned.known i i' linked).1)]
    exact aligned.bound i i' linked

/-- A scope that only the right run makes. -/
theorem addRight (table : Table Value) : s.Aligned D w (s'.addScope table) := by
  refine { aligned with known := fun i i' linked => ?_, bound := fun i i' linked => ?_ }
  · obtain ⟨left, right⟩ := aligned.known i i' linked
    rw [size_addScope]
    exact ⟨left, Nat.lt_succ_of_lt right⟩
  · rw [bindings_addScope, if_neg (Nat.ne_of_lt (aligned.known i i' linked).2)]
    exact aligned.bound i i' linked

theorem addInstance : s.addInstance.Aligned D w s'.addInstance := by
  refine { aligned with instances := ?_, fields := fun object => ?_ }
  · simp [Store.addInstance, aligned.instances]
  · rw [fields_addInstance, fields_addInstance]
    exact aligned.fields object

theorem lastInstance : s'.lastInstance = s.lastInstance := by
  rw [Store.lastInstance, Store.lastInstance, aligned.instances]

/-- A write to linked scopes. Neither of them is linked to another one. -/
theorem bind (linked : w k k') (name : String) (value : u.Aligned D w u') :
    (s.bind k name u).Aligned D w (s'.bind k' name u') := by
  obtain ⟨left, right⟩ := aligned.known k k' linked
  refine { aligned with known := fun i i' other => ?_, bound := fun i i' other => ?_ }
  · rw [size_bind, size_bind]
    exact aligned.known i i' other
  · rw [bindings_bind, bindings_bind]
    by_cases same : k = i
    · obtain rfl := same
      obtain rfl := aligned.left k k' i' linked other
      rw [if_pos ⟨rfl, left⟩, if_pos ⟨rfl, right⟩]
      exact (aligned.bound k k' linked).insert value name
    · have differ : k' ≠ i' := fun same' => same (aligned.right k i k' linked (same' ▸ other))
      rw [if_neg fun here => same here.1, if_neg fun here => differ here.1]
      exact aligned.bound i i' other

theorem define {c c' : Chain} (chains : a.Chains w c c') (opens : a.Opens) (name : String)
    (value : u.Aligned D w u') : (s.define c name u).Aligned D w (s'.define c' name u') := by
  obtain ⟨k, k', outer, outer', rfl, rfl, linked⟩ := chains.opens aligned.global opens
  exact aligned.bind linked name value

theorem setField (object : InstanceId) (name : String) (value : u.Aligned D w u') :
    (s.setField object name u).Aligned D w (s'.setField object name u') := by
  refine { aligned with instances := ?_, fields := fun other => ?_ }
  · simp [Store.setField, aligned.instances]
  · rw [fields_setField, fields_setField, aligned.instances]
    by_cases here : object = other ∧ other < s.instances.size
    · rw [if_pos here, if_pos here]
      exact (aligned.fields other).insert value name
    · rw [if_neg here, if_neg here]
      exact aligned.fields other

/-- A name is bound in both of two linked scopes or in neither. -/
theorem get? (linked : w k k') (name : String) :
    (∃ u u', (s.bindings k).get? name = some u ∧ (s'.bindings k').get? name = some u' ∧
      u.Aligned D w u') ∨
      (s.bindings k).get? name = none ∧ (s'.bindings k').get? name = none :=
  (aligned.bound k k' linked).cases name

/-- At corresponding distances a name is found in both stores or in neither. -/
theorem getAt {c c' : Chain} {d d' : Nat} (chains : a.Chains w c c') (meets : a.Meets d d')
    (name : String) :
    (∃ u u', s.getAt c d name = .ok u ∧ s'.getAt c' d' name = .ok u' ∧ u.Aligned D w u') ∨
      ∃ cause, s.getAt c d name = .error cause ∧ s'.getAt c' d' name = .error cause := by
  obtain ⟨k, k', there, there', linked⟩ := chains.meets meets
  simp only [Store.getAt, ancestor, there, there', Bind.bind, Except.bind]
  rcases aligned.get? linked name with ⟨u, u', found, found', related⟩ | ⟨none, none'⟩
  · simp only [found, found']
    exact .inl ⟨u, u', rfl, rfl, related⟩
  · simp only [none, none']
    exact .inr ⟨_, rfl, rfl⟩

theorem get_global (name : String) :
    (∃ u u', s.get globalChain name = .ok u ∧ s'.get globalChain name = .ok u' ∧
      u.Aligned D w u') ∨
      ∃ cause, s.get globalChain name = .error cause ∧ s'.get globalChain name = .error cause := by
  rcases aligned.get? aligned.global name with ⟨u, u', found, found', related⟩ | ⟨none, none'⟩
  · exact .inl ⟨u, u', by simp [Store.get, globalChain, found],
      by simp [Store.get, globalChain, found'], related⟩
  · exact .inr ⟨.undefinedVariable name, by simp [Store.get, globalChain, none],
      by simp [Store.get, globalChain, none']⟩

theorem holder_global (name : String) :
    (s.holder globalChain name = .ok 0 ∧ s'.holder globalChain name = .ok 0) ∨
      ∃ cause, s.holder globalChain name = .error cause ∧
        s'.holder globalChain name = .error cause := by
  rcases aligned.get? aligned.global name with ⟨u, u', found, found', -⟩ | ⟨none, none'⟩
  · exact .inl ⟨by simp [holder, holder?, globalChain, Table.contains, found],
      by simp [holder, holder?, globalChain, Table.contains, found']⟩
  · exact .inr ⟨.undefinedVariable name,
      by simp [holder, holder?, globalChain, Table.contains, none],
      by simp [holder, holder?, globalChain, Table.contains, none']⟩

end

end Store.Aligned

/-! ### What is sound is aligned to itself -/

/-- The scopes of a store, each linked to itself. -/
def Store.links (s : Store) : Links := fun k k' => k = k' ∧ k < s.scopes.size

section Sound

variable {R : ExprId → Option Nat → Prop} {s : Store} {p : Place}

theorem Store.Matches.chains {chain : Chain} {frames : List Frame}
    (matches_ : s.Matches chain frames) :
    (Alignment.even frames.length).Chains s.links chain chain := by
  induction frames generalizing chain with
  | nil =>
    obtain rfl : chain = globalChain := matches_
    exact .global
  | cons frame frames ih =>
    obtain ⟨scope, outer, rfl, ⟨-, known⟩, -, rest⟩ := matches_
    exact .both ⟨rfl, known⟩ (ih rest)

variable (left : ∀ id d, R id d → D.left.Records id d)
  (right : ∀ id d, R id d → D.right.Records id d)
include left right

theorem FunctionDecl.Scoped.alignedSame {d : FunctionDecl} (proper : p.Proper)
    (formed : d.Formed Token.Spelled) (inside : d.Scoped R p) :
    d.Aligned D (fun i => i) (Alignment.even p.frames.length) := by
  have copy : (d.renumber fun i => i).Scoped D.right.Records p := by
    rw [d.renumber_same]
    exact FunctionDecl.Scoped.imp right d inside
  exact FunctionDecl.Scoped.aligned d (.same proper) p.function p.function formed
    (FunctionDecl.Scoped.imp left d inside) copy

theorem Closure.Sound.aligned {x : Closure} (sound : x.Sound R s p) :
    x.Aligned D s.links [] x := by
  refine ⟨fun i => i, Alignment.even p.frames.length, (FunctionDecl.renumber_same _).symm, ?_,
    sound.chain.chains, rfl, fun isInitializer => ?_⟩
  · exact sound.body.alignedSame left right sound.proper sound.formed
  · obtain ⟨-, frame, first, -⟩ := sound.receiver isInitializer
    obtain ⟨outer, frames⟩ : ∃ outer, p.frames = frame :: outer := by
      rcases nonempty : p.frames with _ | ⟨other, outer⟩
      · rw [nonempty] at first
        cases first
      · rw [nonempty] at first
        cases first
        exact ⟨outer, rfl⟩
    rw [frames]
    exact ⟨_, rfl⟩

theorem Closure.SoundMethod.aligned {x : Closure} (sound : x.SoundMethod R s p) :
    x.Aligned D s.links [.both] x := by
  refine ⟨fun i => i, Alignment.even p.frames.length, (FunctionDecl.renumber_same _).symm, ?_,
    sound.chain.chains, rfl, fun _ => ⟨_, rfl⟩⟩
  exact sound.body.alignedSame left right sound.proper sound.formed

theorem Class.Sound.aligned {c : Class} (sound : c.Sound R s) :
    c.Aligned D s.links c := by
  induction sound with
  | @mk n name superclass methods inherited own ih =>
    have same : methods.Like (Closure.Aligned D s.links [.both]) Renaming.same methods := by
      refine ⟨fun name m found => ?_, fun _ missing => missing⟩
      obtain ⟨p, sound⟩ := own name m found
      exact ⟨m, found, sound.aligned left right⟩
    cases superclass with
    | none => exact .base same
    | some parent => exact .derived (ih parent rfl) same

theorem Value.Sound.aligned {u : Value} (sound : u.Sound R s) :
    u.Aligned D s.links u := by
  cases u with
  | function n x =>
    obtain ⟨p, sound⟩ := sound
    exact ⟨x, rfl, sound.aligned left right⟩
  | class_ c => exact ⟨c, rfl, Class.Sound.aligned left right sound⟩
  | object n c => exact ⟨c, rfl, Class.Sound.aligned left right sound.2⟩
  | _ => exact rfl

theorem Store.Sound.aligned (sound : s.Sound R) : s.Aligned D s.links s := by
  refine ⟨⟨rfl, sound.global⟩, ?_, ?_, ?_, ?_, rfl, fun object => ?_⟩
  · rintro k k' ⟨rfl, known⟩
    exact ⟨known, known⟩
  · rintro k i i' ⟨rfl, -⟩ ⟨rfl, -⟩
    rfl
  · rintro k k' i ⟨rfl, -⟩ ⟨rfl, -⟩
    rfl
  · rintro k k' ⟨rfl, -⟩
    exact ⟨fun name u found => ⟨u, found, (sound.bound k name u found).aligned left right⟩,
      fun _ missing => missing⟩
  · exact ⟨fun name u found => ⟨u, found, (sound.fields object name u found).aligned left right⟩,
      fun _ missing => missing⟩

end Sound

/-- A machine is aligned to itself, also if the other one knows more distances. -/
theorem Machine.Ready.aligned {R : ExprId → Option Nat → Prop} {m : Machine} {p : Place}
    {D : Distances} (ready : m.Ready R p) (known : ∀ id d, R id d → D.Records id d) :
    m.Aligned ⟨m.distances, D⟩ m.store.links (Alignment.even p.frames.length)
      { m with distances := D } :=
  ⟨Store.Sound.aligned ready.sound.distances known ready.sound.store, ready.chain.chains, rfl, rfl,
    rfl, rfl, rfl⟩

end Lox
