import Lox.Machine
import Lox.Proofs.ReadChunks
import Lox.Proofs.StaticScopes
import Lox.Proofs.Stores

/-!
What a run keeps true of the store: the scopes of a chain hold the names that static scoping has
defined at the place where the chain is in force, and every function that can still be called is
well scoped for its own chain. `R` says which distance, or none, is recorded for an id.
-/

namespace Lox

open Scoping (distance?)

/-- `this` is bound to an object and `super` to a class; any other name may be bound to anything. -/
def Value.Suits (name : String) (v : Value) : Prop :=
  (name = "this" → ∃ i c, v = .object i c) ∧ (name = "super" → ∃ c, v = .class_ c)

/-- The defined names of the frame are bound in the scope. -/
def Frame.Held (frame : Frame) (scope : Table Value) : Prop :=
  ∀ name, frame.get? name = some true → ∃ v, scope.get? name = some v ∧ v.Suits name

/-- The chain has a scope for each frame, and the global scope after them. -/
def Store.Matches (s : Store) (chain : Chain) : List Frame → Prop
  | [] => chain = globalChain
  | frame :: frames =>
      ∃ scope outer, chain = scope :: outer ∧ (0 < scope ∧ scope < s.scopes.size) ∧
        frame.Held (s.bindings scope) ∧ s.Matches outer frames

/-- What a store holds of scopes other than the global one is still held later, and its objects are
still there. -/
structure Store.Grows (s t : Store) : Prop where
  size : s.scopes.size ≤ t.scopes.size
  objects : s.instances.size ≤ t.instances.size
  held : ∀ scope, 0 < scope → scope < s.scopes.size →
    ∀ frame : Frame, frame.Held (s.bindings scope) → frame.Held (t.bindings scope)

namespace Place

/-- A use of the name at this place belongs to a scope that is `d` others away, where it is
defined. -/
def Answers (p : Place) (name : String) (d : Nat) : Prop :=
  distance? p.frames name = some d ∧
    ∃ frame, p.frames[d]? = some frame ∧ frame.get? name = some true

/-- In the body of a class `this` is defined, and in that of a derived class `super` is, too, in
the scope around that of `this`. -/
def Proper (p : Place) : Prop :=
  p.class_ ≠ .outside →
    ∃ d, p.Answers "this" d ∧ (p.class_ = .derived → p.Answers "super" (d + 1))

end Place

section Sound

variable (R : ExprId → Option Nat → Prop) (s : Store)

/-- The function can be called: its body is well scoped where its chain is in force. -/
structure Closure.Sound (c : Closure) (p : Place) : Prop where
  chain : s.Matches c.chain p.frames
  proper : p.Proper
  inside : p.function ≠ .outside
  body : c.function.Scoped R p
  formed : c.function.Formed Token.Spelled
  receiver : c.isInitializer = true → p.Answers "this" 0

/-- The method can be bound: with a scope for `this` it can be called. -/
structure Closure.SoundMethod (c : Closure) (p : Place) : Prop where
  chain : s.Matches c.chain p.frames
  proper : (p.enter thisFrame).Proper
  inside : p.function ≠ .outside
  body : c.function.Scoped R (p.enter thisFrame)
  formed : c.function.Formed Token.Spelled

/-- All methods of the class and of those it inherits from can be bound. -/
inductive Class.Sound : Class → Prop
  | mk {n : Nat} {name : String} {superclass : Option Class} {methods : Table Closure}
      (inherited : ∀ c, superclass = some c → Class.Sound c)
      (own : ∀ key m, methods.get? key = some m → ∃ p, m.SoundMethod R s p) :
      Class.Sound ⟨n, name, superclass, methods⟩

/-- A function or class is sound, and an object is there, with a sound class. -/
def Value.Sound : Value → Prop
  | .function _ closure => ∃ p, closure.Sound R s p
  | .class_ c => c.Sound R s
  | .object i c => i < s.instances.size ∧ c.Sound R s
  | _ => True

structure Store.Sound : Prop where
  global : 0 < s.scopes.size
  bound : ∀ scope name v, (s.bindings scope).get? name = some v → v.Sound R s
  fields : ∀ object name v, (s.fields object).get? name = some v → v.Sound R s

end Sound

/-- The store is sound, and what is recorded is what the machine has at hand. -/
structure Machine.Sound (R : ExprId → Option Nat → Prop) (m : Machine) : Prop where
  store : m.store.Sound R
  distances : ∀ id d, R id d → m.distances[id]? = d

/-- A part of a program at this place can be run. -/
structure Machine.Ready (R : ExprId → Option Nat → Prop) (m : Machine) (p : Place) : Prop where
  sound : m.Sound R
  chain : m.store.Matches m.chain p.frames
  proper : p.Proper

/-- What a run leaves as it was. -/
structure Machine.Kept (R : ExprId → Option Nat → Prop) (m n : Machine) : Prop where
  chain : n.chain = m.chain
  distances : n.distances = m.distances
  grows : m.store.Grows n.store
  sound : n.store.Sound R

/-! ### Values and frames -/

theorem Value.suits_of_ne {name : String} {v : Value} (this : name ≠ "this")
    (super : name ≠ "super") : v.Suits name :=
  ⟨fun same => (this same).elim, fun same => (super same).elim⟩

theorem Token.IsName.suits {t : Token} (name : t.IsName Token.Spelled) (v : Value) :
    v.Suits t.lexeme :=
  Value.suits_of_ne name.ne_this name.ne_super

theorem Value.suits_this (i : InstanceId) (c : Class) : (Value.object i c).Suits "this" :=
  ⟨fun _ => ⟨i, c, rfl⟩, fun differ => absurd differ (by decide)⟩

theorem Value.suits_super (c : Class) : (Value.class_ c).Suits "super" :=
  ⟨fun differ => absurd differ (by decide), fun _ => ⟨c, rfl⟩⟩

namespace Frame.Held

variable {frame : Frame} {table : Table Value} {name : String} {v : Value}

theorem insert (held : frame.Held table) (suits : v.Suits name) :
    frame.Held (table.insert name v) := by
  intro key defined
  rw [Table.get?_insert]
  by_cases same : name = key
  · subst same
    exact ⟨v, by simp, suits⟩
  · obtain ⟨w, found, fits⟩ := held key defined
    exact ⟨w, by simp [same, found], fits⟩

/-- A declaration adds nothing that has to be bound yet. -/
theorem declare (held : frame.Held table) (name : String) :
    Frame.Held (Table.insert frame name false) table := by
  intro key defined
  rw [Table.get?_insert] at defined
  by_cases same : name = key
  · simp [same] at defined
  · exact held key (by simpa [same] using defined)

theorem define (held : frame.Held table) (suits : v.Suits name) :
    Frame.Held (Table.insert frame name true) (table.insert name v) := by
  intro key defined
  rw [Table.get?_insert] at defined
  by_cases same : name = key
  · subst same
    exact ⟨v, Table.get?_insert_self table name v, suits⟩
  · exact held.insert suits key (by simpa [same] using defined)

theorem empty : Frame.Held Table.empty table := fun _ defined => nomatch defined

end Frame.Held

theorem Frame.held_this (i : InstanceId) (c : Class) :
    Frame.Held thisFrame (Table.empty.insert "this" (.object i c)) :=
  Frame.Held.empty.define (Value.suits_this i c)

theorem Frame.held_super (c : Class) :
    Frame.Held superFrame (Table.empty.insert "super" (.class_ c)) :=
  Frame.Held.empty.define (Value.suits_super c)

/-- A scope that binds parameters to as many arguments binds all of them. -/
theorem Frame.held_parameters {parameters : List Token} {arguments : List Value}
    (names : ∀ t ∈ parameters, t.IsName Token.Spelled)
    (fits : arguments.length = parameters.length) :
    Frame.Held (parameterFrame parameters)
      (Table.empty.insertAll ((parameters.map (·.lexeme)).zip arguments)) := by
  intro name defined
  have declared : ∃ t ∈ parameters, t.lexeme = name := by
    rcases Table.get?_insertAll defined with listed | before
    · obtain ⟨t, among, same⟩ := List.mem_map.1 listed
      exact ⟨t, among, congrArg Prod.fst same⟩
    · cases before
  obtain ⟨t, among, rfl⟩ := declared
  have bound : (Table.empty.insertAll ((parameters.map (·.lexeme)).zip arguments)).contains
      t.lexeme = true := by
    rw [Table.contains_insertAll, List.map_fst_zip (by simp [fits])]
    exact Or.inl (List.mem_map_of_mem among)
  obtain ⟨v, found⟩ := Table.contains_iff.1 bound
  exact ⟨v, found, (names t among).suits v⟩

/-! ### Places -/

namespace Place

variable {p : Place} {frame : Frame} {name key : String} {d : Nat}

theorem distance?_enter (p : Place) (frame : Frame) (name : String) :
    distance? (p.enter frame).frames name =
      if frame.contains name then some 0 else (distance? p.frames name).map (· + 1) := by
  simp [distance?, enter, List.findIdx?_cons]

theorem Answers.enter (answers : p.Answers name d) (fresh : frame.get? name = none) :
    (p.enter frame).Answers name (d + 1) := by
  obtain ⟨found, held⟩ := answers
  refine ⟨?_, held⟩
  rw [distance?_enter, found]
  simp [Table.contains, fresh]

theorem Answers.here (defined : frame.get? name = some true) : (p.enter frame).Answers name 0 := by
  refine ⟨?_, frame, rfl, defined⟩
  rw [distance?_enter]
  simp [Table.contains, defined]

theorem distance?_hold (p : Place) (differ : key ≠ name) (b : Bool) :
    distance? (p.hold key b).frames name = distance? p.frames name := by
  obtain ⟨frames, context, class_⟩ := p
  cases frames with
  | nil => rfl
  | cons frame outer =>
    simp [distance?, hold, List.findIdx?_cons, Table.contains, Table.get?_insert_ne frame b differ]

/-- What a scope says of a name is not changed by a declaration of another one. -/
theorem hold_get? (p : Place) (differ : key ≠ name) (b c : Bool) :
    (∃ frame, (p.hold key b).frames[d]? = some frame ∧ frame.get? name = some c) ↔
      ∃ frame, p.frames[d]? = some frame ∧ frame.get? name = some c := by
  obtain ⟨frames, context, class_⟩ := p
  cases frames with
  | nil => rfl
  | cons frame outer =>
    cases d with
    | zero => simp [hold, Table.get?_insert_ne frame b differ]
    | succ d => rfl

theorem Answers.hold (answers : p.Answers name d) (differ : key ≠ name) (b : Bool) :
    (p.hold key b).Answers name d :=
  ⟨(distance?_hold p differ b).trans answers.1, (hold_get? p differ b true).2 answers.2⟩

theorem Defines.of_hold {b : Bool} (defines : (p.hold key b).Defines name) (differ : key ≠ name) :
    p.Defines name := by
  intro d found
  exact (hold_get? p differ b true).1 (defines d ((distance?_hold p differ b).trans found))

theorem Proper.enter (proper : p.Proper) (this : frame.get? "this" = none)
    (super : frame.get? "super" = none) : (p.enter frame).Proper := by
  intro inside
  obtain ⟨d, answers, derived⟩ := proper inside
  exact ⟨d + 1, answers.enter this, fun isDerived => (derived isDerived).enter super⟩

theorem Proper.hold (proper : p.Proper) (this : name ≠ "this") (super : name ≠ "super") (b : Bool) :
    (p.hold name b).Proper := by
  have sameClass : (p.hold name b).class_ = p.class_ := by
    unfold Place.hold
    split <;> rfl
  intro inside
  rw [sameClass] at inside ⊢
  obtain ⟨d, answers, derived⟩ := proper inside
  exact ⟨d, answers.hold this b, fun isDerived => (derived isDerived).hold super b⟩

theorem proper_outermost : outermost.Proper := fun inside => (inside rfl).elim

theorem proper_base (p : Place) : ((p.inClass .base).enter thisFrame).Proper :=
  fun _ => ⟨0, Answers.here rfl, fun differ => absurd differ (by simp [Place.enter, inClass])⟩

theorem proper_derived (p : Place) :
    (((p.inClass .derived).enter superFrame).enter thisFrame).Proper :=
  fun _ => ⟨0, Answers.here rfl, fun _ => (Answers.here rfl).enter rfl⟩

end Place

theorem parameterFrame_get?_none {parameters : List Token} {name : String}
    (differ : ∀ t ∈ parameters, t.lexeme ≠ name) : (parameterFrame parameters).get? name = none := by
  cases found : (parameterFrame parameters).get? name with
  | none => rfl
  | some b =>
    rcases Table.get?_insertAll found with listed | before
    · obtain ⟨t, among, same⟩ := List.mem_map.1 listed
      exact absurd (congrArg Prod.fst same) (differ t among)
    · cases before

/-- A statement changes what is in scope, not what it stands in. -/
theorem Stmt.after_function (s : Stmt) (p : Place) : (s.after p).function = p.function := by
  have hold (name : String) (b : Bool) : (p.hold name b).function = p.function := by
    unfold Place.hold
    split <;> rfl
  match s with
  | .expression _ | .print _ | .block _ | .returnStmt _ _ => simp only [Stmt.after]
  | .varDecl _ _ | .classDecl _ _ _ | .funDecl _ => simp only [Stmt.after, hold]
  | .ifThen _ yes | .whileLoop _ yes =>
    simp only [Stmt.after]
    exact yes.after_function p
  | .ifElse _ yes no =>
    simp only [Stmt.after]
    exact (no.after_function _).trans (yes.after_function p)

theorem Stmt.after_proper (s : Stmt) {p : Place} (formed : s.Formed Token.Spelled)
    (proper : p.Proper) : (s.after p).Proper := by
  match s with
  | .expression _ | .print _ | .block _ | .returnStmt _ _ => simpa only [Stmt.after] using proper
  | .varDecl name none =>
    simp only [Stmt.after]
    exact proper.hold formed.ne_this formed.ne_super true
  | .varDecl name (some _) =>
    simp only [Stmt.after]
    exact proper.hold formed.1.ne_this formed.1.ne_super true
  | .classDecl name _ _ =>
    simp only [Stmt.after]
    exact proper.hold formed.className.1.ne_this formed.className.1.ne_super true
  | .funDecl ⟨name, _, _⟩ =>
    simp only [Stmt.after]
    exact proper.hold formed.1.ne_this formed.1.ne_super true
  | .ifThen _ yes | .whileLoop _ yes =>
    simp only [Stmt.after]
    exact yes.after_proper formed.2.1 proper
  | .ifElse _ yes no =>
    simp only [Stmt.after]
    exact no.after_proper formed.2.2.1 (yes.after_proper formed.2.1.1 proper)

/-- A statement that may be a branch brings nothing into scope. -/
theorem Stmt.after_branch (s : Stmt) {P : Token → Prop} (formed : s.Formed P)
    (branch : s.isBranch = true) (p : Place) : s.after p = p := by
  match s with
  | .expression _ | .print _ | .block _ | .returnStmt _ _ => simp only [Stmt.after]
  | .ifThen _ yes | .whileLoop _ yes =>
    simp only [Stmt.after]
    exact yes.after_branch formed.2.1 formed.2.2 p
  | .ifElse _ yes no =>
    simp only [Stmt.after]
    rw [yes.after_branch formed.2.1.1 formed.2.1.2 p]
    exact no.after_branch formed.2.2.1 formed.2.2.2 p

/-! ### Chains and stores -/

namespace Store

variable {s t u : Store} {chain : Chain} {frames : List Frame} {name : String} {v : Value}

theorem Grows.refl (s : Store) : s.Grows s :=
  ⟨Nat.le_refl _, Nat.le_refl _, fun _ _ _ _ held => held⟩

theorem Grows.trans (first : s.Grows t) (second : t.Grows u) : s.Grows u := by
  refine ⟨Nat.le_trans first.size second.size, Nat.le_trans first.objects second.objects,
    fun scope inner known frame held => ?_⟩
  exact second.held scope inner (Nat.lt_of_lt_of_le known first.size) frame
    (first.held scope inner known frame held)

theorem Matches.grow (matches_ : s.Matches chain frames) (grows : s.Grows t) :
    t.Matches chain frames := by
  induction frames generalizing chain with
  | nil => exact matches_
  | cons frame frames ih =>
    obtain ⟨scope, outer, rfl, ⟨inner, known⟩, held, rest⟩ := matches_
    exact ⟨scope, outer, rfl, ⟨inner, Nat.lt_of_lt_of_le known grows.size⟩,
      grows.held scope inner known frame held, ih rest⟩

/-- Where static scoping finds a defined name, the chain has a scope that binds it. -/
theorem Matches.found {d : Nat} {frame : Frame} (matches_ : s.Matches chain frames)
    (at_ : frames[d]? = some frame) (defined : frame.get? name = some true) :
    ∃ scope, chain[d]? = some scope ∧
      ∃ v, (s.bindings scope).get? name = some v ∧ v.Suits name := by
  induction frames generalizing chain d with
  | nil => cases at_
  | cons first frames ih =>
    obtain ⟨scope, outer, rfl, -, held, rest⟩ := matches_
    cases d with
    | zero =>
      obtain rfl : first = frame := Option.some.inj at_
      exact ⟨scope, rfl, held name defined⟩
    | succ d => exact @ih outer d rest at_

theorem Matches.scope {d : Nat} (matches_ : s.Matches chain frames) (inside : d < frames.length) :
    ∃ scope, chain[d]? = some scope := by
  induction frames generalizing chain d with
  | nil => cases inside
  | cons first frames ih =>
    obtain ⟨scope, outer, rfl, -, held, rest⟩ := matches_
    cases d with
    | zero => exact ⟨scope, rfl⟩
    | succ d => exact @ih outer d rest (Nat.lt_of_succ_lt_succ inside)

theorem grows_addScope (s : Store) (table : Table Value) : s.Grows (s.addScope table) := by
  refine ⟨by rw [size_addScope]; exact Nat.le_succ _, Nat.le_refl _,
    fun scope _ known frame held => ?_⟩
  rw [bindings_addScope, if_neg (Nat.ne_of_lt known)]
  exact held

theorem size_addInstance (s : Store) : s.addInstance.instances.size = s.instances.size + 1 := by
  simp [addInstance]

theorem size_setField (s : Store) (object : InstanceId) (name : String) (v : Value) :
    (s.setField object name v).instances.size = s.instances.size := by
  simp [setField]

theorem grows_addInstance (s : Store) : s.Grows s.addInstance := by
  refine ⟨Nat.le_refl _, ?_, fun _ _ _ _ held => held⟩
  rw [size_addInstance]
  exact Nat.le_succ _

theorem grows_setField (s : Store) (object : InstanceId) (name : String) (v : Value) :
    s.Grows (s.setField object name v) :=
  ⟨Nat.le_refl _, Nat.le_of_eq (size_setField s object name v).symm, fun _ _ _ _ held => held⟩

theorem grows_bind (s : Store) (scope : ScopeId) (suits : v.Suits name) :
    s.Grows (s.bind scope name v) := by
  refine ⟨Nat.le_of_eq (size_bind s _ _ _).symm, Nat.le_refl _, fun other _ _ frame held => ?_⟩
  rw [bindings_bind]
  split
  · exact held.insert suits
  · exact held

/-- No frame stands for the global scope. -/
theorem grows_global (s : Store) (name : String) (v : Value) : s.Grows (s.bind 0 name v) := by
  refine ⟨Nat.le_of_eq (size_bind s _ _ _).symm, Nat.le_refl _, fun other inner _ frame held => ?_⟩
  rw [bindings_bind, if_neg fun both => Nat.ne_of_lt inner both.1]
  exact held

/-- A new scope in front of the chain holds its frame. -/
theorem Matches.addScope {table : Table Value} {frame : Frame} (matches_ : s.Matches chain frames)
    (held : frame.Held table) (global : 0 < s.scopes.size) :
    (s.addScope table).Matches (s.scopes.size :: chain) (frame :: frames) := by
  refine ⟨s.scopes.size, chain, rfl, ⟨global, ?_⟩, ?_, ?_⟩
  · rw [size_addScope]
    exact Nat.lt_succ_self _
  · rw [bindings_lastScope]
    exact held
  · exact matches_.grow (s.grows_addScope table)

theorem Matches.declare {p : Place} (matches_ : s.Matches chain p.frames) (name : String) :
    s.Matches chain (p.hold name false).frames := by
  obtain ⟨frames, context, class_⟩ := p
  cases frames with
  | nil => exact matches_
  | cons frame frames =>
    obtain ⟨scope, outer, rfl, known, held, rest⟩ := matches_
    exact ⟨scope, outer, rfl, known, held.declare name, rest⟩

theorem Matches.define {p : Place} (matches_ : s.Matches chain p.frames) (suits : v.Suits name) :
    (s.define chain name v).Matches chain (p.hold name true).frames := by
  obtain ⟨frames, context, class_⟩ := p
  cases frames with
  | nil => exact matches_
  | cons frame frames =>
    obtain ⟨scope, outer, rfl, ⟨inner, known⟩, held, rest⟩ := matches_
    refine ⟨scope, outer, rfl, ⟨inner, ?_⟩, ?_, ?_⟩
    · simpa [Store.define, size_bind] using known
    · simp only [Store.define, bindings_bind, known, and_self, if_true]
      exact held.define suits
    · exact rest.grow (s.grows_bind scope suits)

theorem grows_define (s : Store) (chain : Chain) (suits : v.Suits name) :
    s.Grows (s.define chain name v) := by
  cases chain with
  | nil => exact Grows.refl s
  | cons scope outer => exact s.grows_bind scope suits

end Store

/-! ### What is sound stays sound -/

section Later

variable {R R' : ExprId → Option Nat → Prop} {s t : Store}
  (weaker : ∀ id d, R id d → R' id d) (grows : s.Grows t)
include weaker grows

theorem Closure.Sound.later {c : Closure} {p : Place} (sound : c.Sound R s p) : c.Sound R' t p :=
  ⟨sound.chain.grow grows, sound.proper, sound.inside, FunctionDecl.Scoped.imp weaker _ sound.body,
    sound.formed, sound.receiver⟩

theorem Closure.SoundMethod.later {c : Closure} {p : Place} (sound : c.SoundMethod R s p) :
    c.SoundMethod R' t p :=
  ⟨sound.chain.grow grows, sound.proper, sound.inside, FunctionDecl.Scoped.imp weaker _ sound.body,
    sound.formed⟩

theorem Class.Sound.later {c : Class} (sound : c.Sound R s) : c.Sound R' t := by
  induction sound with
  | mk inherited own ih =>
    refine .mk ih fun key m found => ?_
    obtain ⟨p, method⟩ := own key m found
    exact ⟨p, method.later weaker grows⟩

theorem Value.Sound.later {v : Value} (sound : v.Sound R s) : v.Sound R' t := by
  cases v with
  | function n closure =>
    obtain ⟨p, callable⟩ := sound
    exact ⟨p, callable.later weaker grows⟩
  | class_ c => exact Class.Sound.later weaker grows sound
  | object i c =>
    exact ⟨Nat.lt_of_lt_of_le sound.1 grows.objects, Class.Sound.later weaker grows sound.2⟩
  | _ => exact trivial

end Later

theorem Value.Sound.grow {R : ExprId → Option Nat → Prop} {s t : Store} {v : Value}
    (sound : v.Sound R s) (grows : s.Grows t) : v.Sound R t :=
  sound.later (fun _ _ known => known) grows

namespace Store.Sound

variable {R : ExprId → Option Nat → Prop} {s : Store} {v : Value} {name : String}

theorem addScope (sound : s.Sound R) {table : Table Value}
    (values : ∀ key w, table.get? key = some w → w.Sound R s) : (s.addScope table).Sound R := by
  have grows := s.grows_addScope table
  refine ⟨Nat.lt_of_lt_of_le sound.global grows.size, fun scope key w found => ?_, ?_⟩
  · rw [bindings_addScope] at found
    split at found
    · exact (values key w found).grow grows
    · exact (sound.bound scope key w found).grow grows
  · exact fun object key w found => (sound.fields object key w found).grow grows

theorem addInstance (sound : s.Sound R) : s.addInstance.Sound R := by
  have grows := s.grows_addInstance
  refine ⟨sound.global, fun scope key w found => (sound.bound scope key w found).grow grows, ?_⟩
  intro object key w found
  rw [fields_addInstance] at found
  exact (sound.fields object key w found).grow grows

theorem setField (sound : s.Sound R) (object : InstanceId) (name : String) (value : v.Sound R s) :
    (s.setField object name v).Sound R := by
  have grows := s.grows_setField object name v
  refine ⟨sound.global, fun scope key w found => (sound.bound scope key w found).grow grows, ?_⟩
  intro other key w found
  rcases get?_setField_cases s found with rfl | before
  · exact value.grow grows
  · exact (sound.fields other key w before).grow grows

/-- The value bound may refer to the scope that it is bound in. -/
theorem bind (sound : s.Sound R) {scope : ScopeId} (grows : s.Grows (s.bind scope name v))
    (value : v.Sound R (s.bind scope name v)) : (s.bind scope name v).Sound R := by
  refine ⟨Nat.lt_of_lt_of_le sound.global grows.size, fun other key w found => ?_, ?_⟩
  · rcases get?_bind_cases s found with rfl | before
    · exact value
    · exact (sound.bound other key w before).grow grows
  · exact fun object key w found => (sound.fields object key w found).grow grows

theorem define (sound : s.Sound R) (chain : Chain) (suits : v.Suits name)
    (value : v.Sound R (s.define chain name v)) : (s.define chain name v).Sound R := by
  cases chain with
  | nil => exact sound
  | cons scope outer => exact sound.bind (s.grows_bind scope suits) value

end Store.Sound

namespace Machine

variable {R : ExprId → Option Nat → Prop} {m n o : Machine} {p : Place}

theorem Kept.trans (first : m.Kept R n) (second : n.Kept R o) : m.Kept R o :=
  ⟨second.chain.trans first.chain, second.distances.trans first.distances,
    first.grows.trans second.grows, second.sound⟩

theorem Sound.kept (sound : m.Sound R) (kept : m.Kept R n) : n.Sound R :=
  ⟨kept.sound, fun id d known => kept.distances ▸ sound.distances id d known⟩

theorem Sound.refl (sound : m.Sound R) : m.Kept R m :=
  ⟨rfl, rfl, Store.Grows.refl _, sound.store⟩

theorem Ready.kept (ready : m.Ready R p) (kept : m.Kept R n) : n.Ready R p :=
  ⟨ready.sound.kept kept, kept.chain ▸ ready.chain.grow kept.grows, ready.proper⟩

/-- The body of a function runs in a scope that binds all of its parameters. -/
theorem Sound.enter {closure : Closure} {vs : List Value} {q : Place} (sound : m.Sound R)
    (callable : closure.Sound R m.store q) (values : ∀ v ∈ vs, v.Sound R m.store)
    (fits : vs.length = closure.function.parameters.length) :
    Machine.Ready R { m with
      store := m.store.addScope
        (Table.empty.insertAll ((closure.function.parameters.map (·.lexeme)).zip vs))
      chain := m.store.scopes.size :: closure.chain }
      (q.enter (parameterFrame closure.function.parameters)) := by
  obtain ⟨⟨name, parameters, body⟩, chain, isInitializer⟩ := closure
  obtain ⟨matches_, proper, -, -, formed, -⟩ := callable
  refine ⟨⟨sound.store.addScope fun key w found => ?_, sound.distances⟩, ?_, ?_⟩
  · rcases Table.get?_insertAll found with listed | before
    · exact values w (List.of_mem_zip listed).2
    · cases before
  · exact matches_.addScope (Frame.held_parameters formed.2.1 fits) sound.store.global
  · refine proper.enter (parameterFrame_get?_none fun t among => ?_)
      (parameterFrame_get?_none fun t among => ?_)
    · exact (formed.2.1 t among).ne_this
    · exact (formed.2.1 t among).ne_super

/-- The statements of a block run in a scope that binds nothing yet. -/
theorem Ready.open (ready : m.Ready R p) :
    Machine.Ready R { m with
      store := m.store.addScope Table.empty
      chain := m.store.scopes.size :: m.chain } (p.enter Table.empty) :=
  ⟨⟨ready.sound.store.addScope (fun _ _ found => nomatch found), ready.sound.distances⟩,
    ready.chain.addScope Frame.Held.empty ready.sound.store.global, ready.proper.enter rfl rfl⟩

end Machine

end Lox
