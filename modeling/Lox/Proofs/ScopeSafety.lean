import Lox.Proofs.ClassSteps
import Lox.Proofs.ScopeInvariant

/-!
Runs keep the store sound. No run of a well scoped program ends with one of the errors that the
interpreter keeps for what static scoping rules out.
-/

namespace Lox

open Scoping (distance?)

/-- Errors that tell of a slip of the interpreter and not of the program. -/
def RuntimeCause.isInternal : RuntimeCause → Bool
  | noScopeAt _ _ => true
  | invalidUnary => true
  | invalidBinary => true
  | superUnresolved => true
  | superNotClass => true
  | noThisScope => true
  | thisNotInstance => true
  | _ => false

/-- The run did not end with an internal error. -/
def Halt.Fair (h : Halt) : Prop := ∀ e, h = .runtime e → e.cause.isInternal = false

/-- Begun on `m`, the computation keeps what a run has to keep, and what it gives fulfils `A`. -/
def Safe {α : Type} (R : ExprId → Option Nat → Prop) (m : Machine) (A : α → Machine → Prop)
    (x : Run α) : Prop :=
  match x m with
  | .ok a n => m.Kept R n ∧ A a n
  | .error h n => m.Kept R n ∧ h.Fair

variable {R : ExprId → Option Nat → Prop} {m n : Machine} {p : Place} {α β : Type}
  {A A' : α → Machine → Prop} {B : β → Machine → Prop} {x : Run α} {f : α → Run β}

namespace Safe

theorem ok {a : α} (safe : Safe R m A x) (run : x m = .ok a n) : m.Kept R n ∧ A a n := by
  simpa only [Safe, run] using safe

theorem error {h : Halt} (safe : Safe R m A x) (run : x m = .error h n) :
    m.Kept R n ∧ h.Fair := by
  simpa only [Safe, run] using safe

theorem of_ok {a : α} (run : x m = .ok a n) (kept : m.Kept R n) (given : A a n) :
    Safe R m A x := by
  simpa only [Safe, run] using ⟨kept, given⟩

theorem of_error {h : Halt} (run : x m = .error h n) (kept : m.Kept R n) (fair : h.Fair) :
    Safe R m A x := by
  simpa only [Safe, run] using ⟨kept, fair⟩

theorem imp (safe : Safe R m A x) (weaker : ∀ a n, m.Kept R n → A a n → A' a n) :
    Safe R m A' x := by
  cases run : x m with
  | ok a n =>
    obtain ⟨kept, given⟩ := safe.ok run
    exact of_ok run kept (weaker a n kept given)
  | error h n => exact of_error run (safe.error run).1 (safe.error run).2

theorem bind (first : Safe R m A x) (second : ∀ a n, m.Kept R n → A a n → Safe R n B (f a)) :
    Safe R m B (x >>= f) := by
  cases run : x m with
  | error h n => exact of_error (bind_of_error run) (first.error run).1 (first.error run).2
  | ok a n =>
    obtain ⟨kept, given⟩ := first.ok run
    have rest := second a n kept given
    cases run' : f a n with
    | ok b o =>
      exact of_ok ((bind_of_ok run).trans run') (kept.trans (rest.ok run').1) (rest.ok run').2
    | error h o =>
      exact of_error ((bind_of_ok run).trans run') (kept.trans (rest.error run').1)
        (rest.error run').2

theorem pure {a : α} (sound : m.Sound R) (given : A a m) : Safe R m A (Pure.pure a) :=
  of_ok rfl sound.refl given

theorem raise {line : Nat} {cause : RuntimeCause} (sound : m.Sound R)
    (fair : cause.isInternal = false) : Safe R m A (Run.raise line cause) := by
  refine of_error rfl sound.refl fun e same => ?_
  cases same
  exact fair

theorem outOfFuel (sound : m.Sound R) : Safe R m A Run.outOfFuel :=
  of_error rfl sound.refl fun _ differ => nomatch differ

theorem observe {g : Machine → α} (sound : m.Sound R) (given : A (g m) m) :
    Safe R m A (Run.observe g) :=
  of_ok rfl sound.refl given

theorem ask {line : Nat} {g : Machine → Except RuntimeCause α} (sound : m.Sound R)
    (given : ∀ a, g m = .ok a → A a m)
    (fair : ∀ cause, g m = .error cause → cause.isInternal = false) :
    Safe R m A (Run.ask line g) := by
  refine (observe (A := fun answer n => answer = g m ∧ n = m) sound ⟨rfl, rfl⟩).bind ?_
  rintro answer n - ⟨same, rfl⟩
  cases answer with
  | ok a => exact pure sound (given a same.symm)
  | error cause => exact raise sound (fair cause same.symm)

/-- The body of a call or a block: the scopes of before are in force again after it. -/
theorem inChain {chain : Chain} (B : α → Machine → Prop) (inside : Safe R { m with chain := chain } A x)
    (given : ∀ a n, Machine.Kept R { m with chain := chain } n → A a n →
      B a { n with chain := m.chain }) :
    Safe R m B (Run.inChain chain x) := by
  cases run : x { m with chain := chain } with
  | ok a n =>
    obtain ⟨kept, holds⟩ := inside.ok run
    exact of_ok (Run.inChain_ok run) ⟨rfl, kept.distances, kept.grows, kept.sound⟩
      (given a n kept holds)
  | error h n =>
    obtain ⟨kept, fair⟩ := inside.error run
    exact of_error (Run.inChain_error run) ⟨rfl, kept.distances, kept.grows, kept.sound⟩ fair

end Safe

namespace Run

/-! ### Single steps -/

theorem newScope_safe (table : Table Value) (sound : m.Sound R)
    (values : ∀ key w, table.get? key = some w → w.Sound R m.store) :
    Safe R m (fun scope n => scope = m.store.scopes.size ∧
      n = { m with store := m.store.addScope table }) (newScope table) :=
  ⟨⟨rfl, rfl, m.store.grows_addScope table, sound.store.addScope values⟩,
    m.store.lastScope_addScope table, rfl⟩

theorem newInstance_safe {c : Class} (sound : m.Sound R) (known : c.Sound R m.store) :
    Safe R m (fun v n => ∃ i, v = .object i c ∧ v.Sound R n.store) (newInstance c) := by
  have grows := m.store.grows_addInstance
  refine ⟨⟨rfl, rfl, grows, sound.store.addInstance⟩, _, rfl, ?_, known.later (fun _ _ same => same) grows⟩
  rw [Store.lastInstance, Store.size_addInstance]
  exact Nat.lt_succ_self _

theorem functionValue_safe {closure : Closure} {q : Place} (sound : m.Sound R)
    (callable : closure.Sound R m.store q) :
    Safe R m (fun v n => v.Sound R n.store) (functionValue closure) :=
  ⟨⟨rfl, rfl, Store.Grows.refl _, sound.store⟩, q, callable⟩

theorem readClock_safe (sound : m.Sound R) :
    Safe R m (fun v n => v.Sound R n.store) readClock :=
  ⟨⟨rfl, rfl, Store.Grows.refl _, sound.store⟩, trivial⟩

theorem printLine_safe (sound : m.Sound R) (text : String) :
    Safe R m (fun _ _ => True) (printLine text) := by
  cases room : m.sink.fits (text ++ "\n") with
  | true =>
    exact Safe.of_ok (printLine_fits room) ⟨rfl, rfl, Store.Grows.refl _, sound.store⟩ trivial
  | false =>
    exact Safe.of_error (printLine_full room) ⟨rfl, rfl, Store.Grows.refl _, sound.store⟩
      fun _ differ => nomatch differ

theorem setField_safe {object : InstanceId} {name : String} {v : Value} (sound : m.Sound R)
    (value : v.Sound R m.store) :
    Safe R m (fun _ n => v.Sound R n.store) (setField object name v) :=
  have grows := m.store.grows_setField object name v
  ⟨⟨rfl, rfl, grows, sound.store.setField object name value⟩, value.grow grows⟩

theorem bind_safe {scope : ScopeId} {name : String} {v : Value} (sound : m.Sound R)
    (suits : v.Suits name) (value : v.Sound R m.store) :
    Safe R m (fun _ n => v.Sound R n.store) (bind scope name v) :=
  have grows := m.store.grows_bind scope suits
  ⟨⟨rfl, rfl, grows, sound.store.bind grows (value.grow grows)⟩,
    value.grow grows⟩

/-- A definition in the innermost scope. -/
theorem define_safe {name : String} {v : Value} (ready : m.Ready R p) (suits : v.Suits name)
    (value : v.Sound R (m.store.define m.chain name v)) :
    Safe R m (fun _ n => n.store.Matches n.chain (p.hold name true).frames) (define name v) :=
  Safe.of_ok rfl ⟨rfl, rfl, m.store.grows_define m.chain suits,
    ready.sound.store.define m.chain suits value⟩ (ready.chain.define suits)

theorem bindMethod_safe {method : Closure} {i : InstanceId} {c : Class} {q : Place}
    (sound : m.Sound R) (bindable : method.SoundMethod R m.store q)
    (known : Value.Sound R m.store (.object i c)) :
    Safe R m (fun bound n => bound.function = method.function ∧
      bound.Sound R n.store (q.enter thisFrame)) (bindMethod method (.object i c)) := by
  refine (newScope_safe _ sound ?_).bind ?_
  · intro key w found
    rw [Table.get?_insert] at found
    split at found
    · cases found
      exact known
    · cases found
  · rintro scope n kept ⟨rfl, rfl⟩
    refine Safe.pure (sound.kept kept) ⟨rfl, ?_⟩
    exact ⟨bindable.chain.addScope (Frame.held_this i c) sound.store.global, bindable.proper,
      bindable.inside, bindable.body, bindable.formed, fun _ => Place.Answers.here rfl⟩

end Run

/-- A class has the methods of its own and of those it inherits from. -/
theorem Class.Sound.method {c : Class} {s : Store} (sound : c.Sound R s) {name : String}
    {method : Closure} (found : c.method? name = some method) :
    ∃ q, method.SoundMethod R s q := by
  induction sound with
  | @mk n key superclass methods inherited own ih =>
    rw [Class.method?.eq_def] at found
    dsimp only at found
    cases here : methods.get? name with
    | some m =>
      simp only [here, Option.some.injEq] at found
      exact found ▸ own name m here
    | none =>
      cases parent : superclass with
      | none => simp [here, parent] at found
      | some c =>
        simp only [here, parent] at found
        exact ih c parent found

namespace Run

/-- A method of the class as a value, bound to the object. -/
theorem method_safe {method : Closure} {i : InstanceId} {c own : Class} {name : String}
    (sound : m.Sound R) (known : c.Sound R m.store)
    (receiver : Value.Sound R m.store (.object i own)) (found : c.method? name = some method) :
    Safe R m (fun v n => v.Sound R n.store)
      (bindMethod method (.object i own) >>= functionValue) := by
  obtain ⟨q, bindable⟩ := known.method found
  refine (bindMethod_safe sound bindable receiver).bind fun bound n kept callable => ?_
  exact functionValue_safe (sound.kept kept) callable.2

theorem property_safe {object : InstanceId} {c : Class} {name : Token} (sound : m.Sound R)
    (known : Value.Sound R m.store (.object object c)) :
    Safe R m (fun v n => v.Sound R n.store) (property object c name) := by
  refine (Safe.observe (A := fun v? n => v? = (m.store.fields object).get? name.lexeme ∧ n = m) sound
    ⟨rfl, rfl⟩).bind ?_
  rintro v? n - ⟨same, rfl⟩
  cases v? with
  | some v => exact Safe.pure sound (sound.store.fields object name.lexeme v same.symm)
  | none =>
    cases found : c.method? name.lexeme with
    | some method => exact method_safe sound known.2 known found
    | none => exact Safe.raise sound rfl

/-- A read of a name that is bound wherever a distance is recorded for it. -/
theorem lookUp_safe {id : ExprId} {name : Token} (sound : m.Sound R)
    (answered : ∀ d, m.distances[id]? = some d → ∃ scope, m.chain[d]? = some scope ∧
      ∃ v, (m.store.bindings scope).get? name.lexeme = some v) :
    Safe R m (fun v n => v.Sound R n.store) (lookUp id name) := by
  unfold lookUp
  cases recorded : m.distances[id]? with
  | some d =>
    obtain ⟨scope, at_, v, bound⟩ := answered d recorded
    have answer : m.store.getAt m.chain d name.lexeme = .ok v := by
      simp [Store.getAt, Store.ancestor, at_, bound, Bind.bind, Except.bind]
    refine Safe.ask sound (fun w given => ?_) fun cause given => ?_
    · simp only [recorded, answer, Except.ok.injEq] at given
      exact given ▸ sound.store.bound scope name.lexeme v bound
    · simp [recorded, answer] at given
  | none =>
    refine Safe.ask sound (fun w given => ?_) fun cause given => ?_
    · simp only [recorded, Store.get] at given
      split at given
      · rename_i v found
        obtain ⟨scope, -, bound⟩ := List.exists_of_findSome?_eq_some found
        cases given
        exact sound.store.bound scope name.lexeme _ bound
      · cases given
    · simp only [recorded, Store.get] at given
      split at given
      · cases given
      · cases given
        rfl

/-- An assignment to a name that has a scope wherever a distance is recorded for it. -/
theorem assign_safe {id : ExprId} {name : Token} {v : Value} (sound : m.Sound R)
    (answered : ∀ d, m.distances[id]? = some d → ∃ scope, m.chain[d]? = some scope)
    (suits : v.Suits name.lexeme) (value : v.Sound R m.store) :
    Safe R m (fun _ n => v.Sound R n.store) (assign id name v) := by
  refine (Safe.ask (A := fun _ n => n = m) sound (fun _ _ => rfl) ?_).bind ?_
  · intro cause given
    cases recorded : m.distances[id]? with
    | some d =>
      obtain ⟨scope, at_⟩ := answered d recorded
      simp [recorded, Store.ancestor, at_] at given
    | none =>
      simp only [recorded, Store.holder] at given
      split at given
      · cases given
      · cases given
        rfl
  · rintro scope n - rfl
    exact bind_safe sound suits value

end Run

/-- What static scoping finds defined at a place, the chain in force there answers. -/
theorem Machine.Ready.getAt (ready : m.Ready R p) {name : String} {d : Nat}
    (answers : p.Answers name d) :
    ∃ scope v, m.chain[d]? = some scope ∧ (m.store.bindings scope).get? name = some v ∧
      m.store.getAt m.chain d name = .ok v ∧ v.Suits name ∧ v.Sound R m.store := by
  obtain ⟨-, frame, at_, defined⟩ := answers
  obtain ⟨scope, inChain, v, bound, suits⟩ := ready.chain.found at_ defined
  refine ⟨scope, v, inChain, bound, ?_, suits, ready.sound.store.bound scope name v bound⟩
  simp [Store.getAt, Store.ancestor, inChain, bound, Bind.bind, Except.bind]

/-- In the body of a derived class `super` is bound to a class, and `this` one scope further in to an
object. -/
theorem Machine.Ready.getSuper (ready : m.Ready R p) {id : ExprId}
    (derived : p.class_ = .derived) (known : R id (distance? p.frames "super")) :
    ∃ inner c i own, m.distances[id]? = some (inner + 1) ∧
      (m.store.getAt m.chain (inner + 1) "super" = .ok (.class_ c) ∧ c.Sound R m.store) ∧
        m.store.getAt m.chain inner "this" = .ok (.object i own) ∧
          Value.Sound R m.store (.object i own) := by
  obtain ⟨d, this, super⟩ := ready.proper (by simp [derived])
  have superAt := super derived
  have recorded : m.distances[id]? = some (d + 1) := by
    rw [ready.sound.distances id _ known, superAt.1]
  obtain ⟨-, parent, -, -, readSuper, suitsSuper, soundSuper⟩ := ready.getAt superAt
  obtain ⟨-, receiver, -, -, readThis, suitsThis, soundThis⟩ := ready.getAt this
  obtain ⟨c, rfl⟩ := suitsSuper.2 rfl
  obtain ⟨i, own, rfl⟩ := suitsThis.1 rfl
  exact ⟨d, c, i, own, recorded, ⟨readSuper, soundSuper⟩, readThis, soundThis⟩

namespace Run

/-- The four internal errors of `super` do not occur in the body of a derived class. -/
theorem superMethod_safe {id : ExprId} {keyword method : Token} (ready : m.Ready R p)
    (derived : p.class_ = .derived) (spelled : keyword.lexeme = "super")
    (known : R id (distance? p.frames keyword.lexeme)) :
    Safe R m (fun v n => v.Sound R n.store) (superMethod id keyword method) := by
  have sound := ready.sound
  rw [spelled] at known
  obtain ⟨d, c, i, own, recorded, ⟨readSuper, soundSuper⟩, readThis, soundThis⟩ :=
    ready.getSuper derived known
  refine (Safe.observe (A := fun d? n => d? = some (d + 1) ∧ n = m) sound ⟨recorded, rfl⟩).bind ?_
  rintro d? n - ⟨rfl, rfl⟩
  refine (Safe.ask (A := fun v o => v = .class_ c ∧ o = n) sound ?_ ?_).bind ?_
  · intro v given
    rw [spelled, readSuper] at given
    exact ⟨(Except.ok.inj given).symm, rfl⟩
  · intro cause given
    rw [spelled, readSuper] at given
    cases given
  rintro v o - ⟨rfl, rfl⟩
  refine (Safe.ask (A := fun v n => v = .object i own ∧ n = o) sound ?_ ?_).bind ?_
  · intro v given
    rw [readThis] at given
    exact ⟨(Except.ok.inj given).symm, rfl⟩
  · intro cause given
    rw [readThis] at given
    cases given
  rintro v n - ⟨rfl, rfl⟩
  dsimp only
  cases found : c.method? method.lexeme with
  | some bindable => exact method_safe sound soundSuper soundThis found
  | none => exact Safe.raise sound rfl

/-! ### Operators and natives -/

theorem unary_safe {operator : Token} {v : Value} (sound : m.Sound R)
    (known : operator.kind.isUnary = true) :
    Safe R m (fun w n => w.Sound R n.store) (unary operator v) := by
  unfold unary
  split
  · unfold negate
    split
    · exact Safe.pure sound trivial
    · exact Safe.raise sound rfl
  · exact Safe.pure sound trivial
  · rename_i notMinus notBang
    exfalso
    cases kind : operator.kind with
    | mark k => cases k <;> simp_all [TokenKind.isUnary, TokenKind.isMark]
    | _ => simp_all [TokenKind.isUnary, TokenKind.isMark]

theorem add_safe {operator : Token} {v w : Value} (sound : m.Sound R) :
    Safe R m (fun w n => w.Sound R n.store) (add operator v w) := by
  unfold add
  split
  · exact Safe.pure sound trivial
  · exact Safe.pure sound trivial
  · exact Safe.pure sound trivial
  · exact Safe.pure sound trivial
  · exact Safe.raise sound rfl

/-- A binary operator that is neither of those of equality nor `+` is one of arithmetic. -/
theorem binary_safe {operator : Token} {v w : Value} (sound : m.Sound R)
    (known : operator.kind.isBinary = true) :
    Safe R m (fun w n => w.Sound R n.store) (binary operator v w) := by
  unfold binary
  split
  · exact add_safe sound
  · exact Safe.pure sound trivial
  · exact Safe.pure sound trivial
  · unfold onNumbers
    split
    · unfold arithmetic
      split
      all_goals try exact Safe.pure sound trivial
      exfalso
      cases kind : operator.kind with
      | mark k => cases k <;> simp_all [TokenKind.isBinary, TokenKind.isMark]
      | _ => simp_all [TokenKind.isBinary, TokenKind.isMark]
    · exact Safe.raise sound rfl

theorem callNative_safe {native : Native} {line : Nat} {arguments : List Value}
    (sound : m.Sound R) :
    Safe R m (fun v n => v.Sound R n.store) (callNative native line arguments) := by
  unfold callNative
  split
  · exact readClock_safe sound
  · split
    · exact Safe.pure sound trivial
    · exact Safe.raise sound rfl
  · exact Safe.raise sound rfl
  · exact Safe.pure sound trivial
  · exact Safe.raise sound rfl

end Run

/-! ### Classes -/

/-- The place of the methods of a class, but for the scope of `this`. -/
def Place.ofMethods (p : Place) : Bool → Place
  | false => p.inClass .base
  | true => (p.inClass .derived).enter superFrame

theorem Place.ofMethods_proper (p : Place) (derived : Bool) :
    ((p.ofMethods derived).enter thisFrame).Proper := by
  cases derived with
  | false => exact Place.proper_base p
  | true => exact Place.proper_derived p

namespace Store

variable {s : Store} {chain : Chain} {frames : List Frame}

theorem Matches.head (matches_ : s.Matches chain frames) (global : 0 < s.scopes.size) :
    ∃ scope outer, chain = scope :: outer ∧ scope < s.scopes.size := by
  cases frames with
  | nil => exact ⟨0, [], matches_, global⟩
  | cons frame frames =>
    obtain ⟨scope, outer, same, ⟨-, known⟩, -⟩ := matches_
    exact ⟨scope, outer, same, known⟩

theorem grows_forMethods (s : Store) (superclass : Option Class) :
    s.Grows (s.forMethods superclass) := by
  cases superclass with
  | none => exact Grows.refl s
  | some c => exact s.grows_addScope _

theorem Sound.forMethods (sound : s.Sound R) {superclass : Option Class}
    (inherited : ∀ c, superclass = some c → c.Sound R s) : (s.forMethods superclass).Sound R := by
  cases superclass with
  | none => exact sound
  | some c =>
    refine sound.addScope fun key w found => ?_
    rw [Table.get?_insert] at found
    split at found
    · cases found
      exact inherited c rfl
    · cases found

theorem Matches.forMethods {q : Place} (matches_ : s.Matches chain q.frames)
    (global : 0 < s.scopes.size) (superclass : Option Class) :
    (s.forMethods superclass).Matches (s.methodChain chain superclass)
      (q.ofMethods superclass.isSome).frames := by
  cases superclass with
  | none => exact matches_
  | some c => exact matches_.addScope (Frame.held_super c) global

end Store

theorem FunctionDecl.ScopedList.member {fs : List FunctionDecl}
    (all : FunctionDecl.ScopedList R p fs) {f : FunctionDecl} (among : f ∈ fs) :
    f.Scoped R (p.inFunction (Scoping.methodContext f.name)) := by
  induction fs with
  | nil => cases among
  | cons first fs ih =>
    obtain ⟨name, parameters, body⟩ := first
    rcases List.mem_cons.1 among with rfl | among
    · exact all.1
    · exact ih all.2 among

theorem FunctionDecl.FormedList.member {P : Token → Prop} {fs : List FunctionDecl}
    (all : FunctionDecl.FormedList P fs) {f : FunctionDecl} (among : f ∈ fs) : f.Formed P := by
  induction fs with
  | nil => cases among
  | cons first fs ih =>
    rcases List.mem_cons.1 among with rfl | among
    · exact all.1
    · exact ih all.2 among

theorem Scoping.methodContext_inside (name : Token) : Scoping.methodContext name ≠ .outside := by
  unfold Scoping.methodContext
  split <;> exact nofun

/-- The methods of a table that is made at their place can be bound. -/
theorem Run.methodTable_sound {s : Store} {chain : Chain} {fs : List FunctionDecl}
    (matches_ : s.Matches chain p.frames) (proper : (p.enter thisFrame).Proper)
    (all : FunctionDecl.ScopedList R (p.enter thisFrame) fs)
    (formed : FunctionDecl.FormedList Token.Spelled fs) {key : String} {method : Closure}
    (found : (Run.methodTable chain fs).get? key = some method) :
    ∃ q, method.SoundMethod R s q := by
  rcases Table.get?_insertAll found with listed | before
  · obtain ⟨f, among, same⟩ := List.mem_map.1 listed
    obtain ⟨-, rfl⟩ := Prod.mk.inj same
    exact ⟨p.inFunction (Scoping.methodContext f.name), matches_, proper,
      Scoping.methodContext_inside f.name, all.member among, formed.member among⟩
  · cases before

namespace Run

theorem declareClass_safe {name : Token} (superclass : Option Class) {methods : List FunctionDecl}
    (ready : m.Ready R p) (named : name.IsName Token.Spelled)
    (inherited : ∀ c, superclass = some c → c.Sound R m.store)
    (all : FunctionDecl.ScopedList R
      (((p.hold name.lexeme true).ofMethods superclass.isSome).enter thisFrame) methods)
    (formed : FunctionDecl.FormedList Token.Spelled methods) :
    Safe R m (fun _ n => n.store.Matches n.chain (p.hold name.lexeme true).frames)
      (declareClass name superclass methods) := by
  obtain ⟨scope, outer, head, known⟩ := ready.chain.head ready.sound.store.global
  have defined := ready.chain.define (named.suits .nil)
  have growsDefine := m.store.grows_define m.chain (named.suits .nil)
  have soundDefine := ready.sound.store.define m.chain (named.suits .nil) trivial
  have inheritedLater (c : Class) (same : superclass = some c) :=
    (inherited c same).later (fun _ _ same => same) growsDefine
  have growsMethods := (m.store.define m.chain name.lexeme .nil).grows_forMethods superclass
  have soundMethods := soundDefine.forMethods inheritedLater
  have made : (m.declared name superclass methods).Sound R
      ((m.store.define m.chain name.lexeme .nil).forMethods superclass) := by
    refine .mk (fun c same => (inheritedLater c same).later (fun _ _ same => same) growsMethods) ?_
    intro key method found
    exact methodTable_sound (defined.forMethods soundDefine.global superclass)
      (Place.ofMethods_proper _ _) all formed found
  have growsBind := ((m.store.define m.chain name.lexeme .nil).forMethods superclass).grows_bind
    scope (named.suits (.class_ (m.declared name superclass methods)))
  refine Safe.of_ok (declareClass_ok head known name superclass methods) ⟨rfl, rfl, ?_, ?_⟩ ?_
  · exact growsDefine.trans (growsMethods.trans growsBind)
  · exact soundMethods.bind growsBind (made.later (fun _ _ same => same) growsBind)
  · exact defined.grow (growsMethods.trans growsBind)

end Run

/-! ### Statements in order, and calls -/

/-- How a statement begun at `p` may end: in order, with what is in scope at `q`, or from inside a
function with the value that it returns. -/
def Ends (R : ExprId → Option Nat → Prop) (p q : Place) (flow : Flow) (n : Machine) : Prop :=
  match flow with
  | .normal => n.store.Matches n.chain q.frames
  | .returned v => v.Sound R n.store ∧ p.function ≠ .outside

/-- Expressions that are well scoped at their place give sound values. -/
def Evaluates (R : ExprId → Option Nat → Prop) (evaluate : Expr → Run Value) : Prop :=
  ∀ e p m, Machine.Ready R m p → e.Scoped R p → e.Formed Token.Spelled →
    Safe R m (fun v n => v.Sound R n.store) (evaluate e)

/-- Statements that are well scoped at their place end as they may. -/
def Executes (R : ExprId → Option Nat → Prop) (execute : Stmt → Run Flow) : Prop :=
  ∀ s p m, Machine.Ready R m p → s.Scoped R p → s.Formed Token.Spelled →
    Safe R m (Ends R p (s.after p)) (execute s)

namespace Run

theorem arguments_safe {evaluate : Expr → Run Value} (evaluates : Evaluates R evaluate)
    (es : List Expr) (ready : m.Ready R p) (inside : Expr.ScopedList R p es)
    (formed : Expr.FormedList Token.Spelled es) :
    Safe R m (fun vs n => ∀ v ∈ vs, v.Sound R n.store) (arguments evaluate es) := by
  induction es generalizing m with
  | nil => exact Safe.pure ready.sound fun _ member => nomatch member
  | cons e es ih =>
    refine (evaluates e p m ready inside.1 formed.1).bind fun v n kept soundFirst => ?_
    refine (ih (ready.kept kept) inside.2 formed.2).bind fun vs o kept' soundRest => ?_
    refine Safe.pure ((ready.kept kept).sound.kept kept') fun w member => ?_
    rcases List.mem_cons.1 member with rfl | member
    · exact soundFirst.grow kept'.grows
    · exact soundRest w member

theorem sequence_safe {execute : Stmt → Run Flow} (executes : Executes R execute)
    (ss : List Stmt) (ready : m.Ready R p) (inside : Stmt.ScopedList R p ss)
    (formed : Stmt.FormedList Token.Spelled ss) :
    Safe R m (Ends R p (ss.foldl Stmt.after p)) (sequence execute ss) := by
  induction ss generalizing m p with
  | nil => exact Safe.pure ready.sound ready.chain
  | cons s ss ih =>
    refine (executes s p m ready inside.1 formed.1).bind fun flow n kept ends => ?_
    cases flow with
    | returned v => exact Safe.pure (ready.sound.kept kept) ends
    | normal =>
      have next : n.Ready R (s.after p) :=
        ⟨ready.sound.kept kept, ends, s.after_proper formed.1 ready.proper⟩
      refine (ih next inside.2 formed.2).imp fun flow o _ endsRest => ?_
      cases flow with
      | normal => exact endsRest
      | returned v => exact ⟨endsRest.1, s.after_function p ▸ endsRest.2⟩

theorem callClosure_safe {execute : Stmt → Run Flow} (executes : Executes R execute) {line : Nat}
    {closure : Closure} {arguments : List Value} {q : Place} (sound : m.Sound R)
    (callable : closure.Sound R m.store q) (values : ∀ v ∈ arguments, v.Sound R m.store)
    (fits : arguments.length = closure.function.parameters.length) :
    Safe R m (fun v n => v.Sound R n.store) (callClosure execute line closure arguments) := by
  have entered := sound.enter callable values fits
  obtain ⟨⟨name, parameters, body⟩, chain, isInitializer⟩ := closure
  obtain ⟨matches_, -, -, well, formed, receiver⟩ := callable
  refine (newScope_safe _ sound fun key w found => ?_).bind ?_
  · rcases Table.get?_insertAll found with listed | before
    · exact values w (List.of_mem_zip listed).2
    · cases before
  rintro scope n kept ⟨rfl, rfl⟩
  refine (Safe.inChain (fun flow n => flow.value.Sound R n.store)
    (sequence_safe executes body entered well.2 formed.2.2) fun flow o _ ends => ?_).bind ?_
  · cases flow with
    | normal => exact trivial
    | returned v => exact ends.1
  intro flow o kept' value
  have soundEnd := (sound.kept kept).kept kept'
  dsimp only
  split
  · rename_i isInit
    obtain ⟨-, frame, at_, defined⟩ := receiver isInit
    have later := matches_.grow (kept.grows.trans kept'.grows)
    obtain ⟨scope, inChain, v, bound, -⟩ := later.found at_ defined
    have answer : o.store.getAt chain 0 "this" = .ok v := by
      simp [Store.getAt, Store.ancestor, inChain, bound, Bind.bind, Except.bind]
    refine Safe.ask soundEnd (fun w given => ?_) fun cause given => ?_
    · rw [answer] at given
      cases given
      exact soundEnd.store.bound scope "this" v bound
    · rw [answer] at given
      cases given
  · exact Safe.pure soundEnd value

theorem callValue_safe {execute : Stmt → Run Flow} (executes : Executes R execute) {line : Nat}
    {callee : Value} {arguments : List Value} (sound : m.Sound R)
    (callable : callee.Sound R m.store) (values : ∀ v ∈ arguments, v.Sound R m.store)
    (fits : callee.arity? = some arguments.length) :
    Safe R m (fun v n => v.Sound R n.store) (callValue execute line arguments callee) := by
  cases callee with
  | function n closure =>
    obtain ⟨q, callable⟩ := callable
    exact callClosure_safe executes sound callable values (Option.some.inj fits).symm
  | native n native => exact callNative_safe sound
  | class_ c =>
    refine (newInstance_safe sound callable).bind ?_
    rintro v n kept ⟨i, rfl, known⟩
    have soundMade := sound.kept kept
    rw [Value.arity?] at fits
    cases found : c.method? initializerName with
    | none => exact Safe.pure soundMade known
    | some method =>
      rw [found] at fits
      obtain ⟨q, bindable⟩ := known.2.method found
      refine (bindMethod_safe soundMade bindable known).bind ?_
      rintro bound o kept' ⟨same, callable'⟩
      refine (callClosure_safe executes (soundMade.kept kept') callable' (fun v member => ?_)
        ?_).bind ?_
      · exact (values v member).grow (kept.grows.trans kept'.grows)
      · rw [same]
        exact (Option.some.inj fits).symm
      · intro _ last kept'' _
        refine Safe.pure ((soundMade.kept kept').kept kept'') ?_
        exact Value.Sound.grow (v := .object i c) known (kept'.grows.trans kept''.grows)
  | _ => exact Safe.raise sound rfl

theorem asSuperclass_safe {name : Token} {e : Expr} {v : Value} (sound : m.Sound R)
    (value : v.Sound R m.store) :
    Safe R m (fun c n => c.Sound R n.store) (asSuperclass name e v) := by
  unfold asSuperclass
  split
  · exact Safe.pure sound value
  · split
    · exact Safe.raise sound rfl
    · exact Safe.raise sound rfl

/-! ### Whole runs -/

theorem evaluate_safe {fuel : Nat} (evaluates : Evaluates R (evaluate fuel))
    (executes : Executes R (execute fuel)) : Evaluates R (evaluate (fuel + 1)) := by
  intro e p m ready inside formed
  have sound := ready.sound
  match e with
  | .literal _ v =>
    rw [evaluate]
    exact Safe.pure sound (by cases v <;> exact trivial)
  | .grouping _ inner =>
    rw [evaluate]
    exact evaluates inner p m ready inside formed
  | .unary _ operator operand =>
    rw [evaluate]
    refine (evaluates operand p m ready inside formed.2.2).bind fun v n kept _ => ?_
    exact unary_safe (sound.kept kept) formed.2.1
  | .binary _ left operator right =>
    rw [evaluate]
    refine (evaluates left p m ready inside.1 formed.1).bind fun a n kept _ => ?_
    refine (evaluates right p n (ready.kept kept) inside.2 formed.2.2.2).bind fun b o kept' _ => ?_
    exact binary_safe ((sound.kept kept).kept kept') formed.2.2.1
  | .logical _ left operator right =>
    rw [evaluate]
    refine (evaluates left p m ready inside.1 formed.1).bind fun a n kept value => ?_
    split
    · exact Safe.pure (sound.kept kept) value
    · exact evaluates right p n (ready.kept kept) inside.2 formed.2.2.2
  | .assign id name value =>
    rw [evaluate]
    refine (evaluates value p m ready inside.1 formed.2).bind fun v n kept given => ?_
    have readyAfter := ready.kept kept
    refine (assign_safe readyAfter.sound (fun d recorded => ?_) (formed.1.suits v) given).bind ?_
    · rw [readyAfter.sound.distances id _ inside.2.2] at recorded
      exact readyAfter.chain.scope (List.findIdx?_eq_some_iff_findIdx_eq.1 recorded).1
    · exact fun _ o kept' given' => Safe.pure (readyAfter.sound.kept kept') given'
  | .var id name =>
    rw [evaluate]
    refine lookUp_safe sound fun d recorded => ?_
    rw [sound.distances id _ inside.2] at recorded
    obtain ⟨scope, v, inChain, bound, -⟩ := ready.getAt ⟨recorded, inside.1 d recorded⟩
    exact ⟨scope, inChain, v, bound⟩
  | .call _ callee paren args =>
    rw [evaluate]
    refine (evaluates callee p m ready inside.1 formed.1).bind fun f n kept callable => ?_
    have readyCallee := ready.kept kept
    cases arity : f.arity? with
    | none => exact Safe.raise readyCallee.sound rfl
    | some arity =>
      refine (arguments_safe evaluates args readyCallee inside.2 formed.2.2).bind ?_
      intro vs o kept' values
      have soundArguments := readyCallee.sound.kept kept'
      split
      · exact Safe.raise soundArguments rfl
      · rename_i fits
        obtain rfl : vs.length = _ := not_not.1 fits
        exact callValue_safe executes soundArguments (callable.grow kept'.grows) values arity
  | .get _ object name =>
    rw [evaluate]
    refine (evaluates object p m ready inside formed.1).bind fun v n kept value => ?_
    cases v with
    | object i c => exact property_safe (sound.kept kept) value
    | _ => exact Safe.raise (sound.kept kept) rfl
  | .set _ object name value =>
    rw [evaluate]
    refine (evaluates object p m ready inside.1 formed.1).bind fun v n kept _ => ?_
    have readyAfter := ready.kept kept
    cases v with
    | object i c =>
      refine (evaluates value p n readyAfter inside.2 formed.2.2).bind fun w o kept' given => ?_
      have soundAfter := readyAfter.sound.kept kept'
      refine (setField_safe soundAfter given).bind fun _ q kept'' given' => ?_
      exact Safe.pure (soundAfter.kept kept'') given'
    | _ => exact Safe.raise readyAfter.sound rfl
  | .this id keyword =>
    rw [evaluate]
    have spelled : keyword.lexeme = "this" := formed.1.keyword formed.2
    obtain ⟨d, answers, -⟩ := ready.proper inside.1
    refine lookUp_safe sound fun d' recorded => ?_
    rw [sound.distances id _ inside.2, spelled, answers.1] at recorded
    obtain rfl := Option.some.inj recorded
    obtain ⟨scope, v, inChain, bound, -⟩ := ready.getAt answers
    exact ⟨scope, inChain, v, by rw [spelled]; exact bound⟩
  | .super id keyword method =>
    rw [evaluate]
    exact superMethod_safe ready inside.1 (formed.1.keyword formed.2.1) inside.2
  | .comma _ left right =>
    rw [evaluate]
    refine (evaluates left p m ready inside.1 formed.1).bind fun a n kept _ => ?_
    exact evaluates right p n (ready.kept kept) inside.2 formed.2
  | .ternary _ condition yes no =>
    rw [evaluate]
    refine (evaluates condition p m ready inside.1 formed.1).bind fun a n kept _ => ?_
    split
    · exact evaluates yes p n (ready.kept kept) inside.2.1 formed.2.1
    · exact evaluates no p n (ready.kept kept) inside.2.2 formed.2.2

/-- A superclass is looked up before the name of the class is bound. -/
theorem superclass_scoped {name : Token} {e : Expr} {id : ExprId} {used : Token}
    (isName : e = .var id used) (avoids : e.Avoids name.lexeme)
    (inside : e.Scoped R ((p.hold name.lexeme true).inClass .derived)) : e.Scoped R p := by
  subst isName
  have differ : name.lexeme ≠ used.lexeme := fun same => avoids same.symm
  refine ⟨Place.Defines.of_hold (b := true) inside.1 differ, ?_⟩
  have recorded := inside.2
  rwa [show ((p.hold name.lexeme true).inClass .derived).frames = (p.hold name.lexeme true).frames
    from rfl, Place.distance?_hold p differ true] at recorded

theorem funDecl_safe {fuel : Nat} {f : FunctionDecl} (ready : m.Ready R p)
    (inside : (Stmt.funDecl f).Scoped R p) (formed : (Stmt.funDecl f).Formed Token.Spelled) :
    Safe R m (Ends R p ((Stmt.funDecl f).after p)) (execute (fuel + 1) (.funDecl f)) := by
  obtain ⟨name, parameters, body⟩ := f
  rw [execute]
  -- The function is in the scope that it is declared in, so its chain is right only after that.
  let closure : Closure := ⟨⟨name, parameters, body⟩, m.chain, false⟩
  have suits := formed.1.suits (.function m.nextIdentity closure)
  have callable : closure.Sound R
      (m.store.define m.chain name.lexeme (.function m.nextIdentity closure))
      ((p.hold name.lexeme true).inFunction .function) :=
    ⟨ready.chain.define suits, ready.proper.hold formed.1.ne_this formed.1.ne_super true,
      nofun, inside.2, formed, nofun⟩
  exact Safe.of_ok rfl ⟨rfl, rfl, m.store.grows_define m.chain suits,
    ready.sound.store.define m.chain suits ⟨_, callable⟩⟩ (ready.chain.define suits)

theorem derivedClass_safe {fuel : Nat} (evaluates : Evaluates R (evaluate fuel)) {name : Token}
    {e : Expr} {methods : List FunctionDecl} (ready : m.Ready R p)
    (inside : (Stmt.classDecl name (some e) methods).Scoped R p)
    (formed : (Stmt.classDecl name (some e) methods).Formed Token.Spelled) :
    Safe R m (Ends R p ((Stmt.classDecl name (some e) methods).after p))
      (execute (fuel + 1) (.classDecl name (some e) methods)) := by
  rw [execute]
  obtain ⟨named, formedMethods⟩ := formed.className
  obtain ⟨id, used, isName, usedName⟩ := formed.superclass
  have insideSuper : e.Scoped R p := superclass_scoped isName inside.2.1.1 inside.2.1.2
  have formedSuper : e.Formed Token.Spelled := by
    rw [isName]
    exact usedName
  refine (evaluates e p m ready insideSuper formedSuper).bind fun v n kept value => ?_
  refine (asSuperclass_safe (ready.sound.kept kept) value).bind fun c o kept' inherited => ?_
  have readyAfter := (ready.kept kept).kept kept'
  refine (declareClass_safe (some c) readyAfter named ?_ inside.2.2
    formedMethods).bind fun _ q kept'' declared => ?_
  · rintro c' same
    cases same
    exact inherited
  · exact Safe.pure (readyAfter.sound.kept kept'') declared

theorem execute_safe {fuel : Nat} (evaluates : Evaluates R (evaluate fuel))
    (executes : Executes R (execute fuel)) : Executes R (execute (fuel + 1)) := by
  intro s p m ready inside formed
  have sound := ready.sound
  match s with
  | .expression e =>
    rw [execute]
    refine (evaluates e p m ready inside formed).bind fun v n kept _ => ?_
    exact Safe.pure (sound.kept kept) (ready.kept kept).chain
  | .print e =>
    rw [execute]
    refine (evaluates e p m ready inside formed).bind fun v n kept _ => ?_
    refine (printLine_safe (sound.kept kept) v.text).bind fun _ o kept' _ => ?_
    exact Safe.pure ((sound.kept kept).kept kept') ((ready.kept kept).kept kept').chain
  | .varDecl name none =>
    rw [execute]
    refine (define_safe ready (formed.suits .nil) trivial).bind fun _ n kept defined => ?_
    exact Safe.pure (sound.kept kept) defined
  | .varDecl name (some e) =>
    rw [execute]
    have declared : m.Ready R (p.hold name.lexeme false) :=
      ⟨sound, ready.chain.declare name.lexeme,
        ready.proper.hold formed.1.ne_this formed.1.ne_super false⟩
    refine (evaluates e _ m declared inside.2 formed.2).bind fun v n kept value => ?_
    have readyAfter := ready.kept kept
    have suits := formed.1.suits v
    have later := value.grow (n.store.grows_define n.chain suits)
    refine (define_safe readyAfter suits later).bind fun _ o kept' defined => ?_
    exact Safe.pure (readyAfter.sound.kept kept') defined
  | .block body =>
    rw [execute]
    refine (Safe.observe (A := fun chain n => chain = m.chain ∧ n = m) sound ⟨rfl, rfl⟩).bind ?_
    rintro chain n - ⟨rfl, rfl⟩
    refine (newScope_safe Table.empty sound fun _ _ found => nomatch found).bind ?_
    rintro scope o kept ⟨rfl, rfl⟩
    refine Safe.inChain _ (sequence_safe executes body ready.open inside formed) ?_
    intro flow last kept' ends
    cases flow with
    | returned v => exact ends
    | normal => exact ready.chain.grow (kept.grows.trans kept'.grows)
  | .ifThen condition yes =>
    rw [execute]
    refine (evaluates condition p m ready inside.1 formed.1).bind fun v n kept _ => ?_
    split
    · exact executes yes p n (ready.kept kept) inside.2 formed.2.1
    · refine Safe.pure (sound.kept kept) ?_
      rw [Stmt.after, yes.after_branch formed.2.1 formed.2.2]
      exact (ready.kept kept).chain
  | .ifElse condition yes no =>
    rw [execute]
    have yesAfter := yes.after_branch formed.2.1.1 formed.2.1.2 p
    have noAfter := no.after_branch formed.2.2.1 formed.2.2.2 p
    rw [Stmt.after, yesAfter, noAfter]
    refine (evaluates condition p m ready inside.1 formed.1).bind fun v n kept _ => ?_
    split
    · refine (executes yes p n (ready.kept kept) inside.2.1 formed.2.1.1).imp ?_
      intro flow o _ ends
      rwa [yesAfter] at ends
    · have insideNo := inside.2.2
      rw [yesAfter] at insideNo
      refine (executes no p n (ready.kept kept) insideNo formed.2.2.1).imp ?_
      intro flow o _ ends
      rwa [noAfter] at ends
  | .whileLoop condition body =>
    rw [execute]
    have bodyAfter := body.after_branch formed.2.1 formed.2.2 p
    rw [Stmt.after, bodyAfter]
    refine (evaluates condition p m ready inside.1 formed.1).bind fun v n kept _ => ?_
    split
    · refine (executes body p n (ready.kept kept) inside.2 formed.2.1).bind fun flow o kept' ends => ?_
      cases flow with
      | returned w => exact Safe.pure ((sound.kept kept).kept kept') ends
      | normal =>
        have again := executes (.whileLoop condition body) p o ((ready.kept kept).kept kept')
          inside formed
        rwa [Stmt.after, bodyAfter] at again
    · exact Safe.pure (sound.kept kept) (ready.kept kept).chain
  | .funDecl f => exact funDecl_safe ready inside formed
  | .returnStmt _ none =>
    rw [execute]
    exact Safe.pure sound ⟨trivial, inside⟩
  | .returnStmt _ (some e) =>
    rw [execute]
    refine (evaluates e p m ready inside.2 formed.2).bind fun v n kept value => ?_
    exact Safe.pure (sound.kept kept) ⟨value, inside.1⟩
  | .classDecl name none methods =>
    rw [execute]
    refine (declareClass_safe none ready formed.1 (fun c same => nomatch same)
      inside.2 formed.2).bind fun _ n kept declared => ?_
    exact Safe.pure (sound.kept kept) declared
  | .classDecl name (some e) methods => exact derivedClass_safe evaluates ready inside formed

/-- No run of a part of a program that is well scoped ends with an internal error. -/
theorem runs_safe (fuel : Nat) : Evaluates R (evaluate fuel) ∧ Executes R (execute fuel) := by
  induction fuel with
  | zero =>
    refine ⟨fun e p m ready _ _ => ?_, fun s p m ready _ _ => ?_⟩
    · rw [evaluate]
      exact Safe.outOfFuel ready.sound
    · rw [execute]
      exact Safe.outOfFuel ready.sound
  | succ fuel ih => exact ⟨evaluate_safe ih.1 ih.2, execute_safe ih.1 ih.2⟩

theorem outermost_after (s : Stmt) : s.after Place.outermost = Place.outermost := by
  match s with
  | .expression _ | .print _ | .block _ | .returnStmt _ _ => simp only [Stmt.after]
  | .varDecl _ _ | .classDecl _ _ _ | .funDecl _ => simp only [Stmt.after, Place.hold, Place.outermost]
  | .ifThen _ yes | .whileLoop _ yes =>
    simp only [Stmt.after]
    exact outermost_after yes
  | .ifElse _ yes no =>
    simp only [Stmt.after]
    rw [outermost_after yes]
    exact outermost_after no

/-- The statements of a program are run one by one in the global scope. -/
theorem interpret_safe (fuel : Nat) (ss : List Stmt) (ready : m.Ready R Place.outermost)
    (inside : Stmt.ScopedList R Place.outermost ss)
    (formed : Stmt.FormedList Token.Spelled ss) :
    Safe R m (fun _ _ => True) (interpret fuel ss) := by
  induction ss generalizing m with
  | nil => exact Safe.pure ready.sound trivial
  | cons s ss ih =>
    have first := (runs_safe fuel).2 s Place.outermost m ready inside.1 formed.1
    refine first.bind fun flow n kept _ => ih (ready.kept kept) ?_ formed.2
    exact outermost_after s ▸ inside.2

end Run

end Lox
