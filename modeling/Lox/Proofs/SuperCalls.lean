import Mathlib
import Lox.Proofs.Activations
import Lox.Proofs.Binders
import Lox.Proofs.RejectedPrograms

/-!
What `super` denotes: in a method, at any depth of functions and blocks, the search starts from the
class that the superclass was when the class of the method was declared, and what is found is bound
to what `this` denotes.
-/

namespace Lox

open Scoping (distance?)
open Enclosure (classOf)
open Session (Happens Life)

/-! ### Where `this` and `super` stand -/

section Static

variable {program : List Stmt} {around inner outer : List Enclosure} {p : Place} {ss : List Stmt}
  {f : FunctionDecl} {superclass : Option Expr}

theorem Place.distance?_under {frame : Frame} {name : String} (fresh : frame.get? name = none) :
    distance? (p.enter frame).frames name = (distance? p.frames name).map (· + 1) := by
  rw [Place.distance?_enter]
  simp [Table.contains, fresh]

theorem parameterFrame_keyword {name : String} (formed : f.Formed Token.Spelled)
    (keyword : name = "this" ∨ name = "super") : (parameterFrame f.parameters).get? name = none :=
  parameterFrame_get?_none fun t among => (formed.named.2 t among).differs keyword

/-- In a method `this` is found in the scope around the parameters, and `super` in the next one. -/
theorem Stands.receiver_distance (stands : Stands program around p ss)
    (formed : Stmt.FormedList Token.Spelled program)
    (split : around = inner ++ .method f :: .class_ superclass :: outer)
    (direct : classOf inner = .outside) :
    distance? p.frames "this" = some (inner.length + 1) ∧
      (superclass.isSome = true → distance? p.frames "super" = some (inner.length + 2)) := by
  -- What follows in a scope, and a branch, stands where its predecessor does, but for other names.
  have later {s : Stmt} {q : Place} (isFormed : s.Formed Token.Spelled) {k : Nat}
      (before : distance? q.frames "this" = some (k + 1) ∧
        (superclass.isSome = true → distance? q.frames "super" = some (k + 2))) :
      distance? (s.after q).frames "this" = some (k + 1) ∧
        (superclass.isSome = true → distance? (s.after q).frames "super" = some (k + 2)) := by
    rw [s.after_keyword isFormed (.inl rfl), s.after_keyword isFormed (.inr rfl)]
    exact before
  induction stands generalizing inner with
  | program => simp at split
  | rest outer ih => exact later (outer.formed formed).1 (ih split direct)
  | ifThen _ ih | ifElseYes _ ih | whileLoop _ ih => exact ih split direct
  | ifElseNo outer ih => exact later (outer.formed formed).1.2.1.1 (ih split direct)
  | block _ ih =>
    cases inner with
    | nil => simp at split
    | cons first inner =>
      obtain ⟨rfl, rfl⟩ := List.cons.inj split
      obtain ⟨this, super⟩ := ih rfl direct
      refine ⟨?_, fun derived => ?_⟩
      · rw [Place.distance?_under rfl, this]
        rfl
      · rw [Place.distance?_under rfl, super derived]
        rfl
  | @function _ q g _ outer ih =>
    have isFormed := (outer.formed formed).1
    have held (name : String) (keyword : name = "this" ∨ name = "super") :=
      q.distance?_hold ((FunctionDecl.Formed.named isFormed).1.differs keyword) true
    cases inner with
    | nil => simp at split
    | cons first inner =>
      obtain ⟨rfl, rfl⟩ := List.cons.inj split
      obtain ⟨this, super⟩ := ih rfl direct
      refine ⟨?_, fun derived => ?_⟩
      · rw [Place.distance?_under (parameterFrame_keyword isFormed (.inl rfl))]
        exact congrArg (Option.map (· + 1)) ((held "this" (.inl rfl)).trans this)
      · rw [Place.distance?_under (parameterFrame_keyword isFormed (.inr rfl))]
        exact congrArg (Option.map (· + 1)) ((held "super" (.inr rfl)).trans (super derived))
  | @method _ q name parent methods g _ outer isMethod ih =>
    have isFormed := (outer.formed formed).1.className.2.member isMethod
    cases inner with
    | nil =>
      obtain ⟨same, rest⟩ := List.cons.inj split
      obtain ⟨same', -⟩ := List.cons.inj rest
      cases same'
      refine ⟨?_, fun derived => ?_⟩
      · rw [Place.distance?_under (parameterFrame_keyword isFormed (.inl rfl))]
        exact congrArg (Option.map (· + 1)) (Place.Answers.here rfl).1
      · rw [Place.distance?_under (parameterFrame_keyword isFormed (.inr rfl)), derived]
        exact congrArg (Option.map (· + 1)) ((Place.Answers.here rfl).enter rfl).1
    | cons first inner =>
      obtain ⟨rfl, rest⟩ := List.cons.inj split
      cases inner with
      | nil => simp at rest
      | cons second inner =>
        obtain ⟨rfl, -⟩ := List.cons.inj rest
        cases parent <;> cases direct

/-- What stands in a method stands in the body of the method. -/
theorem Stands.in_method (stands : Stands program around p ss)
    (split : around = inner ++ .method f :: outer) : ∀ s ∈ ss, Occurs f.body inner s := by
  induction stands generalizing inner with
  | program => simp at split
  | rest _ ih => exact fun s among => ih split s (List.mem_cons_of_mem _ among)
  | ifThen _ ih =>
    intro s among
    obtain rfl := List.mem_singleton.1 among
    exact .ifThen (ih split _ List.mem_cons_self)
  | ifElseYes _ ih =>
    intro s among
    obtain rfl := List.mem_singleton.1 among
    exact .ifElseYes (ih split _ List.mem_cons_self)
  | ifElseNo _ ih =>
    intro s among
    obtain rfl := List.mem_singleton.1 among
    exact .ifElseNo (ih split _ List.mem_cons_self)
  | whileLoop _ ih =>
    intro s among
    obtain rfl := List.mem_singleton.1 among
    exact .whileLoop (ih split _ List.mem_cons_self)
  | block _ ih =>
    cases inner with
    | nil => simp at split
    | cons first inner =>
      obtain ⟨rfl, rfl⟩ := List.cons.inj split
      exact fun s among => .block (ih rfl _ List.mem_cons_self) among
  | function _ ih =>
    cases inner with
    | nil => simp at split
    | cons first inner =>
      obtain ⟨rfl, rfl⟩ := List.cons.inj split
      exact fun s among => .function (ih rfl _ List.mem_cons_self) among
  | method _ isMethod ih =>
    cases inner with
    | nil =>
      obtain ⟨same, -⟩ := List.cons.inj split
      cases same
      exact fun s among => .top among
    | cons first inner =>
      obtain ⟨rfl, rest⟩ := List.cons.inj split
      cases inner with
      | nil => simp at rest
      | cons second inner =>
        obtain ⟨rfl, rfl⟩ := List.cons.inj rest
        exact fun s among => .method (ih rfl _ List.mem_cons_self) isMethod among

end Static

namespace Run

/-- What `super` gives: the method that the search from this class finds, bound to the receiver. -/
def inherited (c : Class) (receiver : Value) (name : Token) : Run Value :=
  match c.method? name.lexeme with
  | some method => do
      let bound ← bindMethod method receiver
      functionValue bound
  | none => raise name.line (.undefinedProperty name.lexeme)

theorem superMethod_inherited {m : Machine} {id : ExprId} {keyword name : Token} {inner : Nat}
    {c own : Class} {i : InstanceId} (recorded : m.distances[id]? = some (inner + 1))
    (parent : m.store.getAt m.chain (inner + 1) keyword.lexeme = .ok (.class_ c))
    (receiver : m.store.getAt m.chain inner "this" = .ok (.object i own)) :
    superMethod id keyword name m = inherited c (.object i own) name m := by
  have readParent : ask keyword.line (fun m => m.store.getAt m.chain (inner + 1) keyword.lexeme) m =
      .ok (.class_ c) m := ask_ok_iff.2 ⟨parent, rfl⟩
  have readReceiver : ask keyword.line (fun m => m.store.getAt m.chain inner "this") m =
      .ok (.object i own) m := ask_ok_iff.2 ⟨receiver, rfl⟩
  simp only [superMethod, observe, Bind.bind, EStateM.bind, recorded, readParent]
  simp only [readReceiver]
  rfl

end Run

/-! ### Calls of methods -/

/-- A call of a method in the life of a session: a class was declared, one of its methods was bound
to a receiver, and its body was entered. -/
structure MethodCall (chunks : List Chunk) where
  declaring : Step
  /-- The machine that the class is made on, after its superclass. -/
  scene : Machine
  name : Token
  parent : Option Class
  methods : List FunctionDecl
  binding : Step
  receiver : Value
  this : ScopeId
  method : Closure
  start : Machine
  declared : Happens chunks declaring
  declares : declaring.Declares scene name parent methods
  isMethod : method.function ∈ methods
  bound : Happens chunks binding
  binds : binding.Opens (receiverScope receiver) this
  scopes : method.chain = this :: scene.methodScopes name parent
  entered : ∃ fuel line vs, Happens chunks ⟨fuel, .body line vs method, start⟩

namespace MethodCall

variable {chunks : List Chunk}

/-- The scopes in which the body runs. -/
def chain (call : MethodCall chunks) : Chain := call.start.store.scopes.size :: call.method.chain

/-- The scope is that of a function or block. -/
def Plain (chunks : List Chunk) (scope : ScopeId) : Prop :=
  ∃ extent, Activation chunks extent scope

end MethodCall

section Calls

variable {chunks : List Chunk} {s : Session} {around : List Enclosure} {chain : Chain}
  {fuel line : Nat} {vs : List Value} {closure : Closure} {m : Machine} {step : Step}

/-- Where text in a class runs, a method of the class has been called: the scopes in force are those
of the call, with one more for each function and block in between. -/
theorem Chained.call (chained : Chained chunks around chain)
    (inClass : classOf around ≠ .outside) :
    ∃ (call : MethodCall chunks) (inner outer : List Enclosure) (superclass : Option Expr)
        (scopes : Chain),
      around = inner ++ .method call.method.function :: .class_ superclass :: outer ∧
        classOf inner = .outside ∧ superclass.isSome = call.parent.isSome ∧
          chain = scopes ++ call.chain ∧ scopes.length = inner.length ∧
            ∀ scope ∈ scopes, MethodCall.Plain chunks scope := by
  induction chained with
  | global => exact absurd rfl inClass
  | @block _ body m around opened _ ih =>
    obtain ⟨call, inner, outer, superclass, scopes, split, direct, same, chain, length, plain⟩ :=
      ih inClass
    have first : MethodCall.Plain chunks m.store.scopes.size := ⟨_, .block opened rfl⟩
    refine ⟨call, .block body :: inner, outer, superclass, m.store.scopes.size :: scopes, ?_, direct,
      same, ?_, congrArg (· + 1) length, List.forall_mem_cons.2 ⟨first, plain⟩⟩
    · rw [split, List.cons_append]
    · rw [chain, List.cons_append]
  | @function _ _ _ closure m around entered _ ih =>
    obtain ⟨call, inner, outer, superclass, scopes, split, direct, same, chain, length, plain⟩ :=
      ih inClass
    have first : MethodCall.Plain chunks m.store.scopes.size := ⟨_, .function entered rfl⟩
    refine ⟨call, .function closure.function :: inner, outer, superclass,
      m.store.scopes.size :: scopes, ?_, direct, same, ?_, congrArg (· + 1) length,
      List.forall_mem_cons.2 ⟨first, plain⟩⟩
    · rw [split, List.cons_append]
    · rw [chain, List.cons_append]
  | @method fuel line vs closure m n binding declaring receiver this name parent methods superclass
      around entered bound binds declared declares isMethod same scopes outer =>
    let call : MethodCall chunks :=
      ⟨declaring, n, name, parent, methods, binding, receiver, this, closure, m, declared, declares,
        isMethod, bound, binds, scopes, fuel, line, vs, entered⟩
    exact ⟨call, [], around, superclass, [], rfl, rfl, same, rfl, rfl, fun _ member => nomatch member⟩

namespace MethodCall

variable {call : MethodCall chunks} {scopes : Chain}

/-- The scope next to that of the call binds `this` to the receiver. -/
theorem getAt_this (life : Life chunks s) (happens : Happens chunks step)
    (known : ∀ scope ∈ scopes ++ call.chain, scope < step.machine.store.scopes.size) :
    step.machine.store.getAt (scopes ++ call.chain) (scopes.length + 1) "this" = .ok call.receiver := by
  have isThis : (scopes ++ call.chain)[scopes.length + 1]? = some call.this := by
    rw [MethodCall.chain, call.scopes, List.getElem?_append_right (Nat.le_add_right _ _),
      Nat.add_sub_cancel_left]
    rfl
  have held := life.opened_with call.bound call.binds (.inl rfl) happens
    (known _ (List.mem_of_getElem? isThis))
  simp only [Store.getAt, Store.ancestor, isThis, Bind.bind, Except.bind, held, receiverScope,
    Table.get?_insert_self]

/-- The scope after that binds `super` to the class that the superclass was. -/
theorem getAt_super (life : Life chunks s) (happens : Happens chunks step)
    (known : ∀ scope ∈ scopes ++ call.chain, scope < step.machine.store.scopes.size) {c : Class}
    (parent : call.parent = some c) :
    step.machine.store.getAt (scopes ++ call.chain) (scopes.length + 2) "super" = .ok (.class_ c) := by
  have declares := call.declares
  rw [parent] at declares
  have opens := (Step.Effect.parent declares).opens
  have isSuper : (scopes ++ call.chain)[scopes.length + 2]? =
      some (call.scene.store.define call.scene.chain call.name.lexeme .nil).scopes.size := by
    rw [MethodCall.chain, call.scopes, parent, List.getElem?_append_right (Nat.le_add_right _ _),
      Nat.add_sub_cancel_left]
    rfl
  have held := life.opened_with call.declared opens (.inr rfl) happens
    (known _ (List.mem_of_getElem? isSuper))
  simp only [Store.getAt, Store.ancestor, isSuper, Bind.bind, Except.bind, held,
    Table.get?_insert_self]

/-- No scope further in binds `this`. -/
theorem get_this (life : Life chunks s) (happens : Happens chunks step)
    (known : ∀ scope ∈ scopes ++ call.chain, scope < step.machine.store.scopes.size)
    (plain : ∀ scope ∈ scopes, Plain chunks scope) :
    step.machine.store.get (scopes ++ call.chain) "this" = .ok call.receiver := by
  have unbound {scope : ScopeId} (isPlain : Plain chunks scope) (among : scope ∈ scopes ++ call.chain) :
      (step.machine.store.bindings scope).get? "this" = none := by
    obtain ⟨extent, active⟩ := isPlain
    obtain ⟨opening, bindings, opened, opens, absent⟩ := active.opening life (.inl rfl)
    exact (life.opened_with opened opens (.inl rfl) happens (known scope among)).trans absent
  have inside : scopes.findSome? (fun scope => (step.machine.store.bindings scope).get? "this") = none :=
    List.findSome?_eq_none_iff.2 fun scope among =>
      unbound (plain scope among) (List.mem_append_left _ among)
  obtain ⟨fuel, line, vs, entered⟩ := call.entered
  have first := unbound ⟨_, .function entered rfl⟩ (List.mem_append_right _ List.mem_cons_self)
  have among : call.this ∈ scopes ++ call.chain := by simp [MethodCall.chain, call.scopes]
  have held := life.opened_with call.bound call.binds (.inl rfl) happens (known _ among)
  simp only [Store.get, List.findSome?_append, inside, MethodCall.chain, call.scopes,
    List.findSome?_cons, first, held, receiverScope, Table.get?_insert_self, Option.none_or]

end MethodCall

theorem Enclosure.classOf_direct {inner outer : List Enclosure} {f : FunctionDecl}
    {superclass : Option Expr} (direct : classOf inner = .outside) :
    classOf (inner ++ .method f :: .class_ superclass :: outer) =
      if superclass.isSome then .derived else .base := by
  induction inner with
  | nil => cases superclass <;> rfl
  | cons first inner ih =>
    cases first with
    | class_ parent => cases parent <;> cases direct
    | _ => exact ih direct

/-- Text in a class runs in a call of the method that it stands in, and static scoping finds `this`
and `super` where this call has them. -/
theorem Text.in_method {p : Place} {t : Stmt} {ss : List Stmt}
    (text : Text chunks around p (t :: ss)) (chained : Chained chunks around chain)
    (inClass : classOf around ≠ .outside) :
    ∃ (call : MethodCall chunks) (inner : List Enclosure) (scopes : Chain),
      Occurs call.method.function.body inner t ∧ classOf inner = .outside ∧
        chain = scopes ++ call.chain ∧ (∀ scope ∈ scopes, MethodCall.Plain chunks scope) ∧
          distance? (t.inner p).frames "this" = some (scopes.length + 1) ∧
            (classOf around = .derived → (∃ c, call.parent = some c) ∧
              distance? (t.inner p).frames "super" = some (scopes.length + 2)) := by
  obtain ⟨call, inner, outer, superclass, scopes, split, direct, same, rfl, length, plain⟩ :=
    chained.call inClass
  have isFormed := text.formed.1
  obtain ⟨c, given, accepts, stands⟩ := text
  have formed := Session.program_formed c.session c.source
  obtain ⟨this, super⟩ := stands.receiver_distance formed split direct
  refine ⟨call, inner, scopes, stands.in_method split t List.mem_cons_self, direct, rfl, plain, ?_,
    fun derived => ?_⟩
  · rw [Stmt.inner_keyword isFormed (.inl rfl), this, length]
  · have isDerived : superclass.isSome = true := by
      rw [split, Enclosure.classOf_direct direct] at derived
      by_contra base
      rw [if_neg base] at derived
      cases derived
    refine ⟨Option.isSome_iff_exists.1 (same ▸ isDerived), ?_⟩
    rw [Stmt.inner_keyword isFormed (.inr rfl), super isDerived, length]

namespace Session.Life

variable (life : Life chunks s)
include life

/-- Where `this` is evaluated it is the nearest binding of `this` along the chain. -/
theorem this_denotes {id : ExprId} {keyword : Token}
    (happens : Happens chunks ⟨fuel + 1, .expr (.this id keyword), m⟩) :
    ∃ v, m.store.get m.chain "this" = .ok v ∧
      Run.evaluate (fuel + 1) (.this id keyword) m = .ok v m := by
  obtain ⟨around, p, t, ss, whole, text, among, inside, chained⟩ := (life.step_made happens).placed
  have inClass : classOf around ≠ .outside := by
    obtain ⟨c, given, accepts, stands⟩ := text
    have lawful := (stands.occurs t List.mem_cons_self).lawful accepts.lawful
    exact (lawful.exprs whole among).1 id keyword inside
  obtain ⟨call, inner, scopes, -, -, chain, plain, this, -⟩ := text.in_method chained inClass
  have known := life.chain_known happens
  have spelled : keyword.lexeme = "this" := by
    obtain ⟨R, q, -, -, formed⟩ := life.step_sound happens
    exact formed.1.keyword formed.2
  have recorded := life.use_recorded happens rfl text among inside
  rw [spelled, this] at recorded
  rw [chain] at known
  refine ⟨call.receiver, chain ▸ MethodCall.get_this life happens known plain, ?_⟩
  rw [Run.evaluate]
  refine Run.ask_ok_iff.2 ⟨?_, rfl⟩
  simp only [recorded, spelled, chain]
  exact MethodCall.getAt_this life happens known

end Session.Life

end Calls

/-! ### A run with a superclass that is not there any more -/

def Step.isSuper : Step → Bool
  | ⟨_ + 1, .expr (.super _ _ _), _⟩ => true
  | _ => false

theorem Step.of_isSuper {step : Step} (isSuper : step.isSuper = true) :
    ∃ fuel id keyword name m, step = ⟨fuel + 1, .expr (.super id keyword name), m⟩ := by
  obtain ⟨fuel, task, m⟩ := step
  cases fuel with
  | zero => cases isSuper
  | succ fuel =>
    cases task with
    | expr e =>
      cases e with
      | super id keyword name => exact ⟨fuel, id, keyword, name, m, rfl⟩
      | _ => cases isSuper
    | _ => cases isSuper

namespace Session

/-- A method calls the one that it overrides, after the names of both classes have been given other
values. -/
def rebound : Chunk :=
  ⟨Session.initial .unlimited 0, 12,
    "class A { m() {} } class B < A { m() { super.m(); } } var b = B(); A = B; B = nil; b.m();"⟩

end Session

end Lox
