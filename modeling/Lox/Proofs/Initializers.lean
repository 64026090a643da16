import Mathlib
import Lox.Proofs.Receivers
import Lox.Proofs.RejectedPrograms

/-!
Initializers give their instance: a call of a class gives an instance that it makes, a call of a
bound initializer gives what it was bound to, and no value that a body returns is lost.
-/

namespace Lox

open Session (Happens Life happens_closed since_of_becomes)

/-- The step binds the method to the receiver; the last one is the closure that can be called. -/
inductive Step.Binds : Step → Closure → Value → Closure → Prop
  | get {fuel : Nat} {id : ExprId} {object : Expr} {name : Token} {m n : Machine} {i : InstanceId}
      {c : Class} {method : Closure} (first : Run.evaluate fuel object m = .ok (.object i c) n)
      (field : (n.store.fields i).get? name.lexeme = none)
      (found : c.method? name.lexeme = some method) :
      Binds ⟨fuel + 1, .expr (.get id object name), m⟩ method (.object i c)
        { method with chain := n.store.scopes.size :: method.chain }
  | super {fuel : Nat} {id : ExprId} {keyword name : Token} {m : Machine} {inner : Nat}
      {i : InstanceId} {c own : Class} {method : Closure}
      (recorded : m.distances[id]? = some (inner + 1))
      (parent : m.store.getAt m.chain (inner + 1) keyword.lexeme = .ok (.class_ c))
      (receiver : m.store.getAt m.chain inner "this" = .ok (.object i own))
      (found : c.method? name.lexeme = some method) :
      Binds ⟨fuel + 1, .expr (.super id keyword name), m⟩ method (.object i own)
        { method with chain := m.store.scopes.size :: method.chain }
  | construct {fuel line : Nat} {vs : List Value} {m : Machine} {c : Class} {method : Closure}
      (found : c.method? initializerName = some method) :
      Binds ⟨fuel, .call line vs (.class_ c), m⟩ method (.object m.store.instances.size c)
        { method with chain := m.store.scopes.size :: method.chain }

section Returns

/-! ### What an initializer returns -/

theorem Run.sequence_returns {execute : Stmt → Run Flow} {ss : List Stmt} {m n : Machine} {v : Value}
    (run : sequence execute ss m = .ok (.returned v) n) :
    ∃ t ∈ ss, ∃ k, execute t k = .ok (.returned v) n := by
  induction ss generalizing m with
  | nil => cases run
  | cons t ss ih =>
    obtain ⟨flow, k, first, run⟩ := bind_ok_iff.1 run
    cases flow with
    | normal =>
      obtain ⟨t', among, k', returns⟩ := ih run
      exact ⟨t', List.mem_cons_of_mem _ among, k', returns⟩
    | returned w =>
      cases run
      exact ⟨t, List.mem_cons_self, m, first⟩

/-- A statement of an initializer that returns returns nothing. -/
theorem Run.initializer_returns (fuel : Nat) {t : Stmt} {site : Site} {m n : Machine} {v : Value}
    (lawful : t.Lawful site) (inside : site.function = .initializer)
    (run : execute fuel t m = .ok (.returned v) n) : v = .nil := by
  induction fuel generalizing t site m n with
  | zero => cases t <;> cases run
  | succ fuel ih =>
    cases t with
    | expression =>
      obtain ⟨w, k, -, run⟩ := bind_ok_iff.1 run
      cases run
    | print =>
      obtain ⟨w, k, -, run⟩ := bind_ok_iff.1 run
      obtain ⟨-, k', -, run⟩ := bind_ok_iff.1 run
      cases run
    | varDecl name e =>
      cases e with
      | none => cases run
      | some e =>
        obtain ⟨w, k, -, run⟩ := bind_ok_iff.1 run
        cases run
    | block body =>
      obtain ⟨k, ran, -⟩ := inChain_ok_inside run
      obtain ⟨t, among, k', returns⟩ := sequence_returns ran
      exact ih (Stmt.lawfulList_iff.1 lawful.2 t among) inside returns
    | ifThen condition yes =>
      obtain ⟨w, k, -, run⟩ := bind_ok_iff.1 run
      cases truth : w.isTruthy with
      | true =>
        rw [truth] at run
        exact ih lawful.2 inside run
      | false =>
        rw [truth] at run
        cases run
    | ifElse condition yes no =>
      obtain ⟨w, k, -, run⟩ := bind_ok_iff.1 run
      cases truth : w.isTruthy with
      | true =>
        rw [truth] at run
        exact ih lawful.2.1 inside run
      | false =>
        rw [truth] at run
        exact ih lawful.2.2 inside run
    | whileLoop condition body =>
      obtain ⟨w, k, -, run⟩ := bind_ok_iff.1 run
      cases truth : w.isTruthy with
      | true =>
        rw [truth] at run
        obtain ⟨flow, k', second, run⟩ := bind_ok_iff.1 run
        cases flow with
        | normal => exact ih lawful inside run
        | returned w =>
          cases run
          exact ih lawful.2 inside second
      | false =>
        rw [truth] at run
        cases run
    | funDecl => cases run
    | returnStmt keyword e =>
      cases e with
      | none =>
        cases run
        rfl
      | some e => exact absurd inside lawful.1.2
    | classDecl name e methods =>
      cases e with
      | none =>
        obtain ⟨-, k, -, run⟩ := bind_ok_iff.1 run
        cases run
      | some e =>
        obtain ⟨w, k, -, run⟩ := bind_ok_iff.1 run
        obtain ⟨c, k', -, run⟩ := bind_ok_iff.1 run
        obtain ⟨-, k'', -, run⟩ := bind_ok_iff.1 run
        cases run

end Returns

section

variable {chunks : List Chunk} {s : Session} {binding : Step} {method bound closure : Closure}
  {receiver : Value} {fuel line : Nat} {vs : List Value} {m n : Machine} {v : Value}

/-! ### What an initializer is bound to -/

/-- A method is bound in a scope of its own, and stands in a class body. -/
theorem Step.Binds.made (binds : binding.Binds method receiver bound) (life : Life chunks s)
    (happens : Happens chunks binding) :
    bound.function = method.function ∧ (∃ i c, receiver = .object i c) ∧
      ∃ this superclass around, binding.Opens (receiverScope receiver) this ∧
        bound.chain = this :: method.chain ∧
          bound.Made chunks (.method method.function :: .class_ superclass :: around) := by
  have made := life.step_made happens
  have known {part : Step} (starts : Starts binding part) : part.Outcome chunks :=
    (life.step_made (happens_closed chunks _ _ happens starts)).outcome life
  have conclude {c : Class} {u : Store} {name : String} (classMade : c.Made chunks)
      (found : c.method? name = some method) (effect : binding.Effect (.openScope (receiverScope receiver)) u) :
      ∃ this superclass around, binding.Opens (receiverScope receiver) this ∧
        u.scopes.size :: method.chain = this :: method.chain ∧
          Closure.Made chunks { method with chain := u.scopes.size :: method.chain }
            (.method method.function :: .class_ superclass :: around) := by
    obtain ⟨superclass, around, bound⟩ := classMade.bind found happens effect.opens
    exact ⟨_, superclass, around, effect.opens, rfl, bound⟩
  cases binds with
  | @get _ _ _ _ _ _ i c _ first field found =>
    exact ⟨rfl, ⟨i, c, rfl⟩, conclude ((known .getObject).expr first).2.2.1 found (.get first field found)⟩
  | @super _ _ _ _ _ _ i c own _ recorded parent receiver found =>
    exact ⟨rfl, ⟨i, own, rfl⟩, conclude (made.store.getAt (v := .class_ c) parent) found
      (.super recorded parent receiver found)⟩
  | @construct fuel line vs m c method found =>
    have effect : Step.Effect ⟨fuel, .call line vs (.class_ c), m⟩ _ _ := .initializer found
    have last : m.store.addInstance.lastInstance = m.store.instances.size := by
      simp [Store.addInstance, Store.lastInstance]
    rw [last] at effect
    exact ⟨rfl, ⟨_, c, rfl⟩, conclude (c := c) (u := m.store.addInstance) made.placed.2 found effect⟩

theorem Closure.Made.isInitializer_iff {superclass : Option Expr} {around : List Enclosure}
    {f : FunctionDecl} (made : closure.Made chunks (.method f :: .class_ superclass :: around)) :
    closure.isInitializer = true ↔ f.name.lexeme = initializerName := by
  cases made
  exact decide_eq_true_iff

/-- An initializer stands in a class body, and is named so there. -/
theorem Closure.Made.initializer {around : List Enclosure} (made : closure.Made chunks around)
    (isInit : closure.isInitializer = true) : Enclosure.functionOf around = .initializer := by
  cases made with
  | function => cases isInit
  | method => exact if_pos (decide_eq_true_iff.1 isInit)

/-- The call of an initializer gives what `this` is bound to at the end. -/
theorem Run.callClosure_initializer (isInit : closure.isInitializer = true)
    (run : callClosure (execute fuel) line closure vs m = .ok v n) :
    n.store.getAt closure.chain 0 "this" = .ok v := by
  obtain ⟨scope, k, -, run⟩ := bind_ok_iff.1 run
  obtain ⟨flow, k, -, run⟩ := bind_ok_iff.1 run
  rw [isInit] at run
  obtain ⟨answered, rfl⟩ := ask_ok_iff.1 run
  exact answered

theorem Session.instance_of_call {c : Class} (happens : Happens chunks ⟨fuel, .call line vs (.class_ c), m⟩)
    (run : Run.callValue (Run.execute fuel) line vs (.class_ c) m = .ok v n) :
    v = .object m.store.instances.size c ∧ m.store.instances.size < n.store.instances.size := by
  constructor
  · obtain ⟨object, k, created, run⟩ := bind_ok_iff.1 run
    cases created
    have last : m.store.addInstance.lastInstance = m.store.instances.size := by
      simp [Store.addInstance, Store.lastInstance]
    cases found : c.method? initializerName with
    | none =>
      rw [found] at run
      cases run
      rw [last]
    | some method =>
      rw [found] at run
      obtain ⟨bound, k, -, run⟩ := bind_ok_iff.1 run
      obtain ⟨w, k', -, run⟩ := bind_ok_iff.1 run
      cases run
      rw [last]
  · have does : Step.Does ⟨fuel, .call line vs (.class_ c), m⟩ .allocate m.store :=
      Step.Effect.allocate.does
    have grown := (happens.to_finish does).sizes.2
    simp only [Step.finish, run, stateOf, Deed.leaves, Store.addInstance, Array.size_push] at grown
    exact grown

namespace Session.Life

variable (life : Life chunks s)
include life

theorem receiver_of_call (happens : Happens chunks binding)
    (binds : binding.Binds method receiver bound)
    (isInit : method.function.name.lexeme = initializerName)
    (called : Happens chunks ⟨fuel, .body line vs bound, m⟩)
    (run : Run.callClosure (Run.execute fuel) line bound vs m = .ok v n) : v = receiver := by
  obtain ⟨-, -, this, superclass, around, opens, chain, made⟩ := binds.made life happens
  have read := Run.callClosure_initializer (made.isInitializer_iff.2 isInit) run
  obtain ⟨R, sound, ⟨q, callable⟩, -⟩ := life.step_sound called
  obtain ⟨scope, outer, same, known⟩ := callable.chain.head sound.store.global
  obtain ⟨rfl, -⟩ := List.cons.inj (chain.symm.trans same)
  have held := life.still_opened_with happens opens (.inl rfl) called known
  simp only [Step.finish, run, stateOf] at held
  simp only [Store.getAt, chain, Store.ancestor, List.getElem?_cons_zero, Bind.bind, Except.bind,
    held, receiverScope, Table.get?_insert_self] at read
  exact (Except.ok.inj read).symm

theorem flow_of_initializer (called : Happens chunks ⟨fuel, .body line vs closure, m⟩)
    (isInit : closure.isInitializer = true) {flow : Flow}
    (run : Run.sequence (Run.execute fuel) closure.function.body (Step.entered m closure vs) =
      .ok flow n) : flow = .normal ∨ flow = .returned .nil := by
  cases flow with
  | normal => exact .inl rfl
  | returned w =>
    obtain ⟨-, around, made⟩ := (life.step_made called).placed
    obtain ⟨p, c, given, accepts, stands⟩ := made.stands
    obtain ⟨t, among, k, returns⟩ := Run.sequence_returns run
    have lawful := (stands.occurs t among).lawful accepts.lawful
    rw [Run.initializer_returns fuel lawful (made.initializer isInit) returns]
    exact .inr rfl

end Session.Life

end

/-! ### A run with an initializer -/

def Step.isClassCall : Step → Bool
  | ⟨_, .call _ _ (.class_ _), _⟩ => true
  | _ => false

def Step.isInitializerCall : Step → Bool
  | ⟨_, .body _ _ closure, _⟩ => closure.isInitializer
  | _ => false

theorem Step.of_isClassCall {step : Step} (isCall : step.isClassCall = true) :
    ∃ fuel line vs c m, step = ⟨fuel, .call line vs (.class_ c), m⟩ := by
  obtain ⟨fuel, task, m⟩ := step
  cases task with
  | call line vs callee =>
    cases callee with
    | class_ c => exact ⟨fuel, line, vs, c, m, rfl⟩
    | _ => cases isCall
  | _ => cases isCall

theorem Step.of_isInitializerCall {step : Step} (isCall : step.isInitializerCall = true) :
    ∃ fuel line vs closure m, step = ⟨fuel, .body line vs closure, m⟩ ∧
      closure.isInitializer = true := by
  obtain ⟨fuel, task, m⟩ := step
  cases task with
  | body line vs closure => exact ⟨fuel, line, vs, closure, m, rfl, isCall⟩
  | _ => cases isCall

namespace Session

/-- An inherited initializer that returns early, run by a call of the class. -/
def earlyReturn : Chunk :=
  ⟨Session.initial .unlimited 0, 9,
    "class A { init() { return; } } class B < A {} B();"⟩

end Session

end Lox
