import Mathlib
import Lox.Proofs.Origins

/-!
The scopes of `this` and `super` are never written to: what `this` denotes in a bound method is what
the method was bound to, for as long as the session lives.
-/

namespace Lox

open Session (Happens Life Since)

/-- The deed binds the name in the scope. -/
def Deed.Binds (scope : ScopeId) (name : String) : Deed → Prop
  | .define chain other _ => chain.head? = some scope ∧ other = name
  | .bind target other _ => target = scope ∧ other = name
  | _ => False

section

variable {R : ExprId → Option Nat → Prop} {chunks : List Chunk} {s : Session} {step other : Step}
  {d : Deed} {u v : Store} {name : String} {scope : ScopeId} {receiver : Value}

/-- What the deed does not bind is bound as before in a scope that there is. -/
theorem Deed.get?_leaves (other : ¬ d.Binds scope name) (write : d.isWrite = true)
    (known : scope < u.scopes.size) :
    ((d.leaves u).bindings scope).get? name = (u.bindings scope).get? name := by
  have bound (target : ScopeId) (key : String) (w : Value) (differ : ¬ (target = scope ∧ key = name)) :
      ((u.bind target key w).bindings scope).get? name = (u.bindings scope).get? name := by
    rw [Store.bindings_bind]
    split
    · rename_i same
      exact Table.get?_insert_ne _ w fun isName => differ ⟨same.1, isName⟩
    · rfl
  cases d with
  | part => cases write
  | openScope bindings => rw [leaves, Store.bindings_addScope, if_neg (Nat.ne_of_lt known)]
  | allocate | setField => rfl
  | bind target key w => exact bound target key w other
  | define chain key w =>
    cases chain with
    | nil => rfl
    | cons target outer =>
      exact bound target key w fun both => other ⟨congrArg some both.1, both.2⟩

theorem Token.IsName.differs {t : Token} (isName : t.IsName Token.Spelled)
    (keyword : name = "this" ∨ name = "super") : t.lexeme ≠ name := by
  rcases keyword with rfl | rfl
  · exact isName.ne_this
  · exact isName.ne_super

theorem Step.Declares.named {n : Machine} {token : Token} {superclass : Option Class}
    {methods : List FunctionDecl} (declares : step.Declares n token superclass methods)
    (sound : step.Sound R) : token.IsName Token.Spelled := by
  cases declares <;> exact sound.choose_spec.2.2.className.1

/-- No declaration and no assignment is about `this` or `super`. -/
theorem Step.Effect.spares (effect : step.Effect d u) (sound : step.Sound R)
    (keyword : name = "this" ∨ name = "super") : ¬ d.Binds scope name := by
  intro binds
  cases effect with
  | assign =>
    obtain ⟨p, -, -, formed⟩ := sound
    exact formed.1.differs keyword binds.2
  | undefined =>
    obtain ⟨p, -, -, formed⟩ := sound
    exact Token.IsName.differs formed keyword binds.2
  | define =>
    obtain ⟨p, -, -, formed⟩ := sound
    exact formed.1.differs keyword binds.2
  | function =>
    obtain ⟨p, -, -, formed⟩ := sound
    exact (FunctionDecl.Formed.named formed).1.differs keyword binds.2
  | className declares | class_ declares => exact (declares.named sound).differs keyword binds.2
  | _ => exact binds

theorem Session.Since.keyword_kept (since : Since chunks u v) (life : Life chunks s)
    (keyword : name = "this" ∨ name = "super") (inner : 0 < scope) (known : scope < u.scopes.size) :
    (v.bindings scope).get? name = (u.bindings scope).get? name := by
  refine (since.keeps (P := fun t => scope < t.scopes.size ∧
    (t.bindings scope).get? name = (u.bindings scope).get? name) ?_ ⟨known, rfl⟩).2
  rintro t t' changes ⟨known, same⟩
  refine ⟨Nat.lt_of_lt_of_le known (Since.size (.single changes)), Eq.trans ?_ same⟩
  cases changes with
  | host => rw [Store.bindings_bind, if_neg fun both => Nat.ne_of_lt inner both.1]
  | write writes =>
    obtain ⟨step, d, happens, write, does, rfl⟩ := writes
    obtain ⟨R, sound⟩ := life.step_sound happens
    exact Deed.get?_leaves ((does.effect write).spares sound keyword) write known

theorem Step.Sound.global (sound : step.Sound R) : 0 < step.machine.store.scopes.size := by
  obtain ⟨fuel, task, m⟩ := step
  cases task with
  | expr | exprs | stmt | stmts => exact sound.choose_spec.1.sound.store.global
  | program => exact sound.1.sound.store.global
  | call | body => exact sound.1.store.global

namespace Session.Life

variable (life : Life chunks s) {bindings : Table Value}
include life

/-- What a scope binds to `this` or `super` when it is opened it binds at the start of every step
that knows of it. -/
theorem opened_with (happens : Happens chunks step) (opens : step.Opens bindings scope)
    (keyword : name = "this" ∨ name = "super") (later : Happens chunks other)
    (known : scope < other.machine.store.scopes.size) :
    (other.machine.store.bindings scope).get? name = bindings.get? name := by
  obtain ⟨u, does, rfl⟩ := opens
  obtain ⟨R, sound⟩ := life.step_sound happens
  have inner : 0 < u.scopes.size :=
    Nat.lt_of_lt_of_le sound.global (happens.since_start does).size
  have since := life.opened_before happens later does known
  have here : u.scopes.size < (u.addScope bindings).scopes.size := by
    rw [Store.size_addScope]
    exact Nat.lt_succ_self _
  rw [since.keyword_kept life keyword inner here, Store.bindings_lastScope]

/-- The same at the end of the step. -/
theorem still_opened_with (happens : Happens chunks step) (opens : step.Opens bindings scope)
    (keyword : name = "this" ∨ name = "super") (later : Happens chunks other)
    (known : scope < other.machine.store.scopes.size) :
    (other.finish.store.bindings scope).get? name = bindings.get? name := by
  have atStart := life.opened_with happens opens keyword later known
  obtain ⟨u, does, rfl⟩ := opens
  obtain ⟨R, sound⟩ := life.step_sound happens
  have inner : 0 < u.scopes.size :=
    Nat.lt_of_lt_of_le sound.global (happens.since_start does).size
  have since := since_of_becomes (Step.becomes_finish (happens_closed chunks) later)
  rw [since.keyword_kept life keyword inner known, atStart]

end Session.Life

end

end Lox
