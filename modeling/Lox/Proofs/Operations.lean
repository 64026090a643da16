import Lox.Evaluation
import Lox.Proofs.Stateful

/-!
What holds of the operations of the machine, and of whatever is put together of computations that it
holds of, holds of the operations of the language as well: of access to names and properties, of
operators, natives and declarations of classes.
-/

namespace Lox

namespace Run

/-- It holds of the operations of the machine, other than printing, and of one computation after
another. What is observed does not depend on the sink. -/
structure Modular (P : (α : Type) → Run α → Prop) : Prop where
  pure {α : Type} (a : α) : P α (Pure.pure a)
  raise {α : Type} (line : Nat) (cause : RuntimeCause) : P α (Run.raise line cause)
  observe {α : Type} {g : Machine → α} (same : ∀ m sink, g { m with sink := sink } = g m) :
    P α (Run.observe g)
  next {α β : Type} {x : Run α} {f : α → Run β} (first : P α x) (second : ∀ a, P β (f a)) :
    P β (x >>= f)
  identity : P Nat Run.identity
  readClock : P Value Run.readClock
  newScope (bindings : Table Value) : P ScopeId (Run.newScope bindings)
  define (name : String) (v : Value) : P Unit (Run.define name v)
  bind (scope : ScopeId) (name : String) (v : Value) : P Unit (Run.bind scope name v)

namespace Modular

variable {P : (α : Type) → Run α → Prop} (modular : Modular P)
include modular

/-! ### Names -/

theorem ask {α : Type} {line : Nat} {g : Machine → Except RuntimeCause α}
    (same : ∀ m sink, g { m with sink := sink } = g m) : P α (Run.ask line g) := by
  apply modular.next (modular.observe same)
  intro answer
  cases answer with
  | ok a => exact modular.pure a
  | error cause => exact modular.raise line cause

theorem lookUp (id : ExprId) (name : Token) : P Value (Run.lookUp id name) :=
  modular.ask fun _ _ => rfl

theorem assign (id : ExprId) (name : Token) (v : Value) : P Unit (Run.assign id name v) := by
  apply modular.next (modular.ask fun _ _ => rfl)
  intro scope
  exact modular.bind scope name.lexeme v

/-! ### Operators and natives -/

theorem unary (operator : Token) (v : Value) : P Value (Run.unary operator v) := by
  unfold Run.unary negate
  repeat' split
  all_goals first | exact modular.pure _ | exact modular.raise _ _

theorem binary (operator : Token) (v w : Value) : P Value (Run.binary operator v w) := by
  unfold Run.binary add onNumbers arithmetic
  repeat' split
  all_goals first | exact modular.pure _ | exact modular.raise _ _

theorem callNative (native : Native) (line : Nat) (vs : List Value) :
    P Value (Run.callNative native line vs) := by
  unfold Run.callNative
  repeat' split
  all_goals first | exact modular.readClock | exact modular.pure _ | exact modular.raise _ _

/-! ### Properties -/

theorem bindMethod (method : Closure) (receiver : Value) :
    P Closure (Run.bindMethod method receiver) :=
  modular.next (modular.newScope _) fun _ => modular.pure _

theorem functionValue (closure : Closure) : P Value (Run.functionValue closure) :=
  modular.next modular.identity fun _ => modular.pure _

/-- A method that is found is bound, and made a value. -/
theorem boundMethod (method : Closure) (receiver : Value) :
    P Value (Run.bindMethod method receiver >>= Run.functionValue) :=
  modular.next (modular.bindMethod method receiver) modular.functionValue

theorem property (object : InstanceId) (c : Class) (name : Token) :
    P Value (Run.property object c name) := by
  apply modular.next (modular.observe fun _ _ => rfl)
  intro field
  cases field with
  | some v => exact modular.pure v
  | none =>
    cases c.method? name.lexeme with
    | some method => exact modular.boundMethod method _
    | none => exact modular.raise _ _

theorem superMethod (id : ExprId) (keyword method : Token) :
    P Value (Run.superMethod id keyword method) := by
  apply modular.next (modular.observe fun _ _ => rfl)
  intro recorded
  cases recorded with
  | none => exact modular.raise _ _
  | some distance =>
    apply modular.next (modular.ask fun _ _ => rfl)
    intro parent
    cases parent with
    | class_ c =>
      cases distance with
      | zero => exact modular.raise _ _
      | succ inner =>
        apply modular.next (modular.ask fun _ _ => rfl)
        intro receiver
        cases receiver with
        | object i own =>
          dsimp only
          cases c.method? method.lexeme with
          | some found => exact modular.boundMethod found _
          | none => exact modular.raise _ _
        | _ => exact modular.raise _ _
    | _ => exact modular.raise _ _

/-! ### Classes -/

theorem asSuperclass (name : Token) (superclass : Expr) (v : Value) :
    P Class (Run.asSuperclass name superclass v) := by
  unfold Run.asSuperclass
  repeat' split
  all_goals first | exact modular.pure _ | exact modular.raise _ _

theorem methodChain (superclass : Option Class) : P Chain (Run.methodChain superclass) := by
  apply modular.next (modular.observe fun _ _ => rfl)
  intro chain
  cases superclass with
  | none => exact modular.pure _
  | some c => exact modular.next (modular.newScope _) fun _ => modular.pure _

theorem declareClass (name : Token) (superclass : Option Class) (methods : List FunctionDecl) :
    P Unit (Run.declareClass name superclass methods) := by
  apply modular.next (modular.define _ _)
  intro _
  apply modular.next (modular.methodChain superclass)
  intro chain
  apply modular.next modular.identity
  intro n
  apply modular.next (modular.ask fun _ _ => rfl)
  intro scope
  exact modular.bind _ _ _

end Modular

end Run

end Lox
