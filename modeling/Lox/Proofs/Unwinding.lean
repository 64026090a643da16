import Mathlib
import Lox.Proofs.Operations
import Lox.Proofs.SoundSessions

/-!
Whatever a run ends with, be it a value, a `return` from any depth or an error, it comes back to the
scopes that were in force when it began. Nothing is asked of the tree, of the machine or of the
distances.
-/

namespace Lox

/-- What a machine has come back to: the scopes in force and the distances are those of before, and
the scopes that there were, the global one among them, are still there. -/
structure Machine.Unwound (m n : Machine) : Prop where
  chain : n.chain = m.chain
  distances : n.distances = m.distances
  scopes : m.store.scopes.size ≤ n.store.scopes.size

theorem Machine.Unwound.refl (m : Machine) : m.Unwound m := ⟨rfl, rfl, Nat.le_refl _⟩

theorem Machine.Unwound.trans {m n o : Machine} (first : m.Unwound n) (second : n.Unwound o) :
    m.Unwound o := by
  constructor
  · exact second.chain.trans first.chain
  · exact second.distances.trans first.distances
  · exact Nat.le_trans first.scopes second.scopes

namespace Run

/-- Begun on any machine, the computation comes back, whatever it ends with. -/
def Unwinds {α : Type} (x : Run α) : Prop :=
  ∀ m : Machine, m.Unwound (stateOf (x m))

variable {α β : Type} {x : Run α} {f : α → Run β}

namespace Unwinds

theorem pure (a : α) : Unwinds (Pure.pure a) := fun m => Machine.Unwound.refl m

theorem raise (line : Nat) (cause : RuntimeCause) : Unwinds (Run.raise line cause : Run α) :=
  fun m => Machine.Unwound.refl m

theorem outOfFuel : Unwinds (Run.outOfFuel : Run α) := fun m => Machine.Unwound.refl m

theorem observe (g : Machine → α) : Unwinds (Run.observe g) := fun m => Machine.Unwound.refl m

/-- An error of the first part is passed on from where that part has come back to. -/
theorem bind (first : Unwinds x) (second : ∀ a, Unwinds (f a)) : Unwinds (x >>= f) := by
  intro m
  have began := first m
  cases run : x m with
  | error h n =>
    rw [run] at began
    rwa [bind_of_error run]
  | ok a n =>
    rw [run] at began
    rw [bind_of_ok run]
    exact began.trans (second a n)

/-- The scopes that a body runs in are left again, by an error as well. -/
theorem inChain (chain : Chain) (body : Unwinds x) : Unwinds (Run.inChain chain x) := by
  intro m
  have inside := body { m with chain := chain }
  cases run : x { m with chain := chain } with
  | ok a n =>
    rw [run] at inside
    rw [inChain_ok run]
    exact ⟨rfl, inside.distances, inside.scopes⟩
  | error h n =>
    rw [run] at inside
    rw [inChain_error run]
    exact ⟨rfl, inside.distances, inside.scopes⟩

end Unwinds

/-! ### Single steps -/

theorem newScope_unwinds (bindings : Table Value) : Unwinds (newScope bindings) := by
  intro m
  refine ⟨rfl, rfl, ?_⟩
  change m.store.scopes.size ≤ (m.store.addScope bindings).scopes.size
  rw [Store.size_addScope]
  exact Nat.le_succ _

theorem newInstance_unwinds (c : Class) : Unwinds (newInstance c) :=
  fun _ => ⟨rfl, rfl, Nat.le_refl _⟩

theorem bind_unwinds (scope : ScopeId) (name : String) (v : Value) : Unwinds (bind scope name v) := by
  intro m
  refine ⟨rfl, rfl, ?_⟩
  change m.store.scopes.size ≤ (m.store.bind scope name v).scopes.size
  rw [Store.size_bind]

theorem define_unwinds (name : String) (v : Value) : Unwinds (define name v) := by
  intro m
  refine ⟨rfl, rfl, ?_⟩
  change m.store.scopes.size ≤ (m.store.define m.chain name v).scopes.size
  unfold Store.define
  split
  · rw [Store.size_bind]
  · exact Nat.le_refl _

theorem setField_unwinds (object : InstanceId) (name : String) (v : Value) :
    Unwinds (setField object name v) :=
  fun _ => ⟨rfl, rfl, Nat.le_refl _⟩

theorem printLine_unwinds (text : String) : Unwinds (printLine text) := by
  intro m
  unfold printLine
  dsimp only
  split <;> exact ⟨rfl, rfl, Nat.le_refl _⟩

theorem unwinds_modular : Modular fun _ => Unwinds where
  pure := .pure
  raise := .raise
  observe _ := .observe _
  next := .bind
  identity _ := ⟨rfl, rfl, Nat.le_refl _⟩
  readClock _ := ⟨rfl, rfl, Nat.le_refl _⟩
  newScope := newScope_unwinds
  define := define_unwinds
  bind := bind_unwinds

/-! ### Calls -/

section Parts

variable {evaluate : Expr → Run Value} {execute : Stmt → Run Flow}

theorem arguments_unwinds (evaluates : ∀ e, Unwinds (evaluate e)) (es : List Expr) :
    Unwinds (arguments evaluate es) := by
  induction es with
  | nil => exact .pure _
  | cons e es ih => exact (evaluates e).bind fun _ => ih.bind fun _ => .pure _

variable (executes : ∀ s, Unwinds (execute s))
include executes

theorem sequence_unwinds (ss : List Stmt) : Unwinds (sequence execute ss) := by
  induction ss with
  | nil => exact .pure _
  | cons s ss ih =>
    apply (executes s).bind
    intro flow
    cases flow with
    | normal => exact ih
    | returned v => exact .pure _

theorem callClosure_unwinds (line : Nat) (closure : Closure) (vs : List Value) :
    Unwinds (callClosure execute line closure vs) := by
  unfold callClosure
  apply (newScope_unwinds _).bind
  intro scope
  apply (Unwinds.inChain _ (sequence_unwinds executes _)).bind
  intro flow
  split
  · exact unwinds_modular.ask fun _ _ => rfl
  · exact .pure _

theorem callValue_unwinds (line : Nat) (vs : List Value) (callee : Value) :
    Unwinds (callValue execute line vs callee) := by
  cases callee with
  | function _ closure => exact callClosure_unwinds executes line closure vs
  | native _ native => exact unwinds_modular.callNative native line vs
  | class_ c =>
    apply (newInstance_unwinds c).bind
    intro object
    cases c.method? initializerName with
    | none => exact .pure _
    | some method =>
      apply (unwinds_modular.bindMethod method object).bind
      intro bound
      exact (callClosure_unwinds executes line bound vs).bind fun _ => .pure _
  | _ => exact .raise _ _

end Parts

/-! ### Whole runs -/

section Runs

variable {fuel : Nat} (evaluates : ∀ e, Unwinds (evaluate fuel e))
  (executes : ∀ s, Unwinds (execute fuel s))
include evaluates executes

theorem evaluate_unwinds (e : Expr) : Unwinds (evaluate (fuel + 1) e) := by
  cases e with
  | literal _ v => exact .pure _
  | grouping _ inner => exact evaluates inner
  | unary _ operator operand => exact (evaluates operand).bind (unwinds_modular.unary operator)
  | binary _ left operator right =>
    exact (evaluates left).bind fun a => (evaluates right).bind (unwinds_modular.binary operator a)
  | logical _ left operator right =>
    rw [evaluate]
    apply (evaluates left).bind
    intro a
    split
    · exact .pure _
    · exact evaluates right
  | assign id name value =>
    exact (evaluates value).bind fun v => (unwinds_modular.assign id name v).bind fun _ => .pure _
  | var id name => exact unwinds_modular.lookUp id name
  | call _ callee paren args =>
    rw [evaluate]
    apply (evaluates callee).bind
    intro f
    cases f.arity? with
    | none => exact .raise _ _
    | some arity =>
      apply (arguments_unwinds evaluates args).bind
      intro vs
      split
      · exact .raise _ _
      · exact callValue_unwinds executes paren.line vs f
  | get _ object name =>
    rw [evaluate]
    apply (evaluates object).bind
    intro v
    cases v with
    | object i c => exact unwinds_modular.property i c name
    | _ => exact .raise _ _
  | set _ object name value =>
    rw [evaluate]
    apply (evaluates object).bind
    intro v
    cases v with
    | object i c =>
      exact (evaluates value).bind fun w => (setField_unwinds i name.lexeme w).bind fun _ => .pure _
    | _ => exact .raise _ _
  | this id keyword => exact unwinds_modular.lookUp id keyword
  | super id keyword method => exact unwinds_modular.superMethod id keyword method
  | comma _ left right => exact (evaluates left).bind fun _ => evaluates right
  | ternary _ condition yes no =>
    rw [evaluate]
    apply (evaluates condition).bind
    intro v
    split
    · exact evaluates yes
    · exact evaluates no

theorem execute_unwinds (s : Stmt) : Unwinds (execute (fuel + 1) s) := by
  match s with
  | .expression e => exact (evaluates e).bind fun _ => .pure _
  | .print e => exact (evaluates e).bind fun v => (printLine_unwinds v.text).bind fun _ => .pure _
  | .varDecl name none => exact (define_unwinds _ _).bind fun _ => .pure _
  | .varDecl name (some e) =>
    exact (evaluates e).bind fun v => (define_unwinds name.lexeme v).bind fun _ => .pure _
  | .block body =>
    apply (Unwinds.observe _).bind
    intro chain
    apply (newScope_unwinds _).bind
    intro scope
    exact .inChain _ (sequence_unwinds executes body)
  | .ifThen condition yes =>
    rw [execute]
    apply (evaluates condition).bind
    intro v
    split
    · exact executes yes
    · exact .pure _
  | .ifElse condition yes no =>
    rw [execute]
    apply (evaluates condition).bind
    intro v
    split
    · exact executes yes
    · exact executes no
  | .whileLoop condition body =>
    rw [execute]
    apply (evaluates condition).bind
    intro v
    split
    · apply (executes body).bind
      intro flow
      cases flow with
      | normal => exact executes (.whileLoop condition body)
      | returned r => exact .pure _
    · exact .pure _
  | .funDecl f =>
    apply (Unwinds.observe _).bind
    intro chain
    apply (unwinds_modular.functionValue _).bind
    intro v
    exact (define_unwinds _ _).bind fun _ => .pure _
  | .returnStmt _ none => exact .pure _
  | .returnStmt _ (some e) => exact (evaluates e).bind fun _ => .pure _
  | .classDecl name none methods =>
    exact (unwinds_modular.declareClass name none methods).bind fun _ => .pure _
  | .classDecl name (some superclass) methods =>
    apply (evaluates superclass).bind
    intro v
    apply (unwinds_modular.asSuperclass name superclass v).bind
    intro c
    exact (unwinds_modular.declareClass name (some c) methods).bind fun _ => .pure _

end Runs

/-- By induction on the fuel, expressions and statements together. -/
theorem runs_unwind (fuel : Nat) :
    (∀ e, Unwinds (evaluate fuel e)) ∧ ∀ s, Unwinds (execute fuel s) := by
  induction fuel with
  | zero =>
    constructor
    · intro e
      rw [evaluate]
      exact .outOfFuel
    · intro s
      rw [execute]
      exact .outOfFuel
  | succ fuel ih =>
    constructor
    · exact evaluate_unwinds ih.1 ih.2
    · exact execute_unwinds ih.1 ih.2

section

variable {fuel : Nat} {m n : Machine}

theorem evaluate_ok_unwound {e : Expr} {v : Value} (run : evaluate fuel e m = .ok v n) :
    m.Unwound n := by
  have unwound := (runs_unwind fuel).1 e m
  rw [run] at unwound
  exact unwound

theorem arguments_ok_unwound {es : List Expr} {vs : List Value}
    (run : arguments (evaluate fuel) es m = .ok vs n) : m.Unwound n := by
  have unwound := arguments_unwinds (runs_unwind fuel).1 es m
  rw [run] at unwound
  exact unwound

theorem execute_ok_unwound {s : Stmt} {flow : Flow} (run : execute fuel s m = .ok flow n) :
    m.Unwound n := by
  have unwound := (runs_unwind fuel).2 s m
  rw [run] at unwound
  exact unwound

end

theorem interpret_unwinds (fuel : Nat) (program : List Stmt) : Unwinds (interpret fuel program) := by
  induction program with
  | nil => exact .pure _
  | cons s ss ih => exact ((runs_unwind fuel).2 s).bind fun _ => ih

end Run

namespace Session

/-- A chunk comes back to the scopes that were in force before it, at whichever stage it ends. -/
theorem run_chain (s : Session) (fuel : Nat) (source : String) :
    (s.run fuel source).2.machine.chain = s.machine.chain := by
  rcases accepts_or_rejects s source with accepts | ⟨faults, after, rejects⟩
  · rw [run_accepted fuel accepts]
    have unwound := Run.interpret_unwinds fuel (s.program source) (s.bound source).machine
    refine unwound.chain.trans ?_
    rw [bound_machine]
  · rw [run_rejected fuel rejects]
    cases rejects with
    | lex | parse => rfl
    | resolve =>
      change (s.bound source).machine.chain = s.machine.chain
      rw [bound_machine]

end Session

end Lox
