import Mathlib
import Lox.Proofs.ClassSteps
import Lox.Proofs.ScopeRecords
import Lox.Proofs.Steps

/-!
What a step does, in order: it sets parts of its task to work, and between them it writes to the
store by itself. The deeds of a step lead from the store at its start to the one at its end.
-/

namespace Lox

namespace Step

/-- The machine that the task leaves, whatever it ends with. -/
def finish : Step → Machine
  | ⟨fuel, .expr e, m⟩ => stateOf (Run.evaluate fuel e m)
  | ⟨fuel, .exprs es, m⟩ => stateOf (Run.arguments (Run.evaluate fuel) es m)
  | ⟨fuel, .stmt s, m⟩ => stateOf (Run.execute fuel s m)
  | ⟨fuel, .stmts ss, m⟩ => stateOf (Run.sequence (Run.execute fuel) ss m)
  | ⟨fuel, .program ss, m⟩ => stateOf (Run.interpret fuel ss m)
  | ⟨fuel, .call line vs callee, m⟩ => stateOf (Run.callValue (Run.execute fuel) line vs callee m)
  | ⟨fuel, .body line vs closure, m⟩ =>
      stateOf (Run.callClosure (Run.execute fuel) line closure vs m)

end Step

inductive Deed where
  | part (step : Step)
  | openScope (bindings : Table Value)
  | allocate
  | define (chain : Chain) (name : String) (value : Value)
  | bind (scope : ScopeId) (name : String) (value : Value)
  | setField (object : InstanceId) (name : String) (value : Value)

namespace Deed

/-- The store after it. -/
def leaves : Deed → Store → Store
  | part step, _ => step.finish.store
  | openScope bindings, s => s.addScope bindings
  | allocate, s => s.addInstance
  | define chain name value, s => s.define chain name value
  | bind scope name value, s => s.bind scope name value
  | setField object name value, s => s.setField object name value

/-- A part starts in the store that there is. -/
def Fits : Deed → Store → Prop
  | part step, s => step.machine.store = s
  | _, _ => True

end Deed

/-- The deeds lead from one store to the other. -/
def Passes : Store → List Deed → Store → Prop
  | s, [], t => s = t
  | s, d :: ds, t => d.Fits s ∧ Passes (d.leaves s) ds t

/-- What is done after a computation that succeeded. -/
def onOk {α : Type} (run : EStateM.Result Halt Machine α) (next : α → Machine → List Deed) :
    List Deed :=
  match run with
  | .ok a n => next a n
  | .error _ _ => []

namespace Step

section Deeds

variable (fuel : Nat) (m : Machine)

/-- A method that is found is bound in a scope of its own. -/
def boundDeeds (c : Class) (name : String) (receiver : Value) : List Deed :=
  match c.method? name with
  | some _ => [.openScope (Table.empty.insert "this" receiver)]
  | none => []

def propertyDeeds (object : InstanceId) (c : Class) (name : Token) : List Deed :=
  match (m.store.fields object).get? name.lexeme with
  | some _ => []
  | none => boundDeeds c name.lexeme (.object object c)

def superDeeds (id : ExprId) (keyword method : Token) : List Deed :=
  match m.distances[id]? with
  | none => []
  | some distance =>
      match m.store.getAt m.chain distance keyword.lexeme with
      | .ok (.class_ c) =>
          match distance with
          | 0 => []
          | inner + 1 =>
              match m.store.getAt m.chain inner "this" with
              | .ok (.object object own) => boundDeeds c method.lexeme (.object object own)
              | _ => []
      | _ => []

/-- The scope that an assignment writes to. -/
def target (id : ExprId) (name : Token) : Except RuntimeCause ScopeId :=
  match m.distances[id]? with
  | some distance => Store.ancestor m.chain distance name.lexeme
  | none => m.store.holder globalChain name.lexeme

def assignDeeds (id : ExprId) (name : Token) (value : Value) : List Deed :=
  match target m id name with
  | .ok scope => [.bind scope name.lexeme value]
  | .error _ => []

def exprDeeds : Expr → List Deed
  | .literal _ _ => []
  | .grouping _ inner => [.part ⟨fuel, .expr inner, m⟩]
  | .unary _ _ operand => [.part ⟨fuel, .expr operand, m⟩]
  | .binary _ left _ right =>
      .part ⟨fuel, .expr left, m⟩ :: onOk (Run.evaluate fuel left m) fun _ n =>
        [.part ⟨fuel, .expr right, n⟩]
  | .logical _ left operator right =>
      .part ⟨fuel, .expr left, m⟩ :: onOk (Run.evaluate fuel left m) fun a n =>
        if Run.stopsAt operator a then [] else [.part ⟨fuel, .expr right, n⟩]
  | .assign id name value =>
      .part ⟨fuel, .expr value, m⟩ :: onOk (Run.evaluate fuel value m) fun v n =>
        assignDeeds n id name v
  | .var _ _ => []
  | .call _ callee paren args =>
      .part ⟨fuel, .expr callee, m⟩ :: onOk (Run.evaluate fuel callee m) fun f n =>
        match f.arity? with
        | none => []
        | some arity =>
            .part ⟨fuel, .exprs args, n⟩ :: onOk (Run.arguments (Run.evaluate fuel) args n) fun vs o =>
              if vs.length ≠ arity then []
              else if f.isNative then []
              else [.part ⟨fuel, .call paren.line vs f, o⟩]
  | .get _ object name =>
      .part ⟨fuel, .expr object, m⟩ :: onOk (Run.evaluate fuel object m) fun v n =>
        match v with
        | .object i c => propertyDeeds n i c name
        | _ => []
  | .set _ object name value =>
      .part ⟨fuel, .expr object, m⟩ :: onOk (Run.evaluate fuel object m) fun v n =>
        match v with
        | .object i _ =>
            .part ⟨fuel, .expr value, n⟩ :: onOk (Run.evaluate fuel value n) fun v _ =>
              [.setField i name.lexeme v]
        | _ => []
  | .this _ _ => []
  | .super id keyword method => superDeeds m id keyword method
  | .comma _ left right =>
      .part ⟨fuel, .expr left, m⟩ :: onOk (Run.evaluate fuel left m) fun _ n =>
        [.part ⟨fuel, .expr right, n⟩]
  | .ternary _ condition yes no =>
      .part ⟨fuel, .expr condition, m⟩ :: onOk (Run.evaluate fuel condition m) fun v n =>
        if v.isTruthy then [.part ⟨fuel, .expr yes, n⟩] else [.part ⟨fuel, .expr no, n⟩]

def exprsDeeds : List Expr → List Deed
  | [] => []
  | e :: es =>
      .part ⟨fuel, .expr e, m⟩ :: onOk (Run.evaluate fuel e m) fun _ n => [.part ⟨fuel, .exprs es, n⟩]

/-- The scope of the superclass is opened before the class is made. -/
def parentDeeds : Option Class → List Deed
  | none => []
  | some c => [.openScope (Table.empty.insert "super" (.class_ c))]

/-- The class is bound where its name was defined. -/
def madeDeeds (name : Token) (superclass : Option Class) (methods : List FunctionDecl) : List Deed :=
  match ((m.store.define m.chain name.lexeme .nil).forMethods superclass).holder m.chain
    name.lexeme with
  | .ok scope => [.bind scope name.lexeme (.class_ (m.declared name superclass methods))]
  | .error _ => []

def classDeeds (name : Token) (superclass : Option Class) (methods : List FunctionDecl) : List Deed :=
  .define m.chain name.lexeme .nil :: (parentDeeds superclass ++ madeDeeds m name superclass methods)

def stmtDeeds : Stmt → List Deed
  | .expression e => [.part ⟨fuel, .expr e, m⟩]
  | .print e => [.part ⟨fuel, .expr e, m⟩]
  | .varDecl name none => [.define m.chain name.lexeme .nil]
  | .varDecl name (some e) =>
      .part ⟨fuel, .expr e, m⟩ :: onOk (Run.evaluate fuel e m) fun v n =>
        [.define n.chain name.lexeme v]
  | .block body => [.openScope Table.empty, .part ⟨fuel, .stmts body, opened m⟩]
  | .ifThen condition yes =>
      .part ⟨fuel, .expr condition, m⟩ :: onOk (Run.evaluate fuel condition m) fun v n =>
        if v.isTruthy then [.part ⟨fuel, .stmt yes, n⟩] else []
  | .ifElse condition yes no =>
      .part ⟨fuel, .expr condition, m⟩ :: onOk (Run.evaluate fuel condition m) fun v n =>
        if v.isTruthy then [.part ⟨fuel, .stmt yes, n⟩] else [.part ⟨fuel, .stmt no, n⟩]
  | .whileLoop condition body =>
      .part ⟨fuel, .expr condition, m⟩ :: onOk (Run.evaluate fuel condition m) fun v n =>
        if v.isTruthy then
          .part ⟨fuel, .stmt body, n⟩ :: onOk (Run.execute fuel body n) fun flow o =>
            match flow with
            | .normal => [.part ⟨fuel, .stmt (.whileLoop condition body), o⟩]
            | .returned _ => []
        else []
  | .funDecl f =>
      [.define m.chain f.name.lexeme (.function m.nextIdentity ⟨f, m.chain, false⟩)]
  | .returnStmt _ none => []
  | .returnStmt _ (some e) => [.part ⟨fuel, .expr e, m⟩]
  | .classDecl name none methods => classDeeds m name none methods
  | .classDecl name (some e) methods =>
      .part ⟨fuel, .expr e, m⟩ :: onOk (Run.evaluate fuel e m) fun v n =>
        match v with
        | .class_ c => classDeeds n name (some c) methods
        | _ => []

def stmtsDeeds : List Stmt → List Deed
  | [] => []
  | s :: ss =>
      .part ⟨fuel, .stmt s, m⟩ :: onOk (Run.execute fuel s m) fun flow n =>
        match flow with
        | .normal => [.part ⟨fuel, .stmts ss, n⟩]
        | .returned _ => []

def programDeeds : List Stmt → List Deed
  | [] => []
  | s :: ss =>
      .part ⟨fuel, .stmt s, m⟩ :: onOk (Run.execute fuel s m) fun _ n => [.part ⟨fuel, .program ss, n⟩]

def bodyDeeds (closure : Closure) (vs : List Value) : List Deed :=
  let names := closure.function.parameters.map (·.lexeme)
  [.openScope (Table.empty.insertAll (names.zip vs)),
    .part ⟨fuel, .stmts closure.function.body, entered m closure vs⟩]

def callDeeds (line : Nat) (vs : List Value) : Value → List Deed
  | .function _ closure => [.part ⟨fuel, .body line vs closure, m⟩]
  | .class_ c =>
      .allocate :: onOk (Run.newInstance c m) fun object n =>
        match c.method? initializerName with
        | none => []
        | some method =>
            .openScope (Table.empty.insert "this" object) ::
              onOk (Run.bindMethod method object n) fun bound o =>
                [.part ⟨fuel, .body line vs bound, o⟩]
  | _ => []

end Deeds

/-- Without fuel nothing is done. -/
def fueled (next : Nat → List Deed) : Nat → List Deed
  | 0 => []
  | fuel + 1 => next fuel

/-- What the step does, one thing after the other. -/
def deeds : Step → List Deed
  | ⟨fuel, .expr e, m⟩ => fueled (fun fuel => exprDeeds fuel m e) fuel
  | ⟨fuel, .exprs es, m⟩ => exprsDeeds fuel m es
  | ⟨fuel, .stmt s, m⟩ => fueled (fun fuel => stmtDeeds fuel m s) fuel
  | ⟨fuel, .stmts ss, m⟩ => stmtsDeeds fuel m ss
  | ⟨fuel, .program ss, m⟩ => programDeeds fuel m ss
  | ⟨fuel, .call line vs callee, m⟩ => callDeeds fuel m line vs callee
  | ⟨fuel, .body _ vs closure, m⟩ => bodyDeeds fuel m closure vs

/-- A step does what it starts. -/
theorem Starts.deed {step part : Step} (starts : Starts step part) : .part part ∈ step.deeds := by
  cases starts <;>
    simp_all [deeds, fueled, exprDeeds, exprsDeeds, stmtDeeds, stmtsDeeds, programDeeds, bodyDeeds, callDeeds,
      onOk]

section Parts

variable {α : Type} {run : EStateM.Result Halt Machine α} {next : α → Machine → List Deed}
  {part : Step} {d : Deed} {fuel : Nat} {m : Machine}

theorem mem_onOk : d ∈ onOk run next ↔ ∃ a n, run = .ok a n ∧ d ∈ next a n := by
  cases run <;> simp [onOk]

theorem part_not_mem_boundDeeds {c : Class} {name : String} {receiver : Value} :
    .part part ∉ boundDeeds c name receiver := by
  unfold boundDeeds
  split <;> simp

theorem part_not_mem_propertyDeeds {i : InstanceId} {c : Class} {name : Token} :
    .part part ∉ propertyDeeds m i c name := by
  unfold propertyDeeds
  split
  · simp
  · exact part_not_mem_boundDeeds

theorem part_not_mem_superDeeds {id : ExprId} {keyword method : Token} :
    .part part ∉ superDeeds m id keyword method := by
  unfold superDeeds
  repeat' split
  all_goals first | exact part_not_mem_boundDeeds | simp

theorem part_not_mem_assignDeeds {id : ExprId} {name : Token} {v : Value} :
    .part part ∉ assignDeeds m id name v := by
  unfold assignDeeds
  split <;> simp

theorem part_not_mem_classDeeds {name : Token} {superclass : Option Class}
    {methods : List FunctionDecl} : .part part ∉ classDeeds m name superclass methods := by
  unfold classDeeds madeDeeds
  cases superclass <;> split <;> simp [parentDeeds]

theorem starts_of_exprDeeds {e : Expr} (among : .part part ∈ exprDeeds fuel m e) :
    Starts ⟨fuel + 1, .expr e, m⟩ part := by
  cases e with
  | literal | var | this => cases among
  | super => exact absurd among part_not_mem_superDeeds
  | grouping =>
    simp only [exprDeeds, List.mem_singleton, Deed.part.injEq] at among
    subst among
    exact .grouping
  | unary =>
    simp only [exprDeeds, List.mem_singleton, Deed.part.injEq] at among
    subst among
    exact .unary
  | binary | comma =>
    simp only [exprDeeds, List.mem_cons, Deed.part.injEq, mem_onOk, List.not_mem_nil, or_false] at among
    rcases among with rfl | ⟨a, n, first, rfl⟩
    · constructor
    · constructor
      exact first
  | logical id left operator right =>
    simp only [exprDeeds, List.mem_cons, Deed.part.injEq, mem_onOk] at among
    rcases among with rfl | ⟨a, n, first, among⟩
    · exact .logicalLeft
    · split at among
      · cases among
      · rename_i goesOn
        simp only [List.mem_singleton, Deed.part.injEq] at among
        subst among
        exact .logicalRight first (Bool.eq_false_iff.2 goesOn)
  | assign id name value =>
    simp only [exprDeeds, List.mem_cons, Deed.part.injEq, mem_onOk] at among
    rcases among with rfl | ⟨a, n, first, among⟩
    · exact .assigned
    · exact absurd among part_not_mem_assignDeeds
  | call id callee paren args =>
    simp only [exprDeeds, List.mem_cons, Deed.part.injEq, mem_onOk] at among
    rcases among with rfl | ⟨f, n, first, among⟩
    · exact .callee
    · split at among
      · cases among
      · rename_i arity callable
        simp only [List.mem_cons, Deed.part.injEq, mem_onOk] at among
        rcases among with rfl | ⟨vs, o, second, among⟩
        · exact .arguments first callable
        · split at among
          · cases among
          · rename_i fits
            split at among
            · cases among
            · rename_i inside
              simp only [List.mem_singleton, Deed.part.injEq] at among
              subst among
              rw [not_not] at fits
              exact .called first second (fits ▸ callable) (Bool.eq_false_iff.2 inside)
  | get id object name =>
    simp only [exprDeeds, List.mem_cons, Deed.part.injEq, mem_onOk] at among
    rcases among with rfl | ⟨v, n, first, among⟩
    · exact .getObject
    · cases v with
      | object => exact absurd among part_not_mem_propertyDeeds
      | _ => cases among
  | set id object name value =>
    simp only [exprDeeds, List.mem_cons, Deed.part.injEq, mem_onOk] at among
    rcases among with rfl | ⟨v, n, first, among⟩
    · exact .setObject
    · cases v with
      | object i c =>
        simp only [List.mem_cons, Deed.part.injEq, mem_onOk, List.not_mem_nil, or_false, reduceCtorEq,
          and_false, exists_false] at among
        subst among
        exact .setValue first
      | _ => cases among
  | ternary id condition yes no =>
    simp only [exprDeeds, List.mem_cons, Deed.part.injEq, mem_onOk] at among
    rcases among with rfl | ⟨v, n, first, among⟩
    · exact .ternaryCondition
    · split at among <;> rename_i truth <;>
        simp only [List.mem_singleton, Deed.part.injEq] at among <;> subst among
      · exact .ternaryThen first truth
      · exact .ternaryElse first (Bool.eq_false_iff.2 truth)

theorem starts_of_stmtDeeds {s : Stmt} (among : .part part ∈ stmtDeeds fuel m s) :
    Starts ⟨fuel + 1, .stmt s, m⟩ part := by
  cases s with
  | expression =>
    simp only [stmtDeeds, List.mem_singleton, Deed.part.injEq] at among
    subst among
    exact .expression
  | print =>
    simp only [stmtDeeds, List.mem_singleton, Deed.part.injEq] at among
    subst among
    exact .print
  | varDecl name e =>
    cases e with
    | none => simp [stmtDeeds] at among
    | some e =>
      simp only [stmtDeeds, List.mem_cons, Deed.part.injEq, mem_onOk, List.not_mem_nil, or_false,
        reduceCtorEq, and_false, exists_false] at among
      subst among
      exact .varDecl
  | block body =>
    simp only [stmtDeeds, List.mem_cons, reduceCtorEq, Deed.part.injEq, List.not_mem_nil, or_false,
      false_or] at among
    subst among
    exact .block
  | ifThen condition yes =>
    simp only [stmtDeeds, List.mem_cons, Deed.part.injEq, mem_onOk] at among
    rcases among with rfl | ⟨v, n, first, among⟩
    · exact .ifThenCondition
    · split at among
      · rename_i truth
        simp only [List.mem_singleton, Deed.part.injEq] at among
        subst among
        exact .ifThen first truth
      · cases among
  | ifElse condition yes no =>
    simp only [stmtDeeds, List.mem_cons, Deed.part.injEq, mem_onOk] at among
    rcases among with rfl | ⟨v, n, first, among⟩
    · exact .ifElseCondition
    · split at among <;> rename_i truth <;>
        simp only [List.mem_singleton, Deed.part.injEq] at among <;> subst among
      · exact .ifElseThen first truth
      · exact .ifElseElse first (Bool.eq_false_iff.2 truth)
  | whileLoop condition body =>
    simp only [stmtDeeds, List.mem_cons, Deed.part.injEq, mem_onOk] at among
    rcases among with rfl | ⟨v, n, first, among⟩
    · exact .whileCondition
    · split at among
      · rename_i truth
        simp only [List.mem_cons, Deed.part.injEq, mem_onOk] at among
        rcases among with rfl | ⟨flow, o, second, among⟩
        · exact .whileBody first truth
        · cases flow with
          | normal =>
            simp only [List.mem_singleton, Deed.part.injEq] at among
            subst among
            exact .whileAgain first truth second
          | returned => cases among
      · cases among
  | funDecl f => simp [stmtDeeds] at among
  | returnStmt keyword e =>
    cases e with
    | none => simp [stmtDeeds] at among
    | some e =>
      simp only [stmtDeeds, List.mem_singleton, Deed.part.injEq] at among
      subst among
      exact .returned
  | classDecl name e methods =>
    cases e with
    | none => exact absurd among part_not_mem_classDeeds
    | some e =>
      simp only [stmtDeeds, List.mem_cons, Deed.part.injEq, mem_onOk] at among
      rcases among with rfl | ⟨v, n, first, among⟩
      · exact .superclass
      · cases v with
        | class_ c => exact absurd among part_not_mem_classDeeds
        | _ => cases among

/-- A step starts what it does. -/
theorem starts_of_deed {step : Step} (among : .part part ∈ step.deeds) : Starts step part := by
  obtain ⟨fuel, task, m⟩ := step
  cases task with
  | expr e =>
    cases fuel with
    | zero => cases among
    | succ fuel => exact starts_of_exprDeeds among
  | stmt s =>
    cases fuel with
    | zero => cases among
    | succ fuel => exact starts_of_stmtDeeds among
  | exprs es =>
    cases es with
    | nil => cases among
    | cons e es =>
      simp only [deeds, exprsDeeds, List.mem_cons, Deed.part.injEq, mem_onOk, List.not_mem_nil,
        or_false] at among
      rcases among with rfl | ⟨v, n, first, rfl⟩
      · exact .firstExpr
      · exact .restExprs first
  | stmts ss =>
    cases ss with
    | nil => cases among
    | cons s ss =>
      simp only [deeds, stmtsDeeds, List.mem_cons, Deed.part.injEq, mem_onOk] at among
      rcases among with rfl | ⟨flow, n, first, among⟩
      · exact .firstStmt
      · cases flow with
        | normal =>
          simp only [List.mem_singleton, Deed.part.injEq] at among
          subst among
          exact .restStmts first
        | returned => cases among
  | program ss =>
    cases ss with
    | nil => cases among
    | cons s ss =>
      simp only [deeds, programDeeds, List.mem_cons, Deed.part.injEq, mem_onOk, List.not_mem_nil,
        or_false] at among
      rcases among with rfl | ⟨flow, n, first, rfl⟩
      · exact .firstOfProgram
      · exact .restOfProgram first
  | call line vs callee =>
    cases callee with
    | function i closure =>
      simp only [deeds, callDeeds, List.mem_singleton, Deed.part.injEq] at among
      subst among
      exact .callBody
    | class_ c =>
      simp only [deeds, callDeeds, List.mem_cons, reduceCtorEq, mem_onOk, false_or] at among
      obtain ⟨object, n, made, among⟩ := among
      split at among
      · cases among
      · rename_i method found
        simp only [List.mem_cons, reduceCtorEq, mem_onOk, false_or, Deed.part.injEq,
          List.not_mem_nil, or_false] at among
        obtain ⟨bound, o, linked, rfl⟩ := among
        exact .initializer made found linked
    | _ => cases among
  | body line vs closure =>
    simp only [deeds, bodyDeeds, List.mem_cons, reduceCtorEq, Deed.part.injEq, List.not_mem_nil,
      or_false, false_or] at among
    subst among
    exact .body

end Parts

end Step

/-! ### From the first store to the last -/

open Step

/-- The computation leaves the store as it is. -/
def Still {α : Type} (run : Run α) : Prop := ∀ m, (stateOf (run m)).store = m.store

section Still

variable {α β : Type} {run : Run α} {f : α → Run β}

theorem Still.pure (a : α) : Still (pure a : Run α) := fun _ => rfl

theorem Still.raise (line : Nat) (cause : RuntimeCause) : Still (Run.raise line cause : Run α) :=
  fun _ => rfl

theorem Still.bind (first : Still run) (second : ∀ a, Still (f a)) : Still (run >>= f) := by
  intro m
  have begun := first m
  cases ended : run m with
  | error h n =>
    rw [ended] at begun
    rw [bind_of_error ended]
    exact begun
  | ok a n =>
    rw [ended] at begun
    rw [bind_of_ok ended]
    exact (second a n).trans begun

theorem Still.observe (g : Machine → α) : Still (Run.observe g) := fun _ => rfl

theorem Still.ask (line : Nat) (g : Machine → Except RuntimeCause α) : Still (Run.ask line g) := by
  refine (Still.observe g).bind fun answer => ?_
  cases answer with
  | ok a => exact .pure a
  | error cause => exact .raise line cause

theorem lookUp_still (id : ExprId) (name : Token) : Still (Run.lookUp id name) := .ask _ _

theorem unary_still (operator : Token) (v : Value) : Still (Run.unary operator v) := by
  unfold Run.unary
  split
  · unfold Run.negate
    split
    · exact .pure _
    · exact .raise _ _
  · exact .pure _
  · exact .raise _ _

theorem binary_still (operator : Token) (a b : Value) : Still (Run.binary operator a b) := by
  unfold Run.binary Run.add Run.onNumbers Run.arithmetic
  repeat' split
  all_goals first | exact .pure _ | exact .raise _ _

theorem callNative_still (native : Native) (line : Nat) (vs : List Value) :
    Still (Run.callNative native line vs) := by
  unfold Run.callNative
  repeat' split
  all_goals first | exact .pure _ | exact .raise _ _ | exact fun _ => rfl

theorem printLine_still (text : String) : Still (Run.printLine text) := by
  intro m
  unfold Run.printLine
  dsimp only
  split <;> rfl

end Still

section Passing

variable {α β : Type} {run : Run α} {f : α → Run β} {next : α → Machine → List Deed}
  {m : Machine} {part : Step} {s t : Store} {fuel : Nat}

theorem Passes.append {ds more : List Deed} :
    Passes s (ds ++ more) t ↔ ∃ u, Passes s ds u ∧ Passes u more t := by
  induction ds generalizing s with
  | nil => exact ⟨fun passes => ⟨s, rfl, passes⟩, fun ⟨_, same, passes⟩ => same ▸ passes⟩
  | cons d ds ih =>
    rw [List.cons_append, Passes, ih]
    constructor
    · rintro ⟨fits, u, first, second⟩
      exact ⟨u, ⟨fits, first⟩, second⟩
    · rintro ⟨u, ⟨fits, first⟩, second⟩
      exact ⟨fits, u, first, second⟩

/-- A part is set to work, and what follows it goes on from where it ends. -/
theorem Passes.first (fits : part.machine = m) (ends : part.finish = stateOf (run m))
    (rest : ∀ a n, run m = .ok a n → Passes n.store (next a n) (stateOf (f a n)).store) :
    Passes m.store (.part part :: onOk (run m) next) (stateOf ((run >>= f) m)).store := by
  refine ⟨congrArg Machine.store fits, ?_⟩
  show Passes part.finish.store _ _
  rw [ends]
  cases ended : run m with
  | error h n =>
    rw [bind_of_error ended]
    exact rfl
  | ok a n =>
    rw [bind_of_ok ended]
    exact rest a n ended

theorem Passes.last (fits : part.machine = m) (ends : part.finish = stateOf (run m))
    (rest : ∀ a, Still (f a)) :
    Passes m.store [.part part] (stateOf ((run >>= f) m)).store := by
  have passes : Passes m.store (.part part :: onOk (run m) fun _ _ => [])
      (stateOf ((run >>= f) m)).store := .first fits ends fun a n _ => (rest a n).symm
  cases ended : run m <;> rw [ended] at passes <;> exact passes

theorem Passes.only (fits : part.machine = m) (ends : part.finish = stateOf (run m)) :
    Passes m.store [.part part] (stateOf (run m)).store :=
  ⟨congrArg Machine.store fits, congrArg Machine.store ends⟩

theorem bound_passes (c : Class) (name line : Token) (receiver : Value)
    (cause : RuntimeCause) :
    Passes m.store (boundDeeds c name.lexeme receiver) (stateOf
      ((match c.method? name.lexeme with
        | some method => do
            let bound ← Run.bindMethod method receiver
            Run.functionValue bound
        | none => Run.raise line.line cause : Run Value) m)).store := by
  unfold boundDeeds
  cases c.method? name.lexeme with
  | none => exact rfl
  | some method => exact ⟨trivial, rfl⟩

theorem property_passes (i : InstanceId) (c : Class) (name : Token) :
    Passes m.store (propertyDeeds m i c name) (stateOf (Run.property i c name m)).store := by
  unfold propertyDeeds Run.property
  rw [bind_of_ok (show Run.observe _ m = .ok _ m from rfl)]
  cases (m.store.fields i).get? name.lexeme with
  | some v => exact rfl
  | none => exact bound_passes c name name (.object i c) _

theorem super_passes (id : ExprId) (keyword method : Token) :
    Passes m.store (superDeeds m id keyword method)
      (stateOf (Run.superMethod id keyword method m)).store := by
  unfold superDeeds Run.superMethod
  rw [bind_of_ok (show Run.observe _ m = .ok _ m from rfl)]
  cases m.distances[id]? with
  | none => exact rfl
  | some distance =>
    dsimp only
    cases parent : m.store.getAt m.chain distance keyword.lexeme with
    | error cause =>
      rw [bind_of_error (Run.ask_error parent)]
      exact rfl
    | ok v =>
      rw [bind_of_ok (Run.ask_ok parent)]
      cases v with
      | class_ c =>
        cases distance with
        | zero => exact rfl
        | succ inner =>
          dsimp only
          cases receiver : m.store.getAt m.chain inner "this" with
          | error cause =>
            rw [bind_of_error (Run.ask_error receiver)]
            exact rfl
          | ok u =>
            rw [bind_of_ok (Run.ask_ok receiver)]
            cases u with
            | object i own => exact bound_passes c method method (.object i own) _
            | _ => exact rfl
      | _ => exact rfl

theorem assign_passes (id : ExprId) (name : Token) (v : Value) :
    Passes m.store (assignDeeds m id name v)
      (stateOf ((do Run.assign id name v; pure v : Run Value) m)).store := by
  unfold assignDeeds
  cases found : target m id name with
  | error cause =>
    have failed : Run.assign id name v m = .error _ m := bind_of_error (Run.ask_error found)
    rw [bind_of_error failed]
    exact rfl
  | ok scope =>
    have done : Run.assign id name v m = .ok () _ := bind_of_ok (Run.ask_ok found)
    rw [bind_of_ok done]
    exact ⟨trivial, rfl⟩

theorem class_passes (name : Token) (superclass : Option Class) (methods : List FunctionDecl) :
    Passes m.store (classDeeds m name superclass methods)
      (stateOf (Run.declareClass name superclass methods m)).store := by
  let defined : Machine := { m with store := m.store.define m.chain name.lexeme .nil }
  let declared : Machine := { defined with
    store := defined.store.forMethods superclass, nextIdentity := m.nextIdentity + 1 }
  have opens : Passes defined.store (parentDeeds superclass) declared.store := by
    cases superclass with
    | none => exact rfl
    | some c => exact ⟨trivial, rfl⟩
  have rest {g : Chain → Run Unit} : (Run.methodChain superclass >>= g) defined =
      g (defined.store.methodChain m.chain superclass) { declared with nextIdentity := m.nextIdentity } :=
    bind_of_ok (Run.methodChain_ok superclass)
  refine ⟨trivial, Passes.append.2 ⟨declared.store, opens, ?_⟩⟩
  have ended : Run.declareClass name superclass methods m =
      (do
        let scope ← Run.ask name.line fun m => m.store.holder m.chain name.lexeme
        Run.bind scope name.lexeme (.class_ (m.declared name superclass methods))) declared := by
    unfold Run.declareClass
    rw [bind_of_ok (show Run.define name.lexeme .nil m = .ok () defined from rfl), rest]
    rfl
  have holds : ((m.store.define m.chain name.lexeme .nil).forMethods superclass).holder m.chain
      name.lexeme = declared.store.holder m.chain name.lexeme := rfl
  rw [ended, madeDeeds, holds]
  cases found : declared.store.holder m.chain name.lexeme with
  | error cause =>
    rw [bind_of_error (Run.ask_error found)]
    exact rfl
  | ok scope =>
    rw [bind_of_ok (Run.ask_ok found)]
    exact ⟨trivial, rfl⟩

theorem after_still (rest : ∀ a, Still (f a)) :
    (stateOf ((run >>= f) m)).store = (stateOf (run m)).store := by
  cases ended : run m with
  | error h n =>
    rw [bind_of_error ended]
    rfl
  | ok a n =>
    rw [bind_of_ok ended]
    exact rest a n

theorem inChain_store (chain : Chain) :
    (stateOf (Run.inChain chain run m)).store = (stateOf (run { m with chain := chain })).store := by
  unfold Run.inChain
  dsimp only
  cases run { m with chain := chain } <;> rfl

theorem body_passes (line : Nat) (closure : Closure) (vs : List Value) :
    Passes m.store (bodyDeeds fuel m closure vs)
      (stateOf (Run.callClosure (Run.execute fuel) line closure vs m)).store := by
  refine ⟨trivial, rfl, ?_⟩
  let names := closure.function.parameters.map (·.lexeme)
  let store := m.store.addScope (Table.empty.insertAll (names.zip vs))
  have ended : Run.callClosure (Run.execute fuel) line closure vs m =
      (do
        let flow ← Run.inChain (store.lastScope :: closure.chain)
          (Run.sequence (Run.execute fuel) closure.function.body)
        if closure.isInitializer then Run.ask line fun m => m.store.getAt closure.chain 0 "this"
        else pure flow.value) { m with store := store } := rfl
  rw [ended, after_still, inChain_store]
  · rfl
  · intro flow
    split
    · exact .ask _ _
    · exact .pure _

theorem construct_passes (line : Nat) (vs : List Value) (c : Class) :
    Passes m.store (callDeeds fuel m line vs (.class_ c))
      (stateOf (Run.callValue (Run.execute fuel) line vs (.class_ c) m)).store := by
  let n : Machine := { m with store := m.store.addInstance }
  let object : Value := .object n.store.lastInstance c
  have made : Run.newInstance c m = .ok object n := rfl
  have ended : Run.callValue (Run.execute fuel) line vs (.class_ c) m =
      (match c.method? initializerName with
        | some method => do
            let bound ← Run.bindMethod method object
            let _ ← Run.callClosure (Run.execute fuel) line bound vs
            pure object
        | none => pure object : Run Value) n := bind_of_ok made
  refine ⟨trivial, ?_⟩
  rw [ended, made]
  dsimp only [onOk]
  cases c.method? initializerName with
  | none => exact rfl
  | some method =>
    refine ⟨trivial, rfl, ?_⟩
    dsimp only
    rw [bind_of_ok (show Run.bindMethod method object n = .ok _ _ from rfl),
      after_still fun _ => .pure _]
    rfl

theorem expr_passes (e : Expr) :
    Passes m.store (exprDeeds fuel m e) (stateOf (Run.evaluate (fuel + 1) e m)).store := by
  cases e with
  | literal => exact rfl
  | grouping => exact .only rfl rfl
  | unary _ operator _ => exact .last rfl rfl (unary_still operator)
  | binary _ _ operator _ =>
    exact .first rfl rfl fun a n _ => .last rfl rfl fun b => binary_still operator a b
  | logical _ _ operator _ =>
    refine .first rfl rfl fun a n _ => ?_
    split
    · exact rfl
    · exact .only rfl rfl
  | assign id name _ => exact .first rfl rfl fun v n _ => assign_passes id name v
  | var id name => exact (lookUp_still id name m).symm
  | call id callee paren args =>
    refine .first rfl rfl fun v n _ => ?_
    cases v.arity? with
    | none => exact rfl
    | some arity =>
      refine .first rfl rfl fun vs o _ => ?_
      split
      · exact rfl
      · split
        · rename_i inside
          cases v with
          | native i native => exact (callNative_still native paren.line vs o).symm
          | _ => cases inside
        · exact .only rfl rfl
  | get _ _ name =>
    refine .first rfl rfl fun v n _ => ?_
    cases v with
    | object i c => exact property_passes i c name
    | _ => exact rfl
  | set =>
    refine .first rfl rfl fun v n _ => ?_
    cases v with
    | object i c => exact .first rfl rfl fun v o _ => ⟨trivial, rfl⟩
    | _ => exact rfl
  | this id keyword => exact (lookUp_still id keyword m).symm
  | super id keyword method => exact super_passes id keyword method
  | comma => exact .first rfl rfl fun _ n _ => .only rfl rfl
  | ternary =>
    refine .first rfl rfl fun v n _ => ?_
    split
    · exact .only rfl rfl
    · exact .only rfl rfl

def Value.isClass : Value → Bool
  | .class_ _ => true
  | _ => false

theorem asSuperclass_refuses (name : Token) (e : Expr) {v : Value} (other : v.isClass = false) :
    ∃ h, Run.asSuperclass name e v m = .error h m := by
  cases v with
  | class_ => cases other
  | _ => cases e <;> exact ⟨_, rfl⟩

theorem stmt_passes (s : Stmt) :
    Passes m.store (stmtDeeds fuel m s) (stateOf (Run.execute (fuel + 1) s m)).store := by
  cases s with
  | expression => exact .last rfl rfl fun _ => .pure _
  | print => exact .last rfl rfl fun v => (printLine_still _).bind fun _ => .pure _
  | varDecl name e =>
    cases e with
    | none => exact ⟨trivial, rfl⟩
    | some e => exact .first rfl rfl fun v n _ => ⟨trivial, rfl⟩
  | block body =>
    have ended : Run.execute (fuel + 1) (.block body) m =
        Run.inChain ((m.store.addScope Table.empty).lastScope :: m.chain)
          (Run.sequence (Run.execute fuel) body) { m with store := m.store.addScope Table.empty } := rfl
    refine ⟨trivial, rfl, ?_⟩
    rw [ended, inChain_store]
    rfl
  | ifThen =>
    refine .first rfl rfl fun v n _ => ?_
    split
    · exact .only rfl rfl
    · exact rfl
  | ifElse =>
    refine .first rfl rfl fun v n _ => ?_
    split
    · exact .only rfl rfl
    · exact .only rfl rfl
  | whileLoop =>
    refine .first rfl rfl fun v n _ => ?_
    split
    · refine .first rfl rfl fun flow o _ => ?_
      cases flow with
      | normal => exact .only rfl rfl
      | returned v => exact rfl
    · exact rfl
  | funDecl f => exact ⟨trivial, rfl⟩
  | returnStmt keyword e =>
    cases e with
    | none => exact rfl
    | some e => exact .last rfl rfl fun _ => .pure _
  | classDecl name e methods =>
    cases e with
    | none =>
      have ended : (stateOf (Run.execute (fuel + 1) (.classDecl name none methods) m)).store =
          (stateOf (Run.declareClass name none methods m)).store := after_still fun _ => .pure _
      rw [ended]
      exact class_passes name none methods
    | some e =>
      refine .first rfl rfl fun v n _ => ?_
      have other : ∀ v : Value, v.isClass = false → Passes n.store [] (stateOf ((do
          let c ← Run.asSuperclass name e v
          Run.declareClass name (some c) methods
          pure Flow.normal : Run Flow) n)).store := by
        intro v isNot
        obtain ⟨h, refused⟩ := asSuperclass_refuses (m := n) name e isNot
        rw [bind_of_error refused]
        exact rfl
      cases v with
      | class_ c =>
        have ended : (stateOf ((do
            let c ← Run.asSuperclass name e (.class_ c)
            Run.declareClass name (some c) methods
            pure Flow.normal : Run Flow) n)).store =
              (stateOf (Run.declareClass name (some c) methods n)).store := after_still fun _ => .pure _
        rw [ended]
        exact class_passes name (some c) methods
      | _ =>
        refine other _ ?_
        rfl

/-- What a step does leads from the store at its start to that at its end. -/
theorem Step.passes (step : Step) : Passes step.machine.store step.deeds step.finish.store := by
  obtain ⟨fuel, task, m⟩ := step
  cases task with
  | expr e =>
    cases fuel with
    | zero => exact rfl
    | succ fuel => exact expr_passes e
  | stmt s =>
    cases fuel with
    | zero => exact rfl
    | succ fuel => exact stmt_passes s
  | exprs es =>
    cases es with
    | nil => exact rfl
    | cons e es => exact .first rfl rfl fun v n _ => .last rfl rfl fun _ => .pure _
  | stmts ss =>
    cases ss with
    | nil => exact rfl
    | cons s ss =>
      refine .first rfl rfl fun flow n _ => ?_
      cases flow with
      | normal => exact .only rfl rfl
      | returned v => exact rfl
  | program ss =>
    cases ss with
    | nil => exact rfl
    | cons s ss => exact .first rfl rfl fun _ n _ => .only rfl rfl
  | call line vs callee =>
    cases callee with
    | function i closure => exact .only rfl rfl
    | native i native => exact (callNative_still native line vs m).symm
    | class_ c => exact construct_passes line vs c
    | _ => exact rfl
  | body line vs closure => exact body_passes line closure vs

end Passing

end Lox
