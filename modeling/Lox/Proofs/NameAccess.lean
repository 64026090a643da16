import Mathlib
import Lox.Proofs.ChunkStages
import Lox.Proofs.RunOrder

/-!
Evaluation with the access to names left open. A run looks names up by the distances recorded for
them; another one that searches the chain does the same as long as both ways agree at every step.
-/

namespace Lox

/-- How names are read and overwritten. -/
structure Access where
  lookUp : ExprId → Token → Run Value
  assign : ExprId → Token → Value → Run Unit

namespace Access

/-- By the recorded distance, or in the global scope if there is none. -/
def recorded : Access := ⟨Run.lookUp, Run.assign⟩

/-- By name, along the chain in force. No distance counts. -/
def searched : Access where
  lookUp _ name := Run.ask name.line fun m => m.store.get m.chain name.lexeme
  assign _ name value := do
    let scope ← Run.ask name.line fun m => m.store.holder m.chain name.lexeme
    Run.bind scope name.lexeme value

end Access

namespace Run

section By

variable (access : Access)

mutual

/-- Variables, `this` and assignments have access to names in this way. The nodes of `super` keep their
distances. -/
def evaluateBy : Nat → Expr → Run Value
  | 0, _ => outOfFuel
  | _ + 1, .literal _ v => pure (.ofLiteral v)
  | fuel + 1, .grouping _ inner => evaluateBy fuel inner
  | fuel + 1, .unary _ operator operand => do
      let v ← evaluateBy fuel operand
      unary operator v
  | fuel + 1, .binary _ left operator right => do
      let a ← evaluateBy fuel left
      let b ← evaluateBy fuel right
      binary operator a b
  | fuel + 1, .logical _ left operator right => do
      let a ← evaluateBy fuel left
      if stopsAt operator a then pure a else evaluateBy fuel right
  | fuel + 1, .assign id name value => do
      let v ← evaluateBy fuel value
      access.assign id name v
      pure v
  | _ + 1, .var id name => access.lookUp id name
  | fuel + 1, .call _ callee paren args => do
      let f ← evaluateBy fuel callee
      match f.arity? with
      | none => raise paren.line .notCallable
      | some arity => do
          let vs ← arguments (evaluateBy fuel) args
          if vs.length ≠ arity then raise paren.line (.wrongArity arity vs.length)
          else callValue (executeBy fuel) paren.line vs f
  | fuel + 1, .get _ object name => do
      match ← evaluateBy fuel object with
      | .object i c => property i c name
      | _ => raise name.line .notInstance
  | fuel + 1, .set _ object name value => do
      match ← evaluateBy fuel object with
      | .object i _ => do
          let v ← evaluateBy fuel value
          setField i name.lexeme v
          pure v
      | _ => raise name.line .notInstance
  | _ + 1, .this id keyword => access.lookUp id keyword
  | _ + 1, .super id keyword method => superMethod id keyword method
  | fuel + 1, .comma _ left right => do
      let _ ← evaluateBy fuel left
      evaluateBy fuel right
  | fuel + 1, .ternary _ condition thenBranch elseBranch => do
      let v ← evaluateBy fuel condition
      if v.isTruthy then evaluateBy fuel thenBranch else evaluateBy fuel elseBranch

def executeBy : Nat → Stmt → Run Flow
  | 0, _ => outOfFuel
  | fuel + 1, .expression e => do
      let _ ← evaluateBy fuel e
      pure .normal
  | fuel + 1, .print e => do
      let v ← evaluateBy fuel e
      printLine v.text
      pure .normal
  | _ + 1, .varDecl name none => do
      define name.lexeme .nil
      pure .normal
  | fuel + 1, .varDecl name (some e) => do
      let v ← evaluateBy fuel e
      define name.lexeme v
      pure .normal
  | fuel + 1, .block body => do
      let chain ← observe (·.chain)
      let scope ← newScope Table.empty
      inChain (scope :: chain) (sequence (executeBy fuel) body)
  | fuel + 1, .ifThen condition thenBranch => do
      let v ← evaluateBy fuel condition
      if v.isTruthy then executeBy fuel thenBranch else pure .normal
  | fuel + 1, .ifElse condition thenBranch elseBranch => do
      let v ← evaluateBy fuel condition
      if v.isTruthy then executeBy fuel thenBranch else executeBy fuel elseBranch
  | fuel + 1, .whileLoop condition body => do
      let v ← evaluateBy fuel condition
      if v.isTruthy then
        match ← executeBy fuel body with
        | .normal => executeBy fuel (.whileLoop condition body)
        | .returned r => pure (.returned r)
      else pure .normal
  | _ + 1, .funDecl f => do
      let chain ← observe (·.chain)
      let v ← functionValue ⟨f, chain, false⟩
      define f.name.lexeme v
      pure .normal
  | _ + 1, .returnStmt _ none => pure (.returned .nil)
  | fuel + 1, .returnStmt _ (some e) => do
      let v ← evaluateBy fuel e
      pure (.returned v)
  | _ + 1, .classDecl name none methods => do
      declareClass name none methods
      pure .normal
  | fuel + 1, .classDecl name (some superclass) methods => do
      let v ← evaluateBy fuel superclass
      let c ← asSuperclass name superclass v
      declareClass name (some c) methods
      pure .normal

end

def interpretBy (fuel : Nat) : List Stmt → Run Unit
  | [] => pure ()
  | s :: ss => do
      let _ ← executeBy access fuel s
      interpretBy fuel ss

end By

end Run

section Chunks

variable (access : Access)

def Machine.runProgramBy (m : Machine) (fuel : Nat) (program : List Stmt) : Report × Machine :=
  match Run.interpretBy access fuel program m with
  | .ok _ m => (.done, m)
  | .error halt m => (.ofHalt halt, m)

namespace Session

def runStatementsBy (s : Session) (fuel : Nat) (program : List Stmt) : Report × Session :=
  match s.machine.bindProgram program with
  | (some e, machine) => (.failed [.resolve e], { s with machine := machine })
  | (none, machine) =>
      let (report, machine) := machine.runProgramBy access fuel program
      (report, { s with machine := machine })

def runTokensBy (s : Session) (fuel : Nat) (tokens : List Token) : Report × Session :=
  let reading := Grammar.recoverProgram tokens s.nextId
  let s := { s with nextId := reading.nextId }
  match syntaxErrors reading.value with
  | [] => s.runStatementsBy access fuel (statements reading.value)
  | errors => (.failed (errors.map .parse), s)

/-- Scanned, read and bound as ever, and then run with this access to names. -/
def runBy (s : Session) (fuel : Nat) (source : String) : Report × Session :=
  let items := Scan.items source
  match Scan.errors items with
  | [] => s.runTokensBy access fuel (Scan.tokens items)
  | errors => (.failed (errors.map .lex), s)

end Session

end Chunks

/-! ### Agreement -/

namespace Step

variable (access : Access)

/-- Where the step reads or overwrites a name, it comes to the same by the recorded distance. -/
def AgreesWith : Step → Prop
  | ⟨_, .expr (.var id name), m⟩ => access.lookUp id name m = Run.lookUp id name m
  | ⟨_, .expr (.this id keyword), m⟩ => access.lookUp id keyword m = Run.lookUp id keyword m
  | ⟨fuel + 1, .expr (.assign id name value), m⟩ => ∀ v n, Run.evaluate fuel value m = .ok v n →
      access.assign id name v n = Run.assign id name v n
  | _ => True

/-- The task ends with the same, and leaves the same machine. -/
def SameBy : Step → Prop
  | ⟨fuel, .expr e, m⟩ => Run.evaluateBy access fuel e m = Run.evaluate fuel e m
  | ⟨fuel, .exprs es, m⟩ =>
      Run.arguments (Run.evaluateBy access fuel) es m = Run.arguments (Run.evaluate fuel) es m
  | ⟨fuel, .stmt s, m⟩ => Run.executeBy access fuel s m = Run.execute fuel s m
  | ⟨fuel, .stmts ss, m⟩ =>
      Run.sequence (Run.executeBy access fuel) ss m = Run.sequence (Run.execute fuel) ss m
  | ⟨fuel, .program ss, m⟩ => Run.interpretBy access fuel ss m = Run.interpret fuel ss m
  | ⟨fuel, .call line vs callee, m⟩ =>
      Run.callValue (Run.executeBy access fuel) line vs callee m =
        Run.callValue (Run.execute fuel) line vs callee m
  | ⟨fuel, .body line vs closure, m⟩ =>
      Run.callClosure (Run.executeBy access fuel) line closure vs m =
        Run.callClosure (Run.execute fuel) line closure vs m

end Step

section Congruence

variable {ε σ α β : Type} {x y : EStateM ε σ α} {f g : α → EStateM ε σ β} {s : σ}

theorem bind_same (first : x s = y s) (next : ∀ a u, y s = .ok a u → f a u = g a u) :
    (x >>= f) s = (y >>= g) s := by
  simp only [bind, EStateM.bind, first]
  cases run : y s with
  | ok a u => exact next a u run
  | error e u => rfl

theorem bind_next (next : ∀ a u, x s = .ok a u → f a u = g a u) : (x >>= f) s = (x >>= g) s :=
  bind_same rfl next

theorem bind_first (first : x s = y s) : (x >>= f) s = (y >>= f) s := by
  apply bind_same first
  intro a u _
  rfl

theorem Run.inChain_same {γ : Type} {chain : Chain} {body other : Run γ} {m : Machine}
    (same : body { m with chain := chain } = other { m with chain := chain }) :
    inChain chain body m = inChain chain other m := by
  unfold inChain
  dsimp only
  rw [same]

end Congruence

namespace Step

variable {access : Access} {fuel : Nat} {m : Machine}

theorem same_expr {e : Expr} (agrees : AgreesWith access ⟨fuel, .expr e, m⟩)
    (each : ∀ part, Starts ⟨fuel, .expr e, m⟩ part → part.SameBy access) :
    Run.evaluateBy access fuel e m = Run.evaluate fuel e m := by
  cases fuel with
  | zero => cases e <;> rfl
  | succ fuel =>
    cases e with
    | literal | super => rfl
    | var | this => exact agrees
    | grouping => exact each _ .grouping
    | unary => exact bind_first (each _ .unary)
    | binary =>
      apply bind_same (each _ .binaryLeft)
      intro a n first
      exact bind_first (each _ (.binaryRight first))
    | logical id left operator right =>
      apply bind_same (each _ .logicalLeft)
      intro a n first
      cases stops : Run.stopsAt operator a with
      | true => simp only [if_true]
      | false => exact each _ (.logicalRight first stops)
    | assign id name value =>
      apply bind_same (each _ .assigned)
      intro v n first
      exact bind_first (agrees v n first)
    | call id callee paren args =>
      apply bind_same (each _ .callee)
      intro f n first
      cases callable : f.arity? with
      | none => rfl
      | some arity =>
        apply bind_same (each _ (.arguments first callable))
        intro vs o second
        by_cases fits : vs.length = arity
        · rw [if_neg (not_not.2 fits), if_neg (not_not.2 fits)]
          cases inside : f.isNative with
          | false => exact each _ (.called first second (fits ▸ callable) inside)
          | true => cases f <;> first | rfl | cases inside
        · rw [if_pos fits, if_pos fits]
    | get =>
      exact bind_first (each _ .getObject)
    | set id object name value =>
      apply bind_same (each _ .setObject)
      intro v n first
      cases v with
      | object i c => exact bind_first (each _ (.setValue first))
      | _ => rfl
    | comma =>
      apply bind_same (each _ .commaLeft)
      intro a n first
      exact each _ (.commaRight first)
    | ternary =>
      apply bind_same (each _ .ternaryCondition)
      intro a n first
      cases truth : a.isTruthy with
      | true => exact each _ (.ternaryThen first truth)
      | false => exact each _ (.ternaryElse first truth)

theorem same_stmt {t : Stmt} (each : ∀ part, Starts ⟨fuel, .stmt t, m⟩ part → part.SameBy access) :
    Run.executeBy access fuel t m = Run.execute fuel t m := by
  cases fuel with
  | zero => cases t <;> rfl
  | succ fuel =>
    cases t with
    | expression => exact bind_first (each _ .expression)
    | print => exact bind_first (each _ .print)
    | funDecl => rfl
    | varDecl name e =>
      cases e with
      | none => rfl
      | some e => exact bind_first (each _ .varDecl)
    | returnStmt keyword e =>
      cases e with
      | none => rfl
      | some e => exact bind_first (each _ .returned)
    | classDecl name e methods =>
      cases e with
      | none => rfl
      | some e => exact bind_first (each _ .superclass)
    | block body =>
      apply Run.inChain_same
      exact each _ .block
    | ifThen =>
      apply bind_same (each _ .ifThenCondition)
      intro a n first
      cases truth : a.isTruthy with
      | true => exact each _ (.ifThen first truth)
      | false => rfl
    | ifElse =>
      apply bind_same (each _ .ifElseCondition)
      intro a n first
      cases truth : a.isTruthy with
      | true => exact each _ (.ifElseThen first truth)
      | false => exact each _ (.ifElseElse first truth)
    | whileLoop =>
      apply bind_same (each _ .whileCondition)
      intro a n first
      cases truth : a.isTruthy with
      | false => rfl
      | true =>
        apply bind_same (each _ (.whileBody first truth))
        intro flow o second
        cases flow with
        | normal => exact each _ (.whileAgain first truth second)
        | returned => rfl

/-- What the parts of a step keep the step keeps, if it agrees where it reads or writes itself. -/
theorem same_of_parts {step : Step} (agrees : step.AgreesWith access)
    (each : ∀ part, Starts step part → part.SameBy access) : step.SameBy access := by
  obtain ⟨fuel, task, m⟩ := step
  cases task with
  | expr e => exact same_expr agrees each
  | stmt t => exact same_stmt each
  | exprs es =>
    cases es with
    | nil => rfl
    | cons e es =>
      apply bind_same (each _ .firstExpr)
      intro v n first
      exact bind_first (each _ (.restExprs first))
  | stmts ss =>
    cases ss with
    | nil => rfl
    | cons t ss =>
      apply bind_same (each _ .firstStmt)
      intro flow n first
      cases flow with
      | normal => exact each _ (.restStmts first)
      | returned => rfl
  | program ss =>
    cases ss with
    | nil => rfl
    | cons t ss =>
      apply bind_same (each _ .firstOfProgram)
      intro flow n first
      exact each _ (.restOfProgram first)
  | call line vs callee =>
    cases callee with
    | function i closure => exact each ⟨fuel, .body line vs closure, m⟩ .callBody
    | class_ c =>
      apply bind_next
      intro object n made
      cases found : c.method? initializerName with
      | none => rfl
      | some method =>
        apply bind_next
        intro bound o linked
        exact bind_first (each _ (.initializer made found linked))
    | _ => rfl
  | body line vs closure =>
    apply bind_next
    intro scope n opened
    cases opened
    apply bind_first
    apply Run.inChain_same
    exact each _ .body

/-- A run does the same if both ways to a name agree at every step that it comes to. -/
theorem same_of_agrees {step : Step} (agrees : ∀ part, step.Reaches part → part.AgreesWith access) :
    step.SameBy access := by
  induction step using Step.induct with
  | each step ih =>
    apply same_of_parts (agrees step .refl)
    intro part starts
    apply ih part starts
    intro inner reaches
    exact agrees inner (.head starts reaches)

theorem agrees_recorded (step : Step) : step.AgreesWith .recorded := by
  unfold AgreesWith
  split
  · rfl
  · rfl
  · intro v n _
    rfl
  · trivial

end Step

namespace Session

variable {access : Access} {s : Session} {fuel : Nat} {source : String}

/-- A chunk ends with the same and leaves the same session, if its program does so. -/
theorem runBy_same (same : (s.firstStep fuel source).SameBy access) :
    s.runBy access fuel source = s.run fuel source := by
  have ends : (s.bound source).machine.runProgramBy access fuel (s.program source) =
      (s.bound source).machine.runProgram fuel (s.program source) := by
    have first : Run.interpretBy access fuel (s.program source) (s.bound source).machine =
        Run.interpret fuel (s.program source) (s.bound source).machine := same
    cases run : Run.interpret fuel (s.program source) (s.bound source).machine with
    | ok | error => simp only [Machine.runProgramBy, Machine.runProgram, first, run]
  have statements : runStatementsBy access { s with nextId := (s.reading source).nextId } fuel
      (s.program source) =
        runStatements { s with nextId := (s.reading source).nextId } fuel (s.program source) := by
    unfold runStatementsBy runStatements
    have bound : s.machine.bindProgram (s.program source) =
        ((resolve (s.program source)).error, (s.bound source).machine) := rfl
    dsimp only
    rw [bound]
    cases (resolve (s.program source)).error with
    | some e => rfl
    | none =>
      dsimp only
      rw [ends]
  have tokens : runTokensBy access s fuel (Scan.tokens (Scan.items source)) =
      s.runTokens fuel (Scan.tokens (Scan.items source)) := by
    unfold runTokensBy runTokens
    cases errors : syntaxErrors (s.reading source).value with
    | nil =>
      unfold reading at errors
      simp only [errors]
      exact statements
    | cons =>
      unfold reading at errors
      simp only [errors]
  unfold runBy run
  cases errors : Scan.errors (Scan.items source) with
  | nil => simpa only [errors] using tokens
  | cons => simp only [errors]

/-- With the recorded distances the run is the one that there is. -/
theorem runBy_recorded : s.runBy .recorded fuel source = s.run fuel source := by
  apply runBy_same
  apply Step.same_of_agrees
  intro part _
  exact part.agrees_recorded

end Session

end Lox
