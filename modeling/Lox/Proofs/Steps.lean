import Lox.Evaluation
import Mathlib.Logic.Relation

/-!
What a run consists of. A task is one of the things that a run does: evaluate an expression, execute
a statement, call a value, or one of these for a list. A task set to work on a machine starts other
tasks, each on the machine that those before it have left. The steps of a run are the tasks that it
starts, those that these start, and so on.
-/

namespace Lox

/-- What a function of the host does is part of the call itself. -/
def Value.isNative : Value → Bool
  | native _ _ => true
  | _ => false

inductive Task where
  | expr (e : Expr)
  | exprs (es : List Expr)
  | stmt (s : Stmt)
  | stmts (ss : List Stmt)
  | program (ss : List Stmt)
  | call (line : Nat) (arguments : List Value) (callee : Value)
  | body (line : Nat) (arguments : List Value) (closure : Closure)

/-- A function is called, or its body is entered. -/
def Task.isCall : Task → Bool
  | .call _ _ _ => true
  | .body _ _ _ => true
  | _ => false

/-- A task with the fuel and the machine it is set to work on. -/
structure Step where
  fuel : Nat
  task : Task
  machine : Machine

/-- What a computation that did not succeed ended with. -/
def haltOf {α : Type} : EStateM.Result Halt Machine α → Option Halt
  | .ok _ _ => none
  | .error h _ => some h

namespace Step

/-- What the task ends with if it does not succeed. -/
def halt? : Step → Option Halt
  | ⟨fuel, .expr e, m⟩ => haltOf (Run.evaluate fuel e m)
  | ⟨fuel, .exprs es, m⟩ => haltOf (Run.arguments (Run.evaluate fuel) es m)
  | ⟨fuel, .stmt s, m⟩ => haltOf (Run.execute fuel s m)
  | ⟨fuel, .stmts ss, m⟩ => haltOf (Run.sequence (Run.execute fuel) ss m)
  | ⟨fuel, .program ss, m⟩ => haltOf (Run.interpret fuel ss m)
  | ⟨fuel, .call line arguments callee, m⟩ =>
      haltOf (Run.callValue (Run.execute fuel) line arguments callee m)
  | ⟨fuel, .body line arguments closure, m⟩ =>
      haltOf (Run.callClosure (Run.execute fuel) line closure arguments m)

/-- The machine in which the body of a function runs that is called on these arguments. -/
def entered (m : Machine) (closure : Closure) (arguments : List Value) : Machine :=
  let names := closure.function.parameters.map (·.lexeme)
  let store := m.store.addScope (Table.empty.insertAll (names.zip arguments))
  { m with store := store, chain := store.lastScope :: closure.chain }

/-- The machine in which the statements of a block run. -/
def opened (m : Machine) : Machine :=
  let store := m.store.addScope Table.empty
  { m with store := store, chain := store.lastScope :: m.chain }

/-- The tasks that a task starts. -/
inductive Starts : Step → Step → Prop where
  | grouping {fuel id inner m} : Starts ⟨fuel + 1, .expr (.grouping id inner), m⟩ ⟨fuel, .expr inner, m⟩
  | unary {fuel id operator operand m} :
      Starts ⟨fuel + 1, .expr (.unary id operator operand), m⟩ ⟨fuel, .expr operand, m⟩
  | binaryLeft {fuel id left operator right m} :
      Starts ⟨fuel + 1, .expr (.binary id left operator right), m⟩ ⟨fuel, .expr left, m⟩
  | binaryRight {fuel id left operator right m a n} (first : Run.evaluate fuel left m = .ok a n) :
      Starts ⟨fuel + 1, .expr (.binary id left operator right), m⟩ ⟨fuel, .expr right, n⟩
  | logicalLeft {fuel id left operator right m} :
      Starts ⟨fuel + 1, .expr (.logical id left operator right), m⟩ ⟨fuel, .expr left, m⟩
  | logicalRight {fuel id left operator right m a n} (first : Run.evaluate fuel left m = .ok a n)
      (goesOn : Run.stopsAt operator a = false) :
      Starts ⟨fuel + 1, .expr (.logical id left operator right), m⟩ ⟨fuel, .expr right, n⟩
  | assigned {fuel id name value m} :
      Starts ⟨fuel + 1, .expr (.assign id name value), m⟩ ⟨fuel, .expr value, m⟩
  | callee {fuel id callee paren args m} :
      Starts ⟨fuel + 1, .expr (.call id callee paren args), m⟩ ⟨fuel, .expr callee, m⟩
  | arguments {fuel id callee paren args m f arity n} (first : Run.evaluate fuel callee m = .ok f n)
      (callable : f.arity? = some arity) :
      Starts ⟨fuel + 1, .expr (.call id callee paren args), m⟩ ⟨fuel, .exprs args, n⟩
  | called {fuel id callee paren args m f n vs o} (first : Run.evaluate fuel callee m = .ok f n)
      (second : Run.arguments (Run.evaluate fuel) args n = .ok vs o)
      (fits : f.arity? = some vs.length) (inside : f.isNative = false) :
      Starts ⟨fuel + 1, .expr (.call id callee paren args), m⟩ ⟨fuel, .call paren.line vs f, o⟩
  | getObject {fuel id object name m} :
      Starts ⟨fuel + 1, .expr (.get id object name), m⟩ ⟨fuel, .expr object, m⟩
  | setObject {fuel id object name value m} :
      Starts ⟨fuel + 1, .expr (.set id object name value), m⟩ ⟨fuel, .expr object, m⟩
  | setValue {fuel id object name value m i c n}
      (first : Run.evaluate fuel object m = .ok (.object i c) n) :
      Starts ⟨fuel + 1, .expr (.set id object name value), m⟩ ⟨fuel, .expr value, n⟩
  | commaLeft {fuel id left right m} :
      Starts ⟨fuel + 1, .expr (.comma id left right), m⟩ ⟨fuel, .expr left, m⟩
  | commaRight {fuel id left right m a n} (first : Run.evaluate fuel left m = .ok a n) :
      Starts ⟨fuel + 1, .expr (.comma id left right), m⟩ ⟨fuel, .expr right, n⟩
  | ternaryCondition {fuel id condition yes no m} :
      Starts ⟨fuel + 1, .expr (.ternary id condition yes no), m⟩ ⟨fuel, .expr condition, m⟩
  | ternaryThen {fuel id condition yes no m a n} (first : Run.evaluate fuel condition m = .ok a n)
      (holds : a.isTruthy = true) :
      Starts ⟨fuel + 1, .expr (.ternary id condition yes no), m⟩ ⟨fuel, .expr yes, n⟩
  | ternaryElse {fuel id condition yes no m a n} (first : Run.evaluate fuel condition m = .ok a n)
      (fails : a.isTruthy = false) :
      Starts ⟨fuel + 1, .expr (.ternary id condition yes no), m⟩ ⟨fuel, .expr no, n⟩
  | firstExpr {fuel e es m} : Starts ⟨fuel, .exprs (e :: es), m⟩ ⟨fuel, .expr e, m⟩
  | restExprs {fuel e es m v n} (first : Run.evaluate fuel e m = .ok v n) :
      Starts ⟨fuel, .exprs (e :: es), m⟩ ⟨fuel, .exprs es, n⟩
  | callBody {fuel line vs i closure m} :
      Starts ⟨fuel, .call line vs (.function i closure), m⟩ ⟨fuel, .body line vs closure, m⟩
  | initializer {fuel line vs c method m object n bound o}
      (made : Run.newInstance c m = .ok object n)
      (found : c.method? initializerName = some method)
      (linked : Run.bindMethod method object n = .ok bound o) :
      Starts ⟨fuel, .call line vs (.class_ c), m⟩ ⟨fuel, .body line vs bound, o⟩
  | body {fuel line vs closure m} :
      Starts ⟨fuel, .body line vs closure, m⟩
        ⟨fuel, .stmts closure.function.body, entered m closure vs⟩
  | expression {fuel e m} : Starts ⟨fuel + 1, .stmt (.expression e), m⟩ ⟨fuel, .expr e, m⟩
  | print {fuel e m} : Starts ⟨fuel + 1, .stmt (.print e), m⟩ ⟨fuel, .expr e, m⟩
  | varDecl {fuel name e m} : Starts ⟨fuel + 1, .stmt (.varDecl name (some e)), m⟩ ⟨fuel, .expr e, m⟩
  | block {fuel body m} : Starts ⟨fuel + 1, .stmt (.block body), m⟩ ⟨fuel, .stmts body, opened m⟩
  | ifThenCondition {fuel condition yes m} :
      Starts ⟨fuel + 1, .stmt (.ifThen condition yes), m⟩ ⟨fuel, .expr condition, m⟩
  | ifThen {fuel condition yes m a n} (first : Run.evaluate fuel condition m = .ok a n)
      (holds : a.isTruthy = true) :
      Starts ⟨fuel + 1, .stmt (.ifThen condition yes), m⟩ ⟨fuel, .stmt yes, n⟩
  | ifElseCondition {fuel condition yes no m} :
      Starts ⟨fuel + 1, .stmt (.ifElse condition yes no), m⟩ ⟨fuel, .expr condition, m⟩
  | ifElseThen {fuel condition yes no m a n} (first : Run.evaluate fuel condition m = .ok a n)
      (holds : a.isTruthy = true) :
      Starts ⟨fuel + 1, .stmt (.ifElse condition yes no), m⟩ ⟨fuel, .stmt yes, n⟩
  | ifElseElse {fuel condition yes no m a n} (first : Run.evaluate fuel condition m = .ok a n)
      (fails : a.isTruthy = false) :
      Starts ⟨fuel + 1, .stmt (.ifElse condition yes no), m⟩ ⟨fuel, .stmt no, n⟩
  | whileCondition {fuel condition body m} :
      Starts ⟨fuel + 1, .stmt (.whileLoop condition body), m⟩ ⟨fuel, .expr condition, m⟩
  | whileBody {fuel condition body m a n} (first : Run.evaluate fuel condition m = .ok a n)
      (holds : a.isTruthy = true) :
      Starts ⟨fuel + 1, .stmt (.whileLoop condition body), m⟩ ⟨fuel, .stmt body, n⟩
  | whileAgain {fuel condition body m a n o} (first : Run.evaluate fuel condition m = .ok a n)
      (holds : a.isTruthy = true) (second : Run.execute fuel body n = .ok .normal o) :
      Starts ⟨fuel + 1, .stmt (.whileLoop condition body), m⟩
        ⟨fuel, .stmt (.whileLoop condition body), o⟩
  | returned {fuel keyword e m} :
      Starts ⟨fuel + 1, .stmt (.returnStmt keyword (some e)), m⟩ ⟨fuel, .expr e, m⟩
  | superclass {fuel name e methods m} :
      Starts ⟨fuel + 1, .stmt (.classDecl name (some e) methods), m⟩ ⟨fuel, .expr e, m⟩
  | firstStmt {fuel s ss m} : Starts ⟨fuel, .stmts (s :: ss), m⟩ ⟨fuel, .stmt s, m⟩
  | restStmts {fuel s ss m n} (first : Run.execute fuel s m = .ok .normal n) :
      Starts ⟨fuel, .stmts (s :: ss), m⟩ ⟨fuel, .stmts ss, n⟩
  | firstOfProgram {fuel s ss m} : Starts ⟨fuel, .program (s :: ss), m⟩ ⟨fuel, .stmt s, m⟩
  | restOfProgram {fuel s ss m flow n} (first : Run.execute fuel s m = .ok flow n) :
      Starts ⟨fuel, .program (s :: ss), m⟩ ⟨fuel, .program ss, n⟩

/-- One step is part of what another does. -/
def Reaches : Step → Step → Prop := Relation.ReflTransGen Starts

/-- The task fails by itself: with this error, and not because a task that it started failed. -/
structure Raises (step : Step) (error : RuntimeError) : Prop where
  fails : step.halt? = some (.runtime error)
  itself : ∀ part, Starts step part → part.halt? = none

end Step

end Lox
