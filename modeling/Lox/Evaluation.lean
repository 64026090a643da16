import Lox.Machine

/-!
The meaning of expressions and statements. The fuel bounds the depth of evaluation and the rounds of
each loop; with more fuel a run that has ended ends the same way.
-/

namespace Lox

/-- How a statement ends: in order, or with a value on its way to the nearest call. -/
inductive Flow where
  | normal
  | returned (value : Value)

/-- What a call gives whose body has ended. -/
def Flow.value : Flow → Value
  | normal => .nil
  | returned v => v

namespace Run

def negate (operator : Token) : Value → Run Value
  | .number n => pure (.number (-n))
  | _ => raise operator.line .operandNotNumber

def unary (operator : Token) (operand : Value) : Run Value :=
  match operator.kind with
  | .mark .minus => negate operator operand
  | .mark .bang => pure (.bool (!operand.isTruthy))
  | _ => raise operator.line .invalidUnary

/-- Numbers add up; a text takes on a text or the text of a number. -/
def add (operator : Token) : Value → Value → Run Value
  | .number a, .number b => pure (.number (a + b))
  | .string a, .string b => pure (.string (a ++ b))
  | .string a, .number b => pure (.string (a ++ Number.text b.toBits))
  | .number a, .string b => pure (.string (Number.text a.toBits ++ b))
  | _, _ => raise operator.line .operandsNotAddable

def arithmetic (operator : Token) (a b : Float) : Run Value :=
  match operator.kind with
  | .mark .minus => pure (.number (a - b))
  | .mark .star => pure (.number (a * b))
  | .mark .slash => pure (.number (a / b))
  | .mark .greater => pure (.bool (a > b))
  | .mark .greaterEqual => pure (.bool (a ≥ b))
  | .mark .less => pure (.bool (a < b))
  | .mark .lessEqual => pure (.bool (a ≤ b))
  | _ => raise operator.line .invalidBinary

def onNumbers (operator : Token) : Value → Value → Run Value
  | .number a, .number b => arithmetic operator a b
  | _, _ => raise operator.line .operandsNotNumbers

def binary (operator : Token) (left right : Value) : Run Value :=
  match operator.kind with
  | .mark .plus => add operator left right
  | .mark .equalEqual => pure (.bool (left.isEqual right))
  | .mark .bangEqual => pure (.bool (!left.isEqual right))
  | _ => onNumbers operator left right

/-- `or` stops at a true value, any other operator at a false one. -/
def stopsAt (operator : Token) (left : Value) : Bool :=
  if operator.kind.isKeyword .or then left.isTruthy else !left.isTruthy

/-- The method with a scope of its own in which `this` is the receiver. -/
def bindMethod (method : Closure) (receiver : Value) : Run Closure := do
  let scope ← newScope (Table.empty.insert "this" receiver)
  pure { method with chain := scope :: method.chain }

def functionValue (closure : Closure) : Run Value := do
  let n ← identity
  pure (.function n closure)

/-- A field of the object, else a method of its class bound to it. -/
def property (object : InstanceId) (c : Class) (name : Token) : Run Value := do
  match ← observe fun m => (m.store.fields object).get? name.lexeme with
  | some v => pure v
  | none =>
      match c.method? name.lexeme with
      | some method => do
          let bound ← bindMethod method (.object object c)
          functionValue bound
      | none => raise name.line (.undefinedProperty name.lexeme)

/-- The superclass is bound where `super` was found to be, and `this` one scope further in. -/
def superMethod (id : ExprId) (keyword method : Token) : Run Value := do
  match ← observe fun m => m.distances[id]? with
  | none => raise keyword.line .superUnresolved
  | some distance =>
      match ← ask keyword.line fun m => m.store.getAt m.chain distance keyword.lexeme with
      | .class_ c =>
          match distance with
          | 0 => raise keyword.line .noThisScope
          | inner + 1 =>
              match ← ask keyword.line fun m => m.store.getAt m.chain inner "this" with
              | .object object own =>
                  match c.method? method.lexeme with
                  | some found => do
                      let bound ← bindMethod found (.object object own)
                      functionValue bound
                  | none => raise method.line (.undefinedProperty method.lexeme)
              | _ => raise keyword.line .thisNotInstance
      | _ => raise keyword.line .superNotClass

def callNative (native : Native) (line : Nat) (arguments : List Value) : Run Value :=
  match native.action, arguments with
  | .clock, _ => readClock
  | .assertEqual, [actual, expected] =>
      if actual.isEqual expected then pure .nil
      else raise line (.assertionFailed expected.text actual.text)
  | .assertEqual, _ => raise line (.wrongArity native.arity arguments.length)
  | .onNumber f, [.number n] => pure (.number (f n))
  | .onNumber _, _ => raise line (.argumentNotNumber native.name)

/-- Statements in order, up to one that returns. -/
def sequence (execute : Stmt → Run Flow) : List Stmt → Run Flow
  | [] => pure .normal
  | s :: ss => do
      match ← execute s with
      | .normal => sequence execute ss
      | .returned v => pure (.returned v)

def arguments (evaluate : Expr → Run Value) : List Expr → Run (List Value)
  | [] => pure []
  | e :: es => do
      let v ← evaluate e
      let vs ← arguments evaluate es
      pure (v :: vs)

/-- The body runs in a new scope inside the scopes of the declaration, not those of the caller. An
initializer gives its receiver whatever its body returns. -/
def callClosure (execute : Stmt → Run Flow) (line : Nat) (closure : Closure)
    (arguments : List Value) : Run Value := do
  let names := closure.function.parameters.map (·.lexeme)
  let scope ← newScope (Table.empty.insertAll (names.zip arguments))
  let flow ← inChain (scope :: closure.chain) (sequence execute closure.function.body)
  if closure.isInitializer then ask line fun m => m.store.getAt closure.chain 0 "this"
  else pure flow.value

/-- A call of a class makes an instance and runs the initializer on it. -/
def construct (execute : Stmt → Run Flow) (line : Nat) (c : Class) (arguments : List Value) :
    Run Value := do
  let object ← newInstance c
  match c.method? initializerName with
  | some method => do
      let bound ← bindMethod method object
      let _ ← callClosure execute line bound arguments
      pure object
  | none => pure object

def callValue (execute : Stmt → Run Flow) (line : Nat) (arguments : List Value) :
    Value → Run Value
  | .function _ closure => callClosure execute line closure arguments
  | .native _ native => callNative native line arguments
  | .class_ c => construct execute line c arguments
  | _ => raise line .notCallable

/-- The class that a superclass expression gave. -/
def asSuperclass (name : Token) (superclass : Expr) : Value → Run Class
  | .class_ c => pure c
  | _ =>
      match superclass with
      | .var _ used => raise used.line .superclassNotClass
      | _ => raise name.line .superclassNotClass

/-- The scopes that the methods of a class are declared in. -/
def methodChain (superclass : Option Class) : Run Chain := do
  let chain ← observe (·.chain)
  match superclass with
  | none => pure chain
  | some c => do
      let scope ← newScope (Table.empty.insert "super" (.class_ c))
      pure (scope :: chain)

/-- The last of several methods of one name counts. -/
def methodTable (chain : Chain) (methods : List FunctionDecl) : Table Closure :=
  Table.empty.insertAll
    (methods.map fun f => (f.name.lexeme, ⟨f, chain, f.name.lexeme = initializerName⟩))

/-- The name is bound before the class is made, so that methods can refer to it. -/
def declareClass (name : Token) (superclass : Option Class) (methods : List FunctionDecl) :
    Run Unit := do
  define name.lexeme .nil
  let chain ← methodChain superclass
  let n ← identity
  let c : Class := ⟨n, name.lexeme, superclass, methodTable chain methods⟩
  let scope ← ask name.line fun m => m.store.holder m.chain name.lexeme
  bind scope name.lexeme (.class_ c)

mutual

def evaluate : Nat → Expr → Run Value
  | 0, _ => outOfFuel
  | _ + 1, .literal _ v => pure (.ofLiteral v)
  | fuel + 1, .grouping _ inner => evaluate fuel inner
  | fuel + 1, .unary _ operator operand => do
      let v ← evaluate fuel operand
      unary operator v
  | fuel + 1, .binary _ left operator right => do
      let a ← evaluate fuel left
      let b ← evaluate fuel right
      binary operator a b
  | fuel + 1, .logical _ left operator right => do
      let a ← evaluate fuel left
      if stopsAt operator a then pure a else evaluate fuel right
  | fuel + 1, .assign id name value => do
      let v ← evaluate fuel value
      assign id name v
      pure v
  | _ + 1, .var id name => lookUp id name
  | fuel + 1, .call _ callee paren args => do
      let f ← evaluate fuel callee
      match f.arity? with
      | none => raise paren.line .notCallable
      | some arity => do
          let vs ← arguments (evaluate fuel) args
          if vs.length ≠ arity then raise paren.line (.wrongArity arity vs.length)
          else callValue (execute fuel) paren.line vs f
  | fuel + 1, .get _ object name => do
      match ← evaluate fuel object with
      | .object i c => property i c name
      | _ => raise name.line .notInstance
  | fuel + 1, .set _ object name value => do
      match ← evaluate fuel object with
      | .object i _ => do
          let v ← evaluate fuel value
          setField i name.lexeme v
          pure v
      | _ => raise name.line .notInstance
  | _ + 1, .this id keyword => lookUp id keyword
  | _ + 1, .super id keyword method => superMethod id keyword method
  | fuel + 1, .comma _ left right => do
      let _ ← evaluate fuel left
      evaluate fuel right
  | fuel + 1, .ternary _ condition thenBranch elseBranch => do
      let v ← evaluate fuel condition
      if v.isTruthy then evaluate fuel thenBranch else evaluate fuel elseBranch

def execute : Nat → Stmt → Run Flow
  | 0, _ => outOfFuel
  | fuel + 1, .expression e => do
      let _ ← evaluate fuel e
      pure .normal
  | fuel + 1, .print e => do
      let v ← evaluate fuel e
      printLine v.text
      pure .normal
  | _ + 1, .varDecl name none => do
      define name.lexeme .nil
      pure .normal
  | fuel + 1, .varDecl name (some e) => do
      let v ← evaluate fuel e
      define name.lexeme v
      pure .normal
  | fuel + 1, .block body => do
      let chain ← observe (·.chain)
      let scope ← newScope Table.empty
      inChain (scope :: chain) (sequence (execute fuel) body)
  | fuel + 1, .ifThen condition thenBranch => do
      let v ← evaluate fuel condition
      if v.isTruthy then execute fuel thenBranch else pure .normal
  | fuel + 1, .ifElse condition thenBranch elseBranch => do
      let v ← evaluate fuel condition
      if v.isTruthy then execute fuel thenBranch else execute fuel elseBranch
  | fuel + 1, .whileLoop condition body => do
      let v ← evaluate fuel condition
      if v.isTruthy then
        match ← execute fuel body with
        | .normal => execute fuel (.whileLoop condition body)
        | .returned r => pure (.returned r)
      else pure .normal
  | _ + 1, .funDecl f => do
      let chain ← observe (·.chain)
      let v ← functionValue ⟨f, chain, false⟩
      define f.name.lexeme v
      pure .normal
  | _ + 1, .returnStmt _ none => pure (.returned .nil)
  | fuel + 1, .returnStmt _ (some e) => do
      let v ← evaluate fuel e
      pure (.returned v)
  | _ + 1, .classDecl name none methods => do
      declareClass name none methods
      pure .normal
  | fuel + 1, .classDecl name (some superclass) methods => do
      let v ← evaluate fuel superclass
      let c ← asSuperclass name superclass v
      declareClass name (some c) methods
      pure .normal

end

/-- A program at the top level. A `return` there ends nothing. -/
def interpret (fuel : Nat) : List Stmt → Run Unit
  | [] => pure ()
  | s :: ss => do
      let _ ← execute fuel s
      interpret fuel ss

end Run

end Lox
