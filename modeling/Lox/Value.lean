import Lox.Syntax
import Lox.Table

/-!
Run-time values. Numbers, texts, truth values and `nil` are equal by content; functions, classes
and instances are equal by identity. What changes during a run, the bindings of scopes and the
fields of instances, is in the store and not in the values.
-/

namespace Lox

abbrev ScopeId := Nat

abbrev InstanceId := Nat

/-- A scope with all that enclose it, the innermost first. -/
abbrev Chain := List ScopeId

/-- A function with the scopes it was declared in. -/
structure Closure where
  function : FunctionDecl
  chain : Chain
  isInitializer : Bool

structure Class where
  identity : Nat
  name : String
  superclass : Option Class
  methods : Table Closure

/-- The method of the nearest class, from this one upward, that declares the name. -/
def Class.method? (name : String) : Class → Option Closure
  | ⟨_, _, superclass, methods⟩ =>
      match methods.get? name with
      | some m => some m
      | none =>
          match superclass with
          | some c => c.method? name
          | none => none

/-- What a function of the host does. -/
inductive NativeAction where
  | clock
  | assertEqual
  | onNumber (f : Float → Float)

structure Native where
  name : String
  action : NativeAction

def Native.arity (n : Native) : Nat :=
  match n.action with
  | .clock => 0
  | .assertEqual => 2
  | .onNumber _ => 1

inductive Value where
  | nil
  | bool (b : Bool)
  | number (n : Float)
  | string (s : String)
  | function (identity : Nat) (closure : Closure)
  | native (identity : Nat) (native : Native)
  | class_ (c : Class)
  | object (identity : InstanceId) (c : Class)

namespace Value

def ofLiteral : Literal → Value
  | .number n => number (Float.ofBits n)
  | .string s => string s
  | .bool b => bool b
  | .nil => nil

/-- Only `nil` and `false` count as false. -/
def isTruthy : Value → Bool
  | nil => false
  | bool b => b
  | _ => true

def isEqual : Value → Value → Bool
  | nil, nil => true
  | bool a, bool b => a == b
  | number a, number b => a == b
  | string a, string b => a == b
  | function a _, function b _ => a == b
  | native a _, native b _ => a == b
  | class_ a, class_ b => a.identity == b.identity
  | object a _, object b _ => a == b
  | _, _ => false

def typeName : Value → String
  | nil => "nil"
  | bool _ => "boolean"
  | number _ => "number"
  | string _ => "string"
  | function _ _ => "function"
  | native _ _ => "function"
  | class_ _ => "class"
  | object _ _ => "instance"

/-- What a program prints. -/
def text : Value → String
  | nil => "nil"
  | bool true => "true"
  | bool false => "false"
  | number n => Number.text n.toBits
  | string s => s
  | function _ closure => "<fn " ++ closure.function.name.lexeme ++ ">"
  | native _ n => "<native fn " ++ n.name ++ ">"
  | class_ c => c.name
  | object _ c => c.name ++ " instance"

/-- The number of arguments a call takes; a class takes those of its initializer. -/
def arity? : Value → Option Nat
  | function _ closure => some closure.function.parameters.length
  | native _ n => some n.arity
  | class_ c =>
      match c.method? initializerName with
      | some m => some m.function.parameters.length
      | none => some 0
  | _ => none

end Value

end Lox
