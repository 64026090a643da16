import Std.Data.TreeMap
import Lox.Scoping
import Lox.Sink
import Lox.Store

/-!
The state of a run and the steps that change it. A step that fails keeps the state reached so far;
a run that uses up its fuel is told apart from every failure of the program.
-/

namespace Lox

/-- For each use of a local name, how many scopes lie inside the one that holds it. -/
abbrev Distances := Std.TreeMap ExprId Nat

structure Machine where
  store : Store
  /-- The scopes in force, the innermost first. -/
  chain : Chain
  distances : Distances
  sink : Sink
  /-- Numbers below this one identify functions, natives and classes made so far. -/
  nextIdentity : Nat
  /-- The time in microseconds. Each reading of the clock moves it on by one. -/
  clock : Nat

inductive Halt where
  | runtime (error : RuntimeError)
  | sinkFull
  | outOfFuel

abbrev Run := EStateM Halt Machine

/-- The chain of the global scope alone. -/
def globalChain : Chain := [0]

namespace Machine

/-- Bind a global name from outside of any program. -/
def defineGlobal (m : Machine) (name : String) (value : Value) : Machine :=
  { m with store := m.store.define globalChain name value }

/-- A native with an identity of its own, and the machine that has counted it. -/
def makeNative (m : Machine) (native : Native) : Value × Machine :=
  (.native m.nextIdentity native, { m with nextIdentity := m.nextIdentity + 1 })

def defineNative (m : Machine) (native : Native) : Machine :=
  let (value, m) := m.makeNative native
  m.defineGlobal native.name value

/-- A machine whose global scope holds the standard natives. -/
def initial (sink : Sink) (clock : Nat) : Machine :=
  let empty : Machine :=
    ⟨Store.empty.addScope Table.empty, globalChain, ∅, sink, 0, clock⟩
  (empty.defineNative ⟨"clock", .clock⟩).defineNative ⟨"assert_equal", .assertEqual⟩

def setDistance (m : Machine) (id : ExprId) (distance : Nat) : Machine :=
  { m with distances := m.distances.insert id distance }

def setDistances (m : Machine) (found : List (ExprId × Nat)) : Machine :=
  found.foldl (fun m use => m.setDistance use.1 use.2) m

end Machine

namespace Run

def raise {α : Type} (line : Nat) (cause : RuntimeCause) : Run α := throw (.runtime ⟨line, cause⟩)

def outOfFuel {α : Type} : Run α := throw .outOfFuel

/-- Look at the state without holding on to it. -/
def observe {α : Type} (f : Machine → α) : Run α := fun m => .ok (f m) m

/-- What the store answers, with the line that an error is told for. -/
def ask {α : Type} (line : Nat) (f : Machine → Except RuntimeCause α) : Run α := do
  match ← observe f with
  | .ok a => pure a
  | .error cause => raise line cause

def identity : Run Nat := fun m => .ok m.nextIdentity { m with nextIdentity := m.nextIdentity + 1 }

/-- The time in seconds, to the millisecond. -/
def readClock : Run Value := fun m =>
  .ok (.number (Float.ofNat (m.clock / 1000) / 1000)) { m with clock := m.clock + 1 }

def newScope (bindings : Table Value) : Run ScopeId := fun m =>
  let m := { m with store := m.store.addScope bindings }
  .ok m.store.lastScope m

def newInstance (c : Class) : Run Value := fun m =>
  let m := { m with store := m.store.addInstance }
  .ok (.object m.store.lastInstance c) m

def define (name : String) (value : Value) : Run Unit := fun m =>
  .ok () { m with store := m.store.define m.chain name value }

def bind (scope : ScopeId) (name : String) (value : Value) : Run Unit := fun m =>
  .ok () { m with store := m.store.bind scope name value }

def setField (object : InstanceId) (name : String) (value : Value) : Run Unit := fun m =>
  .ok () { m with store := m.store.setField object name value }

def printLine (text : String) : Run Unit := fun m =>
  let line := text ++ "\n"
  if m.sink.fits line then .ok () { m with sink := m.sink.write line }
  else .error .sinkFull { m with sink := m.sink.write line }

/-- Run with other scopes in force, and come back to those of before in any case. -/
def inChain {α : Type} (chain : Chain) (body : Run α) : Run α := fun m =>
  let before := m.chain
  match body { m with chain := chain } with
  | .ok a after => .ok a { after with chain := before }
  | .error e after => .error e { after with chain := before }

/-- The value of a name: at the recorded distance, or global. -/
def lookUp (id : ExprId) (name : Token) : Run Value :=
  ask name.line fun m =>
    match m.distances[id]? with
    | some distance => m.store.getAt m.chain distance name.lexeme
    | none => m.store.get globalChain name.lexeme

/-- Overwrite a name: the scope is found as for its value, and then written to. -/
def assign (id : ExprId) (name : Token) (value : Value) : Run Unit := do
  let scope ← ask name.line fun m =>
    match m.distances[id]? with
    | some distance => Store.ancestor m.chain distance name.lexeme
    | none => m.store.holder globalChain name.lexeme
  bind scope name.lexeme value

end Run

end Lox
