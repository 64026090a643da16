import Lox.Fault
import Lox.Value

/-!
The store: the bindings of every scope and the fields of every instance made so far. Scopes are
shared between chains, so a write through one chain is seen through all that hold the scope. Names
are looked up along a chain, or in the one scope at a given distance in it.
-/

namespace Lox

structure Store where
  scopes : Array (Table Value)
  instances : Array (Table Value)

namespace Store

def empty : Store := ⟨#[], #[]⟩

def addScope (s : Store) (bindings : Table Value) : Store :=
  { s with scopes := s.scopes.push bindings }

def addInstance (s : Store) : Store := { s with instances := s.instances.push Table.empty }

/-- The scope that was added last. -/
def lastScope (s : Store) : ScopeId := s.scopes.size - 1

/-- The instance that was added last. -/
def lastInstance (s : Store) : InstanceId := s.instances.size - 1

def bindings (s : Store) (scope : ScopeId) : Table Value := s.scopes.getD scope Table.empty

def fields (s : Store) (object : InstanceId) : Table Value := s.instances.getD object Table.empty

/-- Bind a name in one scope, whether or not it is bound there. -/
def bind (s : Store) (scope : ScopeId) (name : String) (value : Value) : Store :=
  { s with scopes := s.scopes.modify scope (·.insert name value) }

def setField (s : Store) (object : InstanceId) (name : String) (value : Value) : Store :=
  { s with instances := s.instances.modify object (·.insert name value) }

/-- The innermost scope of a chain that binds the name. -/
def holder? (s : Store) (chain : Chain) (name : String) : Option ScopeId :=
  chain.find? fun scope => (s.bindings scope).contains name

/-- Bind a name in the innermost scope. -/
def define (s : Store) (chain : Chain) (name : String) (value : Value) : Store :=
  match chain with
  | scope :: _ => s.bind scope name value
  | [] => s

def get (s : Store) (chain : Chain) (name : String) : Except RuntimeCause Value :=
  match chain.findSome? fun scope => (s.bindings scope).get? name with
  | some v => .ok v
  | none => .error (.undefinedVariable name)

/-- The scope whose binding of the name the chain sees. -/
def holder (s : Store) (chain : Chain) (name : String) : Except RuntimeCause ScopeId :=
  match s.holder? chain name with
  | some scope => .ok scope
  | none => .error (.undefinedVariable name)

/-- Overwrite the binding that the chain sees. -/
def assign (s : Store) (chain : Chain) (name : String) (value : Value) :
    Except RuntimeCause Store := do
  let scope ← s.holder chain name
  .ok (s.bind scope name value)

/-- The scope that `distance` others lie inside of. The name is for the message. -/
def ancestor (chain : Chain) (distance : Nat) (name : String) : Except RuntimeCause ScopeId :=
  match chain[distance]? with
  | some scope => .ok scope
  | none => .error (.noScopeAt distance name)

/-- Read a name from the one scope at a distance. -/
def getAt (s : Store) (chain : Chain) (distance : Nat) (name : String) :
    Except RuntimeCause Value := do
  let scope ← ancestor chain distance name
  match (s.bindings scope).get? name with
  | some v => .ok v
  | none => .error (.undefinedVariable name)

/-- Bind a name in the one scope at a distance. -/
def assignAt (s : Store) (chain : Chain) (distance : Nat) (name : String) (value : Value) :
    Except RuntimeCause Store := do
  let scope ← ancestor chain distance name
  .ok (s.bind scope name value)

end Store

end Lox
