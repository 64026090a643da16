import Lox.Fault
import Lox.Syntax
import Lox.Table

/-!
Static scoping: one walk over the statements checks the rules of scope and finds, for each use of a
local name, the number of scopes between the use and the scope that holds the name. Uses that no
scope holds are left to the global scope. The first violation ends the walk; what was found before
it stays found.
-/

namespace Lox

/-- The function body that a statement stands in. -/
inductive FunctionContext where
  | outside | function | method | initializer
  deriving DecidableEq, Repr

/-- The class body that an expression stands in. -/
inductive ClassContext where
  | outside | base | derived
  deriving DecidableEq, Repr

/-- The names of one scope; a name that is declared but not yet defined is held with `false`. -/
abbrev Frame := Table Bool

structure ScopeState where
  /-- Open scopes, the innermost first. The global scope is none of them. -/
  frames : List Frame
  function : FunctionContext
  class_ : ClassContext
  /-- Distances found, the last one first. -/
  found : List (ExprId × Nat)

def ScopeState.initial : ScopeState := ⟨[], .outside, .outside, []⟩

abbrev Scoping := EStateM ScopeError ScopeState

namespace Scoping

def violation (token : Token) (cause : ScopeCause) : Scoping Unit := throw ⟨token, cause⟩

def declare (name : Token) : Scoping Unit := fun s =>
  match s.frames with
  | [] => .ok () s
  | frame :: outer =>
      if frame.contains name.lexeme then .error ⟨name, .redeclared⟩ s
      else .ok () { s with frames := frame.insert name.lexeme false :: outer }

def define (name : String) : Scoping Unit := fun s =>
  match s.frames with
  | [] => .ok () s
  | frame :: outer => .ok () { s with frames := frame.insert name true :: outer }

def declareAndDefine (name : Token) : Scoping Unit := do
  declare name
  define name.lexeme

/-- A change of state that is undone after `body`, whether it succeeds or not. -/
def within (enter : ScopeState → ScopeState) (leave : ScopeState → ScopeState → ScopeState)
    (body : Scoping Unit) : Scoping Unit := fun s =>
  match body (enter s) with
  | .ok a after => .ok a (leave s after)
  | .error e after => .error e (leave s after)

def inFrame (body : Scoping Unit) : Scoping Unit :=
  within (fun s => { s with frames := Table.empty :: s.frames })
    (fun _ after => { after with frames := after.frames.tail }) body

def inFunction (context : FunctionContext) (body : Scoping Unit) : Scoping Unit :=
  within (fun s => { s with function := context })
    (fun before after => { after with function := before.function }) body

def inClass (context : ClassContext) (body : Scoping Unit) : Scoping Unit :=
  within (fun s => { s with class_ := context })
    (fun before after => { after with class_ := before.class_ }) body

/-- The number of scopes inside the innermost one that holds the name. -/
def distance? (frames : List Frame) (name : String) : Option Nat :=
  frames.findIdx? fun frame => frame.contains name

def recordUse (id : ExprId) (name : String) : Scoping Unit := fun s =>
  match distance? s.frames name with
  | some d => .ok () { s with found := (id, d) :: s.found }
  | none => .ok () s

/-- A name is not to be read between its declaration and its definition in the innermost scope. -/
def checkDefined (name : Token) : Scoping Unit := fun s =>
  match s.frames with
  | frame :: _ =>
      if frame.get? name.lexeme = some false then .error ⟨name, .ownInitializer⟩ s else .ok () s
  | [] => .ok () s

def checkThis (keyword : Token) : Scoping Unit := do
  if (← get).class_ = .outside then violation keyword .thisOutsideClass

def checkSuper (keyword : Token) : Scoping Unit := do
  match (← get).class_ with
  | .outside => violation keyword .superOutsideClass
  | .base => violation keyword .superWithoutSuperclass
  | .derived => pure ()

def checkReturn (keyword : Token) (hasValue : Bool) : Scoping Unit := do
  match (← get).function with
  | .outside => violation keyword .topLevelReturn
  | .initializer => if hasValue then violation keyword .initializerReturn
  | _ => pure ()

def checkSuperclass (name : Token) (superclass : Expr) : Scoping Unit :=
  match superclass with
  | .var _ superName =>
      if superName.lexeme = name.lexeme then violation superName .ownSuperclass else pure ()
  | _ => pure ()

mutual

def expr : Expr → Scoping Unit
  | .literal _ _ => pure ()
  | .grouping _ inner => expr inner
  | .unary _ _ operand => expr operand
  | .binary _ left _ right => do
      expr left
      expr right
  | .logical _ left _ right => do
      expr left
      expr right
  | .assign id name value => do
      expr value
      recordUse id name.lexeme
  | .var id name => do
      checkDefined name
      recordUse id name.lexeme
  | .call _ callee _ arguments => do
      expr callee
      exprs arguments
  | .get _ object _ => expr object
  | .set _ object _ value => do
      expr value
      expr object
  | .this id keyword => do
      checkThis keyword
      recordUse id keyword.lexeme
  | .super id keyword _ => do
      checkSuper keyword
      recordUse id keyword.lexeme
  | .comma _ left right => do
      expr left
      expr right
  | .ternary _ condition thenBranch elseBranch => do
      expr condition
      expr thenBranch
      expr elseBranch

def exprs : List Expr → Scoping Unit
  | [] => pure ()
  | e :: es => do
      expr e
      exprs es

end

def parameters : List Token → Scoping Unit
  | [] => pure ()
  | p :: ps => do
      declareAndDefine p
      parameters ps

def methodContext (name : Token) : FunctionContext :=
  if name.lexeme = initializerName then .initializer else .method

mutual

def stmt : Stmt → Scoping Unit
  | .expression e => expr e
  | .print e => expr e
  | .varDecl name none => declareAndDefine name
  | .varDecl name (some e) => do
      declare name
      expr e
      define name.lexeme
  | .block body => inFrame (stmts body)
  | .ifThen condition thenBranch => do
      expr condition
      stmt thenBranch
  | .ifElse condition thenBranch elseBranch => do
      expr condition
      stmt thenBranch
      stmt elseBranch
  | .whileLoop condition body => do
      expr condition
      stmt body
  | .funDecl f => do
      declareAndDefine f.name
      function .function f
  | .returnStmt keyword none => checkReturn keyword false
  | .returnStmt keyword (some e) => do
      checkReturn keyword true
      expr e
  | .classDecl name none declared => do
      declareAndDefine name
      inClass .base (inFrame (do
        define "this"
        methods declared))
  | .classDecl name (some superclass) declared => do
      declareAndDefine name
      checkSuperclass name superclass
      inClass .derived (do
        expr superclass
        inFrame (do
          define "super"
          inFrame (do
            define "this"
            methods declared)))

def stmts : List Stmt → Scoping Unit
  | [] => pure ()
  | s :: ss => do
      stmt s
      stmts ss

/-- Parameters and body share one scope. -/
def function (context : FunctionContext) : FunctionDecl → Scoping Unit
  | ⟨_, params, body⟩ => inFunction context (inFrame (do
      parameters params
      stmts body))

def methods : List FunctionDecl → Scoping Unit
  | [] => pure ()
  | ⟨name, params, body⟩ :: ms => do
      function (methodContext name) ⟨name, params, body⟩
      methods ms

end

end Scoping

/-- What a walk over a program gives: the distances in the order they were found, and the violation
that ended it, if any. -/
structure Resolution where
  found : List (ExprId × Nat)
  error : Option ScopeError

def resolve (program : List Stmt) : Resolution :=
  match Scoping.stmts program ScopeState.initial with
  | .ok _ s => ⟨s.found.reverse, none⟩
  | .error e s => ⟨s.found.reverse, some e⟩

end Lox
