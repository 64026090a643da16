import Lox.Evaluation
import Lox.Grammar.Program
import Lox.Scan

/-!
A session runs chunks of source text one after the other on one machine. Expression ids go on from
chunk to chunk, so the distances found for an earlier chunk stay those of its expressions.
-/

namespace Lox

/-- How a chunk ends. -/
inductive Report where
  | done
  | failed (faults : List Fault)
  | outOfFuel

def Report.ofHalt : Halt → Report
  | .runtime e => failed [.runtime e]
  | .sinkFull => failed [.sinkFull]
  | .outOfFuel => outOfFuel

def Report.faults : Report → List Fault
  | failed fs => fs
  | _ => []

/-- Bind the uses of a program; the distances found before a violation are kept. -/
def Machine.bindProgram (m : Machine) (program : List Stmt) : Option ScopeError × Machine :=
  let resolution := resolve program
  (resolution.error, m.setDistances resolution.found)

def Machine.runProgram (m : Machine) (fuel : Nat) (program : List Stmt) : Report × Machine :=
  match Run.interpret fuel program m with
  | .ok _ m => (.done, m)
  | .error halt m => (.ofHalt halt, m)

structure Session where
  machine : Machine
  nextId : ExprId

namespace Session

def initial (sink : Sink) (clock : Nat) : Session := ⟨Machine.initial sink clock, 0⟩

def defineGlobal (s : Session) (name : String) (value : Value) : Session :=
  { s with machine := s.machine.defineGlobal name value }

def statements (items : List (Except SyntaxError Stmt)) : List Stmt := items.filterMap fun
  | .ok s => some s
  | .error _ => none

def syntaxErrors (items : List (Except SyntaxError Stmt)) : List SyntaxError := items.filterMap fun
  | .ok _ => none
  | .error e => some e

/-- Bind and run the statements of a chunk. -/
def runStatements (s : Session) (fuel : Nat) (program : List Stmt) : Report × Session :=
  match s.machine.bindProgram program with
  | (some e, machine) => (.failed [.resolve e], { s with machine := machine })
  | (none, machine) =>
      let (report, machine) := machine.runProgram fuel program
      (report, { s with machine := machine })

/-- Read and run the tokens of a chunk. Ids are used up by a chunk in error, too. -/
def runTokens (s : Session) (fuel : Nat) (tokens : List Token) : Report × Session :=
  let reading := Grammar.recoverProgram tokens s.nextId
  let s := { s with nextId := reading.nextId }
  match syntaxErrors reading.value with
  | [] => s.runStatements fuel (statements reading.value)
  | errors => (.failed (errors.map .parse), s)

/-- Run a chunk. Errors of scanning are all told and end it, then those of the grammar; the first
violation of scope and the first error of the run end it. -/
def run (s : Session) (fuel : Nat) (source : String) : Report × Session :=
  let items := Scan.items source
  match Scan.errors items with
  | [] => s.runTokens fuel (Scan.tokens items)
  | errors => (.failed (errors.map .lex), s)

end Session

end Lox
