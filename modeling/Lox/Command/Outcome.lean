import Lox.Command.Log
import Lox.Command.Prompt
import Lox.Syntax.Written
import Lox.Token.Data

/-!
What a command does: the bytes it prints, the errors it tells and its exit status.
-/

namespace Lox

/-- The status of a malformed command line. -/
def usageStatus : Nat := 64

/-- The status of errors in the text. -/
def dataStatus : Nat := 65

/-- The status of errors while a program runs. -/
def softwareStatus : Nat := 70

/-- The status of a file that cannot be read. -/
def failureStatus : Nat := 1

/-- The status of a run that gave these errors: those of running count more than those of the text. -/
def statusOf (faults : List Fault) : Nat :=
  if faults.any Fault.isRuntime then softwareStatus else dataStatus

def Report.status : Report → Nat
  | failed faults => statusOf faults
  | _ => 0

structure Outcome where
  status : Nat
  printed : Sink
  told : String

namespace Outcome

def tell (faults : List Fault) : String :=
  String.join (faults.map fun f => f.text ++ "\n")

def lines (ls : List String) : Sink := Sink.unlimited.write (String.join (ls.map (· ++ "\n")))

def ofText (status : Nat) (printed : List String) (faults : List Fault) : Outcome :=
  ⟨status, lines printed, tell faults⟩

def ofFailure (f : ReadFailure) : Outcome := ⟨failureStatus, .unlimited, f.text⟩

def tokenize (asData : Bool) (source : String) : Outcome :=
  let items := Scan.items source
  let tokens := Scan.tokens items
  let errors := Scan.errors items
  let printed := if asData then [(Token.listData tokens).pretty 0] else tokens.map Token.text
  ofText (if errors.isEmpty then 0 else dataStatus) printed (errors.map .lex)

def parse (source : String) : Outcome :=
  let items := Scan.items source
  match Scan.errors items with
  | [] =>
      let read := (Grammar.recoverProgram (Scan.tokens items) 0).value
      let errors := Session.syntaxErrors read
      ofText (if errors.isEmpty then 0 else dataStatus)
        ((Session.statements read).map Stmt.written) (errors.map .parse)
  | errors => ofText dataStatus [] (errors.map .lex)

/-- The value of a single expression, whose names are all global. -/
def evaluate (fuel clock : Nat) (source : String) : Option Outcome :=
  let items := Scan.items source
  match Scan.errors items with
  | [] =>
      match (Grammar.readExpression (Scan.tokens items) 0).value with
      | .error e => some (ofText dataStatus [] [.parse e])
      | .ok e =>
          match Run.evaluate fuel e (Machine.initial .unlimited clock) with
          | .ok v m => some ⟨0, m.sink.write (v.text ++ "\n"), ""⟩
          | .error (.runtime error) m => some ⟨softwareStatus, m.sink, tell [.runtime error]⟩
          | .error .sinkFull m => some ⟨softwareStatus, m.sink, tell [.sinkFull]⟩
          | .error .outOfFuel _ => none
  | errors => some (ofText dataStatus [] (errors.map .lex))

def run (fuel clock : Nat) (source : String) : Option Outcome :=
  match (Session.initial .unlimited clock).run fuel source with
  | (.outOfFuel, _) => none
  | (report, s) => some ⟨report.status, s.machine.sink, tell report.faults⟩

def prompt (fuel clock : Nat) (input : List UInt8) : Option Outcome :=
  (Prompt.run fuel (Session.initial .unlimited clock) (Prompt.linesOf input)).map fun ending =>
    let told := tell ending.faults
    match ending.failure with
    | none => ⟨0, ending.session.machine.sink, told⟩
    | some failure => ⟨failureStatus, ending.session.machine.sink, told ++ failure.text⟩

def versionText : String := "rox 0.1.0"

def helpText : List String :=
  ["Lox language interpreter", "", "Usage: rox [OPTIONS] <COMMAND>", "", "Commands:",
    "  tokenize  Tokenizes input from a file, printing each token",
    "  parse     Parses a Lox program and prints each statement's AST",
    "  evaluate  Evaluates a file holding a single expression and prints the result",
    "  run       Runs a Lox program; starts a REPL when no file is given",
    "  help      Print this message or the help of the given subcommand(s)", "", "Options:",
    "      --log      Enable logging to rox.log", "  -h, --help     Print help",
    "  -V, --version  Print version"]

/-- Read a file and go on with its text. -/
def onSource (files : String → FileState) (name : String) (next : String → Option Outcome) :
    Option Outcome :=
  match (files name).source name with
  | .error failure => some (ofFailure failure)
  | .ok source => next source

/-- What a command does; `none` stands for a run without an end. -/
def ofCommand (fuel clock : Nat) (files : String → FileState) (input : List UInt8) :
    Command → Option Outcome
  | .tokenize name asData => onSource files name fun source => some (tokenize asData source)
  | .parse name => onSource files name fun source => some (parse source)
  | .evaluate name => onSource files name (evaluate fuel clock)
  | .run name => onSource files name (run fuel clock)
  | .prompt => prompt fuel clock input
  | .version => some (ofText 0 [versionText] [])
  | .help => some (ofText 0 helpText [])

/-- A malformed command line is answered with the form of a good one. -/
def usage : Outcome := ⟨usageStatus, .unlimited, helpText.getD 2 "" ++ "\n"⟩

/-- What the program does with its arguments, and the files that are there afterwards. -/
def ofArguments (fuel clock : Nat) (arguments : List String) (files : Files)
    (input : List UInt8) : Option Outcome × Files :=
  match Invocation.ofArguments false arguments with
  | none => (some usage, files)
  | some invocation =>
      let files := Log.opened invocation files
      (ofCommand fuel clock files.state input invocation.command, files)

end Outcome

end Lox
