import Lox.Command.Files
import Lox.Session
import Lox.Text.Blank

/-!
The prompt: a session that is fed line by line. Errors are told and the session goes on.
-/

namespace Lox.Prompt

def mark : String := "> "

/-- A failure to read a line. -/
def readFailure : ReadFailure :=
  ⟨"Failed to read from stdin", "stream did not contain valid UTF-8"⟩

/-- The text of a line, which has to be well-formed. -/
def textOf (bytes : List UInt8) : Except ReadFailure String :=
  match String.fromUTF8? ⟨bytes.toArray⟩ with
  | some line => .ok line
  | none => .error readFailure

/-- Run one line; a blank one is passed over. `none` stands for a run without an end. -/
def step (fuel : Nat) (s : Session) (line : String) : Option (List Fault × Session) :=
  let chunk := Text.trim line
  if chunk.isEmpty then some ([], s)
  else
    match s.run fuel chunk with
    | (.outOfFuel, _) => none
    | (report, s) => some (report.faults, s)

/-- The lines of some input, each with its newline. -/
def linesOf : List UInt8 → List (List UInt8)
  | [] => []
  | b :: rest =>
      match linesOf rest with
      | [] => [[b]]
      | line :: lines => if b = 10 then [b] :: line :: lines else (b :: line) :: lines

/-- Errors told so far, the failure that ended the input if any, and the session after it. -/
structure Ending where
  faults : List Fault
  failure : Option ReadFailure
  session : Session

def write (s : Session) (text : String) : Session :=
  { s with machine := { s.machine with sink := s.machine.sink.write text } }

def run (fuel : Nat) (s : Session) : List (List UInt8) → Option Ending
  | [] => some ⟨[], none, write s (mark ++ "\n")⟩
  | bytes :: rest =>
      let s := write s mark
      match textOf bytes with
      | .error failure => some ⟨[], some failure, s⟩
      | .ok line =>
          match step fuel s line with
          | none => none
          | some (faults, s) =>
              (run fuel s rest).map fun ending => { ending with faults := faults ++ ending.faults }

end Lox.Prompt
