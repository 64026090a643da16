import Std.Time.DateTime.Timestamp
import Lox.Command.Outcome

/-!
The program itself: arguments, files and streams are handed to the commands, and what they give is
written out. The prompt is served line by line.
-/

open Lox

namespace Lox.Main

/-- More steps than any machine takes. -/
def fuel : Nat := Nat.pow 10 18

def now : IO Nat := do
  let time ← Std.Time.Timestamp.now
  return 1000 * time.toMillisecondsSinceUnixEpoch.val.toNat

/-- What a file holds that tells no length is not looked at: some have no end. -/
def fileState (name : String) : IO FileState := do
  try
    let info ← (IO.FS.DirEntry.mk "." name).path.metadata
    if info.byteSize = 0 then return .bytes ByteArray.empty
    return .bytes (← IO.FS.readBinFile name)
  catch
    | .inappropriateType (some _) .. => return .belowFile
    | .inappropriateType none .. => return .directory
    | .invalidArgument .. => return .nameTooLong
    | _ => return .absent

def writeOut (printed : Sink) (told : String) : IO Unit := do
  let output ← IO.getStdout
  output.write ⟨printed.bytes⟩
  output.flush
  (← IO.getStderr).putStr told

/-- The bytes up to and with the next newline, the last one first. -/
partial def readLine (input : IO.FS.Stream) (before : List UInt8) : IO (List UInt8) := do
  let bytes ← input.read 1
  match bytes.toList with
  | [] => return before
  | b :: _ => if b = 10 then return b :: before else readLine input (b :: before)

partial def serve (s : Session) : IO UInt32 := do
  let output ← IO.getStdout
  output.putStr Prompt.mark
  output.flush
  let bytes ← readLine (← IO.getStdin) []
  if bytes.isEmpty then
    output.putStrLn ""
    return 0
  match Prompt.textOf bytes.reverse with
  | .error failure => do
      (← IO.getStderr).putStr failure.text
      return failureStatus.toUInt32
  | .ok line => do
      let s := { s with machine := { s.machine with sink := .unlimited, clock := ← now } }
      match Prompt.step fuel s line with
      | none => return softwareStatus.toUInt32
      | some (faults, s) => do
          writeOut s.machine.sink (Outcome.tell faults)
          serve s

def perform (invocation : Invocation) : IO UInt32 := do
  if invocation.log then IO.FS.writeFile Log.fileName (Log.text invocation.command)
  match invocation.command with
  | .prompt => serve (Session.initial .unlimited (← now))
  | command => do
      let state ← match command.file? with
        | some name => fileState name
        | none => pure .absent
      match Outcome.ofCommand fuel (← now) (fun _ => state) [] command with
      | none => return softwareStatus.toUInt32
      | some outcome => do
          writeOut outcome.printed outcome.told
          return outcome.status.toUInt32

end Lox.Main

def main (arguments : List String) : IO UInt32 := do
  match Invocation.ofArguments false arguments with
  | none => do
      (← IO.getStderr).putStr Outcome.usage.told
      return usageStatus.toUInt32
  | some invocation => Lox.Main.perform invocation
