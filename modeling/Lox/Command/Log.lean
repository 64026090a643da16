import Lox.Command.Files
import Lox.Command.Invocation

/-!
The log: a file that is written anew when logging is asked for. It opens with the command and the
file that is about to be read.
-/

namespace Lox.Log

def fileName : String := "rox.log"

def isIn (files : Files) : Bool := (FileTree.find? files fileName).isSome

def messages (c : Command) : List String :=
  ["Logger initialized, writing to " ++ fileName, "Command: " ++ c.name, "Running " ++ c.name]
    ++ match c.file? with
      | some file => ["Reading file: " ++ Text.quoted file]
      | none => []

/-- The messages, numbered from one. -/
def text (c : Command) : String :=
  String.join ((messages c).zipIdx 1 |>.map fun (message, n) =>
    "[" ++ toString n ++ "] - " ++ message ++ "\n")

/-- The files once the log is open, if it is asked for. -/
def opened (i : Invocation) (files : Files) : Files :=
  if i.log then FileTree.insert files fileName (text i.command).toUTF8 else files

end Lox.Log
