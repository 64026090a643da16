import Lox.Text.Quoted
import Lox.Text.Utf8

/-!
Files: what a path leads to, and reading source text from there or failing to.
-/

namespace Lox

inductive FileState where
  | bytes (content : ByteArray)
  | absent
  | directory
  | belowFile
  | nameTooLong

/-- A failure that ends the program: what could not be done, and why. -/
structure ReadFailure where
  what : String
  why : String

def ReadFailure.text (f : ReadFailure) : String :=
  "Error: " ++ f.what ++ "\n\nCaused by:\n    " ++ f.why ++ "\n"

namespace FileState

/-- The source text of a file. An empty file is an empty text; a directory can be opened but
holds none. -/
def source (name : String) : FileState → Except ReadFailure String
  | absent => notOpened "No such file or directory (os error 2)"
  | belowFile => notOpened "Not a directory (os error 20)"
  | nameTooLong => notOpened "File name too long (os error 36)"
  | directory =>
      .error ⟨"Failed to map file " ++ Text.quoted name, "No such device (os error 19)"⟩
  | bytes content =>
      match String.fromUTF8? content with
      | some text => .ok text
      | none =>
          let why := match Text.illFormed? content.toList with
            | some e => e.message
            | none => ""
          .error ⟨"File " ++ Text.quoted name ++ " is not valid UTF-8", why⟩
where
  notOpened (why : String) : Except ReadFailure String :=
    .error ⟨"Failed to open file " ++ Text.quoted name, why⟩

end FileState

/-- A file or a directory. Devices are files that tell no length and so read as empty, and so do
the directories that are not `sized`. -/
inductive FileTree where
  | file (content : ByteArray)
  | directory (sized : Bool) (entries : List (String × FileTree))

namespace FileTree

def device : FileTree := file ByteArray.empty

def find? (entries : List (String × FileTree)) (name : String) : Option FileTree :=
  (entries.find? fun e => e.1 = name).map (·.2)

/-- Put a file in the place of whatever had its name. -/
def insert (entries : List (String × FileTree)) (name : String) (content : ByteArray) :
    List (String × FileTree) :=
  (name, file content) :: entries.filter fun e => e.1 ≠ name

def emptyDirectory : FileTree := directory true []

/-- What stands in the root of every system. -/
def root : FileTree :=
  directory true (
    ("dev", directory true (
      ["null", "zero", "full", "random", "urandom", "stdin", "stdout", "stderr"].map
        fun name => (name, device))) ::
    ["proc", "sys"].map (fun name => (name, directory false [])) ++
    ["bin", "boot", "etc", "home", "lib", "lib64", "media", "mnt", "opt", "root", "run", "sbin", "srv",
      "tmp", "usr", "var"].map (fun name => (name, emptyDirectory)))

/-- The most bytes in one step of a path. -/
def maxStep : Nat := 255

/-- The most bytes in a path. -/
def maxPath : Nat := 4095

/-- Take the steps of a path. A place is given from the inside out: what was reached, and the
directories it lies in; above the root there is only the root. -/
def walk : FileTree → List FileTree → List String → FileState
  | file content, _, [] => .bytes content
  | file _, _, _ :: _ => .belowFile
  | directory sized _, _, [] => if sized then .directory else .bytes ByteArray.empty
  | directory sized entries, outer, step :: steps =>
      if step = "." then walk (directory sized entries) outer steps
      else if step = ".." then
        match outer with
        | [] => walk (directory sized entries) [] steps
        | parent :: above => walk parent above steps
      else if maxStep < step.utf8ByteSize then .nameTooLong
      else
        match find? entries step with
        | none => .absent
        | some place => walk place (directory sized entries :: outer) steps
termination_by structural _ _ steps => steps

/-- The steps of a path; a slash at the end asks for a directory. -/
def steps (path : String) : List String :=
  (path.splitOn "/").filter (· ≠ "") ++ if path.endsWith "/" then ["."] else []

end FileTree

/-- The files of the directory that a program is started in. -/
abbrev Files := List (String × FileTree)

namespace Files

def ofContents (contents : List (String × ByteArray)) : Files :=
  contents.map fun (name, content) => (name, .file content)

/-- What a path leads to. The directory is taken to lie two steps below the root. -/
def state (files : Files) (path : String) : FileState :=
  if FileTree.maxPath < path.utf8ByteSize then .nameTooLong
  else if path.startsWith "/" then FileTree.walk .root [] (FileTree.steps path)
  else
    FileTree.walk (.directory true files) [.emptyDirectory, .root] (FileTree.steps path)

end Files

end Lox
