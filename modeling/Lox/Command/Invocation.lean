/-!
The command line: what a list of arguments asks for.
-/

namespace Lox

inductive Command where
  | tokenize (file : String) (asData : Bool)
  | parse (file : String)
  | evaluate (file : String)
  | run (file : String)
  | prompt
  | version
  | help
  deriving DecidableEq, Repr

/-- The file that a command reads. -/
def Command.file? : Command → Option String
  | tokenize file _ => some file
  | parse file => some file
  | evaluate file => some file
  | run file => some file
  | _ => none

def Command.name : Command → String
  | tokenize .. => "tokenize"
  | parse _ => "parse"
  | evaluate _ => "evaluate"
  | run _ => "run"
  | prompt => "run"
  | version => "version"
  | help => "help"

structure Invocation where
  command : Command
  log : Bool
  deriving DecidableEq, Repr

namespace Invocation

/-- What follows the name of a command. -/
structure Options where
  log : Bool
  asData : Bool
  file : Option String

/-- One file name at most, and no empty one. -/
def Options.addFile (o : Options) (name : String) : Option Options :=
  if o.file.isSome || name.isEmpty then none else some { o with file := some name }

/-- An option in one or two dashes. A dash by itself is a file name. -/
def isOption (argument : String) : Bool := argument.startsWith "-" && argument ≠ "-"

/-- The first letter of short options, which are told at once. -/
def shortOption (argument : String) : Option Char := (argument.toList.drop 1).head?

/-- The options and the file name of a command; each option stands once at most, and after `--` all
is a file name. `none` stands for help at `.inr`. -/
def options (allowsData : Bool) (o : Options) : List String → Option (Options ⊕ Unit)
  | [] => some (.inl o)
  | argument :: rest =>
      if argument = "--" then (rest.foldlM Options.addFile o).map .inl
      else if argument = "--help" then some (.inr ())
      else if argument = "--log" then
        if o.log then none else options allowsData { o with log := true } rest
      else if argument = "--json" then
        if !allowsData || o.asData then none
        else options allowsData { o with asData := true } rest
      else if isOption argument then
        if shortOption argument = some 'h' then some (.inr ()) else none
      else
        match o.addFile argument with
        | some o => options allowsData o rest
        | none => none

/-- The command of a name, made of its options. -/
def commandOf (name : String) (o : Options) : Option Command :=
  match name, o.file with
  | "tokenize", some file => some (.tokenize file o.asData)
  | "parse", some file => some (.parse file)
  | "evaluate", some file => some (.evaluate file)
  | "run", some file => some (.run file)
  | "run", none => some .prompt
  | _, _ => none

def names : List String := ["tokenize", "parse", "evaluate", "run"]

/-- What help can be asked about: everything at once, one command, or help itself. -/
def isTopic : List String → Bool
  | [] => true
  | [name] => name = "help" ∨ names.contains name
  | _ => false

/-- A command with its arguments, `log` telling whether logging was asked for in front of it. -/
def named (log : Bool) (name : String) (rest : List String) : Option Invocation :=
  match options (name = "tokenize") ⟨false, false, none⟩ rest with
  | none => none
  | some (.inr _) => some ⟨.help, false⟩
  | some (.inl o) => (commandOf name o).map fun command => ⟨command, log || o.log⟩

/-- What the arguments ask for; `none` if they are malformed. -/
def ofArguments (log : Bool) : List String → Option Invocation
  | [] => none
  | argument :: rest =>
      if argument = "--help" then some ⟨.help, false⟩
      else if argument = "--version" then some ⟨.version, false⟩
      else if argument = "--log" then if log then none else ofArguments true rest
      else if isOption argument then
        match shortOption argument with
        | some 'h' => some ⟨.help, false⟩
        | some 'V' => some ⟨.version, false⟩
        | _ => none
      else if argument = "help" then
        if isTopic rest then some ⟨.help, false⟩ else none
      else if names.contains argument then named log argument rest
      else none

end Invocation

end Lox
