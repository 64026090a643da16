import Lox.Token

/-!
Token lists as data files, in one line or indented by two spaces.
-/

namespace Lox

/-- A data value. Numbers are held as their text. -/
inductive Data where
  | number (text : String)
  | string (value : String)
  | array (items : List Data)
  | object (fields : List (String × Data))

namespace Data

def hexDigit (n : Nat) : Char := (Nat.toDigits 16 n).headD '0'

/-- Quotes, backslashes and the characters below the space are escaped, and nothing else. -/
def escape (c : Char) : List Char :=
  if c = '"' then ['\\', '"']
  else if c = '\\' then ['\\', '\\']
  else if c = '\x08' then ['\\', 'b']
  else if c = '\t' then ['\\', 't']
  else if c = '\n' then ['\\', 'n']
  else if c = '\x0c' then ['\\', 'f']
  else if c = '\r' then ['\\', 'r']
  else if c.toNat < 32 then ['\\', 'u', '0', '0', hexDigit (c.toNat / 16), hexDigit (c.toNat % 16)]
  else [c]

def quoted (s : String) : String := String.ofList ('"' :: s.toList.flatMap escape ++ ['"'])

mutual

def compact : Data → String
  | number t => t
  | string s => quoted s
  | array items => "[" ++ ",".intercalate (compactItems items) ++ "]"
  | object fields => "\x7b" ++ ",".intercalate (compactFields fields) ++ "\x7d"

def compactItems : List Data → List String
  | [] => []
  | d :: ds => compact d :: compactItems ds

def compactFields : List (String × Data) → List String
  | [] => []
  | (name, d) :: fields => (quoted name ++ ":" ++ compact d) :: compactFields fields

end

def indent (depth : Nat) : String := String.ofList (List.replicate (2 * depth) ' ')

/-- The parts of an array or object, each on a line of its own. -/
def bracketed (depth : Nat) (left right : String) (parts : List String) : String :=
  if parts.isEmpty then left ++ right
  else
    left ++ "\n" ++ ",\n".intercalate (parts.map (indent (depth + 1) ++ ·)) ++ "\n"
      ++ indent depth ++ right

mutual

def pretty (depth : Nat) : Data → String
  | number t => t
  | string s => quoted s
  | array items => bracketed depth "[" "]" (prettyItems (depth + 1) items)
  | object fields => bracketed depth "\x7b" "\x7d" (prettyFields (depth + 1) fields)

def prettyItems (depth : Nat) : List Data → List String
  | [] => []
  | d :: ds => pretty depth d :: prettyItems depth ds

def prettyFields (depth : Nat) : List (String × Data) → List String
  | [] => []
  | (name, d) :: fields => (quoted name ++ ": " ++ pretty depth d) :: prettyFields depth fields

end

end Data

def TokenKind.data : TokenKind → Data
  | .string s => .object [("STRING", .string s)]
  | .number n => .object [("NUMBER", .number (Number.dataText n))]
  | kind => .string kind.name

def Token.data (t : Token) : Data :=
  .object [("token_type", t.kind.data), ("lexeme", .string t.lexeme),
    ("line", .number (toString t.line))]

def Token.listData (tokens : List Token) : Data := .array (tokens.map Token.data)

end Lox
