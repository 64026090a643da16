import Lox.Number.Text

/-!
The tokens of Lox: marks, keywords, names, literals and the end of the text. A literal carries its
value, and every token its text and the line it ends on.
-/

namespace Lox

/-- Punctuation and operators. -/
inductive Mark where
  | leftParen | rightParen | leftBrace | rightBrace
  | comma | dot | minus | plus | semicolon | slash | star | question | colon
  | bang | bangEqual | equal | equalEqual | greater | greaterEqual | less | lessEqual
  deriving DecidableEq, Repr

namespace Mark

def all : List Mark :=
  [leftParen, rightParen, leftBrace, rightBrace, comma, dot, minus, plus, semicolon, slash, star,
    question, colon, bang, bangEqual, equal, equalEqual, greater, greaterEqual, less, lessEqual]

def chars : Mark → List Char
  | leftParen => ['(']
  | rightParen => [')']
  | leftBrace => ['\x7b']
  | rightBrace => ['\x7d']
  | comma => [',']
  | dot => ['.']
  | minus => ['-']
  | plus => ['+']
  | semicolon => [';']
  | slash => ['/']
  | star => ['*']
  | question => ['?']
  | colon => [':']
  | bang => ['!']
  | bangEqual => ['!', '=']
  | equal => ['=']
  | equalEqual => ['=', '=']
  | greater => ['>']
  | greaterEqual => ['>', '=']
  | less => ['<']
  | lessEqual => ['<', '=']

def text (m : Mark) : String := String.ofList m.chars

def name : Mark → String
  | leftParen => "LEFT_PAREN"
  | rightParen => "RIGHT_PAREN"
  | leftBrace => "LEFT_BRACE"
  | rightBrace => "RIGHT_BRACE"
  | comma => "COMMA"
  | dot => "DOT"
  | minus => "MINUS"
  | plus => "PLUS"
  | semicolon => "SEMICOLON"
  | slash => "SLASH"
  | star => "STAR"
  | question => "QUESTION"
  | colon => "COLON"
  | bang => "BANG"
  | bangEqual => "BANG_EQUAL"
  | equal => "EQUAL"
  | equalEqual => "EQUAL_EQUAL"
  | greater => "GREATER"
  | greaterEqual => "GREATER_EQUAL"
  | less => "LESS"
  | lessEqual => "LESS_EQUAL"

/-- The mark written with exactly these characters. -/
def ofChars? (cs : List Char) : Option Mark := all.find? fun m => m.chars = cs

end Mark

inductive Keyword where
  | and | class_ | else_ | false | fun_ | for_ | if_ | nil | or | print | return_ | super | this
  | true | var | while_
  deriving DecidableEq, Repr

namespace Keyword

def all : List Keyword :=
  [and, class_, else_, false, fun_, for_, if_, nil, or, print, return_, super, this, true, var,
    while_]

def text : Keyword → String
  | and => "and"
  | class_ => "class"
  | else_ => "else"
  | false => "false"
  | fun_ => "fun"
  | for_ => "for"
  | if_ => "if"
  | nil => "nil"
  | or => "or"
  | print => "print"
  | return_ => "return"
  | super => "super"
  | this => "this"
  | true => "true"
  | var => "var"
  | while_ => "while"

def name : Keyword → String
  | and => "AND"
  | class_ => "CLASS"
  | else_ => "ELSE"
  | false => "FALSE"
  | fun_ => "FUN"
  | for_ => "FOR"
  | if_ => "IF"
  | nil => "NIL"
  | or => "OR"
  | print => "PRINT"
  | return_ => "RETURN"
  | super => "SUPER"
  | this => "THIS"
  | true => "TRUE"
  | var => "VAR"
  | while_ => "WHILE"

/-- The keyword that a whole word spells. -/
def ofText? (word : String) : Option Keyword := all.find? fun k => k.text = word

theorem ofText?_text (k : Keyword) : ofText? k.text = some k := by cases k <;> decide

end Keyword

inductive TokenKind where
  | mark (mark : Mark)
  | keyword (word : Keyword)
  | identifier
  | string (value : String)
  | number (value : Number.Pattern)
  | endOfText
  deriving DecidableEq, Repr

namespace TokenKind

def name : TokenKind → String
  | mark m => m.name
  | keyword k => k.name
  | identifier => "IDENTIFIER"
  | string _ => "STRING"
  | number _ => "NUMBER"
  | endOfText => "EOF"

/-- The kind without a value that has this name. -/
def ofName? (name : String) : Option TokenKind :=
  (Mark.all.find? (·.name = name)).map mark
    <|> (Keyword.all.find? (·.name = name)).map keyword
    <|> if name = "IDENTIFIER" then some identifier
      else if name = "EOF" then some endOfText
      else none

def isMark (expected : Mark) : TokenKind → Bool
  | mark m => m = expected
  | _ => false

def isKeyword (expected : Keyword) : TokenKind → Bool
  | keyword k => k = expected
  | _ => false

def isIdentifier : TokenKind → Bool
  | identifier => true
  | _ => false

def isEnd : TokenKind → Bool
  | endOfText => true
  | _ => false

end TokenKind

structure Token where
  kind : TokenKind
  lexeme : String
  line : Nat
  deriving DecidableEq, Repr

namespace Token

/-- Stands for the end of a token list that has no end token of its own. -/
def endOfInput : Token := ⟨.endOfText, "", 1⟩

/-- A name that no text holds, for what the language binds by itself. -/
def named (name : String) (line : Nat) : Token := ⟨.identifier, name, line⟩

/-- Kind, lexeme and value. -/
def text (t : Token) : String :=
  let value := match t.kind with
    | .string s => s
    | .number n => Number.tokenText n
    | _ => "null"
  t.kind.name ++ " " ++ t.lexeme ++ " " ++ value

end Token

end Lox
