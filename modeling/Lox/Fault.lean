import Lox.Token

/-!
What can go wrong, by stage, and how it is told. Each error holds its cause and its place; the
wording is in the `message` of the cause alone.
-/

namespace Lox

inductive LexCause where
  | unexpectedCharacter (c : Char)
  | unterminatedString
  | unterminatedComment

def LexCause.message : LexCause → String
  | unexpectedCharacter c => "Unexpected character: " ++ c.toString
  | unterminatedString => "Unterminated string."
  | unterminatedComment => "Unterminated block comment."

structure LexError where
  line : Nat
  cause : LexCause

/-- Methods differ from other functions only in how they are spoken of. -/
inductive FunctionRole where
  | function | method
  deriving DecidableEq, Repr

def FunctionRole.text : FunctionRole → String
  | function => "function"
  | method => "method"

/-- What a list that is too long holds. -/
inductive ListRole where
  | parameters | arguments
  deriving DecidableEq, Repr

def ListRole.text : ListRole → String
  | parameters => "parameters"
  | arguments => "arguments"

/-- What the grammar asks for at a place. -/
inductive Expectation where
  | className
  | superclassName
  | functionName (role : FunctionRole)
  | parameterName
  | variableName
  | propertyName
  | superMethodName
  | expression
  | expressionEnd
  | classBody
  | classEnd
  | parameterList (role : FunctionRole)
  | parameterListEnd
  | functionBody (role : FunctionRole)
  | variableEnd
  | forClauses
  | loopConditionEnd
  | forClausesEnd
  | printEnd
  | expressionStatementEnd
  | ifCondition
  | ifConditionEnd
  | whileCondition
  | whileConditionEnd
  | returnEnd
  | blockEnd
  | ternaryColon
  | argumentListEnd
  | superDot
  | groupEnd
  deriving DecidableEq, Repr

def Expectation.message : Expectation → String
  | className => "Expect class name."
  | superclassName => "Expect superclass name."
  | functionName role => "Expect " ++ role.text ++ " name."
  | parameterName => "Expect parameter name."
  | variableName => "Expect variable name."
  | propertyName => "Expect property name after '.'."
  | superMethodName => "Expect superclass method name."
  | expression => "Expect expression."
  | expressionEnd => "Expect end of expression."
  | classBody => "Expect '\x7b' before class body."
  | classEnd => "Expect '\x7d' after class body."
  | parameterList role => "Expect '(' after " ++ role.text ++ " name."
  | parameterListEnd => "Expect ')' after parameters."
  | functionBody role => "Expect '\x7b' before " ++ role.text ++ " body."
  | variableEnd => "Expect ';' after variable declaration."
  | forClauses => "Expect '(' after 'for'."
  | loopConditionEnd => "Expect ';' after loop condition."
  | forClausesEnd => "Expect ')' after for clauses."
  | printEnd => "Expect ';' after value."
  | expressionStatementEnd => "Expect ';' after expression."
  | ifCondition => "Expect '(' after 'if'."
  | ifConditionEnd => "Expect ')' after if condition."
  | whileCondition => "Expect '(' after 'while'."
  | whileConditionEnd => "Expect ')' after condition."
  | returnEnd => "Expect ';' after return value."
  | blockEnd => "Expect '\x7d' after block."
  | ternaryColon => "Expect ':' after then branch of '?'."
  | argumentListEnd => "Expect ')' after arguments."
  | superDot => "Expect '.' after 'super'."
  | groupEnd => "Expect ')' after expression."

/-- The most parameters a function takes and a call passes. -/
def maxArity : Nat := 255

inductive SyntaxCause where
  | expected (what : Expectation)
  | tooMany (what : ListRole)
  | invalidAssignmentTarget
  deriving DecidableEq, Repr

def SyntaxCause.message : SyntaxCause → String
  | expected what => what.message
  | tooMany what => "Can't have more than " ++ toString maxArity ++ " " ++ what.text ++ "."
  | invalidAssignmentTarget => "Invalid assignment target."

structure SyntaxError where
  token : Token
  cause : SyntaxCause

inductive ScopeCause where
  | redeclared
  | ownInitializer
  | topLevelReturn
  | initializerReturn
  | thisOutsideClass
  | superOutsideClass
  | superWithoutSuperclass
  | ownSuperclass
  deriving DecidableEq, Repr

def ScopeCause.message : ScopeCause → String
  | redeclared => "Already a variable with this name in this scope."
  | ownInitializer => "Can't read local variable in its own initializer."
  | topLevelReturn => "Can't return from top-level code."
  | initializerReturn => "Can't return a value from an initializer."
  | thisOutsideClass => "Can't use 'this' outside of a class."
  | superOutsideClass => "Can't use 'super' outside of a class."
  | superWithoutSuperclass => "Can't use 'super' in a class with no superclass."
  | ownSuperclass => "A class can't inherit from itself."

structure ScopeError where
  token : Token
  cause : ScopeCause

inductive RuntimeCause where
  | undefinedVariable (name : String)
  | noScopeAt (distance : Nat) (name : String)
  | undefinedProperty (name : String)
  | operandNotNumber
  | operandsNotNumbers
  | operandsNotAddable
  | invalidUnary
  | invalidBinary
  | notCallable
  | wrongArity (expected actual : Nat)
  | notInstance
  | superclassNotClass
  | superUnresolved
  | superNotClass
  | noThisScope
  | thisNotInstance
  | assertionFailed (expected actual : String)
  | argumentNotNumber (native : String)
  deriving DecidableEq, Repr

def RuntimeCause.message : RuntimeCause → String
  | undefinedVariable name => "Undefined variable '" ++ name ++ "'."
  | noScopeAt distance name =>
      "No enclosing scope at distance " ++ toString distance ++ " for '" ++ name ++ "'."
  | undefinedProperty name => "Undefined property '" ++ name ++ "'."
  | operandNotNumber => "Operand must be a number."
  | operandsNotNumbers => "Operands must be two numbers."
  | operandsNotAddable => "Operands must be two numbers or two strings."
  | invalidUnary => "Invalid unary operator."
  | invalidBinary => "Invalid binary operator."
  | notCallable => "Can only call functions and classes."
  | wrongArity expected actual =>
      "Expected " ++ toString expected ++ " arguments but got " ++ toString actual ++ "."
  | notInstance => "Only instances have properties."
  | superclassNotClass => "Superclass must be a class."
  | superUnresolved => "Can't use 'super' here."
  | superNotClass => "'super' is not bound to a class."
  | noThisScope => "No 'this' scope below 'super'."
  | thisNotInstance => "'this' is not bound to an instance."
  | assertionFailed expected actual =>
      "Assertion failed: expected " ++ expected ++ ", got " ++ actual ++ "."
  | argumentNotNumber native => native ++ " expects a number."

structure RuntimeError where
  line : Nat
  cause : RuntimeCause

/-- Any error that a user of the library is told of. -/
inductive Fault where
  | lex (error : LexError)
  | parse (error : SyntaxError)
  | resolve (error : ScopeError)
  | runtime (error : RuntimeError)
  | sinkFull

namespace Fault

def message : Fault → String
  | lex e => e.cause.message
  | parse e => e.cause.message
  | resolve e => e.cause.message
  | runtime e => e.cause.message
  | sinkFull => "sink full"

def line? : Fault → Option Nat
  | lex e => some e.line
  | parse e => some e.token.line
  | resolve e => some e.token.line
  | runtime e => some e.line
  | sinkFull => none

/-- Syntax and scoping are both faults of the text, found before anything is run. -/
def isSyntax : Fault → Bool
  | parse _ => true
  | resolve _ => true
  | _ => false

def isRuntime : Fault → Bool
  | runtime _ => true
  | _ => false

/-- Where a token stands, for a message: its lexeme, or the end of the text. -/
def place (t : Token) : String := if t.kind.isEnd then " at end" else " at '" ++ t.lexeme ++ "'"

def lineTag (line : Nat) : String := "[line " ++ toString line ++ "]"

/-- The whole report: message and place. -/
def text (f : Fault) : String :=
  match f with
  | lex e => lineTag e.line ++ " Error: " ++ f.message
  | parse e => lineTag e.token.line ++ " Error" ++ place e.token ++ ": " ++ f.message
  | resolve e => lineTag e.token.line ++ " Error" ++ place e.token ++ ": " ++ f.message
  | runtime e => f.message ++ "\n" ++ lineTag e.line
  | sinkFull => f.message

end Fault

end Lox
