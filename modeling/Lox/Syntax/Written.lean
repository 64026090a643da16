import Lox.Syntax

/-!
Trees in a written form with the operator first. Ids and lines are not shown.
-/

namespace Lox

def Literal.written : Literal → String
  | number n => Number.treeText n
  | string s => s
  | bool true => "true"
  | bool false => "false"
  | nil => "nil"

/-- A head and what follows it, in parentheses and parted by blanks. -/
def form (parts : List String) : String := "(" ++ " ".intercalate parts ++ ")"

mutual

def Expr.written : Expr → String
  | literal _ v => v.written
  | grouping _ inner => form ["group", inner.written]
  | unary _ operator operand => form [operator.lexeme, operand.written]
  | binary _ left operator right => form [operator.lexeme, left.written, right.written]
  | logical _ left operator right => form [operator.lexeme, left.written, right.written]
  | assign _ name value => form ["=", name.lexeme, value.written]
  | var _ name => name.lexeme
  | call _ callee _ arguments => form ("call" :: callee.written :: writtenList arguments)
  | get _ object name => form [".", object.written, name.lexeme]
  | set _ object name value => form ["=", form [".", object.written, name.lexeme], value.written]
  | this _ _ => "this"
  | super _ _ method => form ["super", method.lexeme]
  | comma _ left right => form [",", left.written, right.written]
  | ternary _ condition thenBranch elseBranch =>
      form ["?:", condition.written, thenBranch.written, elseBranch.written]

def Expr.writtenList : List Expr → List String
  | [] => []
  | e :: es => e.written :: writtenList es

end

def superclassPart : Option Expr → List String
  | some e => ["<", e.written]
  | none => []

def parameterPart (name : Token) (parameters : List Token) : String :=
  name.lexeme ++ "(" ++ " ".intercalate (parameters.map (·.lexeme)) ++ ")"

mutual

def Stmt.written : Stmt → String
  | .expression e => form [";", e.written]
  | .print e => form ["print", e.written]
  | .varDecl name (some e) => form ["var", name.lexeme, e.written]
  | .varDecl name none => form ["var", name.lexeme]
  | .block body => form ("block" :: Stmt.writtenList body)
  | .ifThen condition thenBranch => form ["if", condition.written, thenBranch.written]
  | .ifElse condition thenBranch elseBranch =>
      form ["if-else", condition.written, thenBranch.written, elseBranch.written]
  | .whileLoop condition body => form ["while", condition.written, body.written]
  | .funDecl function => function.written "fun"
  | .returnStmt _ (some e) => form ["return", e.written]
  | .returnStmt _ none => form ["return"]
  | .classDecl name superclass methods =>
      form ("class" :: name.lexeme :: superclassPart superclass ++ Stmt.writtenMethods methods)

def FunctionDecl.written (head : String) : FunctionDecl → String
  | ⟨name, parameters, body⟩ => form (head :: parameterPart name parameters :: Stmt.writtenList body)

def Stmt.writtenList : List Stmt → List String
  | [] => []
  | s :: ss => s.written :: Stmt.writtenList ss

def Stmt.writtenMethods : List FunctionDecl → List String
  | [] => []
  | m :: ms => m.written "method" :: Stmt.writtenMethods ms

end

end Lox
