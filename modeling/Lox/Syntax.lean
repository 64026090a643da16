import Lox.Token

/-!
The trees of expressions and statements. Every expression has an id, by which distances to
bindings are recorded; trees of equal shape at two places keep apart by their ids.
-/

namespace Lox

abbrev ExprId := Nat

inductive Literal where
  | number (value : Number.Pattern)
  | string (value : String)
  | bool (value : Bool)
  | nil
  deriving DecidableEq, Repr

inductive Expr where
  | literal (id : ExprId) (value : Literal)
  | grouping (id : ExprId) (inner : Expr)
  | unary (id : ExprId) (operator : Token) (operand : Expr)
  | binary (id : ExprId) (left : Expr) (operator : Token) (right : Expr)
  | logical (id : ExprId) (left : Expr) (operator : Token) (right : Expr)
  | assign (id : ExprId) (name : Token) (value : Expr)
  | var (id : ExprId) (name : Token)
  | call (id : ExprId) (callee : Expr) (paren : Token) (arguments : List Expr)
  | get (id : ExprId) (object : Expr) (name : Token)
  | set (id : ExprId) (object : Expr) (name : Token) (value : Expr)
  | this (id : ExprId) (keyword : Token)
  | super (id : ExprId) (keyword method : Token)
  | comma (id : ExprId) (left right : Expr)
  | ternary (id : ExprId) (condition thenBranch elseBranch : Expr)

def Expr.id : Expr → ExprId
  | literal id _ => id
  | grouping id _ => id
  | unary id _ _ => id
  | binary id _ _ _ => id
  | logical id _ _ _ => id
  | assign id _ _ => id
  | var id _ => id
  | call id _ _ _ => id
  | get id _ _ => id
  | set id _ _ _ => id
  | this id _ => id
  | super id _ _ => id
  | comma id _ _ => id
  | ternary id _ _ _ => id

mutual

inductive Stmt where
  | expression (value : Expr)
  | print (value : Expr)
  | varDecl (name : Token) (initializer : Option Expr)
  | block (body : List Stmt)
  | ifThen (condition : Expr) (thenBranch : Stmt)
  | ifElse (condition : Expr) (thenBranch elseBranch : Stmt)
  | whileLoop (condition : Expr) (body : Stmt)
  | funDecl (function : FunctionDecl)
  | returnStmt (keyword : Token) (value : Option Expr)
  | classDecl (name : Token) (superclass : Option Expr) (methods : List FunctionDecl)

structure FunctionDecl where
  name : Token
  parameters : List Token
  body : List Stmt

end

/-- The method that runs when an instance is made. -/
def initializerName : String := "init"

/-- A `for` loop in terms of the other statements: the increment follows the body, and a scope of
its own holds the initializer. -/
def Stmt.forLoop (initializer : Option Stmt) (condition : Expr) (increment : Option Expr)
    (body : Stmt) : Stmt :=
  let step := match increment with
    | some e => .block [body, .expression e]
    | none => body
  match initializer with
  | some s => .block [s, .whileLoop condition step]
  | none => .whileLoop condition step

end Lox
