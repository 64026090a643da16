import Lox.Syntax

/-!
Trees with other ids: each id is replaced by its image, and nothing else changes.
-/

namespace Lox

mutual

def Expr.renumber (f : ExprId → ExprId) : Expr → Expr
  | .literal id v => .literal (f id) v
  | .grouping id inner => .grouping (f id) (inner.renumber f)
  | .unary id operator operand => .unary (f id) operator (operand.renumber f)
  | .binary id left operator right =>
      .binary (f id) (left.renumber f) operator (right.renumber f)
  | .logical id left operator right =>
      .logical (f id) (left.renumber f) operator (right.renumber f)
  | .assign id name value => .assign (f id) name (value.renumber f)
  | .var id name => .var (f id) name
  | .call id callee paren arguments =>
      .call (f id) (callee.renumber f) paren (Expr.renumberList f arguments)
  | .get id object name => .get (f id) (object.renumber f) name
  | .set id object name value => .set (f id) (object.renumber f) name (value.renumber f)
  | .this id keyword => .this (f id) keyword
  | .super id keyword method => .super (f id) keyword method
  | .comma id left right => .comma (f id) (left.renumber f) (right.renumber f)
  | .ternary id condition thenBranch elseBranch =>
      .ternary (f id) (condition.renumber f) (thenBranch.renumber f) (elseBranch.renumber f)

def Expr.renumberList (f : ExprId → ExprId) : List Expr → List Expr
  | [] => []
  | e :: es => e.renumber f :: Expr.renumberList f es

end

mutual

def Stmt.renumber (f : ExprId → ExprId) : Stmt → Stmt
  | .expression e => .expression (e.renumber f)
  | .print e => .print (e.renumber f)
  | .varDecl name initializer => .varDecl name (initializer.map (·.renumber f))
  | .block body => .block (Stmt.renumberList f body)
  | .ifThen condition thenBranch => .ifThen (condition.renumber f) (thenBranch.renumber f)
  | .ifElse condition thenBranch elseBranch =>
      .ifElse (condition.renumber f) (thenBranch.renumber f) (elseBranch.renumber f)
  | .whileLoop condition body => .whileLoop (condition.renumber f) (body.renumber f)
  | .funDecl function => .funDecl (function.renumber f)
  | .returnStmt keyword value => .returnStmt keyword (value.map (·.renumber f))
  | .classDecl name superclass methods =>
      .classDecl name (superclass.map (·.renumber f)) (FunctionDecl.renumberList f methods)

def Stmt.renumberList (f : ExprId → ExprId) : List Stmt → List Stmt
  | [] => []
  | s :: ss => s.renumber f :: Stmt.renumberList f ss

def FunctionDecl.renumber (f : ExprId → ExprId) : FunctionDecl → FunctionDecl
  | ⟨name, parameters, body⟩ => ⟨name, parameters, Stmt.renumberList f body⟩

def FunctionDecl.renumberList (f : ExprId → ExprId) : List FunctionDecl → List FunctionDecl
  | [] => []
  | d :: ds => d.renumber f :: FunctionDecl.renumberList f ds

end

end Lox
