import Lox.Grammar.Expression

/-!
The grammar of declarations and statements:

    declaration → "class" name ("<" name)? "{" function* "}" | "fun" function | varDecl | statement
    function    → name "(" parameters? ")" block
    varDecl     → "var" name ("=" expression)? ";"
    statement   → for | if | while | return | block | print | expression ";"

An `else` belongs to the nearest `if`. `declaration` and `statement` stand for the readers of what
is nested in the statement being read. Where a function reads what a keyword starts, the keyword
has been read.
-/

namespace Lox.Grammar

open Reader

def block (declaration : Reader Stmt) (bound : Nat) : Reader (List Stmt) := do
  let body ← itemsToBrace declaration bound
  let _ ← expectMark .rightBrace .blockEnd
  pure body

def function (role : FunctionRole) (declaration : Reader Stmt) (bound : Nat) :
    Reader FunctionDecl := do
  let name ← expectName (.functionName role)
  let _ ← expectMark .leftParen (.parameterList role)
  let parameters ← items .parameters (expectName .parameterName) bound
  let _ ← expectMark .rightParen .parameterListEnd
  let _ ← expectMark .leftBrace (.functionBody role)
  let body ← block declaration bound
  pure ⟨name, parameters, body⟩

def superclass : Reader (Option Expr) := do
  match ← accept? (·.isMark .less) with
  | none => pure none
  | some _ => do
      let name ← expectName .superclassName
      let tree ← make (.var · name)
      pure (some tree)

def classDeclaration (declaration : Reader Stmt) (bound : Nat) : Reader Stmt := do
  let name ← expectName .className
  let parent ← superclass
  let _ ← expectMark .leftBrace .classBody
  let methods ← itemsToBrace (function .method declaration bound) bound
  let _ ← expectMark .rightBrace .classEnd
  pure (.classDecl name parent methods)

def varDeclaration (bound : Nat) : Reader Stmt := do
  let name ← expectName .variableName
  match ← accept? (·.isMark .equal) with
  | none => do
      let _ ← expectMark .semicolon .variableEnd
      pure (.varDecl name none)
  | some _ => do
      let value ← expression bound
      let _ ← expectMark .semicolon .variableEnd
      pure (.varDecl name (some value))

def expressionStatement (bound : Nat) : Reader Stmt := do
  let value ← expression bound
  let _ ← expectMark .semicolon .expressionStatementEnd
  pure (.expression value)

def printStatement (bound : Nat) : Reader Stmt := do
  let value ← expression bound
  let _ ← expectMark .semicolon .printEnd
  pure (.print value)

/-- An expression, unless the token that ends its place comes first. -/
def expressionUnless (last : Mark) (bound : Nat) : Reader (Option Expr) := do
  if ← check (·.isMark last) then pure none
  else do
    let e ← expression bound
    pure (some e)

def returnStatement (keyword : Token) (bound : Nat) : Reader Stmt := do
  let value ← expressionUnless .semicolon bound
  let _ ← expectMark .semicolon .returnEnd
  pure (.returnStmt keyword value)

def ifStatement (statement : Reader Stmt) (bound : Nat) : Reader Stmt := do
  let _ ← expectMark .leftParen .ifCondition
  let condition ← expression bound
  let _ ← expectMark .rightParen .ifConditionEnd
  let thenBranch ← statement
  match ← accept? (·.isKeyword .else_) with
  | none => pure (.ifThen condition thenBranch)
  | some _ => do
      let elseBranch ← statement
      pure (.ifElse condition thenBranch elseBranch)

def whileStatement (statement : Reader Stmt) (bound : Nat) : Reader Stmt := do
  let _ ← expectMark .leftParen .whileCondition
  let condition ← expression bound
  let _ ← expectMark .rightParen .whileConditionEnd
  let body ← statement
  pure (.whileLoop condition body)

def forInitializer (bound : Nat) : Reader (Option Stmt) := do
  match ← accept? (·.isMark .semicolon) with
  | some _ => pure none
  | none => do
      match ← accept? (·.isKeyword .var) with
      | some _ => do
          let s ← varDeclaration bound
          pure (some s)
      | none => do
          let s ← expressionStatement bound
          pure (some s)

/-- A loop without a condition runs on `true`. -/
def forCondition : Option Expr → Reader Expr
  | some e => pure e
  | none => make (.literal · (.bool true))

def forStatement (statement : Reader Stmt) (bound : Nat) : Reader Stmt := do
  let _ ← expectMark .leftParen .forClauses
  let initializer ← forInitializer bound
  let condition ← expressionUnless .semicolon bound
  let _ ← expectMark .semicolon .loopConditionEnd
  let increment ← expressionUnless .rightParen bound
  let _ ← expectMark .rightParen .forClausesEnd
  let body ← statement
  let condition ← forCondition condition
  pure (.forLoop initializer condition increment body)

def statementOf (declaration statement : Reader Stmt) (bound : Nat) : Reader Stmt := do
  let t ← peek
  match t.kind with
  | .keyword .for_ => do
      skip
      forStatement statement bound
  | .keyword .if_ => do
      skip
      ifStatement statement bound
  | .keyword .while_ => do
      skip
      whileStatement statement bound
  | .keyword .return_ => do
      skip
      returnStatement t bound
  | .keyword .print => do
      skip
      printStatement bound
  | .mark .leftBrace => do
      skip
      let body ← block declaration bound
      pure (.block body)
  | _ => expressionStatement bound

def declarationOf (declaration statement : Reader Stmt) (bound : Nat) : Reader Stmt := do
  let t ← peek
  match t.kind with
  | .keyword .class_ => do
      skip
      classDeclaration declaration bound
  | .keyword .fun_ => do
      skip
      let f ← function .function declaration bound
      pure (.funDecl f)
  | .keyword .var => do
      skip
      varDeclaration bound
  | _ => statementOf declaration statement bound

mutual

def declaration : Nat → Reader Stmt
  | 0 => refuse (.expected .expression)
  | bound + 1 => declarationOf (declaration bound) (statement bound) (bound + 1)

def statement : Nat → Reader Stmt
  | 0 => refuse (.expected .expression)
  | bound + 1 => statementOf (declaration bound) (statement bound) (bound + 1)

end

end Lox.Grammar
