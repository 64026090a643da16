import Lox.Grammar.Cursor

/-!
The grammar of expressions, from the comma down to names and literals:

    expression → assignment ("," assignment)*
    assignment → ternary ("=" assignment)?        the left side is a name or a property
    ternary    → binary ("?" assignment ":" assignment)?
    binary     → operands of six levels, `or` the loosest, all grouping to the left
    unary      → ("!" | "-") unary | call
    call       → primary ("(" arguments? ")" | "." name)*

`nested` stands for the reader of assignments inside the expression being read.
-/

namespace Lox.Grammar

open Reader

/-- Operators of one precedence, and the tree they build. -/
structure Level where
  isOperator : TokenKind → Bool
  combine : ExprId → Expr → Token → Expr → Expr

def Level.marks (ms : List Mark) : Level :=
  ⟨fun k => ms.any fun m => k.isMark m, Expr.binary⟩

/-- The levels of operators with two operands, the loosest first. -/
def levels : List Level :=
  [⟨(·.isKeyword .or), Expr.logical⟩,
    ⟨(·.isKeyword .and), Expr.logical⟩,
    .marks [.bangEqual, .equalEqual],
    .marks [.greater, .greaterEqual, .less, .lessEqual],
    .marks [.minus, .plus],
    .marks [.slash, .star]]

def commaLevel : Level := ⟨(·.isMark .comma), fun id left _ right => .comma id left right⟩

/-- The operators that follow `left`, with their right operands. -/
def chainFrom (level : Level) (operand : Reader Expr) : Nat → Expr → Reader Expr
  | 0, left => pure left
  | bound + 1, left => do
      match ← accept? level.isOperator with
      | none => pure left
      | some operator => do
          let right ← operand
          let tree ← make fun id => level.combine id left operator right
          chainFrom level operand bound tree

def chain (level : Level) (operand : Reader Expr) (bound : Nat) : Reader Expr := do
  let left ← operand
  chainFrom level operand bound left

def expressionOf (nested : Reader Expr) (bound : Nat) : Reader Expr :=
  chain commaLevel nested bound

def primary (nested : Reader Expr) (bound : Nat) : Reader Expr := do
  let t ← peek
  match t.kind with
  | .keyword .false => do
      skip
      make (.literal · (.bool false))
  | .keyword .true => do
      skip
      make (.literal · (.bool true))
  | .keyword .nil => do
      skip
      make (.literal · .nil)
  | .number n => do
      skip
      make (.literal · (.number n))
  | .string s => do
      skip
      make (.literal · (.string s))
  | .keyword .this => do
      skip
      make (.this · t)
  | .keyword .super => do
      skip
      let _ ← expectMark .dot .superDot
      let method ← expectName .superMethodName
      make (.super · t method)
  | .identifier => do
      skip
      make (.var · t)
  | .mark .leftParen => do
      skip
      let inner ← expressionOf nested bound
      let _ ← expectMark .rightParen .groupEnd
      make (.grouping · inner)
  | _ => refuse (.expected .expression)

/-- The calls and properties that follow `e`. -/
def suffixesFrom (nested : Reader Expr) : Nat → Expr → Reader Expr
  | 0, e => pure e
  | bound + 1, e => do
      match ← accept? (·.isMark .leftParen) with
      | some _ => do
          let arguments ← items .arguments nested bound
          let paren ← expectMark .rightParen .argumentListEnd
          let tree ← make fun id => .call id e paren arguments
          suffixesFrom nested bound tree
      | none => do
          match ← accept? (·.isMark .dot) with
          | some _ => do
              let name ← expectName .propertyName
              let tree ← make fun id => .get id e name
              suffixesFrom nested bound tree
          | none => pure e

def call (nested : Reader Expr) (bound : Nat) : Reader Expr := do
  let e ← primary nested bound
  suffixesFrom nested bound e

/-- `operators` bounds the operators in front of the operand. -/
def unaryFrom (nested : Reader Expr) (bound : Nat) : Nat → Reader Expr
  | 0 => call nested bound
  | operators + 1 => do
      match ← accept? (fun k => k.isMark .bang || k.isMark .minus) with
      | none => call nested bound
      | some operator => do
          let operand ← unaryFrom nested bound operators
          make (.unary · operator operand)

def unary (nested : Reader Expr) (bound : Nat) : Reader Expr := unaryFrom nested bound bound

def binary (nested : Reader Expr) (bound : Nat) : List Level → Reader Expr
  | [] => unary nested bound
  | level :: tighter => chain level (binary nested bound tighter) bound

/-- The branches are assignments, so a further `?` in the last one nests to the right. -/
def ternary (nested : Reader Expr) (bound : Nat) : Reader Expr := do
  let condition ← binary nested bound levels
  match ← accept? (·.isMark .question) with
  | none => pure condition
  | some _ => do
      let thenBranch ← nested
      let _ ← expectMark .colon .ternaryColon
      let elseBranch ← nested
      make fun id => .ternary id condition thenBranch elseBranch

/-- What `target = value` means. -/
def assignTo (target : Expr) (equals : Token) (value : Expr) : Reader Expr :=
  match target with
  | .var _ name => make fun id => .assign id name value
  | .get _ object name => make fun id => .set id object name value
  | _ => throw ⟨equals, .invalidAssignmentTarget⟩

def assignment : Nat → Reader Expr
  | 0 => refuse (.expected .expression)
  | bound + 1 => do
      let target ← ternary (assignment bound) (bound + 1)
      match ← accept? (·.isMark .equal) with
      | none => pure target
      | some equals => do
          let value ← assignment bound
          assignTo target equals value

def expression (bound : Nat) : Reader Expr := expressionOf (assignment bound) bound

end Lox.Grammar
