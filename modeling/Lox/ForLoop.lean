import Lox.Evaluation
import Lox.Grammar.Statement
import Lox.Syntax.Renumbered

/-!
The direct rule for a `for` loop, beside the tree of other statements that it is read as. There is
one scope for the loop: it holds what the initializer declares, and condition, body and increment
are evaluated in it, round after round.
-/

namespace Lox

structure ForLoop where
  initializer : Option Stmt
  /-- A loop without a condition goes on until it is left. -/
  condition : Option Expr
  increment : Option Expr
  body : Stmt

namespace ForLoop

/-- The loop as it is read; `id` is that of the condition if none is written. -/
def desugared (l : ForLoop) (id : ExprId) : Stmt :=
  .forLoop l.initializer (l.condition.getD (.literal id (.bool true))) l.increment l.body

/-- The same loop with other ids. -/
def renumber (f : ExprId → ExprId) (l : ForLoop) : ForLoop :=
  ⟨l.initializer.map (·.renumber f), l.condition.map (·.renumber f),
    l.increment.map (·.renumber f), l.body.renumber f⟩

end ForLoop

namespace Grammar

open Reader

/-- The parts of a loop, as they are written. -/
def forClauses (statement : Reader Stmt) (bound : Nat) : Reader ForLoop := do
  let _ ← expectMark .leftParen .forClauses
  let initializer ← forInitializer bound
  let condition ← expressionUnless .semicolon bound
  let _ ← expectMark .semicolon .loopConditionEnd
  let increment ← expressionUnless .rightParen bound
  let _ ← expectMark .rightParen .forClausesEnd
  let body ← statement
  pure ⟨initializer, condition, increment, body⟩

end Grammar

namespace Scoping

/-- One scope for the whole loop. -/
def forLoop (l : ForLoop) : Scoping Unit := inFrame do
  stmts l.initializer.toList
  exprs l.condition.toList
  stmt l.body
  exprs l.increment.toList

end Scoping

namespace Run

def forCondition (fuel : Nat) (l : ForLoop) : Run Value :=
  match l.condition with
  | some e => evaluate fuel e
  | none => pure (.bool true)

/-- The body and then the increment, whose value is not used. A body that returns ends the round. -/
def forRound (fuel : Nat) (l : ForLoop) : Run Flow := do
  match ← execute fuel l.body with
  | .normal =>
      match l.increment with
      | some e => do
          let _ ← evaluate fuel e
          pure .normal
      | none => pure .normal
  | .returned v => pure (.returned v)

/-- Rounds as long as the condition holds, at most `bound`. -/
def forRounds (fuel : Nat) (l : ForLoop) : Nat → Run Flow
  | 0 => outOfFuel
  | bound + 1 => do
      let v ← forCondition fuel l
      if v.isTruthy then
        match ← forRound fuel l with
        | .normal => forRounds fuel l bound
        | .returned v => pure (.returned v)
      else pure .normal

/-- The initializer runs once, in the one scope of the loop. -/
def forLoop (fuel : Nat) (l : ForLoop) : Run Flow := do
  let chain ← observe (·.chain)
  let scope ← newScope Table.empty
  inChain (scope :: chain) (do
    let _ ← sequence (execute fuel) l.initializer.toList
    forRounds fuel l fuel)

end Run

end Lox
