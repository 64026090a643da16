import Lox.Grammar.Program
import Lox.Syntax.Renumbered

/-!
Readings for a host that holds ids in words of 64 bits: after the largest id comes 0.
-/

namespace Lox.Grammar.Word

def wrap (id : ExprId) : ExprId := id % Nat.pow 2 64

/-- A reading with its ids wrapped, `onTree` being how the ids of its value are replaced. -/
def wrapReading {α : Type} (onTree : (ExprId → ExprId) → α → α) (r : Reading α) : Reading α :=
  ⟨onTree wrap r.value, wrap r.nextId⟩

def readProgram (tokens : List Token) (firstId : ExprId) : Reading (Except SyntaxError (List Stmt)) :=
  wrapReading (fun f => Except.map (Stmt.renumberList f)) (Grammar.readProgram tokens firstId)

def readExpression (tokens : List Token) (firstId : ExprId) : Reading (Except SyntaxError Expr) :=
  wrapReading (fun f => Except.map (Expr.renumber f)) (Grammar.readExpression tokens firstId)

def recoverProgram (tokens : List Token) (firstId : ExprId) :
    Reading (List (Except SyntaxError Stmt)) :=
  wrapReading (fun f => List.map (Except.map (Stmt.renumber f)))
    (Grammar.recoverProgram tokens firstId)

end Lox.Grammar.Word
