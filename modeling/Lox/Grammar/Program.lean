import Lox.Grammar.Statement

/-!
Whole programs and single expressions. A program is read up to its first error, or with recovery:
after an error the tokens up to the next likely start of a statement are passed over, so that every
independent error is found.
-/

namespace Lox.Grammar

open Reader

def declarations : Nat → Reader (List Stmt)
  | 0 => pure []
  | bound + 1 => do
      let t ← peek
      if t.kind.isEnd then pure []
      else do
        let s ← declaration (bound + 1)
        let rest ← declarations bound
        pure (s :: rest)

def startsStatement : TokenKind → Bool
  | .keyword .class_ => true
  | .keyword .fun_ => true
  | .keyword .var => true
  | .keyword .for_ => true
  | .keyword .if_ => true
  | .keyword .while_ => true
  | .keyword .print => true
  | .keyword .return_ => true
  | _ => false

/-- The tokens from the next statement boundary on, `last` being the token just passed. -/
def boundaryAfter (last : Token) : List Token → List Token
  | [] => []
  | t :: rest =>
      if t.kind.isEnd || last.kind.isMark .semicolon || startsStatement t.kind then t :: rest
      else boundaryAfter t rest

/-- Pass over the token in error and what follows up to a boundary. -/
def resume : List Token → List Token
  | [] => []
  | t :: rest => if t.kind.isEnd then t :: rest else boundaryAfter t rest

/-- The statements and errors of the tokens left, and the cursor after them. -/
def recoverFrom : Nat → Cursor → List (Except SyntaxError Stmt) × Cursor
  | 0, c => ([], c)
  | bound + 1, c =>
      if c.atEnd then ([], c)
      else
        match declaration (bound + 1) c with
        | .ok s after =>
            let (items, last) := recoverFrom bound after
            (.ok s :: items, last)
        | .error e after =>
            let (items, last) := recoverFrom bound { after with rest := resume after.rest }
            (.error e :: items, last)

def wholeExpression (bound : Nat) : Reader Expr := do
  let e ← expression bound
  let t ← peek
  if t.kind.isEnd then pure e else refuse (.expected .expressionEnd)

/-- A reading and the id that the next expression would get. -/
structure Reading (α : Type) where
  value : α
  nextId : ExprId

def readingOf {α : Type} : EStateM.Result SyntaxError Cursor α → Reading (Except SyntaxError α)
  | .ok a c => ⟨.ok a, c.nextId⟩
  | .error e c => ⟨.error e, c.nextId⟩

def readProgram (tokens : List Token) (firstId : ExprId) : Reading (Except SyntaxError (List Stmt)) :=
  readingOf (declarations tokens.length ⟨tokens, firstId⟩)

def readExpression (tokens : List Token) (firstId : ExprId) : Reading (Except SyntaxError Expr) :=
  readingOf (wholeExpression tokens.length ⟨tokens, firstId⟩)

def recoverProgram (tokens : List Token) (firstId : ExprId) :
    Reading (List (Except SyntaxError Stmt)) :=
  let (items, last) := recoverFrom tokens.length ⟨tokens, firstId⟩
  ⟨items, last.nextId⟩

end Lox.Grammar
