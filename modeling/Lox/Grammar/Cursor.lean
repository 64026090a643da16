import Lox.Fault
import Lox.Syntax

/-!
Reading tokens. A cursor holds the tokens that are left and the next expression id; both are kept
when reading fails. Nothing reads past an end token, and a list without one ends as if it had one.
-/

namespace Lox

structure Cursor where
  rest : List Token
  nextId : ExprId

/-- The first token left. -/
def Cursor.next (c : Cursor) : Token := c.rest.headD Token.endOfInput

def Cursor.atEnd (c : Cursor) : Bool := c.next.kind.isEnd

/-- A reader of tokens. Readers of the grammar that may nest or repeat take a bound: the number of
tokens that may still be read. With none left they do what they do at the end of the text, so any
bound from the number of tokens on gives the same reading. -/
abbrev Reader := EStateM SyntaxError Cursor

namespace Reader

def peek : Reader Token := fun c => .ok c.next c

/-- Refuse the next token. -/
def refuse {α : Type} (cause : SyntaxCause) : Reader α := fun c => .error ⟨c.next, cause⟩ c

def skip : Reader Unit := fun c => .ok () { c with rest := c.rest.tail }

def check (fits : TokenKind → Bool) : Reader Bool := fun c =>
  .ok (!c.next.kind.isEnd && fits c.next.kind) c

/-- Take the next token if it fits. -/
def accept? (fits : TokenKind → Bool) : Reader (Option Token) := fun c =>
  match c.rest with
  | [] => .ok none c
  | t :: rest =>
      if !t.kind.isEnd && fits t.kind then .ok (some t) { c with rest := rest } else .ok none c

/-- Take the next token, which has to fit. -/
def expect (fits : TokenKind → Bool) (what : Expectation) : Reader Token := do
  match ← accept? fits with
  | some t => pure t
  | none => refuse (.expected what)

def expectMark (m : Mark) (what : Expectation) : Reader Token := expect (·.isMark m) what

def expectName (what : Expectation) : Reader Token := expect (·.isIdentifier) what

/-- Build an expression with a fresh id. -/
def make (build : ExprId → Expr) : Reader Expr := fun c =>
  .ok (build c.nextId) { c with nextId := c.nextId + 1 }

/-- The items after the first of a list, of which `count` have been read. -/
def moreItems {α : Type} (role : ListRole) (item : Reader α) : Nat → Nat → Reader (List α)
  | 0, _ => pure []
  | bound + 1, count => do
      match ← accept? (·.isMark .comma) with
      | none => pure []
      | some _ =>
          if maxArity ≤ count then refuse (.tooMany role)
          else do
            let x ← item
            let xs ← moreItems role item bound (count + 1)
            pure (x :: xs)

/-- A list in parentheses, parted by commas, whose opening parenthesis has been read. -/
def items {α : Type} (role : ListRole) (item : Reader α) (bound : Nat) : Reader (List α) := do
  if ← check (·.isMark .rightParen) then pure []
  else do
    let x ← item
    let xs ← moreItems role item bound 1
    pure (x :: xs)

/-- Items up to a closing brace or the end of the text, neither of which is read. -/
def itemsToBrace {α : Type} (item : Reader α) : Nat → Reader (List α)
  | 0 => pure []
  | bound + 1 => do
      let t ← peek
      if t.kind.isEnd || t.kind.isMark .rightBrace then pure []
      else do
        let x ← item
        let xs ← itemsToBrace item bound
        pure (x :: xs)

end Reader

end Lox
