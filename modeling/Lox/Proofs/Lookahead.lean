import Mathlib
import Lox.Grammar.Program

/-!
The readers of the grammar are put together of single looks at the next token. What holds of these
and is kept by doing one after the other holds of every reader.
-/

namespace Lox

open Reader

theorem TokenKind.isEnd_iff {k : TokenKind} : k.isEnd = true ↔ k = .endOfText := by
  cases k <;> simp [isEnd]

variable {α : Type} {r : Reader α} {o : Option Token}

/-- The reader is put together of single looks at the tokens; `o` is the next one if it has been
looked at already. Only a token inside the text is passed over unread, and what is done at the end
does not depend on the end token. -/
inductive Lookahead : Option Token → {α : Type} → Reader α → Prop
  | pure {o : Option Token} {α : Type} (a : α) : Lookahead o (Pure.pure a : Reader α)
  | make {o : Option Token} (build : ExprId → Expr) : Lookahead o (make build)
  | refuse {o : Option Token} {α : Type} (cause : SyntaxCause) : Lookahead o (refuse cause : Reader α)
  | throw {o : Option Token} {α : Type} (x : SyntaxError) : Lookahead o (throw x : Reader α)
  | accept? {o : Option Token} (fits : TokenKind → Bool) : Lookahead o (accept? fits)
  | check {o : Option Token} (fits : TokenKind → Bool) : Lookahead o (check fits)
  | skip {t : Token} (inside : t.kind.isEnd = false) : Lookahead (some t) skip
  | bind {o : Option Token} {α β : Type} {r : Reader α} {f : α → Reader β} (first : Lookahead o r)
      (second : ∀ a, Lookahead none (f a)) : Lookahead o (r >>= f)
  | look {o : Option Token} {α : Type} {f : Token → Reader α} (each : ∀ t, Lookahead (some t) (f t))
      (ends : ∀ t t', t.kind.isEnd = true → t'.kind.isEnd = true → f t = f t') :
      Lookahead o (peek >>= f)
  | seen {t : Token} {α : Type} {r : Reader α} (looks : Lookahead none r) : Lookahead (some t) r

namespace Lookahead

theorem expect (fits : TokenKind → Bool) (what : Expectation) :
    Lookahead o (expect fits what) := by
  refine (accept? fits).bind fun t => ?_
  cases t with
  | none => exact refuse _
  | some t => exact pure t

theorem expectMark (m : Mark) (what : Expectation) : Lookahead o (expectMark m what) :=
  expect _ what

theorem expectName (what : Expectation) : Lookahead o (expectName what) := expect _ what

theorem moreItems {role : ListRole} (item : Lookahead none r) (bound count : Nat) :
    Lookahead o (moreItems role r bound count) := by
  induction bound generalizing o count with
  | zero => exact pure []
  | succ bound ih =>
    refine (accept? _).bind fun comma => ?_
    cases comma with
    | none => exact pure []
    | some comma =>
      dsimp only
      split
      · exact refuse _
      · exact item.bind fun x => (ih (count + 1)).bind fun xs => pure (x :: xs)

theorem items {role : ListRole} (item : Lookahead none r) (bound : Nat) :
    Lookahead o (items role r bound) := by
  refine (check _).bind fun closing => ?_
  cases closing with
  | true => exact pure []
  | false => exact item.bind fun x => (moreItems item bound 1).bind fun xs => pure (x :: xs)

theorem itemsToBrace (item : Lookahead none r) (bound : Nat) :
    Lookahead o (itemsToBrace r bound) := by
  induction bound generalizing o with
  | zero => exact pure []
  | succ bound ih =>
    refine look (fun t => ?_) fun t t' ended ended' => by simp only [ended, ended', Bool.true_or]
    split
    · exact pure []
    · exact seen (item.bind fun x => ih.bind fun xs => pure (x :: xs))

/-- The token that was looked at is passed over. -/
theorem skipped {t : Token} (next : Lookahead none r) (inside : t.kind.isEnd = false) :
    Lookahead (some t) (Reader.skip >>= fun _ => r) :=
  (skip inside).bind fun _ => next

end Lookahead

namespace Grammar

variable {nested : Reader Expr}

/-! ### Expressions -/

theorem chainFrom_looks (level : Level) (operand : Lookahead none nested) (bound : Nat)
    (left : Expr) : Lookahead o (chainFrom level nested bound left) := by
  induction bound generalizing o left with
  | zero => exact .pure left
  | succ bound ih =>
    refine (Lookahead.accept? _).bind fun operator => ?_
    cases operator with
    | none => exact .pure left
    | some operator =>
      exact operand.bind fun right => (Lookahead.make _).bind fun tree => ih tree

theorem chain_looks (level : Level) (operand : Lookahead none nested) (bound : Nat) :
    Lookahead none (chain level nested bound) :=
  operand.bind fun left => chainFrom_looks level operand bound left

theorem primary_looks (inner : Lookahead none nested) (bound : Nat) :
    Lookahead o (primary nested bound) := by
  refine Lookahead.look (fun t => ?_) fun t t' ended ended' => ?_
  · obtain ⟨kind, lexeme, line⟩ := t
    cases kind with
    | number | string | identifier => exact (Lookahead.make _).skipped rfl
    | keyword word =>
      cases word with
      | false | true | nil | this => exact (Lookahead.make _).skipped rfl
      | super =>
        refine Lookahead.skipped ?_ rfl
        exact (Lookahead.expectMark _ _).bind fun _ => (Lookahead.expectName _).bind fun method =>
          .make _
      | _ => exact .refuse _
    | mark m =>
      cases m with
      | leftParen =>
        refine Lookahead.skipped ?_ rfl
        exact (chain_looks commaLevel inner bound).bind fun e =>
          (Lookahead.expectMark _ _).bind fun _ => .make _
      | _ => exact .refuse _
    | endOfText => exact .refuse _
  · rw [TokenKind.isEnd_iff.1 ended, TokenKind.isEnd_iff.1 ended']

theorem suffixesFrom_looks (inner : Lookahead none nested) (bound : Nat) (e : Expr) :
    Lookahead o (suffixesFrom nested bound e) := by
  induction bound generalizing o e with
  | zero => exact .pure e
  | succ bound ih =>
    refine (Lookahead.accept? _).bind fun opening => ?_
    cases opening with
    | some opening =>
      exact (Lookahead.items inner bound).bind fun arguments => (Lookahead.expectMark _ _).bind fun
        paren => (Lookahead.make _).bind fun tree => ih tree
    | none =>
      refine (Lookahead.accept? _).bind fun dot => ?_
      cases dot with
      | some dot =>
        exact (Lookahead.expectName _).bind fun name => (Lookahead.make _).bind fun tree => ih tree
      | none => exact .pure e

theorem unaryFrom_looks (inner : Lookahead none nested) (bound operators : Nat) :
    Lookahead o (unaryFrom nested bound operators) := by
  have operand {o : Option Token} : Lookahead o (call nested bound) :=
    (primary_looks inner bound).bind fun e => suffixesFrom_looks inner bound e
  induction operators generalizing o with
  | zero => exact operand
  | succ operators ih =>
    refine (Lookahead.accept? _).bind fun operator => ?_
    cases operator with
    | none => exact operand
    | some operator => exact ih.bind fun e => .make _

theorem binary_looks (inner : Lookahead none nested) (bound : Nat) (tighter : List Level) :
    Lookahead none (binary nested bound tighter) := by
  induction tighter with
  | nil => exact unaryFrom_looks inner bound bound
  | cons level tighter ih => exact chain_looks level ih bound

theorem ternary_looks (inner : Lookahead none nested) (bound : Nat) :
    Lookahead none (ternary nested bound) := by
  refine (binary_looks inner bound levels).bind fun condition => ?_
  refine (Lookahead.accept? _).bind fun question => ?_
  cases question with
  | none => exact .pure condition
  | some question =>
    exact inner.bind fun yes => (Lookahead.expectMark _ _).bind fun _ => inner.bind fun no => .make _

theorem assignTo_looks (target : Expr) (equals : Token) (value : Expr) :
    Lookahead none (assignTo target equals value) := by
  cases target with
  | var | get =>
    rw [assignTo]
    exact .make _
  | _ => exact .throw _

theorem assignment_looks (bound : Nat) : Lookahead none (assignment bound) := by
  induction bound with
  | zero => exact .refuse _
  | succ bound ih =>
    refine (ternary_looks ih (bound + 1)).bind fun target => (Lookahead.accept? _).bind fun equals => ?_
    cases equals with
    | none => exact .pure target
    | some equals => exact ih.bind fun value => assignTo_looks target equals value

theorem expression_looks (bound : Nat) : Lookahead none (expression bound) :=
  chain_looks commaLevel (assignment_looks bound) bound

/-! ### Statements -/

variable {declared stated : Reader Stmt}

theorem block_looks (inner : Lookahead none declared) (bound : Nat) :
    Lookahead none (block declared bound) :=
  (Lookahead.itemsToBrace inner bound).bind fun body => (Lookahead.expectMark _ _).bind fun _ =>
    .pure body

theorem function_looks (role : FunctionRole) (inner : Lookahead none declared) (bound : Nat) :
    Lookahead none (function role declared bound) :=
  (Lookahead.expectName _).bind fun _ => (Lookahead.expectMark _ _).bind fun _ =>
    (Lookahead.items (Lookahead.expectName _) bound).bind fun _ =>
      (Lookahead.expectMark _ _).bind fun _ => (Lookahead.expectMark _ _).bind fun _ =>
        (block_looks inner bound).bind fun _ => .pure _

theorem superclass_looks : Lookahead none superclass := by
  refine (Lookahead.accept? _).bind fun less => ?_
  cases less with
  | none => exact .pure none
  | some less =>
    exact (Lookahead.expectName _).bind fun name => (Lookahead.make _).bind fun tree =>
      .pure (some tree)

theorem classDeclaration_looks (inner : Lookahead none declared) (bound : Nat) :
    Lookahead none (classDeclaration declared bound) :=
  (Lookahead.expectName _).bind fun _ => superclass_looks.bind fun _ =>
    (Lookahead.expectMark _ _).bind fun _ =>
      (Lookahead.itemsToBrace (function_looks .method inner bound) bound).bind fun _ =>
        (Lookahead.expectMark _ _).bind fun _ => .pure _

theorem varDeclaration_looks (bound : Nat) : Lookahead none (varDeclaration bound) := by
  refine (Lookahead.expectName _).bind fun name => (Lookahead.accept? _).bind fun equals => ?_
  cases equals with
  | none => exact (Lookahead.expectMark _ _).bind fun _ => .pure _
  | some equals =>
    exact (expression_looks bound).bind fun _ => (Lookahead.expectMark _ _).bind fun _ => .pure _

theorem expressionStatement_looks (bound : Nat) : Lookahead none (expressionStatement bound) :=
  (expression_looks bound).bind fun _ => (Lookahead.expectMark _ _).bind fun _ => .pure _

theorem printStatement_looks (bound : Nat) : Lookahead none (printStatement bound) :=
  (expression_looks bound).bind fun _ => (Lookahead.expectMark _ _).bind fun _ => .pure _

theorem expressionUnless_looks (last : Mark) (bound : Nat) :
    Lookahead none (expressionUnless last bound) := by
  refine (Lookahead.check _).bind fun closing => ?_
  cases closing with
  | true => exact .pure none
  | false => exact (expression_looks bound).bind fun e => .pure (some e)

theorem returnStatement_looks (keyword : Token) (bound : Nat) :
    Lookahead none (returnStatement keyword bound) :=
  (expressionUnless_looks _ bound).bind fun _ => (Lookahead.expectMark _ _).bind fun _ => .pure _

theorem ifStatement_looks (inner : Lookahead none stated) (bound : Nat) :
    Lookahead none (ifStatement stated bound) := by
  refine (Lookahead.expectMark _ _).bind fun _ => (expression_looks bound).bind fun condition =>
    (Lookahead.expectMark _ _).bind fun _ => inner.bind fun yes =>
      (Lookahead.accept? _).bind fun word => ?_
  cases word with
  | none => exact .pure _
  | some word => exact inner.bind fun no => .pure _

theorem whileStatement_looks (inner : Lookahead none stated) (bound : Nat) :
    Lookahead none (whileStatement stated bound) :=
  (Lookahead.expectMark _ _).bind fun _ => (expression_looks bound).bind fun _ =>
    (Lookahead.expectMark _ _).bind fun _ => inner.bind fun _ => .pure _

theorem forInitializer_looks (bound : Nat) : Lookahead none (forInitializer bound) := by
  refine (Lookahead.accept? _).bind fun nothing => ?_
  cases nothing with
  | some nothing => exact .pure none
  | none =>
    refine (Lookahead.accept? _).bind fun word => ?_
    cases word with
    | some word => exact (varDeclaration_looks bound).bind fun s => .pure (some s)
    | none => exact (expressionStatement_looks bound).bind fun s => .pure (some s)

theorem forCondition_looks (condition : Option Expr) : Lookahead none (forCondition condition) := by
  cases condition with
  | none =>
    rw [forCondition]
    exact .make _
  | some condition => exact .pure condition

theorem forStatement_looks (inner : Lookahead none stated) (bound : Nat) :
    Lookahead none (forStatement stated bound) :=
  (Lookahead.expectMark _ _).bind fun _ => (forInitializer_looks bound).bind fun _ =>
    (expressionUnless_looks _ bound).bind fun condition => (Lookahead.expectMark _ _).bind fun _ =>
      (expressionUnless_looks _ bound).bind fun _ => (Lookahead.expectMark _ _).bind fun _ =>
        inner.bind fun _ => (forCondition_looks condition).bind fun _ => .pure _

theorem statementOf_looks (inner : Lookahead none declared) (innerStated : Lookahead none stated)
    (bound : Nat) : Lookahead o (statementOf declared stated bound) := by
  have plain {t : Token} : Lookahead (some t) (expressionStatement bound) :=
    .seen (expressionStatement_looks bound)
  refine Lookahead.look (fun t => ?_) fun t t' ended ended' => ?_
  · obtain ⟨kind, lexeme, line⟩ := t
    cases kind with
    | keyword word =>
      cases word with
      | for_ => exact (forStatement_looks innerStated bound).skipped rfl
      | if_ => exact (ifStatement_looks innerStated bound).skipped rfl
      | while_ => exact (whileStatement_looks innerStated bound).skipped rfl
      | return_ => exact (returnStatement_looks _ bound).skipped rfl
      | print => exact (printStatement_looks bound).skipped rfl
      | _ => exact plain
    | mark m =>
      cases m with
      | leftBrace =>
        exact ((block_looks inner bound).bind fun body => .pure (Stmt.block body)).skipped rfl
      | _ => exact plain
    | _ => exact plain
  · rw [TokenKind.isEnd_iff.1 ended, TokenKind.isEnd_iff.1 ended']

theorem declarationOf_looks (inner : Lookahead none declared) (innerStated : Lookahead none stated)
    (bound : Nat) : Lookahead none (declarationOf declared stated bound) := by
  have statement {t : Token} : Lookahead (some t) (statementOf declared stated bound) :=
    statementOf_looks inner innerStated bound
  refine Lookahead.look (fun t => ?_) fun t t' ended ended' => ?_
  · obtain ⟨kind, lexeme, line⟩ := t
    cases kind with
    | keyword word =>
      cases word with
      | class_ => exact (classDeclaration_looks inner bound).skipped rfl
      | fun_ =>
        exact ((function_looks .function inner bound).bind fun f =>
          .pure (Stmt.funDecl f)).skipped rfl
      | var => exact (varDeclaration_looks bound).skipped rfl
      | _ => exact statement
    | _ => exact statement
  · rw [TokenKind.isEnd_iff.1 ended, TokenKind.isEnd_iff.1 ended']

theorem statements_look (bound : Nat) :
    Lookahead none (declaration bound) ∧ Lookahead none (statement bound) := by
  induction bound with
  | zero => exact ⟨.refuse _, .refuse _⟩
  | succ bound ih =>
    rw [declaration, statement]
    exact ⟨declarationOf_looks ih.1 ih.2 (bound + 1), statementOf_looks ih.1 ih.2 (bound + 1)⟩

theorem declarations_look (bound : Nat) : Lookahead none (declarations bound) := by
  induction bound with
  | zero => exact .pure []
  | succ bound ih =>
    refine Lookahead.look (fun t => ?_) fun t t' ended ended' => by simp only [ended, ended']
    split
    · exact .pure []
    · exact .seen ((statements_look (bound + 1)).1.bind fun s => ih.bind fun rest => .pure _)

theorem wholeExpression_looks (bound : Nat) : Lookahead none (wholeExpression bound) := by
  refine (expression_looks bound).bind fun e => ?_
  refine Lookahead.look (fun t => ?_) fun t t' ended ended' => by simp only [ended, ended']
  split
  · exact .pure e
  · exact .refuse _

end Grammar

end Lox
