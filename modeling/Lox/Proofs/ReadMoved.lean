import Mathlib
import Lox.Grammar.Program
import Lox.Proofs.Shifts
import Lox.Proofs.Stateful

/-!
Reading does not depend on the place in a session: from tokens some lines further down, with ids
given out some steps later, the same trees are read, moved as far, and the same errors are found.
-/

namespace Lox

def Shift.cursor (k : Shift) (c : Cursor) : Cursor := ⟨c.rest.map k.token, c.nextId + k.ids⟩

/-- The second reader reads from the moved cursor what the first one reads, moved. Errors at the end
of a text without an end token are told for its first line, so errors are compared only where no
line is moved. -/
def Follows {α : Type} (k : Shift) (move : α → α) (r r' : Reader α) : Prop :=
  ∀ c, match r c with
    | .ok a d => r' (k.cursor c) = .ok (move a) (k.cursor d)
    | .error e d => ∃ e', r' (k.cursor c) = .error e' (k.cursor d) ∧ (k.lines = 0 → e' = e)

namespace Follows

open Reader

variable {k : Shift} {α β : Type} {r r' : Reader α} {f f' : α → Reader β} {move : α → α}
  {next : β → β}

theorem bind (first : Follows k move r r') (second : ∀ a, Follows k next (f a) (f' (move a))) :
    Follows k next (r >>= f) (r' >>= f') := by
  intro c
  have begun := first c
  cases reading : r c with
  | error e d =>
    rw [reading] at begun
    obtain ⟨e', reading', same⟩ := begun
    rw [bind_of_error reading]
    exact ⟨e', bind_of_error reading', same⟩
  | ok a d =>
    rw [reading] at begun
    rw [bind_of_ok reading, bind_of_ok begun]
    exact second a d

theorem pure (a : α) : Follows k move (Pure.pure a) (Pure.pure (move a)) := fun _ => rfl

theorem next_moved (c : Cursor) :
    (k.cursor c).next = k.token c.next ∨
      c.next = Token.endOfInput ∧ (k.cursor c).next = Token.endOfInput := by
  obtain ⟨rest, n⟩ := c
  cases rest with
  | nil => exact .inr ⟨rfl, rfl⟩
  | cons t rest => exact .inl rfl

theorem refuse (cause : SyntaxCause) : Follows k move (refuse cause) (refuse cause) := by
  intro c
  refine ⟨_, rfl, fun still => ?_⟩
  rcases next_moved (k := k) c with same | ⟨first, second⟩
  · rw [same, Shift.token, still, Nat.add_zero]
  · rw [first, second]

theorem throw (t : Token) (cause : SyntaxCause) :
    Follows k move (throw ⟨t, cause⟩) (throw ⟨k.token t, cause⟩) := by
  intro c
  refine ⟨_, rfl, fun still => ?_⟩
  rw [Shift.token, still, Nat.add_zero]

/-- A token that is looked at is moved, too, but for the end of a text without an end token. -/
theorem peek_then {f f' : Token → Reader α} (inside : ∀ t, Follows k move (f t) (f' (k.token t)))
    (atEnd : Follows k move (f Token.endOfInput) (f' Token.endOfInput)) :
    Follows k move (peek >>= f) (peek >>= f') := by
  intro c
  have looked : (peek >>= f) c = f c.next c := rfl
  have looked' : (peek >>= f') (k.cursor c) = f' (k.cursor c).next (k.cursor c) := rfl
  rw [looked, looked']
  rcases next_moved (k := k) c with same | ⟨first, second⟩
  · rw [same]
    exact inside c.next c
  · rw [first, second]
    exact atEnd c

theorem skip : Follows k id skip skip := by
  intro c
  simp [Reader.skip, Shift.cursor]

theorem kind_moved (c : Cursor) : (k.cursor c).next.kind = c.next.kind := by
  rcases next_moved (k := k) c with same | ⟨first, second⟩
  · rw [same]
    rfl
  · rw [first, second]

theorem check (fits : TokenKind → Bool) : Follows k id (check fits) (check fits) := by
  intro c
  simp [Reader.check, kind_moved]

theorem accept? (fits : TokenKind → Bool) :
    Follows k (Option.map k.token) (accept? fits) (accept? fits) := by
  rintro ⟨rest, n⟩
  cases rest with
  | nil => rfl
  | cons t rest =>
    by_cases fitting : (!t.kind.isEnd && fits t.kind) = true <;>
      simp [Reader.accept?, Shift.cursor, Shift.token, fitting]

theorem expect (fits : TokenKind → Bool) (what : Expectation) :
    Follows k k.token (expect fits what) (expect fits what) := by
  refine (accept? fits).bind fun t => ?_
  cases t with
  | none => exact refuse _
  | some t => exact pure t

theorem expectMark (m : Mark) (what : Expectation) :
    Follows k k.token (expectMark m what) (expectMark m what) := expect _ what

theorem expectName (what : Expectation) :
    Follows k k.token (expectName what) (expectName what) := expect _ what

theorem make {build build' : ExprId → Expr}
    (built : ∀ n, build' (n + k.ids) = (build n).moved k) :
    Follows k (·.moved k) (make build) (make build') := by
  intro c
  simp only [Reader.make, Shift.cursor, built, Nat.add_right_comm]

theorem moreItems {role : ListRole} (item : Follows k move r r') (bound count : Nat) :
    Follows k (List.map move) (moreItems role r bound count) (moreItems role r' bound count) := by
  induction bound generalizing count with
  | zero => exact pure []
  | succ bound ih =>
    refine (accept? _).bind fun comma => ?_
    cases comma with
    | none => exact pure []
    | some comma =>
      simp only [Option.map_some]
      split
      · exact refuse _
      · exact item.bind fun x => (ih (count + 1)).bind fun xs => pure (x :: xs)

theorem items {role : ListRole} (item : Follows k move r r') (bound : Nat) :
    Follows k (List.map move) (items role r bound) (items role r' bound) := by
  refine (check _).bind fun closing => ?_
  cases closing with
  | true => exact pure []
  | false => exact item.bind fun x => (moreItems item bound 1).bind fun xs => pure (x :: xs)

theorem itemsToBrace (item : Follows k move r r') (bound : Nat) :
    Follows k (List.map move) (itemsToBrace r bound) (itemsToBrace r' bound) := by
  induction bound with
  | zero => exact pure []
  | succ bound ih =>
    refine peek_then (fun t => ?_) (pure [])
    have same : (k.token t).kind = t.kind := rfl
    simp only [same]
    by_cases closes : (t.kind.isEnd || t.kind.isMark .rightBrace) = true
    · rw [if_pos closes, if_pos closes]
      exact pure []
    · rw [if_neg closes, if_neg closes]
      exact item.bind fun x => ih.bind fun xs => pure (x :: xs)

end Follows

theorem Stmt.moved_forLoop (k : Shift) (initializer : Option Stmt) (condition : Expr)
    (increment : Option Expr) (body : Stmt) :
    (Stmt.forLoop initializer condition increment body).moved k =
      Stmt.forLoop (initializer.map (·.moved k)) (condition.moved k)
        (increment.map (·.moved k)) (body.moved k) := by
  cases initializer <;> cases increment <;> rfl

namespace Grammar

open Reader

variable {k : Shift} {nested nested' : Reader Expr}

/-! ### Expressions -/

/-- Trees of the level are built from parts that may be moved. -/
def Level.Movable (level : Level) : Prop :=
  ∀ (k : Shift) id left operator right,
    level.combine (id + k.ids) (left.moved k) (k.token operator) (right.moved k) =
      (level.combine id left operator right).moved k

theorem commaLevel_movable : commaLevel.Movable := fun _ _ _ _ _ => rfl

theorem levels_movable : ∀ level ∈ levels, level.Movable := by
  intro level member k id left operator right
  simp only [levels, List.mem_cons, List.not_mem_nil, or_false] at member
  rcases member with rfl | rfl | rfl | rfl | rfl | rfl <;> rfl

theorem chainFrom_follows {level : Level} (movable : level.Movable)
    (operand : Follows k (·.moved k) nested nested') (bound : Nat) (left : Expr) :
    Follows k (·.moved k) (chainFrom level nested bound left)
      (chainFrom level nested' bound (left.moved k)) := by
  induction bound generalizing left with
  | zero => exact .pure left
  | succ bound ih =>
    refine (Follows.accept? _).bind fun operator => ?_
    cases operator with
    | none => exact .pure left
    | some operator =>
      refine operand.bind fun right => (Follows.make fun n => ?_).bind fun tree => ih tree
      exact movable k n left operator right

theorem chain_follows {level : Level} (movable : level.Movable)
    (operand : Follows k (·.moved k) nested nested') (bound : Nat) :
    Follows k (·.moved k) (chain level nested bound) (chain level nested' bound) :=
  operand.bind fun left => chainFrom_follows movable operand bound left

theorem primary_follows (inner : Follows k (·.moved k) nested nested') (bound : Nat) :
    Follows k (·.moved k) (primary nested bound) (primary nested' bound) := by
  refine Follows.peek_then (fun t => ?_) (.refuse _)
  have literal (v : Literal) : Follows k (·.moved k)
      (skip >>= fun _ => make (.literal · v)) (skip >>= fun _ => make (.literal · v)) :=
    Follows.skip.bind fun _ => .make fun _ => rfl
  obtain ⟨kind, lexeme, line⟩ := t
  cases kind with
  | number n => exact literal (.number n)
  | string s => exact literal (.string s)
  | identifier => exact Follows.skip.bind fun _ => .make fun _ => rfl
  | keyword word =>
    cases word with
    | false => exact literal (.bool Bool.false)
    | true => exact literal (.bool Bool.true)
    | nil => exact literal .nil
    | this => exact Follows.skip.bind fun _ => .make fun _ => rfl
    | super =>
      exact Follows.skip.bind fun _ => (Follows.expectMark _ _).bind fun _ =>
        (Follows.expectName _).bind fun method => .make fun _ => rfl
    | _ => exact .refuse _
  | mark m =>
    cases m with
    | leftParen =>
      exact Follows.skip.bind fun _ => (chain_follows commaLevel_movable inner bound).bind fun e =>
        (Follows.expectMark _ _).bind fun _ => .make fun _ => rfl
    | _ => exact .refuse _
  | _ => exact .refuse _

theorem suffixesFrom_follows (inner : Follows k (·.moved k) nested nested') (bound : Nat)
    (e : Expr) :
    Follows k (·.moved k) (suffixesFrom nested bound e) (suffixesFrom nested' bound (e.moved k)) := by
  induction bound generalizing e with
  | zero => exact .pure e
  | succ bound ih =>
    refine (Follows.accept? _).bind fun opening => ?_
    cases opening with
    | some opening =>
      refine (Follows.items inner bound).bind fun arguments => (Follows.expectMark _ _).bind fun
        paren => (Follows.make fun n => ?_).bind fun tree => ih tree
      rw [Expr.moved, Expr.movedList_eq_map]
    | none =>
      refine (Follows.accept? _).bind fun dot => ?_
      cases dot with
      | some dot =>
        exact (Follows.expectName _).bind fun name => (Follows.make fun n => rfl).bind fun tree =>
          ih tree
      | none => exact .pure e

theorem unaryFrom_follows (inner : Follows k (·.moved k) nested nested') (bound operators : Nat) :
    Follows k (·.moved k) (unaryFrom nested bound operators) (unaryFrom nested' bound operators) := by
  have operand : Follows k (·.moved k) (call nested bound) (call nested' bound) :=
    (primary_follows inner bound).bind fun e => suffixesFrom_follows inner bound e
  induction operators with
  | zero => exact operand
  | succ operators ih =>
    refine (Follows.accept? _).bind fun operator => ?_
    cases operator with
    | none => exact operand
    | some operator => exact ih.bind fun e => .make fun _ => rfl

theorem binary_follows (inner : Follows k (·.moved k) nested nested') (bound : Nat)
    (tighter : List Level) (movable : ∀ level ∈ tighter, level.Movable) :
    Follows k (·.moved k) (binary nested bound tighter) (binary nested' bound tighter) := by
  induction tighter with
  | nil => exact unaryFrom_follows inner bound bound
  | cons level tighter ih =>
    exact chain_follows (movable level List.mem_cons_self)
      (ih fun level member => movable level (List.mem_cons_of_mem _ member)) bound

theorem ternary_follows (inner : Follows k (·.moved k) nested nested') (bound : Nat) :
    Follows k (·.moved k) (ternary nested bound) (ternary nested' bound) := by
  refine (binary_follows inner bound levels levels_movable).bind fun condition => ?_
  refine (Follows.accept? _).bind fun question => ?_
  cases question with
  | none => exact .pure condition
  | some question =>
    exact inner.bind fun yes => (Follows.expectMark _ _).bind fun _ => inner.bind fun no =>
      .make fun _ => rfl

theorem assignTo_follows (target : Expr) (equals : Token) (value : Expr) :
    Follows k (·.moved k) (assignTo target equals value)
      (assignTo (target.moved k) (k.token equals) (value.moved k)) := by
  cases target with
  | var id name =>
    rw [assignTo, Expr.moved, assignTo]
    exact .make fun _ => rfl
  | get id object name =>
    rw [assignTo, Expr.moved, assignTo]
    exact .make fun _ => rfl
  | _ => exact .throw equals _

theorem assignment_follows (bound : Nat) :
    Follows k (·.moved k) (assignment bound) (assignment bound) := by
  induction bound with
  | zero => exact .refuse _
  | succ bound ih =>
    refine (ternary_follows ih (bound + 1)).bind fun target => (Follows.accept? _).bind fun equals => ?_
    cases equals with
    | none => exact .pure target
    | some equals => exact ih.bind fun value => assignTo_follows target equals value

theorem expression_follows (bound : Nat) :
    Follows k (·.moved k) (expression bound) (expression bound) :=
  chain_follows commaLevel_movable (assignment_follows bound) bound

/-! ### Statements -/

variable {declared declared' stated stated' : Reader Stmt}

theorem block_follows (inner : Follows k (·.moved k) declared declared') (bound : Nat) :
    Follows k (List.map (·.moved k)) (block declared bound) (block declared' bound) :=
  (Follows.itemsToBrace inner bound).bind fun body => (Follows.expectMark _ _).bind fun _ =>
    .pure body

theorem function_follows (role : FunctionRole) (inner : Follows k (·.moved k) declared declared')
    (bound : Nat) :
    Follows k (·.moved k) (function role declared bound) (function role declared' bound) := by
  refine (Follows.expectName _).bind fun name => (Follows.expectMark _ _).bind fun _ =>
    (Follows.items (Follows.expectName _) bound).bind fun parameters =>
      (Follows.expectMark _ _).bind fun _ => (Follows.expectMark _ _).bind fun _ =>
        (block_follows inner bound).bind fun body => ?_
  rw [← Stmt.movedList_eq_map]
  exact .pure _

theorem superclass_follows : Follows k (Option.map (·.moved k)) superclass superclass := by
  refine (Follows.accept? _).bind fun less => ?_
  cases less with
  | none => exact .pure none
  | some less =>
    refine (Follows.expectName _).bind fun name => ?_
    exact (Follows.make (k := k) fun _ => rfl).bind fun tree => .pure (some tree)

theorem classDeclaration_follows (inner : Follows k (·.moved k) declared declared') (bound : Nat) :
    Follows k (·.moved k) (classDeclaration declared bound) (classDeclaration declared' bound) := by
  refine (Follows.expectName _).bind fun name => superclass_follows.bind fun parent =>
    (Follows.expectMark _ _).bind fun _ =>
      (Follows.itemsToBrace (function_follows .method inner bound) bound).bind fun methods =>
        (Follows.expectMark _ _).bind fun _ => ?_
  rw [← FunctionDecl.movedList_eq_map]
  exact .pure (Stmt.classDecl name parent methods)

theorem varDeclaration_follows (bound : Nat) :
    Follows k (·.moved k) (varDeclaration bound) (varDeclaration bound) := by
  refine (Follows.expectName _).bind fun name => (Follows.accept? _).bind fun equals => ?_
  cases equals with
  | none => exact (Follows.expectMark _ _).bind fun _ => .pure (Stmt.varDecl name none)
  | some equals =>
    exact (expression_follows bound).bind fun value => (Follows.expectMark _ _).bind fun _ =>
      .pure (Stmt.varDecl name (some value))

theorem expressionStatement_follows (bound : Nat) :
    Follows k (·.moved k) (expressionStatement bound) (expressionStatement bound) :=
  (expression_follows bound).bind fun value => (Follows.expectMark _ _).bind fun _ =>
    .pure (Stmt.expression value)

theorem printStatement_follows (bound : Nat) :
    Follows k (·.moved k) (printStatement bound) (printStatement bound) :=
  (expression_follows bound).bind fun value => (Follows.expectMark _ _).bind fun _ =>
    .pure (Stmt.print value)

theorem expressionUnless_follows (last : Mark) (bound : Nat) :
    Follows k (Option.map (·.moved k)) (expressionUnless last bound)
      (expressionUnless last bound) := by
  refine (Follows.check _).bind fun closing => ?_
  cases closing with
  | true => exact .pure none
  | false => exact (expression_follows bound).bind fun e => .pure (some e)

theorem returnStatement_follows (keyword : Token) (bound : Nat) :
    Follows k (·.moved k) (returnStatement keyword bound)
      (returnStatement (k.token keyword) bound) :=
  (expressionUnless_follows _ bound).bind fun value => (Follows.expectMark _ _).bind fun _ =>
    .pure (Stmt.returnStmt keyword value)

theorem ifStatement_follows (inner : Follows k (·.moved k) stated stated') (bound : Nat) :
    Follows k (·.moved k) (ifStatement stated bound) (ifStatement stated' bound) := by
  refine (Follows.expectMark _ _).bind fun _ => (expression_follows bound).bind fun condition =>
    (Follows.expectMark _ _).bind fun _ => inner.bind fun yes => (Follows.accept? _).bind fun word => ?_
  cases word with
  | none => exact .pure (Stmt.ifThen condition yes)
  | some word => exact inner.bind fun no => .pure (Stmt.ifElse condition yes no)

theorem whileStatement_follows (inner : Follows k (·.moved k) stated stated') (bound : Nat) :
    Follows k (·.moved k) (whileStatement stated bound) (whileStatement stated' bound) :=
  (Follows.expectMark _ _).bind fun _ => (expression_follows bound).bind fun condition =>
    (Follows.expectMark _ _).bind fun _ => inner.bind fun body =>
      .pure (Stmt.whileLoop condition body)

theorem forInitializer_follows (bound : Nat) :
    Follows k (Option.map (·.moved k)) (forInitializer bound) (forInitializer bound) := by
  refine (Follows.accept? _).bind fun none_ => ?_
  cases none_ with
  | some _ => exact .pure none
  | none =>
    refine (Follows.accept? _).bind fun word => ?_
    cases word with
    | some _ => exact (varDeclaration_follows bound).bind fun s => .pure (some s)
    | none => exact (expressionStatement_follows bound).bind fun s => .pure (some s)

theorem forCondition_follows (condition : Option Expr) :
    Follows k (·.moved k) (forCondition condition)
      (forCondition (condition.map (·.moved k))) := by
  cases condition with
  | none =>
    rw [Option.map_none, forCondition]
    exact .make fun _ => rfl
  | some e => exact .pure e

theorem forStatement_follows (inner : Follows k (·.moved k) stated stated') (bound : Nat) :
    Follows k (·.moved k) (forStatement stated bound) (forStatement stated' bound) := by
  refine (Follows.expectMark _ _).bind fun _ => (forInitializer_follows bound).bind fun initializer =>
    (expressionUnless_follows _ bound).bind fun condition => (Follows.expectMark _ _).bind fun _ =>
      (expressionUnless_follows _ bound).bind fun increment => (Follows.expectMark _ _).bind fun _ =>
        inner.bind fun body => (forCondition_follows condition).bind fun condition => ?_
  rw [← Stmt.moved_forLoop]
  exact .pure _

theorem statementOf_follows (inner : Follows k (·.moved k) declared declared')
    (innerStated : Follows k (·.moved k) stated stated') (bound : Nat) :
    Follows k (·.moved k) (statementOf declared stated bound)
      (statementOf declared' stated' bound) := by
  have expression := expressionStatement_follows (k := k) bound
  refine Follows.peek_then (fun t => ?_) expression
  obtain ⟨kind, lexeme, line⟩ := t
  cases kind with
  | keyword word =>
    cases word with
    | for_ => exact Follows.skip.bind fun _ => forStatement_follows innerStated bound
    | if_ => exact Follows.skip.bind fun _ => ifStatement_follows innerStated bound
    | while_ => exact Follows.skip.bind fun _ => whileStatement_follows innerStated bound
    | return_ => exact Follows.skip.bind fun _ => returnStatement_follows _ bound
    | print => exact Follows.skip.bind fun _ => printStatement_follows bound
    | _ => exact expression
  | mark m =>
    cases m with
    | leftBrace =>
      refine Follows.skip.bind fun _ => (block_follows inner bound).bind fun body => ?_
      rw [← Stmt.movedList_eq_map]
      exact .pure (Stmt.block body)
    | _ => exact expression
  | _ => exact expression

theorem declarationOf_follows (inner : Follows k (·.moved k) declared declared')
    (innerStated : Follows k (·.moved k) stated stated') (bound : Nat) :
    Follows k (·.moved k) (declarationOf declared stated bound)
      (declarationOf declared' stated' bound) := by
  have statement := statementOf_follows inner innerStated bound
  refine Follows.peek_then (fun t => ?_) statement
  obtain ⟨kind, lexeme, line⟩ := t
  cases kind with
  | keyword word =>
    cases word with
    | class_ => exact Follows.skip.bind fun _ => classDeclaration_follows inner bound
    | fun_ =>
      exact Follows.skip.bind fun _ => (function_follows .function inner bound).bind fun f =>
        .pure (Stmt.funDecl f)
    | var => exact Follows.skip.bind fun _ => varDeclaration_follows bound
    | _ => exact statement
  | _ => exact statement

theorem declaration_follows (bound : Nat) :
    Follows k (·.moved k) (declaration bound) (declaration bound) ∧
      Follows k (·.moved k) (statement bound) (statement bound) := by
  induction bound with
  | zero => exact ⟨.refuse _, .refuse _⟩
  | succ bound ih =>
    exact ⟨declarationOf_follows ih.1 ih.2 (bound + 1), statementOf_follows ih.1 ih.2 (bound + 1)⟩

/-! ### Programs -/

/-- An item that was read, moved. -/
def movedItem (k : Shift) : Except SyntaxError Stmt → Except SyntaxError Stmt
  | .ok s => .ok (s.moved k)
  | .error e => .error e

theorem boundaryAfter_moved (k : Shift) (last : Token) (rest : List Token) :
    boundaryAfter (k.token last) (rest.map k.token) = (boundaryAfter last rest).map k.token := by
  induction rest generalizing last with
  | nil => rfl
  | cons t rest ih =>
    have same : (k.token t).kind = t.kind := rfl
    have sameLast : (k.token last).kind = last.kind := rfl
    simp only [List.map_cons, boundaryAfter, same, sameLast]
    split
    · rfl
    · exact ih t

theorem resume_moved (k : Shift) (rest : List Token) :
    resume (rest.map k.token) = (resume rest).map k.token := by
  cases rest with
  | nil => rfl
  | cons t rest =>
    have same : (k.token t).kind = t.kind := rfl
    simp only [List.map_cons, resume, same]
    split
    · rfl
    · exact boundaryAfter_moved k t rest

/-- With the same lines the same items are read, errors included, with later ids. -/
theorem recoverFrom_moved (still : k.lines = 0) (bound : Nat) (c : Cursor) :
    recoverFrom bound (k.cursor c) =
      ((recoverFrom bound c).1.map (movedItem k), k.cursor (recoverFrom bound c).2) := by
  induction bound generalizing c with
  | zero => rfl
  | succ bound ih =>
    have ends : (k.cursor c).atEnd = c.atEnd := by
      rw [Cursor.atEnd, Cursor.atEnd, Follows.kind_moved]
    rw [recoverFrom, recoverFrom, ends]
    split
    · rfl
    · have follows := (declaration_follows (k := k) (bound + 1)).1 c
      cases reading : declaration (bound + 1) c with
      | ok s after =>
        rw [reading] at follows
        rw [follows]
        dsimp only
        rw [ih after]
        rfl
      | error e after =>
        rw [reading] at follows
        obtain ⟨e', follows, same⟩ := follows
        rw [follows, same still]
        dsimp only
        have resumed : { k.cursor after with rest := resume (k.cursor after).rest } =
            k.cursor { after with rest := resume after.rest } := by
          simp only [Shift.cursor, resume_moved]
        rw [resumed, ih]
        rfl

theorem recoverProgram_later (tokens : List Token) (firstId later : ExprId) :
    recoverProgram tokens (firstId + later) =
      ⟨(recoverProgram tokens firstId).value.map (movedItem ⟨later, 0⟩),
        (recoverProgram tokens firstId).nextId + later⟩ := by
  have still : Shift.token ⟨later, 0⟩ = id := rfl
  have cursor : Shift.cursor ⟨later, 0⟩ ⟨tokens, firstId⟩ = ⟨tokens, firstId + later⟩ := by
    rw [Shift.cursor, still, List.map_id]
  rw [recoverProgram, recoverProgram, ← cursor, recoverFrom_moved rfl]
  rfl

end Grammar

end Lox
