import Lox.Proofs.AlignedWalks
import Lox.Proofs.LoopRounds
import Lox.Proofs.RejectedPrograms

/-!
The tree that a loop is read as and the direct rule before they are run: what is read are the parts
of the loop, the walk over the tree and the walk by the direct rule go the same way, and where both
are well scoped all parts of the loop are aligned.
-/

namespace Lox

/-! ### Reading -/

namespace Grammar

variable {bound less : Nat} {c c' : Cursor} {tree : Stmt}

theorem varDeclaration_begins {s : Stmt} (read : varDeclaration bound c = .ok s c') :
    s.isInitializer = true := by
  unfold varDeclaration at read
  obtain ⟨name, u, -, read⟩ := bind_ok_iff.1 read
  obtain ⟨equal?, v, -, read⟩ := bind_ok_iff.1 read
  cases equal? with
  | none =>
    obtain ⟨_, w, -, ends⟩ := bind_ok_iff.1 read
    cases ends
    rfl
  | some _ =>
    obtain ⟨value, w, -, read⟩ := bind_ok_iff.1 read
    obtain ⟨_, x, -, ends⟩ := bind_ok_iff.1 read
    cases ends
    rfl

theorem expressionStatement_begins {s : Stmt} (read : expressionStatement bound c = .ok s c') :
    s.isInitializer = true := by
  unfold expressionStatement at read
  obtain ⟨value, u, -, read⟩ := bind_ok_iff.1 read
  obtain ⟨_, v, -, ends⟩ := bind_ok_iff.1 read
  cases ends
  rfl

theorem forInitializer_begins {initializer : Option Stmt}
    (read : forInitializer bound c = .ok initializer c') :
    ∀ s ∈ initializer, s.isInitializer = true := by
  unfold forInitializer at read
  obtain ⟨semicolon?, u, -, read⟩ := bind_ok_iff.1 read
  cases semicolon? with
  | some _ =>
    cases read
    intro s among
    cases among
  | none =>
    obtain ⟨var?, v, -, read⟩ := bind_ok_iff.1 read
    cases var? with
    | some _ =>
      obtain ⟨s, w, declared, ends⟩ := bind_ok_iff.1 read
      cases ends
      rintro s ⟨rfl⟩
      exact varDeclaration_begins declared
    | none =>
      obtain ⟨s, w, expressed, ends⟩ := bind_ok_iff.1 read
      cases ends
      rintro s ⟨rfl⟩
      exact expressionStatement_begins expressed

theorem forStatement_eq (statement : Reader Stmt) (bound : Nat) :
    forStatement statement bound = (do
      let l ← forClauses statement bound
      let condition ← forCondition l.condition
      pure (.forLoop l.initializer condition l.increment l.body)) := by
  simp only [forStatement, forClauses, bind_assoc, pure_bind]

/-- What is read as a loop are its parts, put together. -/
theorem forStatement_clauses (read : forStatement (Grammar.statement less) bound c = .ok tree c') :
    ∃ l id d, forClauses (Grammar.statement less) bound c = .ok l d ∧ tree = l.desugared id ∧
      (∀ s ∈ l.initializer, s.isInitializer = true) ∧ l.body.isBranch = true := by
  rw [forStatement_eq] at read
  obtain ⟨l, d, clauses, read⟩ := bind_ok_iff.1 read
  obtain ⟨condition, e, made, ends⟩ := bind_ok_iff.1 read
  cases ends
  have same : condition = l.condition.getD (.literal d.nextId (.bool true)) := by
    cases written : l.condition with
    | none =>
      rw [written] at made
      cases made
      rfl
    | some _ =>
      rw [written] at made
      cases made
      rfl
  refine ⟨l, d.nextId, d, clauses, by rw [same]; rfl, ?_⟩
  unfold forClauses at clauses
  obtain ⟨_, s₁, -, clauses⟩ := bind_ok_iff.1 clauses
  obtain ⟨initializer, s₂, begins, clauses⟩ := bind_ok_iff.1 clauses
  obtain ⟨_, s₃, -, clauses⟩ := bind_ok_iff.1 clauses
  obtain ⟨_, s₄, -, clauses⟩ := bind_ok_iff.1 clauses
  obtain ⟨_, s₅, -, clauses⟩ := bind_ok_iff.1 clauses
  obtain ⟨_, s₆, -, clauses⟩ := bind_ok_iff.1 clauses
  obtain ⟨body, s₇, branch, ends⟩ := bind_ok_iff.1 clauses
  cases ends
  have reads := (statements_read (P := fun _ => True) less).2 s₆ fun _ _ => trivial
  rw [branch] at reads
  exact ⟨forInitializer_begins begins, reads.2.2.2⟩

end Grammar

/-! ### Trees and places -/

namespace ForLoop

variable {P : Token → Prop} {l : ForLoop} {id : ExprId}

/-- All parts are formed, and such as are read where they stand. -/
structure Formed (P : Token → Prop) (l : ForLoop) : Prop where
  initializer : ∀ s ∈ l.initializer, s.isInitializer = true ∧ s.Formed P
  condition : ∀ e ∈ l.condition, e.Formed P
  increment : ∀ e ∈ l.increment, e.Formed P
  body : l.body.Formed P ∧ l.body.isBranch = true

theorem formed_of_while (formed : (l.while_ id).Formed P)
    (begins : ∀ s ∈ l.initializer, s.isInitializer = true ∧ s.Formed P)
    (branch : l.body.isBranch = true) : l.Formed P := by
  obtain ⟨initializer, condition, increment, body⟩ := l
  obtain ⟨formedCondition, formedStep, -⟩ := formed
  have conditions : ∀ e ∈ condition, e.Formed P := by
    rintro e ⟨rfl⟩
    exact formedCondition
  cases increment with
  | none => exact ⟨begins, conditions, (fun e among => nomatch among), formedStep, branch⟩
  | some e =>
    refine ⟨begins, conditions, ?_, formedStep.1, branch⟩
    rintro e ⟨rfl⟩
    exact formedStep.2.1

theorem formed_of_desugared (formed : (l.desugared id).Formed P)
    (begins : ∀ s ∈ l.initializer, s.isInitializer = true) (branch : l.body.isBranch = true) :
    l.Formed P := by
  rw [desugared_eq] at formed
  cases written : l.initializer with
  | none =>
    rw [written] at formed
    refine formed_of_while formed (fun s among => ?_) branch
    rw [written] at among
    cases among
  | some s =>
    rw [written] at formed
    refine formed_of_while formed.2.1 (fun t among => ⟨begins t among, ?_⟩) branch
    rw [written] at among
    cases among
    exact formed.1

/-- What is done in each round. -/
def again (l : ForLoop) : List Stmt :=
  l.condition.toList.map .expression ++ l.body :: l.increment.toList.map .expression

/-- The parts of the loop, one after the other. -/
def parts (l : ForLoop) : List Stmt := l.initializer.toList ++ l.again

theorem desugared_branch (l : ForLoop) (id : ExprId) : (l.desugared id).isBranch = true := by
  rw [desugared_eq]
  cases l.initializer <;> rfl

end ForLoop

namespace Scoping

/-- By the direct rule the parts are walked over like those of a block. -/
theorem forLoop_eq (l : ForLoop) : forLoop l = stmt (.block l.parts) := by
  obtain ⟨initializer, condition, increment, body⟩ := l
  rw [stmt, forLoop]
  cases initializer <;> cases condition <;> cases increment <;>
    simp [ForLoop.parts, ForLoop.again, stmts, exprs, stmt]

/-! ### Walks -/

/-- What is walked over after the initializer. -/
def forRest (l : ForLoop) : Scoping Unit := do
  exprs l.condition.toList
  stmt l.body
  exprs l.increment.toList

variable {a : Alignment} {p p' : Place} {P : Token → Prop} {f : ExprId → ExprId} {l : ForLoop}

theorem exprs_single (e : Expr) : exprs [e] = expr e := by
  simp only [exprs]
  exact bind_pure _

theorem stmts_single (s : Stmt) : stmts [s] = stmt s := by
  simp only [stmts]
  exact bind_pure _

section

variable (beside : a.Beside p p') (left : p.Settled) (right : p'.Settled) (formed : l.Formed P)
include beside left right formed

theorem step_paired : Paired p p' p p' (stmt l.step) (do
    stmt (l.renumber f).body
    exprs (l.renumber f).increment.toList) := by
  obtain ⟨formedBody, branch⟩ := formed.body
  cases written : l.increment with
  | none =>
    have body := stmt_paired (f := f) beside left right l.body formedBody (.inr branch)
    rw [l.body.after_branch formedBody branch, l.body.after_branch formedBody branch] at body
    simp only [ForLoop.step, ForLoop.renumber, written, Option.map, Option.toList_none, exprs]
    rw [show (do stmt (l.body.renumber f); pure ()) = stmt (l.body.renumber f) from bind_pure _]
    exact body
  | some e =>
    have opened := beside.enterLeft
    have settled := left.enter_empty
    have body := stmt_paired (f := f) opened settled right l.body formedBody (.inr branch)
    rw [l.body.after_branch formedBody branch, l.body.after_branch formedBody branch] at body
    have increment := expr_paired (f := f) opened (Alignment.even_settled settled right) e
    simp only [ForLoop.step, ForLoop.renumber, written, Option.map, Option.toList_some]
    rw [stmt, stmts, stmts_single, stmt, exprs_single]
    exact (body.bind increment).inFrameLeft

theorem while_paired (id : ExprId) :
    Paired p p' p p' (stmt (l.while_ id)) (forRest (l.renumber f)) := by
  have step := step_paired (f := f) beside left right formed
  rw [ForLoop.while_, stmt, forRest]
  cases written : l.condition with
  | none =>
    simp only [ForLoop.renumber, written, Option.map, Option.toList_none, exprs, Option.getD_none,
      expr]
    exact Paired.done.bind step
  | some e =>
    simp only [ForLoop.renumber, written, Option.map, Option.toList_some, Option.getD_some]
    rw [exprs_single]
    exact (expr_paired beside (Alignment.even_settled left right) e).bind step

/-- The walk over the tree and that by the direct rule go the same way. -/
theorem forLoop_paired (id : ExprId) :
    Paired p p' p p' (stmt (l.desugared id)) (forLoop (l.renumber f)) := by
  have direct : forLoop (l.renumber f) = inFrame (do
      stmts (l.renumber f).initializer.toList
      forRest (l.renumber f)) := rfl
  rw [direct, ForLoop.desugared_eq]
  cases written : l.initializer with
  | none =>
    simp only [ForLoop.renumber, written, Option.map, Option.toList_none, stmts, pure_bind]
    exact (while_paired beside.enterRight left right.enter_empty formed id).inFrameRight
  | some s =>
    obtain ⟨begins, formedFirst⟩ := formed.initializer s written
    have opened := beside.enter Table.empty
    have first := stmt_paired (f := f) opened left.enter_empty right.enter_empty s formedFirst
      (.inl rfl)
    have rest := while_paired (f := f) (opened.after formedFirst (.inl rfl))
      (s.after_settled left.enter_empty) (s.after_settled right.enter_empty) formed id
    have both := first.bind rest
    obtain ⟨frame, ends⟩ := Stmt.afterList_enter [s] p Table.empty
    obtain ⟨frame', ends'⟩ := Stmt.afterList_enter [s] p' Table.empty
    rw [List.foldl_cons, List.foldl_nil] at ends ends'
    rw [ends, ends'] at both
    have renumbered : (l.renumber f).initializer.toList = [s.renumber f] := by
      rw [ForLoop.renumber, written]
      rfl
    rw [renumbered, stmts_single, stmt, stmts, stmts_single]
    exact both.inFrame

end

end Scoping

/-! ### Alignment -/

namespace ForLoop

variable {D : TwoDistances} {f : ExprId → ExprId} {a : Alignment} {p p' : Place} {l : ForLoop}
  {id : ExprId}

/-- Where the body is run, inside of where the condition is evaluated. -/
theorem bodyAlignment_eq (l : ForLoop) (a : Alignment) : l.bodyAlignment a =
    if l.increment.isSome then .left :: l.alignment a else l.alignment a := by
  rw [bodyAlignment]
  cases l.increment <;> rfl

theorem again_aligned (places : a.Places p p') (formed : l.Formed Token.Spelled)
    (left : (l.while_ id).Scoped D.left.Records p)
    (right : Stmt.ScopedList D.right.Records p' (l.renumber f).again) :
    (∀ e ∈ l.condition, e.Aligned D f a) ∧ (∀ e ∈ l.increment, e.Aligned D f (.left :: a)) ∧
      l.body.Aligned D f (if l.increment.isSome then .left :: a else a) := by
  obtain ⟨initializer, condition, increment, body⟩ := l
  obtain ⟨formedBody, branch⟩ := formed.body
  obtain ⟨leftCondition, leftStep⟩ := left
  have conditions : (∀ e ∈ condition, e.Aligned D f a) ∧
      Stmt.ScopedList D.right.Records p'
        (body.renumber f :: (increment.map (·.renumber f)).toList.map .expression) := by
    cases condition with
    | none => exact ⟨(fun e among => nomatch among), right⟩
    | some e =>
      refine ⟨?_, right.2⟩
      rintro e ⟨rfl⟩
      exact Expr.Scoped.aligned e places (formed.condition e rfl) leftCondition right.1
  obtain ⟨conditions, rightBody, rightIncrement⟩ := conditions
  refine ⟨conditions, ?_⟩
  cases increment with
  | none =>
    refine ⟨(fun e among => nomatch among), ?_⟩
    exact Stmt.Scoped.aligned body places formedBody (.inr branch) leftStep rightBody
  | some e =>
    rw [Stmt.after_renumber, body.after_branch formedBody branch] at rightIncrement
    obtain ⟨leftBody, leftIncrement, -⟩ := leftStep
    rw [body.after_branch formedBody branch] at leftIncrement
    refine ⟨?_, Stmt.Scoped.aligned body places.enterLeft formedBody (.inr branch) leftBody rightBody⟩
    rintro e ⟨rfl⟩
    exact Expr.Scoped.aligned e places.enterLeft (formed.increment e rfl) leftIncrement
      rightIncrement.1

/-- A loop is aligned whose tree is well scoped at one place, and whose parts are well scoped by the
direct rule at the other. -/
theorem aligned_of_scoped (places : a.Places p p') (formed : l.Formed Token.Spelled)
    (left : (l.desugared id).Scoped D.left.Records p)
    (right : (Stmt.block (l.renumber f).parts).Scoped D.right.Records p') : l.Aligned D f a := by
  rw [desugared_eq] at left
  have all : (∀ s ∈ l.initializer, s.isInitializer = true ∧ s.Aligned D f (.both :: a)) ∧
      (∀ e ∈ l.condition, e.Aligned D f (l.alignment a)) ∧
      (∀ e ∈ l.increment, e.Aligned D f (.left :: l.alignment a)) ∧
      l.body.Aligned D f (if l.increment.isSome then .left :: l.alignment a else l.alignment a) := by
    cases written : l.initializer with
    | none =>
      rw [written] at left
      have again : (l.renumber f).parts = (l.renumber f).again := by
        rw [parts, renumber, written]
        rfl
      rw [again] at right
      simp only [alignment, written]
      refine ⟨?_, again_aligned places.enterRight formed left right⟩
      intro s among
      cases among
    | some s =>
      rw [written] at left
      obtain ⟨begins, formedFirst⟩ := formed.initializer s written
      have again : (l.renumber f).parts = s.renumber f :: (l.renumber f).again := by
        rw [parts, renumber, written]
        rfl
      rw [again] at right
      obtain ⟨leftFirst, leftRest, -⟩ := left
      obtain ⟨rightFirst, rightRest⟩ := right
      rw [Stmt.after_renumber] at rightRest
      simp only [alignment, written]
      refine ⟨?_, again_aligned (places.enterEmpty.after formedFirst (.inl rfl)) formed leftRest
        rightRest⟩
      rintro s ⟨rfl⟩
      exact ⟨begins, Stmt.Scoped.aligned s places.enterEmpty formedFirst (.inl rfl) leftFirst
        rightFirst⟩
  obtain ⟨initializer, condition, increment, body⟩ := all
  exact ⟨initializer, condition, increment, l.bodyAlignment_eq a ▸ body⟩

end ForLoop

end Lox
