import Mathlib
import Lox.Proofs.JoinedWalks
import Lox.Proofs.ScopeRecords

/-!
However a walk over scopes ends, it closes what it has opened: the scopes around it and both
contexts are those of before, and the innermost scope has at most more names, or names defined that
were declared. So a walk from outside of all scopes leaves nothing behind but distances, and the next
one goes as if it were the first.
-/

namespace Lox

/-- What a scope holds later: no name is lost, and one that was declared may have been defined. -/
def Frame.Grows (before after : Frame) : Prop :=
  ∀ name known, before.get? name = some known →
    after.get? name = some known ∨ known = false ∧ after.get? name = some true

namespace Frame.Grows

variable {before after last : Frame}

theorem refl (frame : Frame) : Frame.Grows frame frame := fun _ _ held => .inl held

theorem trans (first : Frame.Grows before after) (second : Frame.Grows after last) :
    Frame.Grows before last := by
  intro name known held
  rcases first name known held with kept | ⟨declared, defined⟩
  · exact second name known kept
  · rcases second name true defined with kept | ⟨absurd, -⟩
    · exact .inr ⟨declared, kept⟩
    · cases absurd

/-- Defining a name is allowed whatever was known of it. -/
theorem define (frame : Frame) (name : String) : Frame.Grows frame (frame.insert name true) := by
  intro other known held
  rw [Table.get?_insert]
  by_cases same : name = other
  · rw [if_pos same]
    cases known with
    | true => exact .inl rfl
    | false => exact .inr ⟨rfl, rfl⟩
  · rw [if_neg same]
    exact .inl held

theorem declare {frame : Frame} {name : String} (absent : frame.contains name = false) :
    Frame.Grows frame (frame.insert name false) := by
  intro other known held
  rw [Table.get?_insert]
  by_cases same : name = other
  · subst same
    rw [Table.contains, held] at absent
    cases absent
  · rw [if_neg same]
    exact .inl held

end Frame.Grows

/-- Between the two states no scope was opened or closed for good, and only the innermost one grew. -/
structure ScopeState.Balanced (before after : ScopeState) : Prop where
  count : after.frames.length = before.frames.length
  outer : after.frames.tail = before.frames.tail
  innermost : ∀ frame ∈ before.frames.head?, ∀ frame' ∈ after.frames.head?, Frame.Grows frame frame'
  function : after.function = before.function
  class_ : after.class_ = before.class_

namespace ScopeState.Balanced

variable {s t u : ScopeState}

/-- Finding distances does not touch the scopes. -/
theorem of_frames (frames : t.frames = s.frames) (function : t.function = s.function)
    (class_ : t.class_ = s.class_) : s.Balanced t := by
  refine ⟨by rw [frames], by rw [frames], ?_, function, class_⟩
  intro frame first frame' first'
  rw [frames] at first'
  obtain rfl : frame = frame' := Option.some.inj (first.symm.trans first')
  exact Frame.Grows.refl frame

theorem refl (s : ScopeState) : s.Balanced s := of_frames rfl rfl rfl

theorem trans (first : s.Balanced t) (second : t.Balanced u) : s.Balanced u := by
  refine ⟨second.count.trans first.count, second.outer.trans first.outer, ?_,
    second.function.trans first.function, second.class_.trans first.class_⟩
  intro frame begins frame'' ends
  have count := first.count
  cases middle : t.frames with
  | nil =>
    rw [middle, eq_comm, List.length_nil, List.length_eq_zero_iff] at count
    rw [count] at begins
    cases begins
  | cons frame' outer =>
    have between : frame' ∈ t.frames.head? := by
      rw [middle]
      rfl
    exact (first.innermost frame begins frame' between).trans
      (second.innermost frame' between frame'' ends)

/-- A scope that was opened is closed again, and none of those around it has changed. -/
theorem closed {frame : Frame}
    (inside : ScopeState.Balanced { s with frames := frame :: s.frames } t) :
    s.Balanced { t with frames := t.frames.tail } :=
  of_frames inside.outer inside.function inside.class_

/-- From outside of all scopes and contexts a walk comes back there. -/
theorem outermost (balanced : ScopeState.initial.Balanced t) :
    t = ScopeState.initial.noting t.found := by
  obtain ⟨frames, context, class_, found⟩ := t
  have empty : frames = [] := List.length_eq_zero_iff.1 balanced.count
  have outside : context = .outside := balanced.function
  have noClass : class_ = .outside := balanced.class_
  subst empty outside noClass
  rfl

end ScopeState.Balanced

namespace Scoping

/-- The walk is balanced from every state, whether it succeeds or not. -/
def Balances (walk : Scoping Unit) : Prop := ∀ s : ScopeState, s.Balanced (stateOf (walk s))

namespace Balances

variable {walk next : Scoping Unit}

theorem of_same (same : ∀ s, stateOf (walk s) = s) : Balances walk := by
  intro s
  rw [same s]
  exact .refl s

theorem done : Balances (pure ()) := of_same fun _ => rfl

theorem bind (first : Balances walk) (second : Balances next) :
    Balances (walk >>= fun _ => next) := by
  intro s
  have begun := first s
  cases run : walk s with
  | ok a t =>
    rw [run] at begun
    rw [bind_of_ok run]
    exact begun.trans (second t)
  | error e t =>
    rw [run] at begun
    rwa [bind_of_error run]

/-- Whatever ends the part inside, the change made for it is undone. -/
theorem within {enter : ScopeState → ScopeState} {leave : ScopeState → ScopeState → ScopeState}
    (balances : Balances walk)
    (undone : ∀ s t, (enter s).Balanced t → s.Balanced (leave s t)) :
    Balances (within enter leave walk) := by
  intro s
  have inside := balances (enter s)
  unfold Scoping.within
  cases run : walk (enter s) with
  | ok a t | error e t =>
    rw [run] at inside
    exact undone s t inside

theorem inFrame (balances : Balances walk) : Balances (inFrame walk) :=
  balances.within fun _ _ inside => inside.closed

theorem inFunction (balances : Balances walk) (context : FunctionContext) :
    Balances (inFunction context walk) := by
  refine balances.within fun s t inside => ?_
  exact ⟨inside.count, inside.outer, inside.innermost, rfl, inside.class_⟩

theorem inClass (balances : Balances walk) (context : ClassContext) :
    Balances (inClass context walk) := by
  refine balances.within fun s t inside => ?_
  exact ⟨inside.count, inside.outer, inside.innermost, inside.function, rfl⟩

end Balances

/-! ### Checks and declarations -/

theorem declare_balances (name : Token) : Balances (declare name) := by
  rintro ⟨frames, context, class_, found⟩
  cases frames with
  | nil => exact .refl _
  | cons frame outer =>
    by_cases held : frame.contains name.lexeme = true
    · simp only [declare, held, if_true]
      exact .refl _
    · simp only [declare, held]
      refine ⟨rfl, rfl, ?_, rfl, rfl⟩
      intro before first after first'
      cases first
      cases first'
      exact Frame.Grows.declare (Bool.eq_false_iff.2 held)

theorem define_balances (name : String) : Balances (define name) := by
  rintro ⟨frames, context, class_, found⟩
  cases frames with
  | nil => exact .refl _
  | cons frame outer =>
    refine ⟨rfl, rfl, ?_, rfl, rfl⟩
    intro before first after first'
    cases first
    cases first'
    exact Frame.Grows.define frame name

theorem declareAndDefine_balances (name : Token) : Balances (declareAndDefine name) :=
  (declare_balances name).bind (define_balances name.lexeme)

theorem recordUse_balances (id : ExprId) (name : String) : Balances (recordUse id name) := by
  intro s
  unfold recordUse
  cases distance? s.frames name with
  | none => exact .refl s
  | some d => exact .of_frames rfl rfl rfl

theorem checkDefined_balances (name : Token) : Balances (checkDefined name) := by
  refine Balances.of_same fun s => ?_
  unfold checkDefined
  repeat' split
  all_goals rfl

theorem checkThis_balances (keyword : Token) : Balances (checkThis keyword) := by
  refine Balances.of_same ?_
  rintro ⟨frames, context, class_, found⟩
  cases class_ <;> rfl

theorem checkSuper_balances (keyword : Token) : Balances (checkSuper keyword) := by
  refine Balances.of_same ?_
  rintro ⟨frames, context, class_, found⟩
  cases class_ <;> rfl

theorem checkReturn_balances (keyword : Token) (hasValue : Bool) :
    Balances (checkReturn keyword hasValue) := by
  refine Balances.of_same ?_
  rintro ⟨frames, context, class_, found⟩
  cases context <;> cases hasValue <;> rfl

theorem checkSuperclass_balances (name : Token) (superclass : Expr) :
    Balances (checkSuperclass name superclass) := by
  refine Balances.of_same fun s => ?_
  unfold checkSuperclass
  repeat' split
  all_goals rfl

theorem parameters_balance (ps : List Token) : Balances (parameters ps) := by
  induction ps with
  | nil => exact .done
  | cons p ps ih => exact (declareAndDefine_balances p).bind ih

/-! ### Trees -/

mutual

theorem expr_balances (e : Expr) : Balances (expr e) := by
  match e with
  | .literal _ _ =>
    rw [expr]
    exact .done
  | .grouping _ a | .unary _ _ a | .get _ a _ =>
    rw [expr]
    exact expr_balances a
  | .binary _ a _ b | .logical _ a _ b | .comma _ a b =>
    rw [expr]
    exact (expr_balances a).bind (expr_balances b)
  | .set _ a _ b =>
    rw [expr]
    exact (expr_balances b).bind (expr_balances a)
  | .assign id t a =>
    rw [expr]
    exact (expr_balances a).bind (recordUse_balances id t.lexeme)
  | .var id t =>
    rw [expr]
    exact (checkDefined_balances t).bind (recordUse_balances id t.lexeme)
  | .this id t =>
    rw [expr]
    exact (checkThis_balances t).bind (recordUse_balances id t.lexeme)
  | .super id t _ =>
    rw [expr]
    exact (checkSuper_balances t).bind (recordUse_balances id t.lexeme)
  | .call _ a _ as =>
    rw [expr]
    exact (expr_balances a).bind (exprs_balance as)
  | .ternary _ a b d =>
    rw [expr]
    exact (expr_balances a).bind ((expr_balances b).bind (expr_balances d))

theorem exprs_balance (es : List Expr) : Balances (exprs es) := by
  match es with
  | [] => exact .done
  | e :: es =>
    rw [exprs]
    exact (expr_balances e).bind (exprs_balance es)

end

mutual

theorem stmt_balances (s : Stmt) : Balances (stmt s) := by
  match s with
  | .expression e | .print e =>
    rw [stmt]
    exact expr_balances e
  | .varDecl t none =>
    rw [stmt]
    exact declareAndDefine_balances t
  | .varDecl t (some e) =>
    rw [stmt]
    exact (declare_balances t).bind ((expr_balances e).bind (define_balances t.lexeme))
  | .block ss =>
    rw [stmt]
    exact (stmts_balance ss).inFrame
  | .ifThen e s | .whileLoop e s =>
    rw [stmt]
    exact (expr_balances e).bind (stmt_balances s)
  | .ifElse e s t =>
    rw [stmt]
    exact (expr_balances e).bind ((stmt_balances s).bind (stmt_balances t))
  | .funDecl f =>
    rw [stmt]
    exact (declareAndDefine_balances f.name).bind (function_balances .function f)
  | .returnStmt t none =>
    rw [stmt]
    exact checkReturn_balances t false
  | .returnStmt t (some e) =>
    rw [stmt]
    exact (checkReturn_balances t true).bind (expr_balances e)
  | .classDecl t none fs =>
    rw [stmt]
    exact (declareAndDefine_balances t).bind
      (((define_balances "this").bind (methods_balance fs)).inFrame.inClass .base)
  | .classDecl t (some e) fs =>
    rw [stmt]
    have inner := ((define_balances "this").bind (methods_balance fs)).inFrame
    have outer := ((define_balances "super").bind inner).inFrame
    exact (declareAndDefine_balances t).bind
      ((checkSuperclass_balances t e).bind (((expr_balances e).bind outer).inClass .derived))

theorem stmts_balance (ss : List Stmt) : Balances (stmts ss) := by
  match ss with
  | [] => exact .done
  | s :: ss =>
    rw [stmts]
    exact (stmt_balances s).bind (stmts_balance ss)

theorem function_balances (context : FunctionContext) (f : FunctionDecl) :
    Balances (function context f) := by
  match f with
  | ⟨name, ps, body⟩ =>
    rw [function]
    exact (((parameters_balance ps).bind (stmts_balance body)).inFrame).inFunction context

theorem methods_balance (fs : List FunctionDecl) : Balances (methods fs) := by
  match fs with
  | [] => exact .done
  | ⟨name, ps, body⟩ :: fs =>
    rw [methods]
    exact (function_balances (methodContext name) ⟨name, ps, body⟩).bind (methods_balance fs)

end

/-! ### One walk after another -/

/-- The violation that ended a walk, if any. -/
def violationOf : EStateM.Result ScopeError ScopeState Unit → Option ScopeError
  | .ok _ _ => none
  | .error e _ => some e

/-- The state after walks over these programs, each going on from where the one before ended, well
or not. -/
def afterWalks (s : ScopeState) (programs : List (List Stmt)) : ScopeState :=
  programs.foldl (fun s program => stateOf (stmts program s)) s

theorem afterWalks_balanced (s : ScopeState) (programs : List (List Stmt)) :
    s.Balanced (afterWalks s programs) := by
  induction programs generalizing s with
  | nil => exact .refl s
  | cons program programs ih => exact (stmts_balance program s).trans (ih _)

theorem resolve_eq (program : List Stmt) :
    resolve program = ⟨(stateOf (stmts program .initial)).found.reverse,
      violationOf (stmts program .initial)⟩ := by
  unfold resolve
  cases stmts program .initial <;> rfl

/-- A walk that begins outside of all scopes ends as the first one over the program does, and finds
its distances. -/
theorem stmts_noting (program : List Stmt) (found : List (ExprId × Nat)) :
    violationOf (stmts program (ScopeState.initial.noting found)) = (resolve program).error ∧
      (stateOf (stmts program (ScopeState.initial.noting found))).found =
        (resolve program).found.reverse ++ found := by
  rw [resolve_eq, stmts_blind program .initial found, List.reverse_reverse]
  cases stmts program .initial with
  | ok a t | error e t => exact ⟨rfl, rfl⟩

/-- Walks are balanced, from every state and whether they succeed or not. After any walks, failed
ones among them, the next gives the violation and sets the distances that it would give and set
alone. -/
theorem always_balanced :
    (∀ (e : Expr) (s : ScopeState), s.Balanced (stateOf (expr e s))) ∧
    (∀ (statement : Stmt) (s : ScopeState), s.Balanced (stateOf (stmt statement s))) ∧
    (∀ (program : List Stmt) (s : ScopeState), s.Balanced (stateOf (stmts program s))) ∧
    ∀ (earlier : List (List Stmt)) (program : List Stmt) (m : Machine),
      let s := afterWalks .initial earlier
      let walk := stmts program s
      violationOf walk = (resolve program).error ∧
        (stateOf walk).found = (resolve program).found.reverse ++ s.found ∧
          m.setDistances (stateOf walk).found.reverse =
            ((m.setDistances s.found.reverse).bindProgram program).2 := by
  refine ⟨expr_balances, stmt_balances, stmts_balance, ?_⟩
  intro earlier program m s walk
  have outermost : s = ScopeState.initial.noting s.found :=
    (afterWalks_balanced .initial earlier).outermost
  obtain ⟨error, found⟩ : violationOf walk = (resolve program).error ∧
      (stateOf walk).found = (resolve program).found.reverse ++ s.found := by
    have noting := stmts_noting program s.found
    rwa [← outermost] at noting
  refine ⟨error, found, ?_⟩
  rw [found, List.reverse_append, List.reverse_reverse]
  exact List.foldl_append

end Scoping

end Lox
