import Mathlib
import Lox.Proofs.TreeShapes
import Lox.Scoping

/-!
However the walk over scopes ends, it has recorded distances for expressions of the tree only.
-/

namespace Lox

/-- The state that a computation ends in, well or not. -/
def stateOf {ε σ α : Type} : EStateM.Result ε σ α → σ
  | .ok _ t => t
  | .error _ t => t

namespace Scoping

/-- Whatever the walk finds, it finds for these ids. -/
def Records (ids : List ExprId) (walk : Scoping Unit) : Prop :=
  ∀ s, ∃ uses, (stateOf (walk s)).found = uses ++ s.found ∧ ∀ use ∈ uses, use.1 ∈ ids

namespace Records

variable {ids more : List ExprId} {walk next : Scoping Unit}

theorem imp (records : Records ids walk) (among : ids ⊆ more) : Records more walk := by
  intro s
  obtain ⟨uses, found, known⟩ := records s
  exact ⟨uses, found, fun use member => among (known use member)⟩

theorem nothing (ids : List ExprId) (same : ∀ s, (stateOf (walk s)).found = s.found) : Records ids walk :=
  fun s => ⟨[], same s, fun _ member => nomatch member⟩

theorem done : Records ids (pure ()) := nothing ids fun _ => rfl

theorem bind (first : Records ids walk) (second : Records more next) :
    Records (ids ++ more) (walk >>= fun _ => next) := by
  intro s
  obtain ⟨uses, found, known⟩ := first s
  simp only [Bind.bind, EStateM.bind]
  cases run : walk s with
  | error e t =>
    rw [run] at found
    exact ⟨uses, found, fun use member => List.mem_append_left _ (known use member)⟩
  | ok a t =>
    rw [run] at found
    obtain ⟨uses', found', known'⟩ := second t
    refine ⟨uses' ++ uses, ?_, fun use member => ?_⟩
    · rw [found', show t.found = uses ++ s.found from found, List.append_assoc]
    · rcases List.mem_append.1 member with member | member
      · exact List.mem_append_right _ (known' use member)
      · exact List.mem_append_left _ (known use member)

/-- A check or a declaration before the walk. -/
theorem after {check : Scoping Unit} (quiet : ∀ s, (stateOf (check s)).found = s.found)
    (records : Records ids walk) : Records ids (check >>= fun _ => walk) :=
  bind (nothing [] quiet) records

theorem within {enter : ScopeState → ScopeState} {leave : ScopeState → ScopeState → ScopeState}
    (records : Records ids walk) (entered : ∀ s, (enter s).found = s.found)
    (left : ∀ s t, (leave s t).found = t.found) : Records ids (within enter leave walk) := by
  intro s
  obtain ⟨uses, found, known⟩ := records (enter s)
  refine ⟨uses, ?_, known⟩
  unfold Scoping.within
  rw [entered] at found
  cases run : walk (enter s) with
  | ok a t | error e t =>
    rw [run] at found
    exact (left s t).trans found

theorem inFrame (records : Records ids walk) : Records ids (inFrame walk) :=
  records.within (fun _ => rfl) fun _ _ => rfl

theorem inFunction (records : Records ids walk) (context : FunctionContext) :
    Records ids (inFunction context walk) :=
  records.within (fun _ => rfl) fun _ _ => rfl

theorem inClass (records : Records ids walk) (context : ClassContext) :
    Records ids (inClass context walk) :=
  records.within (fun _ => rfl) fun _ _ => rfl

theorem recordUse (id : ExprId) (name : String) : Records [id] (recordUse id name) := by
  intro s
  unfold Scoping.recordUse
  cases distance? s.frames name with
  | none => exact ⟨[], rfl, fun _ member => nomatch member⟩
  | some d => exact ⟨[(id, d)], rfl, by simp⟩

end Records

/-! ### Checks and declarations record nothing -/

theorem declare_found (name : Token) (s : ScopeState) :
    (stateOf (declare name s)).found = s.found := by
  unfold declare
  repeat' split
  all_goals rfl

theorem define_found (name : String) (s : ScopeState) :
    (stateOf (define name s)).found = s.found := by
  unfold define
  split <;> rfl

theorem declareAndDefine_found (name : Token) (s : ScopeState) :
    (stateOf (declareAndDefine name s)).found = s.found := by
  have first := declare_found name s
  simp only [declareAndDefine, Bind.bind, EStateM.bind]
  cases run : declare name s with
  | error e t => rwa [run] at first
  | ok a t =>
    rw [run] at first
    exact (define_found name.lexeme t).trans first

theorem checkDefined_found (name : Token) (s : ScopeState) :
    (stateOf (checkDefined name s)).found = s.found := by
  unfold checkDefined
  repeat' split
  all_goals rfl

theorem checkThis_found (keyword : Token) (s : ScopeState) :
    (stateOf (checkThis keyword s)).found = s.found := by
  by_cases outside : s.class_ = .outside <;>
    simp [checkThis, outside, violation, stateOf, Bind.bind, EStateM.bind, get, getThe,
      MonadStateOf.get, EStateM.get, throw, throwThe, MonadExceptOf.throw, EStateM.throw, Pure.pure,
      EStateM.pure]

theorem checkSuper_found (keyword : Token) (s : ScopeState) :
    (stateOf (checkSuper keyword s)).found = s.found := by
  cases inside : s.class_ <;>
    simp [checkSuper, inside, violation, stateOf, Bind.bind, EStateM.bind, get, getThe,
      MonadStateOf.get, EStateM.get, throw, throwThe, MonadExceptOf.throw, EStateM.throw, Pure.pure,
      EStateM.pure]

theorem checkReturn_found (keyword : Token) (hasValue : Bool) (s : ScopeState) :
    (stateOf (checkReturn keyword hasValue s)).found = s.found := by
  cases inside : s.function <;> cases hasValue <;>
    simp [checkReturn, inside, violation, stateOf, Bind.bind, EStateM.bind, get, getThe,
      MonadStateOf.get, EStateM.get, throw, throwThe, MonadExceptOf.throw, EStateM.throw, Pure.pure,
      EStateM.pure]

theorem checkSuperclass_found (name : Token) (superclass : Expr) (s : ScopeState) :
    (stateOf (checkSuperclass name superclass s)).found = s.found := by
  unfold checkSuperclass
  repeat' split
  all_goals rfl

theorem parameters_found (ps : List Token) (s : ScopeState) :
    (stateOf (parameters ps s)).found = s.found := by
  induction ps generalizing s with
  | nil => rfl
  | cons p ps ih =>
    have first := declareAndDefine_found p s
    simp only [parameters, Bind.bind, EStateM.bind]
    cases run : declareAndDefine p s with
    | error e t => rwa [run] at first
    | ok a t =>
      rw [run] at first
      exact (ih t).trans first

/-! ### Trees -/

mutual

theorem expr_records (e : Expr) : Records e.ids (expr e) := by
  match e with
  | .literal id v =>
    rw [expr]
    exact .done
  | .grouping id a | .unary id _ a | .get id a _ =>
    rw [expr]
    exact (expr_records a).imp (List.subset_append_left _ _)
  | .binary id a _ b | .logical id a _ b | .comma id a b =>
    rw [expr]
    exact ((expr_records a).bind (expr_records b)).imp (List.subset_append_left _ _)
  | .set id a _ b =>
    rw [expr]
    refine ((expr_records b).bind (expr_records a)).imp fun i among => ?_
    simp only [Expr.ids, List.mem_append] at among ⊢
    exact .inl among.symm
  | .assign id t a =>
    rw [expr]
    exact (expr_records a).bind (.recordUse id t.lexeme)
  | .var id t =>
    rw [expr]
    exact .after (checkDefined_found t) (.recordUse id t.lexeme)
  | .this id t =>
    rw [expr]
    exact .after (checkThis_found t) (.recordUse id t.lexeme)
  | .super id t u =>
    rw [expr]
    exact .after (checkSuper_found t) (.recordUse id t.lexeme)
  | .call id a _ as =>
    rw [expr]
    exact ((expr_records a).bind (exprs_records as)).imp (List.subset_append_left _ _)
  | .ternary id a b d =>
    rw [expr]
    refine ((expr_records a).bind ((expr_records b).bind (expr_records d))).imp ?_
    rw [← List.append_assoc]
    exact List.subset_append_left _ _

theorem exprs_records (es : List Expr) : Records (Expr.idsList es) (exprs es) := by
  match es with
  | [] => exact .done
  | e :: es =>
    rw [exprs]
    exact (expr_records e).bind (exprs_records es)

end

mutual

theorem stmt_records (s : Stmt) : Records s.ids (stmt s) := by
  match s with
  | .expression e | .print e =>
    rw [stmt]
    exact expr_records e
  | .varDecl t none =>
    rw [stmt]
    exact .nothing [] (declareAndDefine_found t)
  | .varDecl t (some e) =>
    rw [stmt]
    refine .after (declare_found t) (((expr_records e).bind
      (.nothing [] (define_found t.lexeme))).imp ?_)
    rw [List.append_nil]
    exact List.Subset.refl _
  | .block ss =>
    rw [stmt]
    exact (stmts_records ss).inFrame
  | .ifThen e s | .whileLoop e s =>
    rw [stmt]
    exact (expr_records e).bind (stmt_records s)
  | .ifElse e s t =>
    rw [stmt]
    refine ((expr_records e).bind ((stmt_records s).bind (stmt_records t))).imp ?_
    rw [← List.append_assoc]
    exact List.Subset.refl _
  | .funDecl f =>
    rw [stmt]
    exact .after (declareAndDefine_found f.name) (function_records .function f)
  | .returnStmt t none =>
    rw [stmt]
    exact .nothing [] (checkReturn_found t false)
  | .returnStmt t (some e) =>
    rw [stmt]
    exact .after (checkReturn_found t true) (expr_records e)
  | .classDecl t none fs =>
    rw [stmt]
    exact .after (declareAndDefine_found t)
      (.inClass (.inFrame (.after (define_found "this") (methods_records fs))) .base)
  | .classDecl t (some e) fs =>
    rw [stmt]
    refine .after (declareAndDefine_found t) (.after (checkSuperclass_found t e) (.inClass ?_ _))
    refine (expr_records e).bind (.inFrame (.after (define_found "super") (.inFrame ?_)))
    exact .after (define_found "this") (methods_records fs)

theorem stmts_records (ss : List Stmt) : Records (Stmt.idsList ss) (stmts ss) := by
  match ss with
  | [] => exact .done
  | s :: ss =>
    rw [stmts]
    exact (stmt_records s).bind (stmts_records ss)

theorem function_records (context : FunctionContext) (f : FunctionDecl) :
    Records f.ids (function context f) := by
  match f with
  | ⟨name, ps, body⟩ =>
    rw [function]
    exact .inFunction (.inFrame (.after (parameters_found ps) (stmts_records body))) context

theorem methods_records (fs : List FunctionDecl) :
    Records (FunctionDecl.idsList fs) (methods fs) := by
  match fs with
  | [] => exact .done
  | ⟨name, ps, body⟩ :: fs =>
    rw [methods]
    exact (function_records (methodContext name) ⟨name, ps, body⟩).bind (methods_records fs)

end

end Scoping

/-- The distances found for a program are those of its own expressions. -/
theorem resolve_found (program : List Stmt) :
    ∀ use ∈ (resolve program).found, use.1 ∈ Stmt.idsList program := by
  obtain ⟨uses, found, known⟩ := Scoping.stmts_records program ScopeState.initial
  have same : (resolve program).found = uses.reverse := by
    unfold resolve
    cases run : Scoping.stmts program ScopeState.initial with
    | ok _ s | error _ s =>
      rw [run] at found
      simp only [show s.found = uses ++ [] from found, List.append_nil]
  intro use member
  rw [same] at member
  exact known use (List.mem_reverse.1 member)

end Lox
