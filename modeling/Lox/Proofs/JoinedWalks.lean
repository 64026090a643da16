import Mathlib
import Lox.Proofs.ChunkStages
import Lox.Proofs.ScopeSafety
import Lox.Proofs.ScopeWalk
import Lox.Proofs.Stateful

/-!
The walk over two programs, one after the other. Between them no scope is open, and a walk does not
look at what was found before it, so it finds the distances of the one and then those of the other.
-/

namespace Lox

/-- The same state, where more has been found before. -/
def ScopeState.noting (s : ScopeState) (more : List (ExprId × Nat)) : ScopeState :=
  { s with found := s.found ++ more }

namespace Scoping

/-- The walk goes the same way whatever has been found before it. -/
def Blind (walk : Scoping Unit) : Prop :=
  ∀ s more, walk (s.noting more) =
    match walk s with
    | .ok a t => .ok a (t.noting more)
    | .error e t => .error e (t.noting more)

namespace Blind

variable {walk next : Scoping Unit}

theorem done : Blind (pure ()) := fun _ _ => rfl

theorem bind (first : Blind walk) (second : Blind next) : Blind (walk >>= fun _ => next) := by
  intro s more
  have begun := first s more
  cases run : walk s with
  | ok a t =>
    rw [run] at begun
    rw [bind_of_ok begun, bind_of_ok run]
    exact second t more
  | error e t =>
    rw [run] at begun
    rw [bind_of_error begun, bind_of_error run]

theorem within {enter : ScopeState → ScopeState} {leave : ScopeState → ScopeState → ScopeState}
    (blind : Blind walk) (entered : ∀ s more, enter (s.noting more) = (enter s).noting more)
    (left : ∀ s t more, leave (s.noting more) (t.noting more) = (leave s t).noting more) :
    Blind (within enter leave walk) := by
  intro s more
  have inside := blind (enter s) more
  simp only [Scoping.within, entered]
  cases run : walk (enter s) with
  | ok a t | error e t =>
    rw [run] at inside
    simp only [inside, left]

theorem inFrame (blind : Blind walk) : Blind (inFrame walk) :=
  blind.within (fun _ _ => rfl) fun _ _ _ => rfl

theorem inFunction (blind : Blind walk) (context : FunctionContext) :
    Blind (inFunction context walk) :=
  blind.within (fun _ _ => rfl) fun _ _ _ => rfl

theorem inClass (blind : Blind walk) (context : ClassContext) : Blind (inClass context walk) :=
  blind.within (fun _ _ => rfl) fun _ _ _ => rfl

theorem recordUse (id : ExprId) (name : String) : Blind (recordUse id name) := by
  intro s more
  have frames : (s.noting more).frames = s.frames := rfl
  simp only [Scoping.recordUse, frames]
  cases distance? s.frames name <;> rfl

end Blind

/-! ### Checks and declarations -/

theorem declare_blind (name : Token) : Blind (declare name) := by
  rintro ⟨frames, context, class_, found⟩ more
  cases frames with
  | nil => rfl
  | cons frame outer =>
    simp only [declare, ScopeState.noting]
    split <;> rfl

theorem define_blind (name : String) : Blind (define name) := by
  rintro ⟨frames, context, class_, found⟩ more
  cases frames <;> rfl

theorem declareAndDefine_blind (name : Token) : Blind (declareAndDefine name) :=
  (declare_blind name).bind (define_blind name.lexeme)

theorem checkDefined_blind (name : Token) : Blind (checkDefined name) := by
  rintro ⟨frames, context, class_, found⟩ more
  cases frames with
  | nil => rfl
  | cons frame outer =>
    simp only [checkDefined, ScopeState.noting]
    split <;> rfl

theorem checkThis_blind (keyword : Token) : Blind (checkThis keyword) := by
  rintro ⟨frames, context, class_, found⟩ more
  cases class_ <;> rfl

theorem checkSuper_blind (keyword : Token) : Blind (checkSuper keyword) := by
  rintro ⟨frames, context, class_, found⟩ more
  cases class_ <;> rfl

theorem checkReturn_blind (keyword : Token) (hasValue : Bool) :
    Blind (checkReturn keyword hasValue) := by
  rintro ⟨frames, context, class_, found⟩ more
  cases context <;> cases hasValue <;> rfl

theorem checkSuperclass_blind (name : Token) (superclass : Expr) :
    Blind (checkSuperclass name superclass) := by
  unfold checkSuperclass
  split
  · split
    · exact fun _ _ => rfl
    · exact .done
  · exact .done

theorem parameters_blind (ps : List Token) : Blind (parameters ps) := by
  induction ps with
  | nil => exact .done
  | cons p ps ih => exact (declareAndDefine_blind p).bind ih

/-! ### Trees -/

mutual

theorem expr_blind (e : Expr) : Blind (expr e) := by
  match e with
  | .literal _ _ =>
    rw [expr]
    exact .done
  | .grouping _ a | .unary _ _ a | .get _ a _ =>
    rw [expr]
    exact expr_blind a
  | .binary _ a _ b | .logical _ a _ b | .comma _ a b =>
    rw [expr]
    exact (expr_blind a).bind (expr_blind b)
  | .set _ a _ b =>
    rw [expr]
    exact (expr_blind b).bind (expr_blind a)
  | .assign id t a =>
    rw [expr]
    exact (expr_blind a).bind (.recordUse id t.lexeme)
  | .var id t =>
    rw [expr]
    exact (checkDefined_blind t).bind (.recordUse id t.lexeme)
  | .this id t =>
    rw [expr]
    exact (checkThis_blind t).bind (.recordUse id t.lexeme)
  | .super id t _ =>
    rw [expr]
    exact (checkSuper_blind t).bind (.recordUse id t.lexeme)
  | .call _ a _ as =>
    rw [expr]
    exact (expr_blind a).bind (exprs_blind as)
  | .ternary _ a b d =>
    rw [expr]
    exact (expr_blind a).bind ((expr_blind b).bind (expr_blind d))

theorem exprs_blind (es : List Expr) : Blind (exprs es) := by
  match es with
  | [] => exact .done
  | e :: es =>
    rw [exprs]
    exact (expr_blind e).bind (exprs_blind es)

end

mutual

theorem stmt_blind (s : Stmt) : Blind (stmt s) := by
  match s with
  | .expression e | .print e =>
    rw [stmt]
    exact expr_blind e
  | .varDecl t none =>
    rw [stmt]
    exact declareAndDefine_blind t
  | .varDecl t (some e) =>
    rw [stmt]
    exact (declare_blind t).bind ((expr_blind e).bind (define_blind t.lexeme))
  | .block ss =>
    rw [stmt]
    exact (stmts_blind ss).inFrame
  | .ifThen e s | .whileLoop e s =>
    rw [stmt]
    exact (expr_blind e).bind (stmt_blind s)
  | .ifElse e s t =>
    rw [stmt]
    exact (expr_blind e).bind ((stmt_blind s).bind (stmt_blind t))
  | .funDecl f =>
    rw [stmt]
    exact (declareAndDefine_blind f.name).bind (function_blind .function f)
  | .returnStmt t none =>
    rw [stmt]
    exact checkReturn_blind t false
  | .returnStmt t (some e) =>
    rw [stmt]
    exact (checkReturn_blind t true).bind (expr_blind e)
  | .classDecl t none fs =>
    rw [stmt]
    exact (declareAndDefine_blind t).bind
      (((define_blind "this").bind (methods_blind fs)).inFrame.inClass .base)
  | .classDecl t (some e) fs =>
    rw [stmt]
    have inner := ((define_blind "this").bind (methods_blind fs)).inFrame
    have outer := ((define_blind "super").bind inner).inFrame
    exact (declareAndDefine_blind t).bind
      ((checkSuperclass_blind t e).bind (((expr_blind e).bind outer).inClass .derived))

theorem stmts_blind (ss : List Stmt) : Blind (stmts ss) := by
  match ss with
  | [] => exact .done
  | s :: ss =>
    rw [stmts]
    exact (stmt_blind s).bind (stmts_blind ss)

theorem function_blind (context : FunctionContext) (f : FunctionDecl) :
    Blind (function context f) := by
  match f with
  | ⟨name, ps, body⟩ =>
    rw [function]
    exact (((parameters_blind ps).bind (stmts_blind body)).inFrame).inFunction context

theorem methods_blind (fs : List FunctionDecl) : Blind (methods fs) := by
  match fs with
  | [] => exact .done
  | ⟨name, ps, body⟩ :: fs =>
    rw [methods]
    exact (function_blind (methodContext name) ⟨name, ps, body⟩).bind (methods_blind fs)

end

theorem stmts_append (ss more : List Stmt) :
    stmts (ss ++ more) = (stmts ss >>= fun _ => stmts more) := by
  induction ss with
  | nil => rfl
  | cons s ss ih =>
    rw [List.cons_append, stmts, stmts, ih, bind_assoc]

end Scoping

theorem Place.after_outermost (ss : List Stmt) :
    ss.foldl Stmt.after Place.outermost = Place.outermost := by
  induction ss with
  | nil => rfl
  | cons s ss ih => rw [List.foldl_cons, Run.outermost_after, ih]

/-- If no rule is broken in either program, none is in the two, and the same is found. -/
theorem resolve_append {program more : List Stmt} (distinct : (Stmt.idsList program).Nodup)
    (fine : (resolve program).error = none) (fine' : (resolve more).error = none) :
    (resolve (program ++ more)).error = none ∧
      (resolve (program ++ more)).found = (resolve program).found ++ (resolve more).found := by
  unfold resolve at fine fine' ⊢
  cases walk : Scoping.stmts program ScopeState.initial with
  | error e t =>
    rw [walk] at fine
    cases fine
  | ok u t =>
    cases walk' : Scoping.stmts more ScopeState.initial with
    | error e t' =>
      rw [walk'] at fine'
      cases fine'
    | ok u' t' =>
      have settled : ScopeState.initial.place.Settled := fun _ member => nomatch member
      have place := (Scoping.stmts_ok program settled distinct walk).1
      have noted : t = ScopeState.initial.noting t.found := by
        have outside : t.place = Place.outermost := place.trans (Place.after_outermost program)
        obtain ⟨frames, context, class_, found⟩ := t
        cases outside
        rfl
      have both := Scoping.stmts_blind more ScopeState.initial t.found
      rw [walk', ← noted] at both
      rw [Scoping.stmts_append, bind_of_ok walk, both]
      exact ⟨rfl, List.reverse_append⟩

end Lox
