import Mathlib
import Lox.Proofs.ChunkStages
import Lox.Proofs.ScopeWalk
import Lox.Proofs.StaticRules

/-!
The walk over scopes refuses a program if and only if a statement in it breaks a static rule. At
each place it is told what a part of the program has to fulfil so that the walk gets past it.
-/

namespace Lox

namespace Place

def site (p : Place) : Site := ⟨!p.frames.isEmpty, p.function, p.class_⟩

/-- The innermost scope, if it is not the global one, can take these names one after the other. -/
def Admits (p : Place) (names : List String) : Prop :=
  ∀ frame ∈ p.frames.head?, names.Nodup ∧ ∀ name ∈ names, frame.contains name = false

def holdAll (p : Place) (names : List String) : Place :=
  names.foldl (fun p name => p.hold name true) p

variable {p : Place} {name : String} {names more : List String}

theorem site_hold (p : Place) (name : String) (b : Bool) : (p.hold name b).site = p.site := by
  obtain ⟨frames, context, class_⟩ := p
  cases frames <;> rfl

theorem site_holdAll (p : Place) (names : List String) : (p.holdAll names).site = p.site := by
  induction names generalizing p with
  | nil => rfl
  | cons name names ih => exact (ih (p.hold name true)).trans (site_hold p name true)

theorem holdAll_append : p.holdAll (names ++ more) = (p.holdAll names).holdAll more :=
  List.foldl_append

theorem holdAll_enter (p : Place) (frame : Frame) (names : List String) :
    ∃ last, (p.enter frame).holdAll names = p.enter last := by
  induction names generalizing frame with
  | nil => exact ⟨frame, rfl⟩
  | cons name names ih => exact ih (frame.insert name true)

theorem Settled.holdAll (settled : p.Settled) (names : List String) : (p.holdAll names).Settled := by
  induction names generalizing p with
  | nil => exact settled
  | cons name names ih => exact ih (settled.hold name)

theorem admits_nil (p : Place) : p.Admits [] :=
  fun _ _ => ⟨List.nodup_nil, fun _ member => nomatch member⟩

theorem admits_cons :
    p.Admits (name :: names) ↔ p.Vacant name ∧ (p.hold name true).Admits names := by
  obtain ⟨frames, context, class_⟩ := p
  cases frames with
  | nil => simp [Admits, Vacant, hold]
  | cons frame outer =>
    simp only [Admits, Vacant, hold, List.head?_cons, Option.mem_def, Option.some.injEq,
      forall_eq', List.nodup_cons, List.mem_cons, forall_eq_or_imp, Table.contains_insert,
      Bool.or_eq_false_iff, decide_eq_false_iff_not]
    grind

theorem admits_append :
    p.Admits (names ++ more) ↔ p.Admits names ∧ (p.holdAll names).Admits more := by
  induction names generalizing p with
  | nil => exact ⟨fun admits => ⟨admits_nil p, admits⟩, And.right⟩
  | cons name names ih =>
    rw [List.cons_append, admits_cons, admits_cons, ih, and_assoc]
    rfl

/-- A new scope can take names that differ. -/
theorem admits_enter : (p.enter Table.empty).Admits names ↔ names.Nodup := by
  simp [Admits, enter, Table.contains, Table.get?_empty]

/-- The innermost scope has the name defined, or does not hold it. -/
def Readable (p : Place) (name : String) : Prop :=
  ∀ frame ∈ p.frames.head?, frame.get? name ≠ some false

theorem Settled.readable (settled : p.Settled) (name : String) : p.Readable name :=
  fun frame innermost held =>
    nomatch settled frame (List.mem_of_mem_head? innermost) name false held

/-- While a variable is being initialized, the others can be read, and it can itself if it is
global. -/
theorem Settled.readable_hold (settled : p.Settled) (used : String) :
    (p.hold name false).Readable used ↔ (p.site.inScope = true → used ≠ name) := by
  have elsewhere := settled.readable used
  obtain ⟨frames, context, class_⟩ := p
  cases frames with
  | nil => simp [Readable, Place.hold, site]
  | cons frame outer =>
    simp only [Readable, Place.hold, site, List.head?_cons, Option.mem_def, Option.some.injEq,
      forall_eq'] at elsewhere ⊢
    rw [Table.get?_insert]
    by_cases same : name = used
    · simp [same]
    · simpa [same, Ne.symm same] using elsewhere

end Place

/-- From the place `p` the walk gets to `q` if `holds`, and it is refused if not. -/
def Decides (walk : Scoping Unit) (p q : Place) (holds : Prop) : Prop :=
  ∀ s : ScopeState, s.place = p →
    (holds ∧ ∃ t, walk s = .ok () t ∧ t.place = q) ∨ (¬ holds ∧ ∃ e t, walk s = .error e t)

namespace Decides

variable {first second body : Scoping Unit} {p q r : Place} {A B : Prop}

theorem congr (decides : Decides first p q A) (same : A ↔ B) : Decides first p q B :=
  propext same ▸ decides

theorem done : Decides (pure ()) p p True := fun s at_ => .inl ⟨trivial, s, rfl, at_⟩

theorem seq (decides : Decides first p q A) (rest : A → Decides second q r B) :
    Decides (first >>= fun _ => second) p r (A ∧ B) := by
  intro s at_
  rcases decides s at_ with ⟨holds, t, walk, at_'⟩ | ⟨fails, e, t, walk⟩
  · rw [bind_of_ok walk]
    rcases rest holds t at_' with ⟨holds', ends⟩ | ⟨fails, ends⟩
    · exact .inl ⟨⟨holds, holds'⟩, ends⟩
    · exact .inr ⟨fun both => fails both.2, ends⟩
  · rw [bind_of_error walk]
    exact .inr ⟨fun both => fails both.1, e, t, rfl⟩

theorem within {enter : ScopeState → ScopeState} {leave : ScopeState → ScopeState → ScopeState}
    {inner last : Place} (decides : Decides body inner last A)
    (entered : ∀ s : ScopeState, s.place = p → (enter s).place = inner)
    (left : ∀ s t : ScopeState, s.place = p → t.place = last → (leave s t).place = q) :
    Decides (Scoping.within enter leave body) p q A := by
  intro s at_
  rcases decides (enter s) (entered s at_) with ⟨holds, t, walk, at_'⟩ | ⟨fails, e, t, walk⟩
  · exact .inl ⟨holds, leave s t, by simp only [Scoping.within, walk], left s t at_ at_'⟩
  · exact .inr ⟨fails, e, leave s t, by simp only [Scoping.within, walk]⟩

theorem inFrame {last : Frame} (decides : Decides body (p.enter Table.empty) (p.enter last) A) :
    Decides (Scoping.inFrame body) p p A := by
  refine decides.within (fun s at_ => ?_) fun s t _ at_ => ?_
  · subst at_
    rfl
  · obtain ⟨outer, context, class_⟩ := p
    simp only [ScopeState.place, Place.enter, Place.mk.injEq] at at_ ⊢
    obtain ⟨frames, rfl, rfl⟩ := at_
    simp [frames]

theorem inFunction {context : FunctionContext}
    (decides : Decides body (p.inFunction context) (p.inFunction context) A) :
    Decides (Scoping.inFunction context body) p p A := by
  refine decides.within (fun s at_ => ?_) fun s t at_ at_' => ?_
  · subst at_
    rfl
  · subst at_
    simp only [ScopeState.place, Place.inFunction, Place.mk.injEq] at at_' ⊢
    exact ⟨at_'.1, trivial, at_'.2.2⟩

theorem inClass {context : ClassContext}
    (decides : Decides body (p.inClass context) (p.inClass context) A) :
    Decides (Scoping.inClass context body) p p A := by
  refine decides.within (fun s at_ => ?_) fun s t at_ at_' => ?_
  · subst at_
    rfl
  · subst at_
    simp only [ScopeState.place, Place.inClass, Place.mk.injEq] at at_' ⊢
    exact ⟨at_'.1, at_'.2.1, trivial⟩

end Decides

/-- A use of a name, of `this` or of `super` is allowed at the place. -/
def Expr.Allowed (p : Place) : Expr → Prop
  | .var _ name => p.Readable name.lexeme
  | .this _ _ => p.class_ ≠ .outside
  | .super _ _ _ => p.class_ = .derived
  | _ => True

namespace Scoping

variable {p : Place}

theorem define_decides (p : Place) (name : String) :
    Decides (define name) p (p.hold name true) True := by
  intro s at_
  subst at_
  refine .inl ⟨trivial, ?_⟩
  cases frames : s.frames <;> simp [define, frames, ScopeState.place, Place.hold]

theorem declare_decides (p : Place) (name : Token) :
    Decides (declare name) p (p.hold name.lexeme false) (p.Vacant name.lexeme) := by
  intro s at_
  subst at_
  cases frames : s.frames with
  | nil => simp [declare, frames, ScopeState.place, Place.hold, Place.Vacant]
  | cons frame outer =>
    cases held : frame.contains name.lexeme <;>
      simp [declare, frames, held, ScopeState.place, Place.hold, Place.Vacant]

theorem declareAndDefine_decides (p : Place) (name : Token) :
    Decides (declareAndDefine name) p (p.hold name.lexeme true) (p.Vacant name.lexeme) := by
  have both := (declare_decides p name).seq fun _ => define_decides _ name.lexeme
  rw [Place.hold_hold] at both
  exact both.congr (and_iff_left trivial)

theorem recordUse_decides (p : Place) (id : ExprId) (name : String) :
    Decides (recordUse id name) p p True := by
  intro s at_
  refine .inl ⟨trivial, ?_⟩
  unfold recordUse
  split
  · exact ⟨_, rfl, at_⟩
  · exact ⟨_, rfl, at_⟩

theorem checkDefined_decides (p : Place) (name : Token) :
    Decides (checkDefined name) p p (p.Readable name.lexeme) := by
  intro s at_
  subst at_
  cases frames : s.frames with
  | nil => simp [checkDefined, frames, ScopeState.place, Place.Readable]
  | cons frame outer =>
    by_cases held : frame.get? name.lexeme = some false <;>
      simp [checkDefined, frames, held, ScopeState.place, Place.Readable]

theorem get_bind (f : ScopeState → Scoping Unit) (s : ScopeState) : (get >>= f) s = f s s := rfl

theorem checkThis_decides (p : Place) (keyword : Token) :
    Decides (checkThis keyword) p p (p.class_ ≠ .outside) := by
  intro s at_
  subst at_
  by_cases outside : s.class_ = .outside
  · refine .inr ⟨fun inside => inside outside, ⟨keyword, .thisOutsideClass⟩, s, ?_⟩
    rw [checkThis, get_bind, if_pos outside]
    rfl
  · refine .inl ⟨outside, s, ?_, rfl⟩
    rw [checkThis, get_bind, if_neg outside]
    rfl

theorem checkSuper_decides (p : Place) (keyword : Token) :
    Decides (checkSuper keyword) p p (p.class_ = .derived) := by
  intro s at_
  subst at_
  rw [checkSuper, get_bind]
  cases context : s.class_ with
  | outside => exact .inr ⟨by simp [ScopeState.place, context], _, _, rfl⟩
  | base => exact .inr ⟨by simp [ScopeState.place, context], _, _, rfl⟩
  | derived => exact .inl ⟨context, s, rfl, rfl⟩

theorem checkReturn_decides (p : Place) (keyword : Token) (hasValue : Bool) :
    Decides (checkReturn keyword hasValue) p p
      (p.function ≠ .outside ∧ (hasValue = true → p.function ≠ .initializer)) := by
  intro s at_
  subst at_
  rw [checkReturn, get_bind]
  cases context : s.function with
  | outside => exact .inr ⟨fun both => both.1 context, _, _, rfl⟩
  | initializer =>
    cases hasValue with
    | true => exact .inr ⟨fun both => both.2 rfl context, _, _, rfl⟩
    | false => exact .inl ⟨by simp [ScopeState.place, context], s, rfl, rfl⟩
  | function => exact .inl ⟨by simp [ScopeState.place, context], s, rfl, rfl⟩
  | method => exact .inl ⟨by simp [ScopeState.place, context], s, rfl, rfl⟩

theorem checkSuperclass_decides (p : Place) (name : Token) (id : ExprId) (used : Token) :
    Decides (checkSuperclass name (.var id used)) p p (used.lexeme ≠ name.lexeme) := by
  intro s at_
  by_cases same : used.lexeme = name.lexeme
  · refine .inr ⟨fun differ => differ same, ⟨used, .ownSuperclass⟩, s, ?_⟩
    rw [checkSuperclass, if_pos same]
    rfl
  · refine .inl ⟨same, s, ?_, at_⟩
    rw [checkSuperclass, if_neg same]
    rfl

mutual

/-- An expression is walked over if all the uses of names in it are allowed. -/
theorem expr_decides (p : Place) (e : Expr) :
    Decides (expr e) p p (∀ part ∈ e.parts, part.Allowed p) := by
  match e with
  | .literal id v =>
    simp only [expr]
    exact Decides.done.congr (by simp [Expr.parts, Expr.Allowed])
  | .grouping id inner | .unary id _ inner | .get id inner _ =>
    simp only [expr]
    exact (expr_decides p inner).congr (by simp [Expr.parts, Expr.Allowed])
  | .binary id left _ right | .logical id left _ right | .comma id left right =>
    simp only [expr]
    refine ((expr_decides p left).seq fun _ => expr_decides p right).congr ?_
    simp [Expr.parts, Expr.Allowed, or_imp, forall_and]
  | .assign id name value =>
    simp only [expr]
    refine ((expr_decides p value).seq fun _ => recordUse_decides p id name.lexeme).congr ?_
    simp [Expr.parts, Expr.Allowed]
  | .var id name =>
    simp only [expr]
    refine ((checkDefined_decides p name).seq fun _ => recordUse_decides p id name.lexeme).congr ?_
    simp [Expr.parts, Expr.Allowed]
  | .call id callee _ arguments =>
    simp only [expr]
    refine ((expr_decides p callee).seq fun _ => exprs_decides p arguments).congr ?_
    simp [Expr.parts, Expr.Allowed, or_imp, forall_and]
  | .set id object _ value =>
    simp only [expr]
    refine ((expr_decides p value).seq fun _ => expr_decides p object).congr ?_
    simp [Expr.parts, Expr.Allowed, or_imp, forall_and, and_comm]
  | .this id keyword =>
    simp only [expr]
    refine ((checkThis_decides p keyword).seq fun _ => recordUse_decides p id _).congr ?_
    simp [Expr.parts, Expr.Allowed]
  | .super id keyword _ =>
    simp only [expr]
    refine ((checkSuper_decides p keyword).seq fun _ => recordUse_decides p id _).congr ?_
    simp [Expr.parts, Expr.Allowed]
  | .ternary id condition yes no =>
    simp only [expr]
    refine ((expr_decides p condition).seq fun _ =>
      (expr_decides p yes).seq fun _ => expr_decides p no).congr ?_
    simp [Expr.parts, Expr.Allowed, or_imp, forall_and]

theorem exprs_decides (p : Place) (es : List Expr) :
    Decides (exprs es) p p (∀ part ∈ Expr.partsList es, part.Allowed p) := by
  match es with
  | [] =>
    simp only [exprs]
    exact Decides.done.congr (by simp [Expr.partsList])
  | e :: es =>
    simp only [exprs]
    refine ((expr_decides p e).seq fun _ => exprs_decides p es).congr ?_
    simp [Expr.partsList, or_imp, forall_and]

end

end Scoping

/-- Where names can be read, the uses of `this` and `super` are what decides. -/
theorem Expr.allowed_iff {p : Place} {e : Expr} :
    (∀ part ∈ e.parts, part.Allowed p) ↔
      (∀ id used, .var id used ∈ e.parts → p.Readable used.lexeme) ∧ e.Lawful p.class_ := by
  constructor
  · intro allowed
    exact ⟨fun id used among => allowed _ among, fun id keyword among => allowed _ among,
      fun id keyword method among => allowed _ among⟩
  · rintro ⟨read, uses⟩ part among
    match part with
    | .var id used => exact read id used among
    | .this id keyword => exact uses.1 id keyword among
    | .super id keyword method => exact uses.2 id keyword method among
    | .literal _ _ | .grouping _ _ | .unary _ _ _ | .binary _ _ _ _ | .logical _ _ _ _
    | .assign _ _ _ | .call _ _ _ _ | .get _ _ _ | .set _ _ _ _ | .comma _ _ _
    | .ternary _ _ _ _ => exact trivial

namespace Scoping

variable {p : Place}

theorem expr_decides_lawful (settled : p.Settled) (e : Expr) :
    Decides (expr e) p p (e.Lawful p.site.class_) :=
  (expr_decides p e).congr (Expr.allowed_iff.trans
    (and_iff_right fun _ used _ => settled.readable used.lexeme))

/-- An initializer is walked over while its variable is not defined. -/
theorem initializer_decides (settled : p.Settled) (name : String) (e : Expr) :
    Decides (expr e) (p.hold name false) (p.hold name false)
      ((p.site.inScope = true → e.Unread name) ∧ e.Lawful p.site.class_) := by
  refine (expr_decides _ e).congr (Expr.allowed_iff.trans ?_)
  rw [show (p.hold name false).class_ = p.site.class_ from congrArg Site.class_ (p.site_hold name false)]
  refine and_congr_left' ?_
  simp only [settled.readable_hold, Expr.Unread]
  grind

theorem parameters_decides (p : Place) (ps : List Token) :
    Decides (parameters ps) p (p.holdAll (ps.map (·.lexeme))) (p.Admits (ps.map (·.lexeme))) := by
  induction ps generalizing p with
  | nil => exact Decides.done.congr (iff_of_true trivial p.admits_nil)
  | cons name ps ih =>
    exact ((declareAndDefine_decides p name).seq fun _ => ih _).congr Place.admits_cons.symm

end Scoping

/-- Branches and bodies declare nothing in the scope that they stand in. -/
theorem Stmt.declared_branch {s : Stmt} (branch : s.isBranch = true) : s.declared = [] := by
  cases s <;> first | rfl | cases branch

theorem Expr.lawful_var (context : ClassContext) (id : ExprId) (used : Token) :
    (Expr.var id used).Lawful context :=
  ⟨fun _ _ among => by simp [Expr.parts] at among, fun _ _ _ among => by simp [Expr.parts] at among⟩

theorem Place.admits_one (p : Place) (name : String) : p.Admits [name] ↔ p.Vacant name :=
  Place.admits_cons.trans (and_iff_left (Place.admits_nil _))

theorem Place.Settled.enter_empty {p : Place} (settled : p.Settled) :
    (p.enter Table.empty).Settled := by
  refine settled.enter fun name b found => ?_
  cases found

namespace Scoping

mutual

/-- A statement is walked over if its scope can take the name that it declares, and it is lawful. -/
theorem stmt_decides {p : Place} (settled : p.Settled) (s : Stmt) (formed : s.Formed fun _ => True) :
    Decides (stmt s) p (p.holdAll s.declared) (p.Admits s.declared ∧ s.Lawful p.site) := by
  match s with
  | .expression e | .print e =>
    simp only [stmt]
    exact (expr_decides_lawful settled e).congr (and_iff_right p.admits_nil).symm
  | .varDecl name none =>
    simp only [stmt]
    exact (declareAndDefine_decides p name).congr
      ((p.admits_one name.lexeme).symm.trans (and_iff_left trivial).symm)
  | .varDecl name (some e) =>
    simp only [stmt]
    have walk := (declare_decides p name).seq fun _ =>
      (initializer_decides settled name.lexeme e).seq fun _ => define_decides _ name.lexeme
    rw [Place.hold_hold] at walk
    exact walk.congr (and_congr (p.admits_one name.lexeme).symm (and_iff_left trivial))
  | .block body =>
    simp only [stmt]
    obtain ⟨last, ends⟩ := p.holdAll_enter Table.empty (body.flatMap Stmt.declared)
    have inside := stmts_decides settled.enter_empty body formed
    rw [ends] at inside
    exact inside.inFrame.congr ((and_congr_left' Place.admits_enter).trans
      (and_iff_right p.admits_nil).symm)
  | .ifThen condition yes =>
    simp only [stmt]
    obtain ⟨-, formedYes, branch⟩ := formed
    have walk := (expr_decides_lawful settled condition).seq fun _ => stmt_decides settled yes formedYes
    rw [Stmt.declared_branch branch] at walk
    exact walk.congr (and_left_comm.trans (and_congr_right' Iff.rfl))
  | .ifElse condition yes no =>
    simp only [stmt]
    obtain ⟨-, ⟨formedYes, branchYes⟩, formedNo, branchNo⟩ := formed
    have walkYes := stmt_decides settled yes formedYes
    have walkNo := stmt_decides settled no formedNo
    rw [Stmt.declared_branch branchYes] at walkYes
    rw [Stmt.declared_branch branchNo] at walkNo
    refine ((expr_decides_lawful settled condition).seq fun _ => walkYes.seq fun _ => walkNo).congr ?_
    simp [Stmt.Lawful, Stmt.declared, p.admits_nil]
  | .whileLoop condition body =>
    simp only [stmt]
    obtain ⟨-, formedBody, branch⟩ := formed
    have walk := (expr_decides_lawful settled condition).seq fun _ => stmt_decides settled body formedBody
    rw [Stmt.declared_branch branch] at walk
    exact walk.congr (and_left_comm.trans (and_congr_right' Iff.rfl))
  | .funDecl f =>
    simp only [stmt]
    have walk := (declareAndDefine_decides p f.name).seq fun _ =>
      function_decides .function (settled.hold f.name.lexeme) f formed
    rw [p.site_hold] at walk
    exact walk.congr (and_congr_left' (p.admits_one f.name.lexeme).symm)
  | .returnStmt keyword none =>
    simp only [stmt]
    refine (checkReturn_decides p keyword false).congr ?_
    simp [Stmt.declared, p.admits_nil, Stmt.Lawful, Place.site]
  | .returnStmt keyword (some e) =>
    simp only [stmt]
    refine ((checkReturn_decides p keyword true).seq fun _ => expr_decides_lawful settled e).congr ?_
    simp [Stmt.declared, p.admits_nil, Stmt.Lawful, Place.site]
  | .classDecl name none declared =>
    simp only [stmt]
    have named := settled.hold name.lexeme
    have inside := (define_decides (((p.hold name.lexeme true).inClass .base).enter Table.empty) "this").seq
      fun _ => methods_decides (Place.Settled.enter (p := (p.hold name.lexeme true).inClass .base)
        named settled_thisFrame) declared formed.2
    have walk := (declareAndDefine_decides p name).seq fun _ => inside.inFrame.inClass
    refine walk.congr (and_congr (p.admits_one name.lexeme).symm ((and_iff_right trivial).trans ?_))
    rw [← p.site_hold name.lexeme true]
    rfl
  | .classDecl name (some superclass) declared =>
    obtain ⟨id, used, rfl, -⟩ := formed.superclass
    simp only [stmt]
    have named := settled.hold name.lexeme
    let derived := (p.hold name.lexeme true).inClass .derived
    have inSuper := Place.Settled.enter (p := derived) named settled_superFrame
    have inside := (define_decides ((derived.enter superFrame).enter Table.empty) "this").seq fun _ =>
      methods_decides (inSuper.enter settled_thisFrame) declared formed.2.2
    have around := (define_decides (derived.enter Table.empty) "super").seq fun _ => inside.inFrame
    have body := (expr_decides_lawful (p := derived) named (.var id used)).seq fun _ => around.inFrame
    have walk := (declareAndDefine_decides p name).seq fun _ =>
      (checkSuperclass_decides _ name id used).seq fun _ => body.inClass
    refine walk.congr (and_congr (p.admits_one name.lexeme).symm ?_)
    rw [Stmt.Lawful, ← p.site_hold name.lexeme true]
    have differs : used.lexeme ≠ name.lexeme ↔
        ∀ id' used', Expr.var id used = .var id' used' → used'.lexeme ≠ name.lexeme := by
      refine ⟨fun differ id' used' same => ?_, fun differ => differ id used rfl⟩
      cases same
      exact differ
    exact and_congr differs (and_congr
      (iff_of_true (Expr.lawful_var _ id used) (Expr.lawful_var _ id used))
      ((and_iff_right trivial).trans (and_iff_right trivial)))

theorem stmts_decides {p : Place} (settled : p.Settled) (ss : List Stmt)
    (formed : Stmt.FormedList (fun _ => True) ss) :
    Decides (stmts ss) p (p.holdAll (ss.flatMap Stmt.declared))
      (p.Admits (ss.flatMap Stmt.declared) ∧ Stmt.LawfulList p.site ss) := by
  match ss with
  | [] =>
    simp only [stmts]
    exact Decides.done.congr (iff_of_true trivial ⟨p.admits_nil, trivial⟩)
  | s :: ss =>
    simp only [stmts]
    have walk := (stmt_decides settled s formed.1).seq fun _ =>
      stmts_decides (settled.holdAll s.declared) ss formed.2
    rw [p.site_holdAll, ← Place.holdAll_append] at walk
    refine walk.congr ?_
    rw [List.flatMap_cons, Place.admits_append, Stmt.LawfulList]
    exact and_and_and_comm

theorem function_decides {p : Place} (context : FunctionContext) (settled : p.Settled)
    (f : FunctionDecl) (formed : f.Formed fun _ => True) :
    Decides (function context f) p p (f.Lawful (p.site.inFunction context)) := by
  match f with
  | ⟨name, ps, body⟩ =>
    simp only [function]
    have empty : ((p.inFunction context).enter Table.empty).Settled :=
      Place.Settled.enter_empty (p := p.inFunction context) settled
    have inside := (parameters_decides _ ps).seq fun _ =>
      stmts_decides (empty.holdAll (ps.map (·.lexeme))) body formed.2.2
    obtain ⟨last, ends⟩ := (p.inFunction context).holdAll_enter Table.empty
      (ps.map (·.lexeme) ++ body.flatMap Stmt.declared)
    rw [← Place.holdAll_append, ends, Place.site_holdAll] at inside
    refine inside.inFrame.inFunction.congr ?_
    rw [← and_assoc, ← Place.admits_append, Place.admits_enter]
    rw [FunctionDecl.lawful_iff]
    rfl

theorem methods_decides {p : Place} (settled : p.Settled) (fs : List FunctionDecl)
    (formed : FunctionDecl.FormedList (fun _ => True) fs) :
    Decides (methods fs) p p (FunctionDecl.LawfulList p.site fs) := by
  match fs with
  | [] =>
    simp only [methods]
    exact Decides.done
  | ⟨name, ps, body⟩ :: fs =>
    simp only [methods]
    exact (function_decides (methodContext name) settled ⟨name, ps, body⟩ formed.1).seq fun _ =>
      methods_decides settled fs formed.2

end

end Scoping

theorem resolve_refuses_iff {program : List Stmt} (formed : Stmt.FormedList (fun _ => True) program) :
    (∃ e, (resolve program).error = some e) ↔ ¬ Stmt.LawfulList Site.top program := by
  have settled : Place.outermost.Settled := fun _ member => nomatch member
  unfold resolve
  rcases Scoping.stmts_decides settled program formed ScopeState.initial rfl with
    ⟨⟨-, lawful⟩, t, walk, -⟩ | ⟨fails, e, t, walk⟩
  · rw [walk]
    exact iff_of_false (fun ⟨_, refused⟩ => nomatch refused) (not_not_intro lawful)
  · rw [walk]
    refine iff_of_true ⟨e, rfl⟩ fun lawful => fails ⟨?_, lawful⟩
    exact fun _ innermost => nomatch innermost

namespace Grammar

theorem declarations_reads {P : Token → Prop} (bound : Nat) :
    Reads P (declarations bound) (Listed (Stmt.Read P)) := by
  induction bound with
  | zero => exact Reads.pure fun n => rfl
  | succ bound ih =>
    refine Reads.peek.step fun t _ => ?_
    split
    · exact Reads.pure fun n => rfl
    · refine (statements_read (bound + 1)).1.bind fun s => ih.bind fun rest => Reads.pure ?_
      intro n mid _ tail lo _ first
      exact ⟨mid, first, tail⟩

/-- The statements that reading gives: those of a program without errors, or those between the
errors. -/
def Produces (program : List Stmt) : Prop :=
  ∃ tokens firstId, (readProgram tokens firstId).value = .ok program ∨
    Session.statements (recoverProgram tokens firstId).value = program

namespace Produces

variable {program : List Stmt}

/-- The trees are well formed, and the ids of their expressions were given out one by one. -/
theorem read (produced : Produces program) :
    Stmt.FormedList (fun _ => True) program ∧ ∃ lo hi, Handed lo hi (Stmt.idsList program) := by
  obtain ⟨tokens, firstId, read | recovered⟩ := produced
  · have reads := declarations_reads (P := fun _ => True) tokens.length ⟨tokens, firstId⟩
      fun _ _ => trivial
    unfold readProgram readingOf at read
    cases reading : declarations tokens.length ⟨tokens, firstId⟩ with
    | error e c =>
      rw [reading] at read
      cases read
    | ok statements c =>
      rw [reading] at reads read
      cases read
      obtain ⟨formed, handed, -⟩ := Stmt.listed_read reads.2.2
      exact ⟨formed, _, _, handed⟩
  · subst recovered
    obtain ⟨formed, handed, -⟩ := Session.statements_read
      (recoverFrom_reads (P := fun _ => True) tokens.length ⟨tokens, firstId⟩ fun _ _ => trivial)
    exact ⟨formed, _, _, handed⟩

theorem formed (produced : Produces program) : Stmt.FormedList (fun _ => True) program :=
  produced.read.1

/-- A program is refused if and only if a statement in it breaks a rule. -/
theorem refused_iff (produced : Produces program) :
    (∃ e, (resolve program).error = some e) ↔
      ∃ around s, Occurs program around s ∧ Violates around s := by
  rw [resolve_refuses_iff produced.formed, Stmt.lawful_iff_no_violation, not_not]

end Produces

/-- After a class inside of it an initializer is one still. -/
def initializerAfterClass : String :=
  "class A {} class B < A { init() { class C { m() { return 1; } } return 2; } }"

theorem refused_initializerAfterClass :
    let program := Session.statements
      (recoverProgram (Scan.tokens (Scan.items initializerAfterClass)) 0).value
    Produces program ∧ (∃ e, (resolve program).error = some e) ∧
      ∃ around s, Occurs program around s ∧ Violates around s := by
  intro program
  have produced : Produces program := ⟨_, 0, .inr rfl⟩
  have refused : ∃ e, (resolve program).error = some e :=
    Option.isSome_iff_exists.1 (by decide +kernel)
  exact ⟨produced, refused, produced.refused_iff.1 refused⟩

end Grammar

/-- A text that is accepted breaks no rule of scope. -/
theorem Session.Accepts.lawful {s : Session} {source : String} (accepts : s.Accepts source) :
    Stmt.LawfulList Site.top (s.program source) := by
  have produced : Grammar.Produces (s.program source) :=
    ⟨Scan.tokens (Scan.items source), s.nextId, .inr rfl⟩
  by_contra broken
  obtain ⟨e, refused⟩ := (resolve_refuses_iff produced.formed).2 broken
  cases refused.symm.trans accepts.resolved

end Lox
