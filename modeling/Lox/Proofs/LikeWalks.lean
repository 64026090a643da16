import Mathlib
import Lox.Proofs.LikeFrames
import Lox.Proofs.Stateful

/-!
The walk over scopes goes the same way over trees that are alike. It accepts both or neither, and
it finds the same distances in both.
-/

namespace Lox

open Scoping (distance?)

/-- The same violation at tokens that are alike. -/
structure ScopeError.Like (c : Translation) (e e' : ScopeError) : Prop where
  cause : e'.cause = e.cause
  kind : e'.token.kind = e.token.kind
  lexeme : ∃ ρ, c.renames ρ ∧ e'.token.lexeme = ρ.perm e.token.lexeme
  line : (∃ id, e'.token.line = c.line id e.token.line) ∨ c.plain e.token.line e'.token.line

/-- The state at the same point of the walk over the other tree. -/
def ScopeState.alike (c : Translation) (scopes : List Renaming) (s : ScopeState) : ScopeState :=
  { s with
    frames := renamedFrames scopes s.frames
    found := s.found.map fun use => (c.ids use.1, use.2) }

namespace Scoping

/-- Two walks that begin at the place `p` go the same way. They end at `q` if they end well. -/
def Mirrors (c : Translation) (scopes : List Renaming) (p q : Place)
    (walk walk' : Scoping Unit) : Prop :=
  ∀ s : ScopeState, s.place = p →
    (∃ t, walk s = .ok () t ∧ t.place = q ∧
      walk' (s.alike c scopes) = .ok () (t.alike c scopes)) ∨
    ∃ e e' t, walk s = .error e t ∧ walk' (s.alike c scopes) = .error e' (t.alike c scopes) ∧
      e.Like c e'

variable {c : Translation} {N : String → Prop} {scopes : List Renaming} {p q r : Place}
  {walk walk' next next' : Scoping Unit}

namespace Mirrors

theorem done : Mirrors c scopes p p (pure ()) (pure ()) :=
  fun s at_ => .inl ⟨s, rfl, at_, rfl⟩

theorem bind (first : Mirrors c scopes p q walk walk') (second : Mirrors c scopes q r next next') :
    Mirrors c scopes p r (walk >>= fun _ => next) (walk' >>= fun _ => next') := by
  intro s at_
  rcases first s at_ with ⟨t, run, there, run'⟩ | ⟨e, e', t, run, run', like⟩
  · rcases second t there with ⟨u, then_, ends, then'⟩ | ⟨e, e', u, then_, then', like⟩
    · exact .inl ⟨u, (bind_of_ok run).trans then_, ends, (bind_of_ok run').trans then'⟩
    · exact .inr ⟨e, e', u, (bind_of_ok run).trans then_, (bind_of_ok run').trans then', like⟩
  · exact .inr ⟨e, e', t, bind_of_error run, bind_of_error run', like⟩

/-- The change that is undone after a walk may be another one for the other walk. -/
theorem within {scopes' : List Renaming} {enter enter' : ScopeState → ScopeState}
    {leave leave' : ScopeState → ScopeState → ScopeState}
    (inside : Mirrors c scopes' q r walk walk')
    (enters : ∀ s, s.place = p → (enter s).place = q)
    (enters' : ∀ s, enter' (s.alike c scopes) = (enter s).alike c scopes')
    (leaves : ∀ s t, s.place = p → t.place = r → (leave s t).place = p)
    (leaves' : ∀ s t, leave' (s.alike c scopes) (t.alike c scopes') = (leave s t).alike c scopes) :
    Mirrors c scopes p p (within enter leave walk) (Scoping.within enter' leave' walk') := by
  intro s at_
  rcases inside (enter s) (enters s at_) with ⟨t, run, there, run'⟩ | ⟨e, e', t, run, run', like⟩
  · refine .inl ⟨leave s t, ?_, leaves s t at_ there, ?_⟩
    · simp only [Scoping.within, run]
    · simp only [Scoping.within, enters', run', leaves']
  · refine .inr ⟨e, e', leave s t, ?_, ?_, like⟩
    · simp only [Scoping.within, run]
    · simp only [Scoping.within, enters', run', leaves']

theorem inFrame {π : Renaming} {frame : Frame}
    (inside : Mirrors c (π :: scopes) (p.enter Table.empty) (p.enter frame) walk walk') :
    Mirrors c scopes p p (inFrame walk) (Scoping.inFrame walk') := by
  refine inside.within ?_ (fun s => rfl) ?_ ?_
  · rintro s rfl
    rfl
  · rintro s t rfl there
    simp only [ScopeState.place, Place.enter, Place.mk.injEq] at there ⊢
    obtain ⟨frames, same, same'⟩ := there
    exact ⟨by rw [frames, List.tail_cons], same, same'⟩
  · intro s t
    obtain ⟨frames, context, class_, found⟩ := t
    cases frames with
    | nil => cases scopes <;> rfl
    | cons frame outer => rfl

theorem inFunction {context : FunctionContext}
    (inside : Mirrors c scopes (p.inFunction context) (p.inFunction context) walk walk') :
    Mirrors c scopes p p (inFunction context walk) (Scoping.inFunction context walk') := by
  refine inside.within ?_ (fun s => rfl) ?_ (fun s t => rfl)
  · rintro s rfl
    rfl
  · rintro s t rfl there
    simp only [ScopeState.place, Place.inFunction, Place.mk.injEq] at there ⊢
    exact ⟨there.1, trivial, there.2.2⟩

theorem inClass {context : ClassContext}
    (inside : Mirrors c scopes (p.inClass context) (p.inClass context) walk walk') :
    Mirrors c scopes p p (inClass context walk) (Scoping.inClass context walk') := by
  refine inside.within ?_ (fun s => rfl) ?_ (fun s t => rfl)
  · rintro s rfl
    rfl
  · rintro s t rfl there
    simp only [ScopeState.place, Place.inClass, Place.mk.injEq] at there ⊢
    exact ⟨there.1, there.2.1, trivial⟩

/-- A check changes nothing. -/
theorem check {check check' : Scoping Unit}
    (quiet : ∀ s, s.place = p → (check s = .ok () s ∧
        check' (s.alike c scopes) = .ok () (s.alike c scopes)) ∨
      ∃ e e', check s = .error e s ∧ check' (s.alike c scopes) = .error e' (s.alike c scopes) ∧
        e.Like c e') : Mirrors c scopes p p check check' := by
  intro s at_
  rcases quiet s at_ with ⟨run, run'⟩ | ⟨e, e', run, run', like⟩
  · exact .inl ⟨s, run, at_, run'⟩
  · exact .inr ⟨e, e', s, run, run', like⟩

end Mirrors

/-! ### Declarations -/

theorem declare_mirrors (covered : Covered c N scopes p.frames) {t t' : Token}
    (like : t.LikeDeclaration c scopes t') :
    Mirrors c scopes p (p.hold t.lexeme false) (declare t) (declare t') := by
  rintro s rfl
  obtain ⟨frames, context, class_, found⟩ := s
  cases frames with
  | nil => exact .inl ⟨_, rfl, rfl, by cases scopes <;> rfl⟩
  | cons frame outer =>
    cases scopes with
    | nil => exact absurd covered.length (by simp [ScopeState.place])
    | cons π scopes =>
      have lexeme : t'.lexeme = π.perm t.lexeme := like.lexeme
      have held : (frame.renamed π).contains t'.lexeme = frame.contains t.lexeme := by
        rw [lexeme, Frame.contains_renamed, Equiv.symm_apply_apply]
      cases already : frame.contains t.lexeme with
      | true =>
        refine .inr ⟨⟨t, .redeclared⟩, ⟨t', .redeclared⟩,
          ⟨frame :: outer, context, class_, found⟩, if_pos already, if_pos (held.trans already), ?_⟩
        exact ⟨rfl, like.kind, ⟨π, covered.allowed π List.mem_cons_self, lexeme⟩, .inr like.line⟩
      | false =>
        refine .inl ⟨⟨frame.insert t.lexeme false :: outer, context, class_, found⟩,
          if_neg (by simp [already]), rfl, ?_⟩
        refine (if_neg (by rw [held, already]; decide)).trans ?_
        rw [lexeme, ← Frame.renamed_insert]
        rfl

theorem define_mirrors (covered : Covered c N scopes p.frames) {name name' : String}
    (like : name' = Renaming.declare scopes name) :
    Mirrors c scopes p (p.hold name true) (define name) (define name') := by
  rintro s rfl
  obtain ⟨frames, context, class_, found⟩ := s
  cases frames with
  | nil => exact .inl ⟨_, rfl, rfl, by cases scopes <;> rfl⟩
  | cons frame outer =>
    cases scopes with
    | nil => exact absurd covered.length (by simp [ScopeState.place])
    | cons π scopes =>
      refine .inl ⟨_, rfl, rfl, ?_⟩
      have lexeme : name' = π.perm name := like
      subst lexeme
      simp only [define, ScopeState.alike, renamedFrames, List.zipWith_cons_cons,
        Frame.renamed_insert]

theorem declareAndDefine_mirrors (covered : Covered c N scopes p.frames) {t t' : Token}
    (known : N t.lexeme) (like : t.LikeDeclaration c scopes t') :
    Mirrors c scopes p (p.hold t.lexeme true) (declareAndDefine t) (declareAndDefine t') := by
  have both := (declare_mirrors covered like).bind
    (define_mirrors (covered.hold known false) like.lexeme)
  rwa [Place.hold_hold] at both

theorem parameters_mirrors {ts ts' : List Token} {frame : Frame}
    (covered : Covered c N scopes (p.enter frame).frames) (known : ∀ t ∈ ts, N t.lexeme)
    (like : List.Forall₂ (Token.LikeDeclaration c scopes) ts ts') :
    Mirrors c scopes (p.enter frame)
      (p.enter (frame.insertAll (ts.map fun t => (t.lexeme, true)))) (parameters ts)
      (parameters ts') := by
  induction like generalizing frame with
  | nil => exact .done
  | cons first rest ih =>
    have here := known _ List.mem_cons_self
    exact (declareAndDefine_mirrors covered here first).bind
      (ih (covered.hold here true) fun t among => known t (List.mem_cons_of_mem _ among))

/-! ### Uses -/

theorem recordUse_mirrors (fair : c.Fair N) (covered : Covered c N scopes p.frames)
    {name name' : String} {id : ExprId} (known : N name)
    (fits : c.Unchanging ∨ c.recorded id = distance? p.frames name)
    (like : name' = Renaming.use scopes (c.recorded id) name) :
    Mirrors c scopes p p (recordUse id name) (recordUse (c.ids id) name') := by
  rintro s rfl
  obtain ⟨ρ, renames, renamed, here⟩ := covered.use_renamed fair fits
  have same : distance? (s.alike c scopes).frames name' = distance? s.frames name := by
    rw [like, renamed]
    exact covered.distance?_renamed fair known renames here
  refine .inl ?_
  simp only [recordUse, same]
  cases distance? s.frames name with
  | none => exact ⟨s, rfl, rfl, rfl⟩
  | some d => exact ⟨{ s with found := (id, d) :: s.found }, rfl, rfl, rfl⟩

/-- What is told for a use is told for it in the other tree. -/
theorem violation_like (fair : c.Fair N) (covered : Covered c N scopes p.frames) {t t' : Token}
    {id : ExprId} (fits : c.Unchanging ∨ c.recorded id = distance? p.frames t.lexeme)
    (like : t.LikeUse c scopes id t') (cause : ScopeCause) :
    ScopeError.Like c ⟨t, cause⟩ ⟨t', cause⟩ := by
  obtain ⟨ρ, renames, renamed, -⟩ := covered.use_renamed fair fits
  exact ⟨rfl, like.kind, ⟨ρ, renames, like.lexeme.trans renamed⟩, .inl ⟨id, like.line⟩⟩

theorem checkDefined_mirrors (fair : c.Fair N) (covered : Covered c N scopes p.frames)
    {t t' : Token} {id : ExprId} (known : N t.lexeme)
    (fits : c.Unchanging ∨ c.recorded id = distance? p.frames t.lexeme)
    (like : t.LikeUse c scopes id t') :
    Mirrors c scopes p p (checkDefined t) (checkDefined t') := by
  refine .check fun s at_ => ?_
  subst at_
  obtain ⟨ρ, renames, renamed, here⟩ := covered.use_renamed fair fits
  obtain ⟨frames, context, class_, found⟩ := s
  cases frames with
  | nil => exact .inl ⟨rfl, by cases scopes <;> rfl⟩
  | cons frame outer =>
    cases scopes with
    | nil => exact absurd covered.length (by simp [ScopeState.place])
    | cons π scopes =>
      have lexeme := like.lexeme.trans renamed
      have same : (frame.renamed π).get? t'.lexeme = frame.get? t.lexeme := by
        rw [lexeme]
        exact Covered.get?_innermost fair covered known renames here
      by_cases undefined : frame.get? t.lexeme = some false
      · exact .inr ⟨⟨t, .ownInitializer⟩, ⟨t', .ownInitializer⟩, if_pos undefined,
          if_pos (same.trans undefined), rfl, like.kind, ⟨ρ, renames, lexeme⟩,
          .inl ⟨id, like.line⟩⟩
      · exact .inl ⟨if_neg undefined, if_neg fun other => undefined (same.symm.trans other)⟩

theorem checkThis_mirrors (fair : c.Fair N) (covered : Covered c N scopes p.frames) {t t' : Token}
    {id : ExprId} (fits : c.Unchanging ∨ c.recorded id = distance? p.frames t.lexeme)
    (like : t.LikeUse c scopes id t') : Mirrors c scopes p p (checkThis t) (checkThis t') := by
  refine .check fun s at_ => ?_
  obtain ⟨frames, context, class_, found⟩ := s
  cases class_ with
  | outside => exact .inr ⟨_, _, rfl, rfl, violation_like fair covered fits like _⟩
  | base | derived => exact .inl ⟨rfl, rfl⟩

theorem checkSuper_mirrors (fair : c.Fair N) (covered : Covered c N scopes p.frames)
    {t t' : Token} {id : ExprId}
    (fits : c.Unchanging ∨ c.recorded id = distance? p.frames t.lexeme)
    (like : t.LikeUse c scopes id t') : Mirrors c scopes p p (checkSuper t) (checkSuper t') := by
  refine .check fun s at_ => ?_
  obtain ⟨frames, context, class_, found⟩ := s
  cases class_ with
  | outside | base => exact .inr ⟨_, _, rfl, rfl, violation_like fair covered fits like _⟩
  | derived => exact .inl ⟨rfl, rfl⟩

theorem checkReturn_mirrors (fair : c.Fair N) {t t' : Token} (like : t.LikePlain c t')
    (hasValue : Bool) : Mirrors c scopes p p (checkReturn t hasValue) (checkReturn t' hasValue) := by
  have told (cause : ScopeCause) : ScopeError.Like c ⟨t, cause⟩ ⟨t', cause⟩ :=
    ⟨rfl, like.kind, ⟨Renaming.same, fair.same, like.lexeme⟩, .inr like.line⟩
  refine .check fun s at_ => ?_
  obtain ⟨frames, context, class_, found⟩ := s
  cases context with
  | outside => exact .inr ⟨_, _, rfl, rfl, told _⟩
  | initializer =>
    cases hasValue with
    | true => exact .inr ⟨_, _, rfl, rfl, told _⟩
    | false => exact .inl ⟨rfl, rfl⟩
  | function | method => exact .inl ⟨rfl, rfl⟩

/-- A class is not its own superclass in the other tree, either. -/
theorem checkSuperclass_mirrors (fair : c.Fair N) (covered : Covered c N scopes p.frames)
    {t t' used used' : Token} {id : ExprId} (known : N t.lexeme) (knownUsed : N used.lexeme)
    (fits : c.Unchanging ∨
      used.lexeme ≠ t.lexeme ∧ c.recorded id = distance? p.frames used.lexeme)
    (like : t.LikeName c scopes t') (likeUsed : used.LikeUse c scopes id used') :
    Mirrors c scopes p p (checkSuperclass t (.var id used))
      (checkSuperclass t' (.var (c.ids id) used')) := by
  obtain ⟨ρ, renames, renamed, here⟩ := covered.use_renamed fair (fits.imp_right And.right)
  refine .check fun s at_ => ?_
  by_cases itself : used.lexeme = t.lexeme
  · rcases fits with unchanging | ⟨differ, -⟩
    · have same : used'.lexeme = t'.lexeme := by
        rw [likeUsed.lexeme, renamed, unchanging ρ renames, like.lexeme]
        exact itself
      refine .inr ⟨⟨used, .ownSuperclass⟩, ⟨used', .ownSuperclass⟩, ?_, ?_,
        violation_like fair covered (.inl unchanging) likeUsed _⟩
      · simp [checkSuperclass, itself, violation, throw, throwThe, MonadExceptOf.throw,
          EStateM.throw]
      · simp [checkSuperclass, same, violation, throw, throwThe, MonadExceptOf.throw,
          EStateM.throw]
    · exact absurd itself differ
  · have differ : used'.lexeme ≠ t'.lexeme := by
      intro same
      have kept : (scopes.headD Renaming.same).perm t.lexeme = t.lexeme := like.kept
      rw [likeUsed.lexeme, renamed, like.lexeme, ← kept] at same
      exact itself (fair.apart _ _ renames (covered.innermost fair) _ _ knownUsed known same)
    refine .inl ⟨?_, ?_⟩
    · simp [checkSuperclass, itself, pure, EStateM.pure]
    · simp [checkSuperclass, differ, pure, EStateM.pure]

/-! ### Trees -/

mutual

/-- The walks over expressions that are alike go the same way. -/
theorem expr_mirrors (fair : c.Fair N) (e : Expr) {e' : Expr}
    (covered : Covered c N scopes p.frames) (formed : e.Formed fun t => N t.lexeme)
    (fits : c.Unchanging ∨ e.Scoped c.Records p) (like : e.Like c scopes e') :
    Mirrors c scopes p p (expr e) (expr e') := by
  match e with
  | .literal id v =>
    obtain rfl := like
    simp only [expr]
    exact .done
  | .grouping id a =>
    obtain ⟨a', rfl, likeA⟩ := like
    simp only [expr]
    exact expr_mirrors fair a covered formed fits likeA
  | .unary id t a =>
    obtain ⟨t', a', rfl, -, likeA⟩ := like
    simp only [expr]
    exact expr_mirrors fair a covered formed.2.2 fits likeA
  | .get id a t =>
    obtain ⟨a', t', rfl, likeA, -⟩ := like
    simp only [expr]
    exact expr_mirrors fair a covered formed.1 fits likeA
  | .binary id a t b | .logical id a t b =>
    obtain ⟨a', t', b', rfl, likeA, -, likeB⟩ := like
    simp only [expr]
    exact (expr_mirrors fair a covered formed.1 (fits.imp_right And.left) likeA).bind
      (expr_mirrors fair b covered formed.2.2.2 (fits.imp_right And.right) likeB)
  | .set id a t b =>
    obtain ⟨a', t', b', rfl, likeA, -, likeB⟩ := like
    simp only [expr]
    exact (expr_mirrors fair b covered formed.2.2 (fits.imp_right And.right) likeB).bind
      (expr_mirrors fair a covered formed.1 (fits.imp_right And.left) likeA)
  | .assign id t a =>
    obtain ⟨t', a', rfl, likeT, likeA⟩ := like
    simp only [expr]
    exact (expr_mirrors fair a covered formed.2 (fits.imp_right And.left) likeA).bind
      (recordUse_mirrors fair covered formed.1.1 (fits.imp_right fun inside => inside.2.2) likeT.lexeme)
  | .var id t =>
    obtain ⟨t', rfl, likeT⟩ := like
    simp only [expr]
    have found := fits.imp_right And.right
    exact (checkDefined_mirrors fair covered formed.1 found likeT).bind
      (recordUse_mirrors fair covered formed.1 found likeT.lexeme)
  | .call id a t as =>
    obtain ⟨a', t', as', rfl, likeA, -, likeAs⟩ := like
    simp only [expr]
    exact (expr_mirrors fair a covered formed.1 (fits.imp_right And.left) likeA).bind
      (exprs_mirrors fair as covered formed.2.2 (fits.imp_right And.right) likeAs)
  | .this id t =>
    obtain ⟨t', rfl, likeT⟩ := like
    simp only [expr]
    have found := fits.imp_right And.right
    exact (checkThis_mirrors fair covered found likeT).bind
      (recordUse_mirrors fair covered formed.1 found likeT.lexeme)
  | .super id t u =>
    obtain ⟨t', u', rfl, likeT, -⟩ := like
    simp only [expr]
    have found := fits.imp_right And.right
    exact (checkSuper_mirrors fair covered found likeT).bind
      (recordUse_mirrors fair covered formed.1 found likeT.lexeme)
  | .comma id a b =>
    obtain ⟨a', b', rfl, likeA, likeB⟩ := like
    simp only [expr]
    exact (expr_mirrors fair a covered formed.1 (fits.imp_right And.left) likeA).bind
      (expr_mirrors fair b covered formed.2 (fits.imp_right And.right) likeB)
  | .ternary id a b d =>
    obtain ⟨a', b', d', rfl, likeA, likeB, likeD⟩ := like
    simp only [expr]
    exact (expr_mirrors fair a covered formed.1 (fits.imp_right And.left) likeA).bind
      ((expr_mirrors fair b covered formed.2.1 (fits.imp_right fun all => all.2.1) likeB).bind
        (expr_mirrors fair d covered formed.2.2 (fits.imp_right fun all => all.2.2) likeD))

theorem exprs_mirrors (fair : c.Fair N) (es : List Expr) {es' : List Expr}
    (covered : Covered c N scopes p.frames) (formed : Expr.FormedList (fun t => N t.lexeme) es)
    (fits : c.Unchanging ∨ Expr.ScopedList c.Records p es) (like : Expr.LikeList c scopes es es') :
    Mirrors c scopes p p (exprs es) (exprs es') := by
  match es with
  | [] =>
    obtain rfl := like
    exact .done
  | e :: es =>
    obtain ⟨e', rest', rfl, likeE, likeEs⟩ := like
    simp only [exprs]
    exact (expr_mirrors fair e covered formed.1 (fits.imp_right And.left) likeE).bind
      (exprs_mirrors fair es covered formed.2 (fits.imp_right And.right) likeEs)

end

end Scoping

/-- A statement declares names of the tree only. -/
theorem Covered.after {c : Translation} {N : String → Prop} {scopes : List Renaming} {p : Place}
    (s : Stmt) (covered : Covered c N scopes p.frames) (formed : s.Formed fun t => N t.lexeme) :
    Covered c N scopes (s.after p).frames := by
  match s with
  | .expression _ | .print _ | .block _ | .returnStmt _ _ => simpa only [Stmt.after] using covered
  | .varDecl t none =>
    simp only [Stmt.after]
    exact covered.hold formed.1 true
  | .varDecl t (some e) =>
    simp only [Stmt.after]
    exact covered.hold formed.1.1 true
  | .funDecl ⟨t, _, _⟩ =>
    simp only [Stmt.after]
    exact covered.hold formed.1.1 true
  | .classDecl t _ _ =>
    simp only [Stmt.after]
    exact covered.hold formed.className.1.1 true
  | .ifThen _ s =>
    simp only [Stmt.after]
    exact covered.after s formed.2.1
  | .ifElse _ s u =>
    simp only [Stmt.after]
    exact (covered.after s formed.2.1.1).after u formed.2.2.1
  | .whileLoop _ s =>
    simp only [Stmt.after]
    exact covered.after s formed.2.1

theorem named_thisFrame {c : Translation} {N : String → Prop} (fair : c.Fair N) (name : String)
    (held : thisFrame.contains name = true) : N name := by
  rw [thisFrame, Table.contains_insert, Bool.or_eq_true, decide_eq_true_iff] at held
  rcases held with rfl | held
  · exact fair.this
  · cases held

theorem named_superFrame {c : Translation} {N : String → Prop} (fair : c.Fair N) (name : String)
    (held : superFrame.contains name = true) : N name := by
  rw [superFrame, Table.contains_insert, Bool.or_eq_true, decide_eq_true_iff] at held
  rcases held with rfl | held
  · exact fair.super
  · cases held

theorem named_parameterFrame {N : String → Prop} {ts : List Token} (known : ∀ t ∈ ts, N t.lexeme)
    (name : String) (held : (parameterFrame ts).contains name = true) : N name := by
  obtain ⟨b, found⟩ := Table.contains_iff.1 held
  rcases Table.get?_insertAll found with listed | before
  · obtain ⟨t, among, eq⟩ := List.mem_map.1 listed
    rw [← (Prod.mk.inj eq).1]
    exact known t among
  · cases before

namespace Scoping

variable {c : Translation} {N : String → Prop} {p : Place}

/-- The scope of a class body is not renamed. -/
theorem methods_inside {scopes : List Renaming} {frame : Frame} {name : String}
    {walk walk' : Scoping Unit} (bound : Table.empty.insert name true = frame)
    (kept : Renaming.same.perm name = name)
    (inside : Mirrors c (Renaming.same :: scopes) (p.enter frame) (p.enter frame) walk walk')
    (covered : Covered c N scopes p.frames) (fair : c.Fair N) :
    Mirrors c scopes p p (inFrame (define name >>= fun _ => walk))
      (inFrame (define name >>= fun _ => walk')) := by
  have empty : Covered c N (Renaming.same :: scopes) (p.enter Table.empty).frames :=
    covered.enter fair.same fun _ held => nomatch held
  have same : name = Renaming.declare (Renaming.same :: scopes) name := kept.symm
  have first := define_mirrors empty same
  rw [Place.hold_enter, bound] at first
  exact .inFrame (first.bind inside)

mutual

/-- The walks over statements that are alike go the same way. -/
theorem stmt_mirrors (fair : c.Fair N) (s : Stmt) {s' : Stmt} {scopes : List Renaming} {p : Place}
    (covered : Covered c N scopes p.frames) (formed : s.Formed fun t => N t.lexeme)
    (fits : c.Unchanging ∨ s.Scoped c.Records p) (like : s.Like c scopes s') :
    Mirrors c scopes p (s.after p) (stmt s) (stmt s') := by
  match s with
  | .expression e | .print e =>
    obtain ⟨e', rfl, likeE⟩ := like
    simp only [stmt, Stmt.after]
    exact expr_mirrors fair e covered formed fits likeE
  | .varDecl t none =>
    obtain ⟨t', rfl, likeT⟩ := like
    simp only [stmt, Stmt.after]
    exact declareAndDefine_mirrors covered formed.1 likeT
  | .varDecl t (some e) =>
    obtain ⟨t', e', rfl, likeT, likeE⟩ := like
    simp only [stmt, Stmt.after]
    have declared := covered.hold formed.1.1 false
    have all := (declare_mirrors covered likeT).bind
      ((expr_mirrors fair e declared formed.2 (fits.imp_right And.right) likeE).bind
        (define_mirrors declared likeT.lexeme))
    rwa [Place.hold_hold] at all
  | .block ss =>
    obtain ⟨π, ss', rfl, renames, likeSs⟩ := like
    simp only [stmt, Stmt.after]
    have entered : Covered c N (π :: scopes) (p.enter Table.empty).frames :=
      covered.enter renames fun _ held => nomatch held
    have inside := stmts_mirrors fair ss entered formed fits likeSs
    obtain ⟨last, eq⟩ := Stmt.afterList_enter ss p Table.empty
    rw [eq] at inside
    exact .inFrame inside
  | .ifThen e s =>
    obtain ⟨e', u', rfl, likeE, likeS⟩ := like
    simp only [stmt, Stmt.after]
    exact (expr_mirrors fair e covered formed.1 (fits.imp_right And.left) likeE).bind
      (stmt_mirrors fair s covered formed.2.1 (fits.imp_right And.right) likeS)
  | .whileLoop e s =>
    obtain ⟨e', u', rfl, likeE, likeS⟩ := like
    simp only [stmt, Stmt.after]
    exact (expr_mirrors fair e covered formed.1 (fits.imp_right And.left) likeE).bind
      (stmt_mirrors fair s covered formed.2.1 (fits.imp_right And.right) likeS)
  | .ifElse e s u =>
    obtain ⟨e', v', u', rfl, likeE, likeS, likeU⟩ := like
    simp only [stmt, Stmt.after]
    have yes := covered.after s formed.2.1.1
    exact (expr_mirrors fair e covered formed.1 (fits.imp_right And.left) likeE).bind
      ((stmt_mirrors fair s covered formed.2.1.1 (fits.imp_right fun all => all.2.1) likeS).bind
        (stmt_mirrors fair u yes formed.2.2.1 (fits.imp_right fun all => all.2.2) likeU))
  | .funDecl f =>
    obtain ⟨f', rfl, likeT, likeF⟩ := like
    have named : N f.name.lexeme := by
      obtain ⟨t, ts, ss⟩ := f
      exact formed.1.1
    simp only [stmt, Stmt.after]
    exact (declareAndDefine_mirrors covered named likeT.declaration).bind
      (function_mirrors fair f .function (covered.hold named true) formed
        (fits.imp_right And.right) likeF)
  | .returnStmt t none =>
    obtain ⟨t', rfl, likeT⟩ := like
    simp only [stmt, Stmt.after]
    exact checkReturn_mirrors fair likeT false
  | .returnStmt t (some e) =>
    obtain ⟨t', e', rfl, likeT, likeE⟩ := like
    simp only [stmt, Stmt.after]
    exact (checkReturn_mirrors fair likeT true).bind
      (expr_mirrors fair e covered formed.2 (fits.imp_right And.right) likeE)
  | .classDecl t none fs =>
    obtain ⟨t', fs', rfl, likeT, likeFs⟩ := like
    simp only [stmt, Stmt.after]
    have held := covered.hold formed.1.1 true
    refine (declareAndDefine_mirrors covered formed.1.1 likeT.declaration).bind (.inClass ?_)
    refine methods_inside rfl rfl ?_ (p := (p.hold t.lexeme true).inClass .base) held fair
    exact methods_mirrors fair fs (held.enter fair.same (named_thisFrame fair)) formed.2
      (fits.imp_right And.right) likeFs
  | .classDecl t (some e) fs =>
    obtain ⟨t', e', fs', rfl, likeT, ⟨⟨id, used, rfl⟩, likeE⟩, likeFs⟩ := like
    obtain ⟨used', rfl, likeUsed⟩ := likeE
    simp only [stmt, Stmt.after]
    have held := covered.hold formed.1.1 true
    have outer := held.enter fair.same (named_superFrame fair)
    refine (declareAndDefine_mirrors covered formed.1.1 likeT.declaration).bind ?_
    refine (checkSuperclass_mirrors fair held formed.1.1 formed.2.1.1
      (fits.imp_right fun all => ⟨all.2.1.1, all.2.1.2.2⟩) likeT likeUsed).bind (.inClass ?_)
    refine (expr_mirrors fair (.var id used) (p := (p.hold t.lexeme true).inClass .derived) held
      formed.2.1 (fits.imp_right fun all => all.2.1.2) ⟨used', rfl, likeUsed⟩).bind ?_
    refine methods_inside rfl rfl ?_ (p := (p.hold t.lexeme true).inClass .derived) held fair
    refine methods_inside rfl rfl ?_
      (p := ((p.hold t.lexeme true).inClass .derived).enter superFrame) outer fair
    exact methods_mirrors fair fs (outer.enter fair.same (named_thisFrame fair)) formed.2.2
      (fits.imp_right fun all => all.2.2) likeFs

theorem stmts_mirrors (fair : c.Fair N) (ss : List Stmt) {ss' : List Stmt} {scopes : List Renaming}
    {p : Place} (covered : Covered c N scopes p.frames)
    (formed : Stmt.FormedList (fun t => N t.lexeme) ss)
    (fits : c.Unchanging ∨ Stmt.ScopedList c.Records p ss) (like : Stmt.LikeList c scopes ss ss') :
    Mirrors c scopes p (ss.foldl Stmt.after p) (stmts ss) (stmts ss') := by
  match ss with
  | [] =>
    obtain rfl := like
    exact .done
  | s :: ss =>
    obtain ⟨s', us', rfl, likeS, likeSs⟩ := like
    simp only [stmts, List.foldl_cons]
    exact (stmt_mirrors fair s covered formed.1 (fits.imp_right And.left) likeS).bind
      (stmts_mirrors fair ss (covered.after s formed.1) formed.2 (fits.imp_right And.right) likeSs)

theorem function_mirrors (fair : c.Fair N) (f : FunctionDecl) {f' : FunctionDecl}
    {scopes : List Renaming} {p : Place} (context : FunctionContext)
    (covered : Covered c N scopes p.frames) (formed : f.Formed fun t => N t.lexeme)
    (fits : c.Unchanging ∨ f.Scoped c.Records (p.inFunction context))
    (like : f.Like c scopes f') :
    Mirrors c scopes p p (function context f) (function context f') := by
  match f with
  | ⟨t, ts, ss⟩ =>
    obtain ⟨π, t', ts', ss', rfl, renames, -, likeTs, likeSs⟩ := like
    have names : ∀ t ∈ ts, N t.lexeme := fun t among => (formed.2.1 t among).1
    simp only [function]
    refine .inFunction ?_
    have entered : Covered c N (π :: scopes) ((p.inFunction context).enter Table.empty).frames :=
      covered.enter renames fun _ held => nomatch held
    have bound : Covered c N (π :: scopes)
        ((p.inFunction context).enter (parameterFrame ts)).frames :=
      covered.enter renames (named_parameterFrame names)
    have inside := stmts_mirrors fair ss bound formed.2.2 (fits.imp_right And.right) likeSs
    obtain ⟨last, eq⟩ := Stmt.afterList_enter ss (p.inFunction context) (parameterFrame ts)
    rw [eq] at inside
    exact .inFrame ((parameters_mirrors entered names likeTs).bind inside)

theorem methods_mirrors (fair : c.Fair N) (fs : List FunctionDecl) {fs' : List FunctionDecl}
    {scopes : List Renaming} {p : Place} (covered : Covered c N scopes p.frames)
    (formed : FunctionDecl.FormedList (fun t => N t.lexeme) fs)
    (fits : c.Unchanging ∨ FunctionDecl.ScopedList c.Records p fs)
    (like : FunctionDecl.LikeList c scopes fs fs') :
    Mirrors c scopes p p (methods fs) (methods fs') := by
  match fs with
  | [] =>
    obtain rfl := like
    exact .done
  | ⟨t, ts, ss⟩ :: fs =>
    obtain ⟨f', gs', rfl, likeF, likeFs⟩ := like
    have first := function_mirrors fair ⟨t, ts, ss⟩ (methodContext t) covered formed.1
      (fits.imp_right And.left) likeF
    obtain ⟨π, t', ts', ss', rfl, -, likeT, -⟩ := likeF
    have same : methodContext t' = methodContext t := by rw [methodContext, likeT.lexeme]; rfl
    simp only [methods, same]
    exact first.bind (methods_mirrors fair fs covered formed.2 (fits.imp_right And.right) likeFs)

end

end Scoping

/-- The violation that ends one walk ends the other. -/
def ScopeError.LikeOption (c : Translation) : Option ScopeError → Option ScopeError → Prop
  | none, none => True
  | some e, some e' => e.Like c e'
  | _, _ => False

/-- Programs that are alike have the same distances and the same violation. -/
theorem resolve_alike {c : Translation} {N : String → Prop} {program program' : List Stmt}
    (fair : c.Fair N) (formed : Stmt.FormedList (fun t => N t.lexeme) program)
    (fits : c.Unchanging ∨ Stmt.ScopedList c.Records Place.outermost program)
    (like : Stmt.LikeList c [] program program') :
    (resolve program').found = (resolve program).found.map (fun use => (c.ids use.1, use.2)) ∧
      ScopeError.LikeOption c (resolve program).error (resolve program').error := by
  have outside : Covered c N [] Place.outermost.frames :=
    ⟨Nat.le_refl 0, fun _ among => (nomatch among), fun _ among => nomatch among⟩
  have initial : ScopeState.initial.alike c [] = ScopeState.initial := rfl
  unfold resolve
  rcases Scoping.stmts_mirrors fair program outside formed fits like ScopeState.initial rfl with
    ⟨t, run, -, run'⟩ | ⟨e, e', t, run, run', likeE⟩
  · rw [initial] at run'
    simp [run, run', ScopeState.alike, ScopeError.LikeOption]
  · rw [initial] at run'
    simp [run, run', ScopeState.alike, ScopeError.LikeOption, likeE]

end Lox
