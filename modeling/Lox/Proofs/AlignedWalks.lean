import Lox.Proofs.AlignedTrees
import Lox.Proofs.ScopeWalk

/-!
The walk over a tree and that over its copy with other ids go the same way from two places that
differ only in scopes that one of them has alone: both are accepted, or both are refused for the same
violation.
-/

namespace Lox

open Scoping (distance?)

namespace Alignment

/-- Two places that a walk cannot tell apart, but by distances. -/
structure Beside (a : Alignment) (p p' : Place) : Prop where
  frames : a.Frames p.frames p'.frames
  function : p'.function = p.function
  class_ : p'.class_ = p.class_

/-- The same names can be read. -/
def Even (p p' : Place) : Prop :=
  ∀ name, (∃ frame ∈ p.frames.head?, frame.get? name = some false) ↔
    ∃ frame ∈ p'.frames.head?, frame.get? name = some false

namespace Beside

variable {a : Alignment} {p p' : Place} (beside : a.Beside p p')
include beside

theorem hold (opens : a.Opens) (name : String) (b : Bool) :
    a.Beside (p.hold name b) (p'.hold name b) := by
  have same (q : Place) : (q.hold name b).function = q.function ∧
      (q.hold name b).class_ = q.class_ := by
    unfold Place.hold
    split <;> exact ⟨rfl, rfl⟩
  constructor
  · exact beside.frames.hold opens name b
  · rw [(same p).1, (same p').1, beside.function]
  · rw [(same p).2, (same p').2, beside.class_]

theorem enter (frame : Frame) : Beside (.both :: a) (p.enter frame) (p'.enter frame) :=
  ⟨.both frame beside.frames, beside.function, beside.class_⟩

theorem enterLeft : Beside (.left :: a) (p.enter Table.empty) p' :=
  ⟨.left beside.frames, beside.function, beside.class_⟩

theorem enterRight : Beside (.right :: a) p (p'.enter Table.empty) :=
  ⟨.right beside.frames, beside.function, beside.class_⟩

theorem inFunction (context : FunctionContext) :
    a.Beside (p.inFunction context) (p'.inFunction context) :=
  ⟨beside.frames, rfl, beside.class_⟩

theorem inClass (context : ClassContext) : a.Beside (p.inClass context) (p'.inClass context) :=
  ⟨beside.frames, beside.function, rfl⟩

/-- The innermost scope is the same if both places have it. -/
theorem innermost (opens : a.Opens) : p'.frames.head? = p.frames.head? := by
  have frames := beside.frames
  generalize p.frames = F, p'.frames = F' at frames
  cases frames with
  | nil | both => rfl
  | left | right => cases opens

theorem even (opens : a.Opens) : Even p p' := by
  intro name
  rw [beside.innermost opens]

theorem after {P : Token → Prop} {s : Stmt} (formed : s.Formed P)
    (opens : a.Opens ∨ s.isBranch = true) : a.Beside (s.after p) (s.after p') := by
  cases s with
  | varDecl t _ | funDecl t | classDecl t _ _ =>
    simp only [Stmt.after]
    exact beside.hold (opens.resolve_right (by simp [Stmt.isBranch])) _ true
  | _ =>
    rw [Stmt.after_branch _ formed rfl, Stmt.after_branch _ formed rfl]
    exact beside

end Beside

/-- Where every name is defined, every name can be read. -/
theorem even_settled {p p' : Place} (left : p.Settled) (right : p'.Settled) : Even p p' := by
  have none {q : Place} (settled : q.Settled) (name : String) :
      ¬ ∃ frame ∈ q.frames.head?, frame.get? name = some false := by
    rintro ⟨frame, first, found⟩
    cases settled frame (List.mem_of_mem_head? first) name false found
  exact fun name => iff_of_false (none left name) (none right name)

end Alignment

namespace Scoping

/-- From `p` and `p'` the two walks come to `q` and `q'`, or they meet the same violation. -/
def Paired (p p' q q' : Place) (walk walk' : Scoping Unit) : Prop :=
  ∀ s s' : ScopeState, s.place = p → s'.place = p' →
    (∃ t t', walk s = .ok () t ∧ walk' s' = .ok () t' ∧ t.place = q ∧ t'.place = q') ∨
      ∃ e t t', walk s = .error e t ∧ walk' s' = .error e t'

variable {a : Alignment} {p p' q q' r r' : Place} {walk walk' next next' : Scoping Unit}

namespace Paired

theorem done : Paired p p' p p' (pure ()) (pure ()) :=
  fun s s' at_ at_' => .inl ⟨s, s', rfl, rfl, at_, at_'⟩

theorem bind (first : Paired p p' q q' walk walk') (second : Paired q q' r r' next next') :
    Paired p p' r r' (walk >>= fun _ => next) (walk' >>= fun _ => next') := by
  intro s s' at_ at_'
  rcases first s s' at_ at_' with ⟨t, t', run, run', there, there'⟩ | ⟨e, t, t', run, run'⟩
  · rcases second t t' there there' with ⟨u, u', then_, then', ends⟩ | ⟨e, u, u', then_, then'⟩
    · exact .inl ⟨u, u', (bind_of_ok run).trans then_, (bind_of_ok run').trans then', ends⟩
    · exact .inr ⟨e, u, u', (bind_of_ok run).trans then_, (bind_of_ok run').trans then'⟩
  · exact .inr ⟨e, t, t', bind_of_error run, bind_of_error run'⟩

/-- A walk that only the left side makes before what follows. -/
theorem within {enter : ScopeState → ScopeState} {leave : ScopeState → ScopeState → ScopeState}
    (inside : Paired q p' r q' walk walk') (enters : ∀ s, s.place = p → (enter s).place = q)
    (leaves : ∀ s t, s.place = p → t.place = r → (leave s t).place = p) :
    Paired p p' p q' (within enter leave walk) walk' := by
  intro s s' at_ at_'
  rcases inside (enter s) s' (enters s at_) at_' with
    ⟨t, t', run, run', there, there'⟩ | ⟨e, t, t', run, run'⟩
  · exact .inl ⟨leave s t, t', by simp only [Scoping.within, run], run', leaves s t at_ there,
      there'⟩
  · exact .inr ⟨e, leave s t, t', by simp only [Scoping.within, run], run'⟩

theorem symm (paired : Paired p p' q q' walk walk') : Paired p' p q' q walk' walk := by
  intro s s' at_ at_'
  rcases paired s' s at_' at_ with ⟨t, t', run, run', there, there'⟩ | ⟨e, t, t', run, run'⟩
  · exact .inl ⟨t', t, run', run, there', there⟩
  · exact .inr ⟨e, t', t, run', run⟩

/-- A scope that is open on the left only. -/
theorem inFrameLeft {frame : Frame}
    (inside : Paired (p.enter Table.empty) p' (p.enter frame) q' walk walk') :
    Paired p p' p q' (inFrame walk) walk' := by
  refine inside.within ?_ ?_
  · rintro s rfl
    rfl
  · rintro s t rfl there
    simp only [ScopeState.place, Place.enter, Place.mk.injEq] at there ⊢
    obtain ⟨frames, same, same'⟩ := there
    exact ⟨by rw [frames, List.tail_cons], same, same'⟩

theorem inFrameRight {frame : Frame}
    (inside : Paired p (p'.enter Table.empty) q (p'.enter frame) walk walk') :
    Paired p p' q p' walk (inFrame walk') :=
  inside.symm.inFrameLeft.symm

theorem inFrame {frame frame' : Frame}
    (inside : Paired (p.enter Table.empty) (p'.enter Table.empty) (p.enter frame)
      (p'.enter frame') walk walk') : Paired p p' p p' (inFrame walk) (Scoping.inFrame walk') :=
  inside.inFrameRight.inFrameLeft

theorem inFunction {context : FunctionContext}
    (inside : Paired (p.inFunction context) (p'.inFunction context) (p.inFunction context)
      (p'.inFunction context) walk walk') :
    Paired p p' p p' (inFunction context walk) (Scoping.inFunction context walk') := by
  have leaves (p : Place) (s t : ScopeState) (at_ : s.place = p)
      (there : t.place = p.inFunction context) :
      ({ t with function := s.function } : ScopeState).place = p := by
    subst at_
    simp only [ScopeState.place, Place.inFunction, Place.mk.injEq] at there ⊢
    exact ⟨there.1, trivial, there.2.2⟩
  refine Paired.within (Paired.symm (Paired.within inside.symm ?_ (leaves p'))) ?_ (leaves p)
  · rintro s rfl
    rfl
  · rintro s rfl
    rfl

theorem inClass {context : ClassContext}
    (inside : Paired (p.inClass context) (p'.inClass context) (p.inClass context)
      (p'.inClass context) walk walk') :
    Paired p p' p p' (inClass context walk) (Scoping.inClass context walk') := by
  have leaves (p : Place) (s t : ScopeState) (at_ : s.place = p)
      (there : t.place = p.inClass context) :
      ({ t with class_ := s.class_ } : ScopeState).place = p := by
    subst at_
    simp only [ScopeState.place, Place.inClass, Place.mk.injEq] at there ⊢
    exact ⟨there.1, there.2.1, trivial⟩
  refine Paired.within (Paired.symm (Paired.within inside.symm ?_ (leaves p'))) ?_ (leaves p)
  · rintro s rfl
    rfl
  · rintro s rfl
    rfl

/-- A check that accepts both states, or refuses both in the same way. -/
theorem check {check check' : Scoping Unit}
    (quiet : ∀ s s', s.place = p → s'.place = p' → (check s = .ok () s ∧ check' s' = .ok () s') ∨
      ∃ e, check s = .error e s ∧ check' s' = .error e s') :
    Paired p p' p p' check check' := by
  intro s s' at_ at_'
  rcases quiet s s' at_ at_' with ⟨run, run'⟩ | ⟨e, run, run'⟩
  · exact .inl ⟨s, s', run, run', at_, at_'⟩
  · exact .inr ⟨e, s, s', run, run'⟩

end Paired

/-! ### Declarations and checks -/

theorem declare_paired (beside : a.Beside p p') (opens : a.Opens) (t : Token) :
    Paired p p' (p.hold t.lexeme false) (p'.hold t.lexeme false) (declare t) (declare t) := by
  rintro ⟨F, context, class_, found⟩ ⟨F', context', class_', found'⟩ rfl rfl
  have same : F'.head? = F.head? := beside.innermost opens
  cases F with
  | nil =>
    obtain rfl : F' = [] := by simpa using same
    exact .inl ⟨_, _, rfl, rfl, rfl, rfl⟩
  | cons frame outer =>
    obtain ⟨outer', rfl⟩ : ∃ outer', F' = frame :: outer' := List.head?_eq_some_iff.1 same
    cases already : frame.contains t.lexeme with
    | true => exact .inr ⟨_, _, _, by simp only [declare, already, if_true]; rfl,
        by simp only [declare, already, if_true]; rfl⟩
    | false => exact .inl ⟨_, _, by simp only [declare, already]; rfl,
        by simp only [declare, already]; rfl, rfl, rfl⟩

theorem define_paired (name : String) :
    Paired p p' (p.hold name true) (p'.hold name true) (define name) (define name) := by
  rintro ⟨F, context, class_, found⟩ ⟨F', context', class_', found'⟩ rfl rfl
  cases F <;> cases F' <;> exact .inl ⟨_, _, rfl, rfl, rfl, rfl⟩

/-- A scope that begins with one name. -/
theorem inFrame_paired (name : String) {frame frame' : Frame}
    (inside : Paired (p.enter (Table.empty.insert name true))
      (p'.enter (Table.empty.insert name true)) (p.enter frame) (p'.enter frame') walk walk') :
    Paired p p' p p' (inFrame do
      define name
      walk) (inFrame do
      define name
      walk') := by
  have first : Paired (p.enter Table.empty) (p'.enter Table.empty)
      (p.enter (Table.empty.insert name true)) (p'.enter (Table.empty.insert name true))
      (define name) (define name) := define_paired name
  exact (first.bind inside).inFrame

theorem declareAndDefine_paired (beside : a.Beside p p') (opens : a.Opens) (t : Token) :
    Paired p p' (p.hold t.lexeme true) (p'.hold t.lexeme true) (declareAndDefine t)
      (declareAndDefine t) := by
  have both := (declare_paired beside opens t).bind (define_paired t.lexeme)
  rwa [Place.hold_hold, Place.hold_hold] at both

theorem recordUse_paired (id id' : ExprId) (name : String) :
    Paired p p' p p' (recordUse id name) (recordUse id' name) := by
  intro s s' at_ at_'
  have runs (s : ScopeState) (id : ExprId) :
      ∃ t, recordUse id name s = .ok () t ∧ t.place = s.place := by
    unfold recordUse
    split <;> exact ⟨_, rfl, rfl⟩
  obtain ⟨t, run, same⟩ := runs s id
  obtain ⟨t', run', same'⟩ := runs s' id'
  exact .inl ⟨t, t', run, run', same.trans at_, same'.trans at_'⟩

theorem checkDefined_paired (even : Alignment.Even p p') (t : Token) :
    Paired p p' p p' (checkDefined t) (checkDefined t) := by
  have decided (s : ScopeState) : checkDefined t s =
      if ∃ frame ∈ s.place.frames.head?, frame.get? t.lexeme = some false then
        .error ⟨t, .ownInitializer⟩ s else .ok () s := by
    obtain ⟨F, context, class_, found⟩ := s
    cases F with
    | nil => simp [checkDefined, ScopeState.place]
    | cons frame outer => simp [checkDefined, ScopeState.place]
  refine .check fun s s' at_ at_' => ?_
  rw [decided, decided, at_, at_']
  have same := even t.lexeme
  by_cases unread : ∃ frame ∈ p.frames.head?, frame.get? t.lexeme = some false
  · rw [if_pos unread, if_pos (same.1 unread)]
    exact .inr ⟨_, rfl, rfl⟩
  · rw [if_neg unread, if_neg fun unread' => unread (same.2 unread')]
    exact .inl ⟨rfl, rfl⟩

theorem checkThis_paired (beside : a.Beside p p') (t : Token) :
    Paired p p' p p' (checkThis t) (checkThis t) := by
  refine .check ?_
  rintro ⟨F, context, class_, found⟩ ⟨F', context', class_', found'⟩ rfl rfl
  obtain rfl : class_' = class_ := beside.class_
  cases class_' with
  | outside => exact .inr ⟨_, rfl, rfl⟩
  | base | derived => exact .inl ⟨rfl, rfl⟩

theorem checkSuper_paired (beside : a.Beside p p') (t : Token) :
    Paired p p' p p' (checkSuper t) (checkSuper t) := by
  refine .check ?_
  rintro ⟨F, context, class_, found⟩ ⟨F', context', class_', found'⟩ rfl rfl
  obtain rfl : class_' = class_ := beside.class_
  cases class_' with
  | outside | base => exact .inr ⟨_, rfl, rfl⟩
  | derived => exact .inl ⟨rfl, rfl⟩

theorem checkReturn_paired (beside : a.Beside p p') (t : Token) (hasValue : Bool) :
    Paired p p' p p' (checkReturn t hasValue) (checkReturn t hasValue) := by
  refine .check ?_
  rintro ⟨F, context, class_, found⟩ ⟨F', context', class_', found'⟩ rfl rfl
  obtain rfl : context' = context := beside.function
  cases context' with
  | outside => exact .inr ⟨_, rfl, rfl⟩
  | initializer =>
    cases hasValue with
    | true => exact .inr ⟨_, rfl, rfl⟩
    | false => exact .inl ⟨rfl, rfl⟩
  | function | method => exact .inl ⟨rfl, rfl⟩

theorem checkSuperclass_paired (f : ExprId → ExprId) (t : Token) (id : ExprId) (used : Token) :
    Paired p p' p p' (checkSuperclass t (.var id used))
      (checkSuperclass t ((Expr.var id used).renumber f)) := by
  rw [Expr.renumber, checkSuperclass, checkSuperclass]
  split
  · exact .check fun s s' _ _ => .inr ⟨_, rfl, rfl⟩
  · exact .done

/-! ### Trees -/

variable {f : ExprId → ExprId}

mutual

theorem expr_paired (beside : a.Beside p p') (even : Alignment.Even p p') (e : Expr) :
    Paired p p' p p' (expr e) (expr (e.renumber f)) := by
  match e with
  | .literal _ _ =>
    simp only [Expr.renumber, expr]
    exact .done
  | .grouping _ b | .unary _ _ b | .get _ b _ =>
    simp only [Expr.renumber, expr]
    exact expr_paired beside even b
  | .binary _ b _ c | .logical _ b _ c | .comma _ b c =>
    simp only [Expr.renumber, expr]
    exact (expr_paired beside even b).bind (expr_paired beside even c)
  | .set _ b _ c =>
    simp only [Expr.renumber, expr]
    exact (expr_paired beside even c).bind (expr_paired beside even b)
  | .assign id t b =>
    simp only [Expr.renumber, expr]
    exact (expr_paired beside even b).bind (recordUse_paired _ _ _)
  | .var id t =>
    simp only [Expr.renumber, expr]
    exact (checkDefined_paired even t).bind (recordUse_paired _ _ _)
  | .this id t =>
    simp only [Expr.renumber, expr]
    exact (checkThis_paired beside t).bind (recordUse_paired _ _ _)
  | .super id t _ =>
    simp only [Expr.renumber, expr]
    exact (checkSuper_paired beside t).bind (recordUse_paired _ _ _)
  | .call _ b _ cs =>
    simp only [Expr.renumber, expr]
    exact (expr_paired beside even b).bind (exprs_paired beside even cs)
  | .ternary _ b c d =>
    simp only [Expr.renumber, expr]
    exact (expr_paired beside even b).bind
      ((expr_paired beside even c).bind (expr_paired beside even d))

theorem exprs_paired (beside : a.Beside p p') (even : Alignment.Even p p') (es : List Expr) :
    Paired p p' p p' (exprs es) (exprs (Expr.renumberList f es)) := by
  match es with
  | [] =>
    simp only [Expr.renumberList, exprs]
    exact .done
  | e :: es =>
    simp only [Expr.renumberList, exprs]
    exact (expr_paired beside even e).bind (exprs_paired beside even es)

end

theorem parameters_paired (beside : a.Beside p p') (ts : List Token) (frame : Frame) :
    Paired (p.enter frame) (p'.enter frame)
      (p.enter (frame.insertAll (ts.map fun t => (t.lexeme, true))))
      (p'.enter (frame.insertAll (ts.map fun t => (t.lexeme, true))))
      (parameters ts) (parameters ts) := by
  induction ts generalizing frame with
  | nil => exact .done
  | cons t ts ih =>
    exact (declareAndDefine_paired (beside.enter frame) rfl t).bind (ih _)

variable {P : Token → Prop}

mutual

theorem stmt_paired {a : Alignment} {p p' : Place} (beside : a.Beside p p') (left : p.Settled)
    (right : p'.Settled) (s : Stmt) (formed : s.Formed P) (opens : a.Opens ∨ s.isBranch = true) :
    Paired p p' (s.after p) (s.after p') (stmt s) (stmt (s.renumber f)) := by
  have even := Alignment.even_settled left right
  match s with
  | .expression e | .print e =>
    simp only [Stmt.renumber, stmt, Stmt.after]
    exact expr_paired beside even e
  | .varDecl t none =>
    simp only [Stmt.renumber, Option.map, stmt, Stmt.after]
    exact declareAndDefine_paired beside (opens.resolve_right (by simp [Stmt.isBranch])) t
  | .varDecl t (some e) =>
    simp only [Stmt.renumber, Option.map, stmt, Stmt.after]
    have opened := opens.resolve_right (by simp [Stmt.isBranch])
    have held := beside.hold opened t.lexeme false
    have walks := (declare_paired beside opened t).bind
      ((expr_paired (f := f) held (held.even opened) e).bind (define_paired t.lexeme))
    rwa [Place.hold_hold, Place.hold_hold] at walks
  | .block body =>
    simp only [Stmt.renumber, stmt, Stmt.after]
    have inside := stmts_paired (beside.enter Table.empty)
      (left.enter fun _ _ found => nomatch found) (right.enter fun _ _ found => nomatch found)
      body formed rfl
    obtain ⟨frame, ends⟩ := Stmt.afterList_enter body p Table.empty
    obtain ⟨frame', ends'⟩ := Stmt.afterList_enter body p' Table.empty
    rw [ends, ends'] at inside
    exact inside.inFrame
  | .ifThen e yes | .whileLoop e yes =>
    simp only [Stmt.renumber, stmt, Stmt.after]
    exact (expr_paired beside even e).bind
      (stmt_paired beside left right yes formed.2.1 (.inr formed.2.2))
  | .ifElse e yes no =>
    simp only [Stmt.renumber, stmt, Stmt.after]
    have first := stmt_paired beside left right yes formed.2.1.1 (.inr formed.2.1.2)
    rw [yes.after_branch formed.2.1.1 formed.2.1.2, yes.after_branch formed.2.1.1 formed.2.1.2]
      at first ⊢
    exact (expr_paired beside even e).bind (first.bind
      (stmt_paired beside left right no formed.2.2.1 (.inr formed.2.2.2)))
  | .funDecl ⟨t, ts, body⟩ =>
    simp only [Stmt.renumber, FunctionDecl.renumber, stmt, Stmt.after]
    have opened := opens.resolve_right (by simp [Stmt.isBranch])
    have inside := function_paired (beside.hold opened t.lexeme true)
      (left.hold t.lexeme) (right.hold t.lexeme) .function ⟨t, ts, body⟩ formed
    rw [FunctionDecl.renumber] at inside
    exact (declareAndDefine_paired beside opened t).bind inside
  | .returnStmt t none =>
    simp only [Stmt.renumber, Option.map, stmt, Stmt.after]
    exact checkReturn_paired beside t false
  | .returnStmt t (some e) =>
    simp only [Stmt.renumber, Option.map, stmt, Stmt.after]
    exact (checkReturn_paired beside t true).bind (expr_paired beside even e)
  | .classDecl t none ds =>
    simp only [Stmt.renumber, Option.map, stmt, Stmt.after]
    have opened := opens.resolve_right (by simp [Stmt.isBranch])
    have held := (beside.hold opened t.lexeme true).inClass .base
    have inside := methods_paired (held.enter thisFrame)
      (Place.Settled.enter (p := (p.hold t.lexeme true).inClass .base) (left.hold _)
        settled_thisFrame)
      (Place.Settled.enter (p := (p'.hold t.lexeme true).inClass .base) (right.hold _)
        settled_thisFrame) ds formed.2
    exact (declareAndDefine_paired beside opened t).bind (inFrame_paired "this" inside).inClass
  | .classDecl t (some e) ds =>
    obtain ⟨id, used, rfl, -⟩ := formed.superclass
    simp only [Stmt.renumber, Option.map, stmt, Stmt.after]
    have opened := opens.resolve_right (by simp [Stmt.isBranch])
    have held := (beside.hold opened t.lexeme true).inClass .derived
    have settled := Place.Settled.enter (p := (p.hold t.lexeme true).inClass .derived)
      (left.hold _) settled_superFrame
    have settled' := Place.Settled.enter (p := (p'.hold t.lexeme true).inClass .derived)
      (right.hold _) settled_superFrame
    have inside := methods_paired ((held.enter superFrame).enter thisFrame)
      (settled.enter settled_thisFrame) (settled'.enter settled_thisFrame) ds formed.2.2
    have parent := expr_paired (f := f) held (held.even opened) (.var id used)
    have around := inFrame_paired "super" (inFrame_paired "this" inside)
    exact (declareAndDefine_paired beside opened t).bind
      ((checkSuperclass_paired f t id used).bind (parent.bind around).inClass)

theorem stmts_paired {a : Alignment} {p p' : Place} (beside : a.Beside p p') (left : p.Settled)
    (right : p'.Settled) (ss : List Stmt) (formed : Stmt.FormedList P ss) (opens : a.Opens) :
    Paired p p' (ss.foldl Stmt.after p) (ss.foldl Stmt.after p') (stmts ss)
      (stmts (Stmt.renumberList f ss)) := by
  match ss with
  | [] =>
    simp only [Stmt.renumberList, stmts]
    exact .done
  | s :: ss =>
    simp only [Stmt.renumberList, stmts, List.foldl_cons]
    exact (stmt_paired beside left right s formed.1 (.inl opens)).bind
      (stmts_paired (beside.after formed.1 (.inl opens)) (s.after_settled left)
        (s.after_settled right) ss formed.2 opens)

theorem function_paired {a : Alignment} {p p' : Place} (beside : a.Beside p p') (left : p.Settled)
    (right : p'.Settled) (context : FunctionContext) (d : FunctionDecl) (formed : d.Formed P) :
    Paired p p' p p' (function context d) (function context (d.renumber f)) := by
  match d with
  | ⟨t, ts, body⟩ =>
    simp only [FunctionDecl.renumber, function]
    have within := beside.inFunction context
    have inside := stmts_paired (within.enter (parameterFrame ts))
      (Place.Settled.enter (p := p.inFunction context) left (settled_parameterFrame ts))
      (Place.Settled.enter (p := p'.inFunction context) right (settled_parameterFrame ts))
      body formed.2.2 rfl
    obtain ⟨frame, ends⟩ := Stmt.afterList_enter body (p.inFunction context) (parameterFrame ts)
    obtain ⟨frame', ends'⟩ := Stmt.afterList_enter body (p'.inFunction context) (parameterFrame ts)
    rw [ends, ends'] at inside
    exact ((parameters_paired within ts Table.empty).bind inside).inFrame.inFunction

theorem methods_paired {a : Alignment} {p p' : Place} (beside : a.Beside p p') (left : p.Settled)
    (right : p'.Settled) (ds : List FunctionDecl) (formed : FunctionDecl.FormedList P ds) :
    Paired p p' p p' (methods ds) (methods (FunctionDecl.renumberList f ds)) := by
  match ds with
  | [] =>
    simp only [FunctionDecl.renumberList, methods]
    exact .done
  | ⟨t, ts, body⟩ :: ds =>
    have first := function_paired beside left right (methodContext t) ⟨t, ts, body⟩ formed.1
    simp only [FunctionDecl.renumberList, FunctionDecl.renumber, methods] at first ⊢
    exact first.bind (methods_paired beside left right ds formed.2)

end

end Scoping

end Lox
