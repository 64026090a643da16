import Lox.Proofs.StaticScopes
import Lox.Proofs.Stateful
import Lox.Proofs.Stores
import Mathlib.Data.List.Nodup
import Mathlib.Data.List.Perm.Subperm

/-!
The walk over scopes gives what static scoping tells: a tree that it accepts is well scoped, and
what it records are the distances of the uses in the tree.
-/

namespace Lox

open Scoping (distance?)

/-- `R` agrees with a list of recorded uses on these ids: an id that is not recorded has none. -/
def Notes (R : ExprId → Option Nat → Prop) (uses : List (ExprId × Nat)) (ids : List ExprId) : Prop :=
  (∀ id d, (id, d) ∈ uses → R id (some d)) ∧
    ∀ id ∈ ids, (∀ d, (id, d) ∉ uses) → R id none

/-- A walk over a part of a program that has these ids: it ends at the place `after`, and with every
record that agrees with the uses it found, the part fulfils `holds`. -/
def Walked (s t : ScopeState) (ids : List ExprId) (after : Place)
    (holds : (ExprId → Option Nat → Prop) → Prop) : Prop :=
  t.place = after ∧ ∃ uses, t.found = uses ++ s.found ∧ (uses.map Prod.fst).Subperm ids ∧
    ∀ R, Notes R uses ids → holds R

namespace Walked

variable {s t u : ScopeState} {ids more : List ExprId} {p q : Place}
  {S S' : (ExprId → Option Nat → Prop) → Prop}

theorem nothing (s : ScopeState) (ids : List ExprId) : Walked s s ids s.place fun _ => True :=
  ⟨rfl, [], rfl, List.nil_subperm, fun _ _ => trivial⟩

theorem imp (walk : Walked s t ids p S) (weaker : ∀ R, S R → S' R) : Walked s t ids p S' := by
  obtain ⟨at_, uses, found, known, holds⟩ := walk
  exact ⟨at_, uses, found, known, fun R notes => weaker R (holds R notes)⟩

theorem perm (walk : Walked s t ids p S) (same : ids.Perm more) : Walked s t more p S := by
  obtain ⟨at_, uses, found, known, holds⟩ := walk
  refine ⟨at_, uses, found, known.trans same.subperm, fun R notes => holds R ⟨notes.1, ?_⟩⟩
  intro id member
  exact notes.2 id (same.subset member)

theorem seq (first : Walked s t ids p S) (second : Walked t u more q S')
    (distinct : (ids ++ more).Nodup) : Walked s u (ids ++ more) q fun R => S R ∧ S' R := by
  obtain ⟨-, uses, found, known, holds⟩ := first
  obtain ⟨at_, uses', found', known', holds'⟩ := second
  have apart := List.disjoint_of_nodup_append distinct
  refine ⟨at_, uses' ++ uses, by rw [found', found, List.append_assoc], ?_, ?_⟩
  · rw [List.map_append]
    exact (List.perm_append_comm.subperm).trans (known.append known')
  · intro R notes
    refine ⟨holds R ⟨?_, ?_⟩, holds' R ⟨?_, ?_⟩⟩
    · intro id d use
      exact notes.1 id d (List.mem_append_right _ use)
    · intro id member unused
      refine notes.2 id (List.mem_append_left _ member) fun d use => ?_
      rcases List.mem_append.1 use with use | use
      · exact apart member (known'.subset (List.mem_map_of_mem use))
      · exact unused d use
    · intro id d use
      exact notes.1 id d (List.mem_append_left _ use)
    · intro id member unused
      refine notes.2 id (List.mem_append_right _ member) fun d use => ?_
      rcases List.mem_append.1 use with use | use
      · exact unused d use
      · exact apart (known.subset (List.mem_map_of_mem use)) member

/-- For each id something is recorded. -/
theorem all (walk : Walked s t ids p S) :
    Walked s t ids p fun R => (∀ id ∈ ids, ∃ d, R id d) ∧ S R := by
  obtain ⟨at_, uses, found, known, holds⟩ := walk
  refine ⟨at_, uses, found, known, fun R notes => ⟨fun id member => ?_, holds R notes⟩⟩
  by_cases used : ∃ d, (id, d) ∈ uses
  · obtain ⟨d, use⟩ := used
    exact ⟨some d, notes.1 id d use⟩
  · exact ⟨none, notes.2 id member fun d use => used ⟨d, use⟩⟩

/-- An expression whose parts have been walked over, and that has no use of its own. -/
theorem closed (walk : Walked s t ids p S) (id : ExprId) (distinct : (ids ++ [id]).Nodup) :
    Walked s t (ids ++ [id]) p S := by
  have at_ := walk.1
  subst at_
  exact (walk.seq (nothing t [id]) distinct).imp fun _ both => both.1

end Walked

namespace Place

/-- Every name of every scope is defined. -/
def Settled (p : Place) : Prop := ∀ frame ∈ p.frames, ∀ name b, frame.get? name = some b → b = true

/-- Every name is defined but for those of the innermost scope. -/
def SettledOutside (p : Place) : Prop :=
  ∀ frame ∈ p.frames.tail, ∀ name b, frame.get? name = some b → b = true

theorem Settled.outside {p : Place} (settled : p.Settled) : p.SettledOutside :=
  fun frame member => settled frame (List.mem_of_mem_tail member)

theorem SettledOutside.defines {p : Place} (settled : p.SettledOutside) (name : String) :
    p.DefinesOutside name := by
  intro d found
  obtain ⟨inside, here, -⟩ := List.findIdx?_eq_some_iff_getElem.1 found
  obtain ⟨b, holds⟩ := Table.contains_iff.1 here
  have outer : p.frames[d + 1] ∈ p.frames.tail := by
    rw [← List.drop_one]
    exact List.mem_drop_iff_getElem.2 ⟨d, by omega, by simp [Nat.add_comm]⟩
  obtain rfl := settled _ outer name b holds
  exact ⟨_, List.getElem?_eq_getElem inside, holds⟩

theorem SettledOutside.hold {p : Place} (settled : p.SettledOutside) (name : String) (b : Bool) :
    (p.hold name b).SettledOutside := by
  obtain ⟨frames, context, class_⟩ := p
  cases frames <;> exact settled

theorem Settled.hold {p : Place} (settled : p.Settled) (name : String) :
    (p.hold name true).Settled := by
  obtain ⟨frames, context, class_⟩ := p
  cases frames with
  | nil => exact settled
  | cons frame outer =>
    intro held member key b found
    rcases List.mem_cons.1 member with rfl | member
    · rw [Table.get?_insert] at found
      split at found
      · exact (Option.some.inj found).symm
      · exact settled frame List.mem_cons_self key b found
    · exact settled held (List.mem_cons_of_mem _ member) key b found

theorem Settled.enter {p : Place} (settled : p.Settled) {frame : Frame}
    (defined : ∀ name b, frame.get? name = some b → b = true) : (p.enter frame).Settled := by
  intro held member key b found
  rcases List.mem_cons.1 member with rfl | member
  · exact defined key b found
  · exact settled held member key b found

end Place

/-- A statement adds to the innermost scope at most. -/
theorem Stmt.after_enter (s : Stmt) (p : Place) (frame : Frame) :
    ∃ frame', s.after (p.enter frame) = p.enter frame' := by
  match s with
  | .expression _ | .print _ | .block _ | .returnStmt _ _ => exact ⟨frame, by simp [Stmt.after]⟩
  | .varDecl name _ | .classDecl name _ _ =>
    exact ⟨_, by simp only [Stmt.after]; exact Place.hold_enter p frame name.lexeme true⟩
  | .funDecl f => exact ⟨_, by simp only [Stmt.after]; exact Place.hold_enter p frame _ true⟩
  | .ifThen _ yes =>
    simp only [Stmt.after]
    exact yes.after_enter p frame
  | .ifElse _ yes no =>
    obtain ⟨middle, eq⟩ := yes.after_enter p frame
    simp only [Stmt.after, eq]
    exact no.after_enter p middle
  | .whileLoop _ body =>
    simp only [Stmt.after]
    exact body.after_enter p frame

theorem Stmt.after_settled (s : Stmt) {p : Place} (settled : p.Settled) : (s.after p).Settled := by
  match s with
  | .expression _ | .print _ | .block _ | .returnStmt _ _ => simpa only [Stmt.after] using settled
  | .varDecl _ _ | .classDecl _ _ _ | .funDecl _ =>
    simp only [Stmt.after]
    exact settled.hold _
  | .ifThen _ yes =>
    simp only [Stmt.after]
    exact yes.after_settled settled
  | .ifElse _ yes no =>
    simp only [Stmt.after]
    exact no.after_settled (yes.after_settled settled)
  | .whileLoop _ body =>
    simp only [Stmt.after]
    exact body.after_settled settled

theorem Stmt.afterList_enter (ss : List Stmt) (p : Place) (frame : Frame) :
    ∃ frame', ss.foldl Stmt.after (p.enter frame) = p.enter frame' := by
  induction ss generalizing frame with
  | nil => exact ⟨frame, rfl⟩
  | cons s ss ih =>
    obtain ⟨middle, eq⟩ := s.after_enter p frame
    rw [List.foldl_cons, eq]
    exact ih middle

namespace Scoping

variable {s t : ScopeState}

theorem declare_ok {name : Token} (walk : declare name s = .ok () t) :
    s.place.Vacant name.lexeme ∧ t.place = s.place.hold name.lexeme false ∧
      t.found = s.found := by
  unfold declare at walk
  split at walk
  · rename_i none
    cases walk
    simp [ScopeState.place, Place.Vacant, Place.hold, none]
  · rename_i frame outer some
    split at walk
    · cases walk
    · rename_i vacant
      cases walk
      simpa [ScopeState.place, Place.Vacant, Place.hold, some] using vacant

theorem define_ok {name : String} (walk : define name s = .ok () t) :
    t.place = s.place.hold name true ∧ t.found = s.found := by
  unfold define at walk
  split at walk
  · rename_i none
    cases walk
    simp [ScopeState.place, Place.hold, none]
  · rename_i frame outer some
    cases walk
    simp [ScopeState.place, Place.hold, some]

theorem declareAndDefine_ok {name : Token} (walk : declareAndDefine name s = .ok () t) :
    s.place.Vacant name.lexeme ∧ t.place = s.place.hold name.lexeme true ∧ t.found = s.found := by
  obtain ⟨⟨⟩, u, declared, defined⟩ := bind_ok_iff.1 walk
  obtain ⟨vacant, atDeclared, same⟩ := declare_ok declared
  obtain ⟨atDefined, same'⟩ := define_ok defined
  exact ⟨vacant, by rw [atDefined, atDeclared, Place.hold_hold], same'.trans same⟩

theorem parameters_ok {ps : List Token} {frame : Frame} {outer : List Frame}
    (open_ : s.frames = frame :: outer) (walk : parameters ps s = .ok () t) :
    t = { s with frames := frame.insertAll (ps.map fun p => (p.lexeme, true)) :: outer } := by
  induction ps generalizing s frame with
  | nil =>
    cases walk
    simp [Table.insertAll, ← open_]
  | cons p ps ih =>
    obtain ⟨⟨⟩, u, first, rest⟩ := bind_ok_iff.1 walk
    obtain ⟨⟨⟩, v, declared, defined⟩ := bind_ok_iff.1 first
    simp only [declare, open_] at declared
    split at declared
    · cases declared
    · cases declared
      simp only [define] at defined
      cases defined
      rw [ih rfl rest]
      simp [Table.insertAll, Table.insert_insert]

theorem recordUse_ok {id : ExprId} {name : String} (walk : recordUse id name s = .ok () t) :
    Walked s t [id] s.place fun R => R id (distance? s.frames name) := by
  unfold recordUse at walk
  split at walk
  · rename_i d found
    cases walk
    refine ⟨rfl, [(id, d)], rfl, List.Subperm.refl _, fun R notes => ?_⟩
    rw [found]
    exact notes.1 id d List.mem_cons_self
  · rename_i none
    cases walk
    refine ⟨rfl, [], rfl, List.nil_subperm, fun R notes => ?_⟩
    rw [none]
    exact notes.2 id List.mem_cons_self fun d use => nomatch use

/-- A check changes nothing. -/
theorem checkDefined_ok {name : Token} (settled : s.place.SettledOutside)
    (walk : checkDefined name s = .ok () t) : t = s ∧ s.place.Defines name.lexeme := by
  have same : t = s ∧ ∀ frame outer, s.frames = frame :: outer →
      frame.get? name.lexeme ≠ some false := by
    unfold checkDefined at walk
    split at walk
    · rename_i frame outer eq
      split at walk
      · cases walk
      · rename_i defined
        cases walk
        refine ⟨rfl, fun frame' outer' eq' => ?_⟩
        rw [eq] at eq'
        cases eq'
        exact defined
    · rename_i eq
      cases walk
      exact ⟨rfl, fun frame outer eq' => by simp [eq] at eq'⟩
  refine ⟨same.1, fun d at_ => ?_⟩
  obtain ⟨inside, holds, -⟩ := List.findIdx?_eq_some_iff_getElem.1 at_
  refine ⟨_, List.getElem?_eq_getElem inside, ?_⟩
  obtain ⟨b, bound⟩ := Table.contains_iff.1 holds
  cases b with
  | true => exact bound
  | false =>
    cases frames : s.frames with
    | nil => simp [ScopeState.place, frames] at inside
    | cons frame outer =>
      cases d with
      | zero =>
        simp only [ScopeState.place, frames, List.getElem_cons_zero] at bound
        exact absurd bound (same.2 frame outer frames)
      | succ d =>
        have member : s.place.frames[d + 1] ∈ s.place.frames.tail := by
          simp only [ScopeState.place, frames, List.getElem_cons_succ, List.tail_cons]
          exact List.getElem_mem _
        exact absurd (settled _ member _ _ bound) (by simp)

theorem checkThis_ok {keyword : Token} (walk : checkThis keyword s = .ok () t) :
    t = s ∧ s.class_ ≠ .outside := by
  obtain ⟨u, v, got, checked⟩ := bind_ok_iff.1 walk
  cases got
  split at checked
  · cases checked
  · rename_i inside
    cases checked
    exact ⟨rfl, inside⟩

theorem checkSuper_ok {keyword : Token} (walk : checkSuper keyword s = .ok () t) :
    t = s ∧ s.class_ = .derived := by
  obtain ⟨u, v, got, checked⟩ := bind_ok_iff.1 walk
  cases got
  cases context : s.class_ <;> simp only [context] at checked <;> cases checked
  exact ⟨rfl, rfl⟩

theorem checkReturn_ok {keyword : Token} {hasValue : Bool}
    (walk : checkReturn keyword hasValue s = .ok () t) : t = s ∧ s.function ≠ .outside := by
  obtain ⟨u, v, got, checked⟩ := bind_ok_iff.1 walk
  cases got
  cases context : s.function with
  | outside =>
    simp only [context] at checked
    cases checked
  | function | method =>
    simp only [context] at checked
    cases checked
    exact ⟨rfl, by simp⟩
  | initializer =>
    simp only [context] at checked
    split at checked
    · cases checked
    · cases checked
      exact ⟨rfl, by simp⟩

theorem checkSuperclass_ok {name : Token} {superclass : Expr}
    (walk : checkSuperclass name superclass s = .ok () t) :
    t = s ∧ superclass.Avoids name.lexeme := by
  unfold checkSuperclass at walk
  split at walk
  · split at walk
    · cases walk
    · rename_i differ
      cases walk
      exact ⟨rfl, differ⟩
  · cases walk
    refine ⟨rfl, ?_⟩
    cases superclass <;> first | exact trivial | simp_all

mutual

/-- An expression that the walk accepts is well scoped, and leaves the place as it is. -/
theorem expr_ok (e : Expr) {s t : ScopeState} (settled : s.place.SettledOutside)
    (distinct : e.ids.Nodup) (walk : expr e s = .ok () t) :
    Walked s t e.ids s.place fun R => e.Scoped R s.place := by
  match e with
  | .literal id _ =>
    cases walk
    exact (Walked.nothing s [id]).imp fun _ _ => trivial
  | .grouping id inner | .unary id _ inner | .get id inner _ =>
    simp only [expr] at walk
    exact (expr_ok inner settled distinct.of_append_left walk).closed id distinct
  | .binary id left _ right | .logical id left _ right | .comma id left right =>
    simp only [expr] at walk
    obtain ⟨⟨⟩, u, first, second⟩ := bind_ok_iff.1 walk
    have parts := distinct.of_append_left
    have walkLeft := expr_ok left settled parts.of_append_left first
    have walkRight := expr_ok right (walkLeft.1 ▸ settled) parts.of_append_right second
    rw [walkLeft.1] at walkRight
    exact (walkLeft.seq walkRight parts).closed id distinct
  | .assign id name value =>
    simp only [expr] at walk
    obtain ⟨⟨⟩, u, first, second⟩ := bind_ok_iff.1 walk
    have walkValue := expr_ok value settled distinct.of_append_left first
    have walkUse := recordUse_ok second
    rw [walkValue.1, ← show u.place.frames = u.frames from rfl, walkValue.1] at walkUse
    exact (walkValue.seq walkUse distinct).imp fun R both => ⟨both.1, settled.defines name.lexeme, both.2⟩
  | .var id name =>
    simp only [expr] at walk
    obtain ⟨⟨⟩, u, first, second⟩ := bind_ok_iff.1 walk
    obtain ⟨rfl, defined⟩ := checkDefined_ok settled first
    exact (recordUse_ok second).imp fun R use => ⟨defined, use⟩
  | .call id callee _ arguments =>
    simp only [expr] at walk
    obtain ⟨⟨⟩, u, first, second⟩ := bind_ok_iff.1 walk
    have parts := distinct.of_append_left
    have walkCallee := expr_ok callee settled parts.of_append_left first
    have walkRest := exprs_ok arguments (walkCallee.1 ▸ settled) parts.of_append_right second
    rw [walkCallee.1] at walkRest
    exact (walkCallee.seq walkRest parts).closed id distinct
  | .set id object _ value =>
    -- The value is walked over before the object that stands to its left.
    simp only [expr] at walk
    obtain ⟨⟨⟩, u, first, second⟩ := bind_ok_iff.1 walk
    have parts := distinct.of_append_left
    have walkValue := expr_ok value settled parts.of_append_right first
    have walkObject := expr_ok object (walkValue.1 ▸ settled) parts.of_append_left second
    rw [walkValue.1] at walkObject
    have both := (walkValue.seq walkObject (List.nodup_append_comm.1 parts)).perm
      List.perm_append_comm
    exact (both.closed id distinct).imp fun R parts => parts.symm
  | .this id keyword =>
    simp only [expr] at walk
    obtain ⟨⟨⟩, u, first, second⟩ := bind_ok_iff.1 walk
    obtain ⟨rfl, inside⟩ := checkThis_ok first
    exact (recordUse_ok second).imp fun R use => ⟨inside, use⟩
  | .super id keyword _ =>
    simp only [expr] at walk
    obtain ⟨⟨⟩, u, first, second⟩ := bind_ok_iff.1 walk
    obtain ⟨rfl, derived⟩ := checkSuper_ok first
    exact (recordUse_ok second).imp fun R use => ⟨derived, use⟩
  | .ternary id condition yes no =>
    simp only [expr] at walk
    obtain ⟨⟨⟩, u, first, rest⟩ := bind_ok_iff.1 walk
    obtain ⟨⟨⟩, v, second, third⟩ := bind_ok_iff.1 rest
    have parts := distinct.of_append_left
    have walkCondition := expr_ok condition settled parts.of_append_left.of_append_left first
    have walkYes := expr_ok yes (walkCondition.1 ▸ settled) parts.of_append_left.of_append_right
      second
    rw [walkCondition.1] at walkYes
    have walkNo := expr_ok no (walkYes.1 ▸ settled) parts.of_append_right third
    rw [walkYes.1] at walkNo
    have all := (walkCondition.seq walkYes parts.of_append_left).seq walkNo parts
    exact (all.closed id distinct).imp fun R parts => ⟨parts.1.1, parts.1.2, parts.2⟩

theorem exprs_ok (es : List Expr) {s t : ScopeState} (settled : s.place.SettledOutside)
    (distinct : (Expr.idsList es).Nodup) (walk : exprs es s = .ok () t) :
    Walked s t (Expr.idsList es) s.place fun R => Expr.ScopedList R s.place es := by
  match es with
  | [] =>
    cases walk
    exact Walked.nothing s []
  | e :: es =>
    simp only [exprs] at walk
    obtain ⟨⟨⟩, u, first, second⟩ := bind_ok_iff.1 walk
    have walkFirst := expr_ok e settled distinct.of_append_left first
    have walkRest := exprs_ok es (walkFirst.1 ▸ settled) distinct.of_append_right second
    rw [walkFirst.1] at walkRest
    exact walkFirst.seq walkRest distinct

end

theorem within_ok {enter : ScopeState → ScopeState}
    {leave : ScopeState → ScopeState → ScopeState} {body : Scoping Unit} {s t : ScopeState}
    (walk : within enter leave body s = .ok () t) :
    ∃ u, body (enter s) = .ok () u ∧ t = leave s u := by
  unfold within at walk
  split at walk
  · rename_i u inside
    cases walk
    exact ⟨u, inside, rfl⟩
  · cases walk

end Scoping

section Leave

variable {s s' t t' u : ScopeState} {ids : List ExprId} {p q : Place}
  {S : (ExprId → Option Nat → Prop) → Prop}

/-- What a walk did does not depend on where it is taken to have begun and ended. -/
theorem Walked.relabel (walk : Walked s t ids p S) (begins : s'.found = s.found)
    (ends : t'.found = t.found) (at_ : t'.place = q) : Walked s' t' ids q S := by
  obtain ⟨-, uses, found, known, holds⟩ := walk
  exact ⟨at_, uses, by rw [ends, found, begins], known, holds⟩

theorem Walked.leaveFrame {frame : Frame} (walk : Walked s' u ids (p.enter frame) S)
    (begins : s.found = s'.found) : Walked s { u with frames := u.frames.tail } ids p S := by
  refine walk.relabel begins rfl ?_
  have inside := walk.1
  obtain ⟨outer, context, class_⟩ := p
  simp only [ScopeState.place, Place.enter, Place.mk.injEq] at inside ⊢
  obtain ⟨frames, rfl, rfl⟩ := inside
  simp [frames]

theorem Walked.leaveFunction {context : FunctionContext}
    (walk : Walked s' u ids (p.inFunction context) S) (begins : s.found = s'.found)
    (before : s.function = p.function) :
    Walked s { u with function := s.function } ids p S := by
  refine walk.relabel begins rfl ?_
  have inside := walk.1
  obtain ⟨outer, around, class_⟩ := p
  simp only [ScopeState.place, Place.inFunction, Place.mk.injEq] at inside ⊢
  obtain ⟨rfl, -, rfl⟩ := inside
  exact ⟨rfl, before, rfl⟩

theorem Walked.leaveClass {context : ClassContext}
    (walk : Walked s' u ids (p.inClass context) S) (begins : s.found = s'.found)
    (before : s.class_ = p.class_) : Walked s { u with class_ := s.class_ } ids p S := by
  refine walk.relabel begins rfl ?_
  have inside := walk.1
  obtain ⟨outer, context, around⟩ := p
  simp only [ScopeState.place, Place.inClass, Place.mk.injEq] at inside ⊢
  obtain ⟨rfl, rfl, -⟩ := inside
  exact ⟨rfl, rfl, before⟩

end Leave

theorem settled_thisFrame (name : String) (b : Bool) (found : thisFrame.get? name = some b) :
    b = true := by
  rw [thisFrame, Table.get?_insert] at found
  split at found
  · exact (Option.some.inj found).symm
  · cases found

theorem settled_superFrame (name : String) (b : Bool) (found : superFrame.get? name = some b) :
    b = true := by
  rw [superFrame, Table.get?_insert] at found
  split at found
  · exact (Option.some.inj found).symm
  · cases found

theorem settled_parameterFrame (ps : List Token) (name : String) (b : Bool)
    (found : (parameterFrame ps).get? name = some b) : b = true := by
  rcases Table.get?_insertAll found with listed | before
  · obtain ⟨t, -, eq⟩ := List.mem_map.1 listed
    exact (Prod.mk.inj eq).2.symm
  · cases before

namespace Scoping

section Classes

variable {name : Token} {declared : List FunctionDecl} {s t : ScopeState}
  (each : ∀ {s t : ScopeState}, s.place.Settled → methods declared s = .ok () t →
    Walked s t (FunctionDecl.idsList declared) s.place fun R =>
      FunctionDecl.ScopedList R s.place declared)
  (settled : s.place.Settled)
include each settled

/-- The methods of a class are walked over in a scope of their own, which holds the receiver. -/
theorem baseClass_ok (walk : stmt (.classDecl name none declared) s = .ok () t) :
    Walked s t (Stmt.classDecl name none declared).ids
      ((Stmt.classDecl name none declared).after s.place) fun R =>
        (Stmt.classDecl name none declared).Scoped R s.place := by
  simp only [stmt] at walk
  obtain ⟨⟨⟩, u, named, inner⟩ := bind_ok_iff.1 walk
  obtain ⟨vacant, atNamed, same⟩ := declareAndDefine_ok named
  obtain ⟨v, inClass, rfl⟩ := within_ok inner
  obtain ⟨w, inFrame, rfl⟩ := within_ok inClass
  obtain ⟨⟨⟩, x, this, rest⟩ := bind_ok_iff.1 inFrame
  cases this
  let entered : ScopeState :=
    { u with class_ := .base, frames := Table.empty.insert "this" true :: u.frames }
  have at_ : entered.place = ((s.place.hold name.lexeme true).inClass .base).enter thisFrame := by
    rw [← atNamed]
    rfl
  have settledInside : entered.place.Settled := by
    rw [at_]
    exact Place.Settled.enter (settled.hold _) settled_thisFrame
  have walkMethods := each settledInside rest
  rw [at_] at walkMethods
  have walkClass := walkMethods.leaveFrame (s := { u with class_ := .base }) rfl
  have walkAll := walkClass.leaveClass (s := u) rfl (congrArg Place.class_ atNamed)
  exact (walkAll.relabel same.symm rfl walkAll.1).imp fun _ methods => ⟨vacant, methods⟩

/-- Around the scope of the receiver there is one that holds the superclass. -/
theorem derivedClass_ok {superclass : Expr}
    (distinct : (Stmt.classDecl name (some superclass) declared).ids.Nodup)
    (walk : stmt (.classDecl name (some superclass) declared) s = .ok () t) :
    Walked s t (Stmt.classDecl name (some superclass) declared).ids
      ((Stmt.classDecl name (some superclass) declared).after s.place) fun R =>
        (Stmt.classDecl name (some superclass) declared).Scoped R s.place := by
  simp only [stmt] at walk
  obtain ⟨⟨⟩, u, named, inner⟩ := bind_ok_iff.1 walk
  obtain ⟨vacant, atNamed, same⟩ := declareAndDefine_ok named
  obtain ⟨⟨⟩, u', checked, inherits⟩ := bind_ok_iff.1 inner
  obtain ⟨unchanged, avoids⟩ := checkSuperclass_ok checked
  cases unchanged
  obtain ⟨v, inClass, rfl⟩ := within_ok inherits
  obtain ⟨⟨⟩, w, parent, rest⟩ := bind_ok_iff.1 inClass
  obtain ⟨x, inOuter, rfl⟩ := within_ok rest
  obtain ⟨⟨⟩, y, super, rest⟩ := bind_ok_iff.1 inOuter
  cases super
  obtain ⟨z, inInner, rfl⟩ := within_ok rest
  obtain ⟨⟨⟩, o, this, rest⟩ := bind_ok_iff.1 inInner
  cases this
  let named_ := (s.place.hold name.lexeme true).inClass .derived
  have atClass : ({ u with class_ := .derived } : ScopeState).place = named_ := by
    simp only [named_, ← atNamed]
    rfl
  have walkParent := expr_ok superclass (s := { u with class_ := .derived })
    (atClass ▸ (settled.hold _).outside) distinct.of_append_left parent
  rw [atClass] at walkParent
  let entered : ScopeState := { w with
    frames := Table.empty.insert "this" true :: Table.empty.insert "super" true :: w.frames }
  have at_ : entered.place = (named_.enter superFrame).enter thisFrame := by
    rw [← walkParent.1]
    rfl
  have settledInside : entered.place.Settled := by
    rw [at_]
    exact Place.Settled.enter (Place.Settled.enter (settled.hold _) settled_superFrame)
      settled_thisFrame
  have walkMethods := each settledInside rest
  rw [at_] at walkMethods
  have walkInner := walkMethods.leaveFrame
    (s := { w with frames := Table.empty.insert "super" true :: w.frames }) rfl
  have walkBoth := walkParent.seq (walkInner.leaveFrame (s := w) rfl) distinct
  have walkAll := walkBoth.leaveClass (s := u) rfl (congrArg Place.class_ atNamed)
  refine (walkAll.relabel same.symm rfl walkAll.1).imp fun R both => ?_
  exact ⟨vacant, ⟨avoids, both.1⟩, both.2⟩

end Classes

mutual

theorem stmt_ok (st : Stmt) {s t : ScopeState} (settled : s.place.Settled)
    (distinct : st.ids.Nodup) (walk : stmt st s = .ok () t) :
    Walked s t st.ids (st.after s.place) fun R => st.Scoped R s.place := by
  match st with
  | .expression e | .print e =>
    simp only [stmt] at walk
    exact expr_ok e settled.outside distinct walk
  | .varDecl name none =>
    simp only [stmt] at walk
    obtain ⟨vacant, at_, same⟩ := declareAndDefine_ok walk
    exact ((Walked.nothing s []).relabel rfl same at_).imp fun _ _ => vacant
  | .varDecl name (some e) =>
    simp only [stmt] at walk
    obtain ⟨⟨⟩, u, declared, rest⟩ := bind_ok_iff.1 walk
    obtain ⟨⟨⟩, v, inner, defined⟩ := bind_ok_iff.1 rest
    obtain ⟨vacant, atDeclared, sameDeclared⟩ := declare_ok declared
    obtain ⟨atDefined, sameDefined⟩ := define_ok defined
    have walkValue := expr_ok e (atDeclared ▸ settled.outside.hold _ _) distinct inner
    rw [atDeclared] at walkValue
    have ends : t.place = s.place.hold name.lexeme true := by
      rw [atDefined, walkValue.1, Place.hold_hold]
    exact (walkValue.relabel sameDeclared.symm sameDefined ends).imp fun _ value => ⟨vacant, value⟩
  | .block body =>
    simp only [stmt] at walk
    obtain ⟨u, inside, rfl⟩ := within_ok walk
    let entered : ScopeState := { s with frames := Table.empty :: s.frames }
    have empty : entered.place.Settled :=
      Place.Settled.enter settled fun name b found => nomatch found
    have walkBody := stmts_ok body empty distinct inside
    obtain ⟨last, eq⟩ := Stmt.afterList_enter body s.place Table.empty
    rw [show entered.place = s.place.enter Table.empty from rfl, eq] at walkBody
    exact walkBody.leaveFrame rfl
  | .ifThen condition yes =>
    simp only [stmt] at walk
    obtain ⟨⟨⟩, u, first, second⟩ := bind_ok_iff.1 walk
    have walkCondition := expr_ok condition settled.outside distinct.of_append_left first
    have walkYes := stmt_ok yes (walkCondition.1 ▸ settled) distinct.of_append_right second
    rw [walkCondition.1] at walkYes
    exact walkCondition.seq walkYes distinct
  | .ifElse condition yes no =>
    simp only [stmt] at walk
    obtain ⟨⟨⟩, u, first, rest⟩ := bind_ok_iff.1 walk
    obtain ⟨⟨⟩, v, second, third⟩ := bind_ok_iff.1 rest
    have walkCondition :=
      expr_ok condition settled.outside distinct.of_append_left.of_append_left first
    have walkYes :=
      stmt_ok yes (walkCondition.1 ▸ settled) distinct.of_append_left.of_append_right second
    rw [walkCondition.1] at walkYes
    have walkNo :=
      stmt_ok no (walkYes.1 ▸ yes.after_settled settled) distinct.of_append_right third
    rw [walkYes.1] at walkNo
    refine ((walkCondition.seq walkYes distinct.of_append_left).seq walkNo distinct).imp ?_
    exact fun R parts => ⟨parts.1.1, parts.1.2, parts.2⟩
  | .whileLoop condition body =>
    simp only [stmt] at walk
    obtain ⟨⟨⟩, u, first, second⟩ := bind_ok_iff.1 walk
    have walkCondition := expr_ok condition settled.outside distinct.of_append_left first
    have walkBody := stmt_ok body (walkCondition.1 ▸ settled) distinct.of_append_right second
    rw [walkCondition.1] at walkBody
    exact walkCondition.seq walkBody distinct
  | .funDecl f =>
    simp only [stmt] at walk
    obtain ⟨⟨⟩, u, declared, inner⟩ := bind_ok_iff.1 walk
    obtain ⟨vacant, atDeclared, same⟩ := declareAndDefine_ok declared
    have walkBody := function_ok .function f (atDeclared ▸ settled.hold _) distinct inner
    rw [atDeclared] at walkBody
    exact (walkBody.relabel same.symm rfl walkBody.1).imp fun _ body => ⟨vacant, body⟩
  | .returnStmt keyword none =>
    simp only [stmt] at walk
    obtain ⟨rfl, inside⟩ := checkReturn_ok walk
    exact (Walked.nothing t []).imp fun _ _ => inside
  | .returnStmt keyword (some e) =>
    simp only [stmt] at walk
    obtain ⟨⟨⟩, u, checked, inner⟩ := bind_ok_iff.1 walk
    obtain ⟨rfl, inside⟩ := checkReturn_ok checked
    exact (expr_ok e settled.outside distinct inner).imp fun _ scoped_ => ⟨inside, scoped_⟩
  | .classDecl name none declared =>
    exact baseClass_ok (fun settled inner => methods_ok declared settled distinct inner) settled walk
  | .classDecl name (some superclass) declared =>
    exact derivedClass_ok
      (fun settled inner => methods_ok declared settled distinct.of_append_right inner) settled
      distinct walk

theorem stmts_ok (ss : List Stmt) {s t : ScopeState} (settled : s.place.Settled)
    (distinct : (Stmt.idsList ss).Nodup) (walk : stmts ss s = .ok () t) :
    Walked s t (Stmt.idsList ss) (ss.foldl Stmt.after s.place) fun R =>
      Stmt.ScopedList R s.place ss := by
  match ss with
  | [] =>
    cases walk
    exact Walked.nothing s []
  | st :: ss =>
    simp only [stmts] at walk
    obtain ⟨⟨⟩, u, first, second⟩ := bind_ok_iff.1 walk
    have walkFirst := stmt_ok st settled distinct.of_append_left first
    have walkRest :=
      stmts_ok ss (walkFirst.1 ▸ st.after_settled settled) distinct.of_append_right second
    rw [walkFirst.1] at walkRest
    exact walkFirst.seq walkRest distinct

theorem function_ok (context : FunctionContext) (f : FunctionDecl) {s t : ScopeState}
    (settled : s.place.Settled) (distinct : f.ids.Nodup)
    (walk : function context f s = .ok () t) :
    Walked s t f.ids s.place fun R => f.Scoped R (s.place.inFunction context) := by
  match f with
  | ⟨name, ps, body⟩ =>
    simp only [function] at walk
    obtain ⟨u, inFunction, rfl⟩ := within_ok walk
    obtain ⟨v, inFrame, rfl⟩ := within_ok inFunction
    obtain ⟨⟨⟩, w, bound, inside⟩ := bind_ok_iff.1 inFrame
    cases parameters_ok rfl bound
    let entered : ScopeState := { s with
      function := context,
      frames := Table.empty.insertAll (ps.map fun p => (p.lexeme, true)) :: s.frames }
    have settledInside : entered.place.Settled :=
      Place.Settled.enter (p := s.place.inFunction context) settled (settled_parameterFrame ps)
    have walkBody := stmts_ok body settledInside distinct inside
    obtain ⟨last, eq⟩ :=
      Stmt.afterList_enter body (s.place.inFunction context) (parameterFrame ps)
    rw [show entered.place = (s.place.inFunction context).enter (parameterFrame ps) from rfl,
      eq] at walkBody
    have walkFunction := (walkBody.leaveFrame (s := { s with function := context }) rfl)
    exact (walkFunction.leaveFunction (s := s) rfl rfl).all

theorem methods_ok (fs : List FunctionDecl) {s t : ScopeState} (settled : s.place.Settled)
    (distinct : (FunctionDecl.idsList fs).Nodup) (walk : methods fs s = .ok () t) :
    Walked s t (FunctionDecl.idsList fs) s.place fun R => FunctionDecl.ScopedList R s.place fs := by
  match fs with
  | [] =>
    cases walk
    exact Walked.nothing s []
  | ⟨name, ps, body⟩ :: fs =>
    simp only [methods] at walk
    obtain ⟨⟨⟩, u, first, second⟩ := bind_ok_iff.1 walk
    have walkFirst :=
      function_ok (methodContext name) ⟨name, ps, body⟩ settled distinct.of_append_left first
    have walkRest := methods_ok fs (walkFirst.1 ▸ settled) distinct.of_append_right second
    rw [walkFirst.1] at walkRest
    exact walkFirst.seq walkRest distinct

end

end Scoping

end Lox
