import Mathlib
import Lox.Proofs.Lives
import Lox.Proofs.StaticRules

/-!
Ids in a session: no two expressions of all that a session has ever parsed have the same one, an
expression has a later one than those inside it, and what is recorded for an id is never changed.
-/

namespace Lox

/-- An expression of the program, at whatever depth. -/
def Node (program : List Stmt) (e : Expr) : Prop :=
  ∃ around s whole, Occurs program around s ∧ whole ∈ s.exprs ∧ e ∈ whole.parts

/-! ### Expressions and those inside them -/

namespace Expr

theorem id_mem_ids (e : Expr) : e.id ∈ e.ids := by
  cases e <;> simp [Expr.id, Expr.ids]

theorem idsList_eq (es : List Expr) : idsList es = es.flatMap ids := by
  induction es with
  | nil => rfl
  | cons e es ih => rw [idsList, ih, List.flatMap_cons]

/-- The ids of an expression end with its own. -/
theorem ids_eq (e : Expr) : e.ids = e.children.flatMap ids ++ [e.id] := by
  cases e <;> simp [ids, children, Expr.id, idsList_eq]

theorem ids_of_part {e part : Expr} (member : part ∈ e.parts) : part.ids.Sublist e.ids := by
  refine inward (P := fun part => part.ids.Sublist e.ids) (fun part inside c among => ?_)
    (List.Sublist.refl _) member
  have within : c.ids.Sublist (part.children.flatMap ids) := by
    rw [List.flatMap_def]
    exact List.sublist_flatten_of_mem (List.mem_map_of_mem among)
  rw [ids_eq part] at inside
  exact (within.trans (List.sublist_append_left _ _)).trans inside

/-- The ids of an expression are those of its parts, each as often. -/
theorem ids_perm (e : Expr) : e.ids.Perm (e.parts.map Expr.id) := by
  induction e using induct with
  | each e ih =>
    rw [ids_eq, parts_eq, List.map_cons, List.map_flatMap]
    exact (List.perm_append_singleton _ _).trans ((List.Perm.flatMap_left _ ih).cons _)

/-- An expression that was read has a later id than those inside it. -/
theorem Ordered.part_lt {e part : Expr} (ordered : e.Ordered) (inside : part ∈ e.parts.tail) :
    part.id < e.id := by
  rw [parts_eq, List.tail_cons] at inside
  obtain ⟨c, among, within⟩ := List.mem_flatMap.1 inside
  have earlier : part.id ∈ e.children.flatMap ids :=
    List.mem_flatMap.2 ⟨c, among, (ids_of_part within).subset part.id_mem_ids⟩
  unfold Ordered at ordered
  rw [ids_eq, List.pairwise_append] at ordered
  exact ordered.2.2 _ earlier _ (List.mem_singleton.2 rfl)

end Expr

/-! ### Statements and the expressions in them -/

section Lists

variable {s : Stmt} {ss : List Stmt} {f : FunctionDecl} {fs : List FunctionDecl}

theorem Stmt.ids_sublist (among : s ∈ ss) : s.ids.Sublist (Stmt.idsList ss) := by
  induction ss with
  | nil => cases among
  | cons t ss ih =>
    rcases List.mem_cons.1 among with rfl | among
    · exact List.sublist_append_left _ _
    · exact (ih among).trans (List.sublist_append_right _ _)

theorem FunctionDecl.body_ids_sublist (among : f ∈ fs) :
    (Stmt.idsList f.body).Sublist (FunctionDecl.idsList fs) := by
  induction fs with
  | nil => cases among
  | cons g fs ih =>
    rcases List.mem_cons.1 among with rfl | among
    · obtain ⟨name, parameters, body⟩ := f
      exact List.sublist_append_left _ _
    · exact (ih among).trans (List.sublist_append_right _ _)

theorem Stmt.OrderedList.mem (ordered : Stmt.OrderedList ss) (among : s ∈ ss) : s.Ordered := by
  induction ss with
  | nil => cases among
  | cons t ss ih =>
    rcases List.mem_cons.1 among with rfl | among
    · exact ordered.1
    · exact ih ordered.2 among

theorem FunctionDecl.OrderedList.mem (ordered : FunctionDecl.OrderedList fs) (among : f ∈ fs) :
    Stmt.OrderedList f.body := by
  induction fs with
  | nil => cases among
  | cons g fs ih =>
    rcases List.mem_cons.1 among with rfl | among
    · obtain ⟨name, parameters, body⟩ := f
      exact ordered.1
    · exact ih ordered.2 among

theorem Stmt.idsList_append (ss more : List Stmt) :
    Stmt.idsList (ss ++ more) = Stmt.idsList ss ++ Stmt.idsList more := by
  induction ss with
  | nil => rfl
  | cons s ss ih => simp only [List.cons_append, Stmt.idsList, ih, List.append_assoc]

end Lists

theorem Stmt.exprs_ids_sublist {s : Stmt} {e : Expr} (among : e ∈ s.exprs) :
    e.ids.Sublist s.ids := by
  match s with
  | .expression _ | .print _ | .varDecl _ (some _) | .returnStmt _ (some _) =>
    obtain rfl := List.mem_singleton.1 among
    exact List.Sublist.refl _
  | .ifThen .. | .whileLoop .. | .classDecl _ (some _) _ =>
    obtain rfl := List.mem_singleton.1 among
    exact List.sublist_append_left _ _
  | .ifElse .. =>
    obtain rfl := List.mem_singleton.1 among
    exact (List.sublist_append_left _ _).trans (List.sublist_append_left _ _)

theorem Stmt.Ordered.exprs {s : Stmt} {e : Expr} (ordered : s.Ordered) (among : e ∈ s.exprs) :
    e.Ordered := by
  match s with
  | .expression _ | .print _ | .varDecl _ (some _) | .returnStmt _ (some _) =>
    obtain rfl := List.mem_singleton.1 among
    exact ordered
  | .ifThen .. | .whileLoop .. | .ifElse .. | .classDecl _ (some _) _ =>
    obtain rfl := List.mem_singleton.1 among
    exact ordered.1

namespace Occurs

variable {program : List Stmt} {around : List Enclosure} {s : Stmt}

theorem ids_sublist (occurs : Occurs program around s) : s.ids.Sublist (Stmt.idsList program) := by
  induction occurs with
  | top among => exact Stmt.ids_sublist among
  | block _ among ih => exact (Stmt.ids_sublist among).trans ih
  | ifThen _ ih | whileLoop _ ih | ifElseNo _ ih =>
    exact (List.sublist_append_right _ _).trans ih
  | ifElseYes _ ih =>
    exact ((List.sublist_append_right _ _).trans (List.sublist_append_left _ _)).trans ih
  | @function _ f _ _ among ih =>
    obtain ⟨name, parameters, body⟩ := f
    exact (Stmt.ids_sublist among).trans ih
  | @method _ _ superclass _ _ _ _ isMethod among ih =>
    refine (Stmt.ids_sublist among).trans ((FunctionDecl.body_ids_sublist isMethod).trans ?_)
    cases superclass with
    | none => exact ih
    | some e => exact (List.sublist_append_right _ _).trans ih

theorem ordered (occurs : Occurs program around s) (ordered : Stmt.OrderedList program) :
    s.Ordered := by
  induction occurs with
  | top among => exact ordered.mem among
  | block _ among ih => exact Stmt.OrderedList.mem ih among
  | ifThen _ ih | whileLoop _ ih => exact ih.2
  | ifElseYes _ ih => exact ih.2.1
  | ifElseNo _ ih => exact ih.2.2
  | @function _ f _ _ among ih =>
    obtain ⟨name, parameters, body⟩ := f
    exact Stmt.OrderedList.mem ih among
  | @method _ _ superclass _ _ _ _ isMethod among ih =>
    cases superclass with
    | none => exact (FunctionDecl.OrderedList.mem ih isMethod).mem among
    | some e => exact (FunctionDecl.OrderedList.mem ih.2 isMethod).mem among

end Occurs

section Nodes

variable {program : List Stmt} {e : Expr}

theorem Node.id_mem (node : Node program e) : e.id ∈ Stmt.idsList program := by
  obtain ⟨around, s, whole, occurs, among, part⟩ := node
  have inTree := (Expr.ids_of_part part).trans (Stmt.exprs_ids_sublist among)
  exact (inTree.trans occurs.ids_sublist).subset e.id_mem_ids

theorem Node.ordered (node : Node program e) (ordered : Stmt.OrderedList program) : e.Ordered := by
  obtain ⟨around, s, whole, occurs, among, part⟩ := node
  have outer := (occurs.ordered ordered).exprs among
  exact List.Pairwise.sublist (Expr.ids_of_part part) outer

end Nodes

section Given

variable {program : List Stmt} {id : ExprId}

/-- The id is that of an expression of the program. -/
def Given (program : List Stmt) (id : ExprId) : Prop := ∃ e, Node program e ∧ e.id = id

theorem given_of_expr {around : List Enclosure} {s : Stmt} {e : Expr}
    (occurs : Occurs program around s) (among : e ∈ s.exprs) (member : id ∈ e.ids) :
    Given program id := by
  obtain ⟨part, inside, same⟩ := List.mem_map.1 (e.ids_perm.subset member)
  exact ⟨part, ⟨around, s, e, occurs, among, inside⟩, same⟩

mutual

theorem given_of_stmt (s : Stmt) {around : List Enclosure} (occurs : Occurs program around s)
    (member : id ∈ s.ids) : Given program id := by
  match s with
  | .expression e | .print e | .varDecl _ (some e) | .returnStmt _ (some e) =>
    exact given_of_expr occurs (List.mem_singleton.2 rfl) member
  | .varDecl _ none | .returnStmt _ none => cases member
  | .block body => exact given_of_stmts body (fun s among => .block occurs among) member
  | .ifThen condition yes =>
    rcases List.mem_append.1 member with member | member
    · exact given_of_expr occurs (List.mem_singleton.2 rfl) member
    · exact given_of_stmt yes (.ifThen occurs) member
  | .ifElse condition yes no =>
    rcases List.mem_append.1 member with member | member
    · rcases List.mem_append.1 member with member | member
      · exact given_of_expr occurs (List.mem_singleton.2 rfl) member
      · exact given_of_stmt yes (.ifElseYes occurs) member
    · exact given_of_stmt no (.ifElseNo occurs) member
  | .whileLoop condition body =>
    rcases List.mem_append.1 member with member | member
    · exact given_of_expr occurs (List.mem_singleton.2 rfl) member
    · exact given_of_stmt body (.whileLoop occurs) member
  | .funDecl ⟨name, parameters, body⟩ =>
    exact given_of_stmts body (fun s among => .function occurs among) member
  | .classDecl name none methods =>
    exact given_of_methods methods occurs (fun f isMethod => isMethod) member
  | .classDecl name (some e) methods =>
    rcases List.mem_append.1 member with member | member
    · exact given_of_expr occurs (List.mem_singleton.2 rfl) member
    · exact given_of_methods methods occurs (fun f isMethod => isMethod) member

theorem given_of_stmts (ss : List Stmt) {around : List Enclosure}
    (occurs : ∀ s ∈ ss, Occurs program around s) (member : id ∈ Stmt.idsList ss) :
    Given program id := by
  match ss with
  | [] => cases member
  | s :: ss =>
    rcases List.mem_append.1 member with member | member
    · exact given_of_stmt s (occurs s List.mem_cons_self) member
    · exact given_of_stmts ss (fun s among => occurs s (List.mem_cons_of_mem _ among)) member

theorem given_of_methods (fs : List FunctionDecl) {around : List Enclosure} {name : Token}
    {superclass : Option Expr} {methods : List FunctionDecl}
    (occurs : Occurs program around (.classDecl name superclass methods))
    (among : ∀ f ∈ fs, f ∈ methods) (member : id ∈ FunctionDecl.idsList fs) :
    Given program id := by
  match fs with
  | [] => cases member
  | ⟨own, parameters, body⟩ :: fs =>
    rcases List.mem_append.1 member with member | member
    · have isMethod := among ⟨own, parameters, body⟩ List.mem_cons_self
      exact given_of_stmts body (fun s inBody => .method occurs isMethod inBody) member
    · exact given_of_methods fs occurs (fun f later => among f (List.mem_cons_of_mem _ later)) member

end

/-- The ids in the trees of a program are those of its expressions. -/
theorem mem_idsList_iff : id ∈ Stmt.idsList program ↔ Given program id := by
  constructor
  · exact given_of_stmts program fun s among => .top among
  · rintro ⟨e, node, rfl⟩
    exact node.id_mem

end Given

/-! ### What a chunk does to ids and distances -/

namespace Chunk

variable (c : Chunk)

theorem trees_ordered : Stmt.OrderedList c.trees := by
  unfold trees
  split
  · exact (Session.chunk_read c.source c.session.nextId).2.2
  · exact trivial

/-- The ids of the trees are given out by the parse of the chunk. -/
theorem trees_read :
    Handed c.session.nextId (c.session.reading c.source).nextId (Stmt.idsList c.trees) := by
  have handed := Session.program_handed c.session c.source
  unfold trees
  split
  · exact handed
  · exact ⟨handed.le, List.nodup_nil, fun id member => nomatch member⟩

/-- They are not given out again. -/
theorem trees_handed :
    Handed c.session.nextId c.after.nextId (Stmt.idsList c.trees) := by
  obtain ⟨s, fuel, source⟩ := c
  have handed := Session.program_handed s source
  unfold after trees
  dsimp only
  rcases s.accepts_or_rejects source with accepts | ⟨faults, after, rejects⟩
  · rw [if_pos accepts.scanned, Session.run_accepted fuel accepts]
    exact handed
  · rw [Session.run_rejected fuel rejects]
    cases rejects with
    | lex errors =>
      rw [if_neg errors]
      exact Handed.nil _
    | parse scanned | resolve scanned =>
      rw [if_pos scanned]
      exact handed

variable {c} {id : ExprId}

/-- Distances are written for expressions of the chunk only. -/
theorem distances_other (sound : c.session.Sound) (other : id ∉ Stmt.idsList c.trees) :
    c.after.machine.distances[id]? = c.session.machine.distances[id]? := by
  obtain ⟨s, fuel, source⟩ := c
  have written : ∀ scanned : Scan.errors (Scan.items source) = [],
      (s.bound source).machine.distances[id]? = s.machine.distances[id]? := by
    intro scanned
    simp only [trees, if_pos scanned] at other
    refine Machine.setDistances_other fun use member same => other ?_
    exact same ▸ resolve_found (s.program source) use member
  unfold after
  rcases s.accepts_or_rejects source with accepts | ⟨faults, after, rejects⟩
  · have kept := Session.Sound.kept sound accepts fuel
    rw [Session.run_accepted fuel accepts]
    exact (congrArg (·[id]?) kept.distances).trans (written accepts.scanned)
  · rw [Session.run_rejected fuel rejects]
    cases rejects with
    | lex | parse => rfl
    | resolve scanned => exact written scanned

theorem distances_kept (sound : c.session.Sound) {d : Nat}
    (recorded : c.session.machine.distances[id]? = some d) :
    c.after.machine.distances[id]? = some d := by
  refine (distances_other sound fun member => ?_).trans recorded
  have unrecorded := sound.fresh id ((c.trees_read.bounds id member).1)
  rw [unrecorded] at recorded
  cases recorded

end Chunk

namespace Session.Life

variable {chunks : List Chunk} {s : Session}

theorem chunk_sound (life : Life chunks s) {c : Chunk} (given : c ∈ chunks) : c.session.Sound := by
  induction life with
  | initial => cases given
  | run before fuel source ih =>
    rcases List.mem_cons.1 given with rfl | earlier
    · exact before.reachable.sound
    · exact ih earlier
  | defineGlobal _ _ _ ih | makeNative _ _ ih | resume _ _ _ ih => exact ih given

/-- All ids in all trees of the session were given out once. -/
theorem handed (life : Life chunks s) :
    Handed 0 s.nextId (Stmt.idsList (chunks.flatMap Chunk.trees)) := by
  induction life with
  | initial => exact Handed.nil 0
  | @run chunks s before fuel source ih =>
    rw [List.flatMap_cons, Stmt.idsList_append]
    exact (ih.append (Chunk.trees_handed ⟨s, fuel, source⟩)).perm List.perm_append_comm
  | defineGlobal _ _ _ ih | makeNative _ _ ih | resume _ _ _ ih => exact ih

/-- What has been recorded by the end of a chunk stays. -/
theorem distances_kept (life : Life chunks s) {c : Chunk} (given : c ∈ chunks) {id : ExprId}
    {d : Nat} (recorded : c.after.machine.distances[id]? = some d) :
    s.machine.distances[id]? = some d := by
  induction life with
  | initial => cases given
  | @run _ s before fuel source ih =>
    rcases List.mem_cons.1 given with rfl | earlier
    · exact recorded
    · exact Chunk.distances_kept (c := ⟨s, fuel, source⟩) before.reachable.sound (ih earlier)
  | defineGlobal _ _ _ ih | makeNative _ _ ih | resume _ _ _ ih => exact ih given

/-- Expressions of all chunks of a session have ids that differ, whatever the chunks end with. In
each parse ids lie between its first and its next one, and an expression has a later one than those
inside it. A chunk writes distances for its own expressions only, and what was recorded before it,
or by it, is never changed. -/
theorem ids_apart (life : Life chunks s) :
    (Stmt.idsList (chunks.flatMap Chunk.trees)).Nodup ∧
      ∀ c ∈ chunks,
        (∀ e, Node c.trees e →
          (c.session.nextId ≤ e.id ∧ e.id < (c.session.reading c.source).nextId) ∧
            ∀ part ∈ e.parts.tail, part.id < e.id) ∧
        (∀ id, c.after.machine.distances[id]? ≠ c.session.machine.distances[id]? →
          Given c.trees id) ∧
        ∀ (id : ExprId) (d : Nat), (c.session.machine.distances[id]? = some d ∨
            c.after.machine.distances[id]? = some d) → s.machine.distances[id]? = some d := by
  refine ⟨life.handed.distinct, fun c given => ⟨fun e node => ⟨?_, fun part inside => ?_⟩,
    fun id changed => ?_, fun id d recorded => ?_⟩⟩
  · exact c.trees_read.bounds e.id node.id_mem
  · exact (node.ordered c.trees_ordered).part_lt inside
  · by_contra other
    exact changed (Chunk.distances_other (life.chunk_sound given) (mt mem_idsList_iff.1 other))
  · rcases recorded with earlier | own
    · exact life.distances_kept given (Chunk.distances_kept (life.chunk_sound given) earlier)
    · exact life.distances_kept given own

end Session.Life

namespace Session

/-- One text with an error of the grammar, one that reads a variable in its own initializer, and one
without fault. -/
def unevenTexts : List Chunk :=
  let first := Session.initial .unlimited 0
  let second := (first.run 9 "print true; var ;").2
  let third := (second.run 9 "{ var a = nil; print a; var b = b; }").2
  [⟨third, 9, "{ var a; a = nil; }"⟩, ⟨second, 9, "{ var a = nil; print a; var b = b; }"⟩,
    ⟨first, 9, "print true; var ;"⟩]

theorem ids_apart_unevenTexts :
    ∃ s, Life unevenTexts s ∧ Stmt.idsList (unevenTexts.flatMap Chunk.trees) = [5, 6, 1, 2, 3, 0] ∧
      (Stmt.idsList (unevenTexts.flatMap Chunk.trees)).Nodup := by
  have life : Life unevenTexts _ :=
    (((Life.initial .unlimited 0).run 9 _).run 9 _).run 9 _
  exact ⟨_, life, by decide +kernel, life.ids_apart.1⟩

end Session

end Lox
