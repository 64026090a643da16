import Mathlib
import Lox.Proofs.RejectedPrograms
import Lox.Proofs.ScopeWalk
import Lox.Proofs.Uses

/-!
The distances that are recorded are the lexical ones. The traversal of a program is told as one
list: where scopes are opened and closed, where names are declared, and the nodes of expressions in
between. What a node sees is told by this list alone: the scopes that are open when the traversal
comes to the node, and the names that have been declared in them until then.
-/

namespace Lox

open Scoping (distance?)

/-- What the traversal of a program meets. -/
inductive Visit where
  | opens
  | closes
  | declares (name : String)
  | node (e : Expr)

/-- The nodes of an expression. Nothing is declared between them. -/
def Expr.visits (e : Expr) : List Visit := e.parts.map .node

mutual

/-- The name of a declaration comes before the initializer, the body or the superclass. -/
def Stmt.visits : Stmt → List Visit
  | .expression e => e.visits
  | .print e => e.visits
  | .varDecl name none => [.declares name.lexeme]
  | .varDecl name (some e) => .declares name.lexeme :: e.visits
  | .block body => .opens :: Stmt.visitsList body ++ [.closes]
  | .ifThen condition yes => condition.visits ++ yes.visits
  | .ifElse condition yes no => condition.visits ++ yes.visits ++ no.visits
  | .whileLoop condition body => condition.visits ++ body.visits
  | .funDecl f => .declares f.name.lexeme :: f.visits
  | .returnStmt _ none => []
  | .returnStmt _ (some e) => e.visits
  | .classDecl name none methods =>
      .declares name.lexeme :: .opens :: .declares "this" :: FunctionDecl.visitsList methods ++
        [.closes]
  | .classDecl name (some e) methods =>
      .declares name.lexeme :: e.visits ++ .opens :: .declares "super" :: .opens ::
        .declares "this" :: FunctionDecl.visitsList methods ++ [.closes, .closes]

def Stmt.visitsList : List Stmt → List Visit
  | [] => []
  | s :: ss => s.visits ++ Stmt.visitsList ss

/-- Parameters and body share one scope. -/
def FunctionDecl.visits : FunctionDecl → List Visit
  | ⟨_, parameters, body⟩ =>
      .opens :: parameters.map (fun t => .declares t.lexeme) ++ Stmt.visitsList body ++ [.closes]

def FunctionDecl.visitsList : List FunctionDecl → List Visit
  | [] => []
  | f :: fs => f.visits ++ FunctionDecl.visitsList fs

end

namespace Visit

def rise : Nat → Visit → Option Nat
  | n, opens => some (n + 1)
  | 0, closes => none
  | n + 1, closes => some n
  | n, declares _ => some n
  | n, node _ => some n

/-- How many of the scopes that are opened here are open at the end. There is no such number if a
scope is closed that was not opened here. -/
def height (visits : List Visit) : Option Nat := visits.foldlM rise 0

/-- The name is declared here, and not in a scope that is opened here. -/
def Direct (name : String) (visits : List Visit) : Prop :=
  ∃ first rest, visits = first ++ declares name :: rest ∧ height first = some 0

/-- Of the scopes that are open after these visits, the one with `d` others inside of it has declared
the name. -/
def Declared (before : List Visit) (name : String) (d : Nat) : Prop :=
  ∃ outer inside, before = outer ++ opens :: inside ∧ height inside = some d ∧ Direct name inside

def use? : Visit → Option (ExprId × Token)
  | node e => e.use?
  | _ => none

/-! ### Names of the open scopes -/

/-- The names declared so far in each open scope, the innermost first. -/
def onto : List (List String) → Visit → List (List String)
  | names, opens => [] :: names
  | names, closes => names.tail
  | [], declares _ => []
  | own :: outer, declares name => (name :: own) :: outer
  | names, node _ => names

def names (visits : List Visit) : List (List String) := visits.foldl onto []

theorem height_concat (visits : List Visit) (v : Visit) :
    height (visits ++ [v]) = (height visits).bind (rise · v) := by
  simp [height, List.foldlM_append]

theorem direct_concat {name : String} {visits : List Visit} {v : Visit} :
    Direct name (visits ++ [v]) ↔
      Direct name visits ∨ (v = declares name ∧ height visits = some 0) := by
  constructor
  · rintro ⟨first, rest, same, isZero⟩
    rcases List.eq_nil_or_concat rest with rfl | ⟨rest, last, rfl⟩
    · obtain ⟨rfl, single⟩ := List.append_inj' same rfl
      exact .inr ⟨(List.cons.inj single).1, isZero⟩
    · rw [List.concat_eq_append, ← List.cons_append, ← List.append_assoc] at same
      exact .inl ⟨first, rest, (List.append_inj' same rfl).1, isZero⟩
  · rintro (⟨first, rest, rfl, isZero⟩ | ⟨rfl, isZero⟩)
    · exact ⟨first, rest ++ [v], by simp, isZero⟩
    · exact ⟨visits, [], rfl, isZero⟩

/-- What happens in a scope leaves those around it alone, and gives it the names that are declared in
it directly. -/
theorem foldl_onto {inside : List Visit} {d : Nat} (isHeight : height inside = some d) :
    ∃ inner own, inner.length = d ∧
      (∀ outer, inside.foldl onto ([] :: outer) = inner ++ own :: outer) ∧
      ∀ name, name ∈ own ↔ Direct name inside := by
  induction inside using List.reverseRecOn generalizing d with
  | nil =>
    cases isHeight
    exact ⟨[], [], rfl, fun _ => rfl, by simp [Direct]⟩
  | append_singleton inside v ih =>
    rw [height_concat] at isHeight
    obtain ⟨k, before, rises⟩ := Option.bind_eq_some_iff.1 isHeight
    obtain ⟨inner, own, length, folds, holds⟩ := ih before
    cases v with
    | opens =>
      cases rises
      refine ⟨[] :: inner, own, congrArg (· + 1) length, ?_, ?_⟩
      · intro outer
        rw [List.foldl_append, folds]
        rfl
      · intro name
        rw [direct_concat, holds]
        simp
    | closes =>
      cases inner with
      | nil =>
        cases length
        cases rises
      | cons top inner =>
        cases length
        cases rises
        refine ⟨inner, own, rfl, ?_, ?_⟩
        · intro outer
          rw [List.foldl_append, folds]
          rfl
        · intro name
          rw [direct_concat, holds]
          simp
    | node e =>
      cases rises
      refine ⟨inner, own, length, ?_, ?_⟩
      · intro outer
        rw [List.foldl_append, folds]
        cases inner <;> rfl
      · intro name
        rw [direct_concat, holds]
        simp
    | declares declared =>
      cases rises
      cases inner with
      | nil =>
        cases length
        refine ⟨[], declared :: own, rfl, ?_, ?_⟩
        · intro outer
          rw [List.foldl_append, folds]
          rfl
        · intro name
          rw [direct_concat, List.mem_cons, holds, declares.injEq]
          grind
      | cons top inner =>
        refine ⟨(declared :: top) :: inner, own, length, ?_, ?_⟩
        · intro outer
          rw [List.foldl_append, folds]
          rfl
        · intro name
          rw [direct_concat, holds, before, ← length]
          simp

/-- An open scope was opened somewhere. -/
theorem opened {before : List Visit} {d : Nat} (isOpen : d < (names before).length) :
    ∃ outer inside, before = outer ++ opens :: inside ∧ height inside = some d := by
  induction before using List.reverseRecOn generalizing d with
  | nil => exact absurd isOpen (Nat.not_lt_zero d)
  | append_singleton before v ih =>
    have later {k : Nat} (isOpen : k < (names before).length) (rises : rise k v = some d) :
        ∃ outer inside, before ++ [v] = outer ++ opens :: inside ∧ height inside = some d := by
      obtain ⟨outer, inside, rfl, isHeight⟩ := ih isOpen
      refine ⟨outer, inside ++ [v], by simp, ?_⟩
      rw [height_concat, isHeight]
      exact rises
    rw [names, List.foldl_append] at isOpen
    change d < (onto (names before) v).length at isOpen
    cases v with
    | opens =>
      cases d with
      | zero => exact ⟨before, [], rfl, rfl⟩
      | succ d => exact later (Nat.lt_of_succ_lt_succ isOpen) rfl
    | closes =>
      rw [onto, List.length_tail] at isOpen
      exact later (k := d + 1) (by omega) rfl
    | node e =>
      refine later (k := d) ?_ rfl
      cases known : names before <;> rw [known] at isOpen <;> exact isOpen
    | declares name =>
      refine later (k := d) ?_ rfl
      cases known : names before <;> rw [known] at isOpen <;> exact isOpen

/-- The names of the open scopes are those that have been declared in them. -/
theorem declared_iff {before : List Visit} {name : String} {d : Nat} :
    Declared before name d ↔ ∃ own, (names before)[d]? = some own ∧ name ∈ own := by
  have at_ (outer : List Visit) {inside : List Visit} (isHeight : height inside = some d) :
      ∃ own, (names (outer ++ opens :: inside))[d]? = some own ∧
        (name ∈ own ↔ Direct name inside) := by
    obtain ⟨inner, own, rfl, folds, holds⟩ := foldl_onto isHeight
    refine ⟨own, ?_, holds name⟩
    rw [names, List.foldl_append, List.foldl_cons]
    change (inside.foldl onto ([] :: names outer))[inner.length]? = some own
    rw [folds]
    simp
  constructor
  · rintro ⟨outer, inside, rfl, isHeight, direct⟩
    obtain ⟨own, known, holds⟩ := at_ outer isHeight
    exact ⟨own, known, holds.2 direct⟩
  · rintro ⟨own, known, among⟩
    obtain ⟨isOpen, -⟩ := List.getElem?_eq_some_iff.1 known
    obtain ⟨outer, inside, rfl, isHeight⟩ := opened isOpen
    obtain ⟨found, known', holds⟩ := at_ outer isHeight
    obtain rfl := Option.some.inj (known.symm.trans known')
    exact ⟨outer, inside, rfl, isHeight, holds.1 among⟩

end Visit

/-! ### Places in the traversal -/

section Places

variable {R : ExprId → Option Nat → Prop} {p : Place} {names : List (List String)}

/-- The scopes of the place hold these names. -/
def Place.Shows (p : Place) (names : List (List String)) : Prop :=
  List.Forall₂ (fun (frame : Frame) own => ∀ name, frame.contains name = true ↔ name ∈ own) p.frames
    names

namespace Place.Shows

theorem distance (shows : p.Shows names) (name : String) :
    distance? p.frames name = names.findIdx? fun own => decide (name ∈ own) := by
  unfold Place.Shows at shows
  generalize p.frames = frames at shows ⊢
  induction shows with
  | nil => rfl
  | @cons frame own frames names same _ ih =>
    have here : frame.contains name = decide (name ∈ own) := by
      rw [Bool.eq_iff_iff, same, decide_eq_true_eq]
    have further : distance? frames name = names.findIdx? fun own => decide (name ∈ own) := ih
    unfold distance? at further ⊢
    rw [List.findIdx?_cons, List.findIdx?_cons, further, here]

theorem declare (shows : p.Shows names) (name : String) (b : Bool) :
    (p.hold name b).Shows (Visit.onto names (.declares name)) := by
  obtain ⟨frames, context, class_⟩ := p
  cases shows with
  | nil => exact .nil
  | cons same rest =>
    refine .cons ?_ rest
    intro key
    rw [Table.contains_insert, List.mem_cons, Bool.or_eq_true, decide_eq_true_eq, same, eq_comm]

theorem enter (shows : p.Shows names) {frame : Frame} {own : List String}
    (same : ∀ name, frame.contains name = true ↔ name ∈ own) : (p.enter frame).Shows (own :: names) :=
  .cons same shows

/-- When a scope is closed what was around it is left. -/
theorem leave {frame : Frame} (shows : (p.enter frame).Shows names) : p.Shows names.tail := by
  cases shows with
  | cons _ rest => exact rest

end Place.Shows

namespace Visit

/-- For each node on the way that is a use of a name, the distance is recorded that the names of the
open scopes give. -/
def Records (R : ExprId → Option Nat → Prop) (names : List (List String)) (visits : List Visit) :
    Prop :=
  ∀ before e after, visits = before ++ node e :: after → ∀ id token, e.use? = some (id, token) →
    R id ((before.foldl onto names).findIdx? fun own => decide (token.lexeme ∈ own))

namespace Records

variable {visits more : List Visit}

theorem append (first : Records R names visits)
    (second : Records R (visits.foldl onto names) more) : Records R names (visits ++ more) := by
  intro before e after same id token use
  rcases List.append_eq_append_iff.1 same with ⟨between, rfl, rest⟩ | ⟨between, rfl, rest⟩
  · rw [List.foldl_append]
    exact second between e after rest id token use
  · cases between with
    | nil =>
      rw [List.append_nil] at second
      exact second [] e after rest.symm id token use
    | cons v between =>
      obtain ⟨rfl, -⟩ := List.cons.inj rest
      exact first before e between rfl id token use

/-- A visit that is no node. -/
theorem cons {v : Visit} (other : ∀ e, v ≠ node e) (rest : Records R (onto names v) visits) :
    Records R names (v :: visits) := by
  intro before e after same id token use
  cases before with
  | nil => exact absurd (List.cons.inj same).1 (other e)
  | cons first before =>
    obtain ⟨rfl, remaining⟩ := List.cons.inj same
    exact rest before e after remaining id token use

theorem nil : Records R names [] := by
  intro before e after same
  exact absurd same (by simp)

theorem closing (visited : Records R names visits) (closings : Nat) :
    Records R names (visits ++ List.replicate closings closes) := by
  apply visited.append
  generalize visits.foldl onto names = names
  induction closings generalizing names with
  | zero => exact nil
  | succ closings ih => exact .cons nofun (ih _)

/-- Nothing is declared within an expression. -/
theorem nodes (shows : p.Shows names) (es : List Expr) (inside : ∀ e ∈ es, e.Scoped R p) :
    Records R names (es.map .node) := by
  induction es with
  | nil => exact nil
  | cons e es ih =>
    rw [List.map_cons, ← List.singleton_append]
    refine append ?_ (ih fun e' among => inside e' (List.mem_cons_of_mem _ among))
    intro before e' after same id token use
    cases before with
    | nil =>
      cases same
      have recorded := (inside e List.mem_cons_self).use use
      rwa [shows.distance] at recorded
    | cons first before =>
      have length := congrArg List.length same
      simp at length

end Records

theorem foldl_nodes (es : List Expr) (names : List (List String)) :
    (es.map node).foldl onto names = names := by
  induction es with
  | nil => rfl
  | cons e es ih =>
    rw [List.map_cons, List.foldl_cons]
    cases names <;> exact ih

theorem foldl_declares (ps : List Token) (own : List String) (names : List (List String)) :
    (ps.map fun t => declares t.lexeme).foldl onto (own :: names) =
      ((ps.map (·.lexeme)).reverse ++ own) :: names := by
  induction ps generalizing own with
  | nil => rfl
  | cons t ps ih =>
    rw [List.map_cons, List.foldl_cons]
    refine (ih (t.lexeme :: own)).trans ?_
    simp

theorem records_declares (ps : List Token) (names : List (List String)) :
    Records R names (ps.map fun t => declares t.lexeme) := by
  induction ps generalizing names with
  | nil => exact .nil
  | cons t ps ih => exact .cons nofun (ih _)

end Visit

open Visit (onto)

theorem Expr.visits_record (e : Expr) (shows : p.Shows names) (inside : e.Scoped R p) :
    Visit.Records R names e.visits ∧ e.visits.foldl onto names = names := by
  constructor
  · exact Visit.Records.nodes shows e.parts fun part among => inside.part among
  · exact Visit.foldl_nodes e.parts names

theorem parameterFrame_contains (ps : List Token) (name : String) :
    (parameterFrame ps).contains name = true ↔ name ∈ (ps.map (·.lexeme)).reverse ++ [] := by
  rw [parameterFrame, Table.contains_insertAll]
  simp [Table.contains, Table.get?_empty, Function.comp_def]

theorem keywordFrame_contains (keyword name : String) :
    (Table.insert Table.empty keyword true).contains name = true ↔ name ∈ [keyword] := by
  rw [Table.contains_insert, Bool.or_eq_true, decide_eq_true_eq, List.mem_singleton, eq_comm]
  simp [Table.contains, Table.get?_empty]

/-- What is visited in a scope of its own: the scopes around are left as they were. -/
theorem Visit.Records.scope {frame : Frame} (visits : List Visit)
    (visited : Visit.Records R ([] :: names) visits)
    (shows : (p.enter frame).Shows (visits.foldl onto ([] :: names))) :
    Visit.Records R names (Visit.opens :: visits ++ [Visit.closes]) ∧
      p.Shows ((Visit.opens :: visits ++ [Visit.closes]).foldl onto names) := by
  constructor
  · exact .cons nofun (visited.closing 1)
  · rw [List.foldl_append]
    exact shows.leave

mutual

theorem Stmt.visits_record (s : Stmt) {p : Place} {names : List (List String)}
    (inside : s.Scoped R p) (shows : p.Shows names) :
    Visit.Records R names s.visits ∧ (s.after p).Shows (s.visits.foldl onto names) := by
  match s with
  | .expression e | .print e =>
    obtain ⟨visited, same⟩ := e.visits_record shows inside
    rw [Stmt.visits, same]
    exact ⟨visited, shows⟩
  | .varDecl name none =>
    exact ⟨.cons nofun .nil, shows.declare name.lexeme true⟩
  | .varDecl name (some e) =>
    obtain ⟨visited, same⟩ := e.visits_record (shows.declare name.lexeme false) inside.2
    rw [Stmt.visits, List.foldl_cons, same]
    exact ⟨.cons nofun visited, shows.declare name.lexeme true⟩
  | .block body =>
    have opened : (p.enter Table.empty).Shows ([] :: names) :=
      shows.enter (by simp [Table.contains, Table.get?_empty])
    obtain ⟨visited, after⟩ := Stmt.visitsList_record body inside opened
    obtain ⟨frame, same⟩ := Stmt.afterList_enter body p Table.empty
    rw [same] at after
    exact visited.scope _ after
  | .ifThen condition yes =>
    obtain ⟨visited, same⟩ := condition.visits_record shows inside.1
    obtain ⟨visitedYes, after⟩ := yes.visits_record inside.2 shows
    rw [← same] at visitedYes after
    refine ⟨visited.append visitedYes, ?_⟩
    rw [Stmt.visits, List.foldl_append]
    exact after
  | .ifElse condition yes no =>
    obtain ⟨visited, same⟩ := condition.visits_record shows inside.1
    obtain ⟨visitedYes, afterYes⟩ := yes.visits_record inside.2.1 shows
    obtain ⟨visitedNo, after⟩ := no.visits_record inside.2.2 afterYes
    have folded : (condition.visits ++ yes.visits).foldl onto names = yes.visits.foldl onto names := by
      rw [List.foldl_append, same]
    rw [← same] at visitedYes
    rw [← folded] at visitedNo after
    refine ⟨(visited.append visitedYes).append visitedNo, ?_⟩
    rw [Stmt.visits, List.foldl_append]
    exact after
  | .whileLoop condition body =>
    obtain ⟨visited, same⟩ := condition.visits_record shows inside.1
    obtain ⟨visitedBody, after⟩ := body.visits_record inside.2 shows
    rw [← same] at visitedBody after
    refine ⟨visited.append visitedBody, ?_⟩
    rw [Stmt.visits, List.foldl_append]
    exact after
  | .funDecl f =>
    obtain ⟨visited, after⟩ := f.visits_record inside.2 (shows.declare f.name.lexeme true)
    exact ⟨.cons nofun visited, after⟩
  | .returnStmt _ none => exact ⟨.nil, shows⟩
  | .returnStmt _ (some e) =>
    obtain ⟨visited, same⟩ := e.visits_record shows inside.2
    rw [Stmt.visits, same]
    exact ⟨visited, shows⟩
  | .classDecl name none methods =>
    have named := shows.declare name.lexeme true
    have this := named.enter (keywordFrame_contains "this")
    obtain ⟨visited, after⟩ := FunctionDecl.visitsList_record methods inside.2 this
    obtain ⟨visits, left⟩ := Visit.Records.scope
      (.declares "this" :: FunctionDecl.visitsList methods) (.cons nofun visited) after
    exact ⟨.cons nofun visits, left⟩
  | .classDecl name (some e) methods =>
    have named := shows.declare name.lexeme true
    have super := named.enter (keywordFrame_contains "super")
    have this := super.enter (keywordFrame_contains "this")
    obtain ⟨visitedParent, same⟩ := e.visits_record (p := (p.hold name.lexeme true).inClass .derived) named
      inside.2.1.2
    obtain ⟨visited, after⟩ := FunctionDecl.visitsList_record methods inside.2.2 this
    obtain ⟨visitsInner, leftInner⟩ := Visit.Records.scope
      (.declares "this" :: FunctionDecl.visitsList methods) (.cons nofun visited) after
    obtain ⟨visitsOuter, left⟩ := Visit.Records.scope
      (.declares "super" :: (.opens :: .declares "this" ::
        FunctionDecl.visitsList methods ++ [.closes])) (.cons nofun visitsInner) leftInner
    rw [← same] at visitsOuter left
    have whole := visitedParent.append visitsOuter
    rw [← List.foldl_append] at left
    have shape : Stmt.visits (.classDecl name (some e) methods) =
        .declares name.lexeme :: (e.visits ++ (.opens :: (.declares "super" :: .opens ::
          .declares "this" :: FunctionDecl.visitsList methods ++ [.closes]) ++ [.closes])) := by
      simp [Stmt.visits]
    rw [shape]
    exact ⟨.cons nofun whole, left⟩

theorem Stmt.visitsList_record (ss : List Stmt) {p : Place} {names : List (List String)}
    (inside : Stmt.ScopedList R p ss) (shows : p.Shows names) :
    Visit.Records R names (Stmt.visitsList ss) ∧
      (ss.foldl Stmt.after p).Shows ((Stmt.visitsList ss).foldl onto names) := by
  match ss with
  | [] => exact ⟨.nil, shows⟩
  | s :: ss =>
    obtain ⟨visited, after⟩ := s.visits_record inside.1 shows
    obtain ⟨visitedRest, last⟩ := Stmt.visitsList_record ss inside.2 after
    refine ⟨visited.append visitedRest, ?_⟩
    rw [Stmt.visitsList, List.foldl_append]
    exact last

theorem FunctionDecl.visits_record (f : FunctionDecl) {p : Place} {names : List (List String)}
    (inside : f.Scoped R p) (shows : p.Shows names) :
    Visit.Records R names f.visits ∧ p.Shows (f.visits.foldl onto names) := by
  match f with
  | ⟨_, ps, body⟩ =>
    have opened := shows.enter (parameterFrame_contains ps)
    obtain ⟨visited, after⟩ := Stmt.visitsList_record body inside.2 opened
    obtain ⟨frame, same⟩ := Stmt.afterList_enter body p (parameterFrame ps)
    rw [same] at after
    rw [← Visit.foldl_declares] at visited after
    rw [← List.foldl_append] at after
    exact ((Visit.records_declares ps _).append visited).scope _ after

theorem FunctionDecl.visitsList_record (fs : List FunctionDecl) {p : Place}
    {names : List (List String)} (inside : FunctionDecl.ScopedList R p fs) (shows : p.Shows names) :
    Visit.Records R names (FunctionDecl.visitsList fs) ∧
      p.Shows ((FunctionDecl.visitsList fs).foldl onto names) := by
  match fs with
  | [] => exact ⟨.nil, shows⟩
  | ⟨name, ps, body⟩ :: fs =>
    obtain ⟨visited, after⟩ := FunctionDecl.visits_record ⟨name, ps, body⟩ inside.1 shows
    obtain ⟨visitedRest, last⟩ := FunctionDecl.visitsList_record fs inside.2 after
    refine ⟨visited.append visitedRest, ?_⟩
    rw [FunctionDecl.visitsList, List.foldl_append]
    exact last

end

end Places

/-! ### What is recorded for a program -/

/-- A program that is accepted is well scoped, with the distances that were found for it. -/
theorem resolve_scoped {program : List Stmt} (distinct : (Stmt.idsList program).Nodup)
    (accepted : (resolve program).error = none) :
    Stmt.ScopedList (fun id d => ∀ k, (id, k) ∈ (resolve program).found ↔ d = some k)
      Place.outermost program := by
  cases walk : Scoping.stmts program ScopeState.initial with
  | error e t =>
    unfold resolve at accepted
    rw [walk] at accepted
    cases accepted
  | ok u t =>
    have settled : ScopeState.initial.place.Settled := fun _ member => nomatch member
    obtain ⟨-, uses, found, known, holds⟩ := Scoping.stmts_ok program settled distinct walk
    have distances : (resolve program).found = uses.reverse := by
      unfold resolve
      rw [walk]
      exact congrArg List.reverse (found.trans (List.append_nil uses))
    have once : (uses.map Prod.fst).Nodup := by
      obtain ⟨listed, same, part⟩ := known
      exact same.nodup_iff.1 (distinct.sublist part)
    rw [distances]
    refine holds _ ⟨?_, ?_⟩
    · intro id d use k
      rw [List.mem_reverse, Option.some.injEq]
      constructor
      · intro other
        exact congrArg Prod.snd (List.inj_on_of_nodup_map once use other rfl)
      · rintro rfl
        exact use
    · intro id _ unused k
      rw [List.mem_reverse]
      simpa using unused k

namespace Grammar.Produces

variable {program : List Stmt} {before after : List Visit} {e : Expr} {id : ExprId} {token : Token}

/-- A node that uses a name gets a distance if and only if an enclosing scope has declared the name
by then. The distance is the number of enclosing scopes inside of the innermost such scope. -/
theorem distances_lexical (produced : Produces program)
    (accepted : (resolve program).error = none)
    (at_ : Stmt.visitsList program = before ++ .node e :: after)
    (use : e.use? = some (id, token)) :
    ((∃ d, (id, d) ∈ (resolve program).found) ↔ ∃ d, Visit.Declared before token.lexeme d) ∧
      ∀ d, (id, d) ∈ (resolve program).found ↔
        Visit.Declared before token.lexeme d ∧
          ∀ inner < d, ¬ Visit.Declared before token.lexeme inner := by
  obtain ⟨-, lo, hi, handed⟩ := produced.read
  have inside := resolve_scoped handed.distinct accepted
  have shows : Place.outermost.Shows [] := .nil
  have recorded := (Stmt.visitsList_record program inside shows).1 before e after at_ id token use
  have distance (d : Nat) : (id, d) ∈ (resolve program).found ↔
      Visit.Declared before token.lexeme d ∧
        ∀ inner < d, ¬ Visit.Declared before token.lexeme inner := by
    have first : (id, d) ∈ (resolve program).found ↔
        (Visit.names before).findIdx? (fun own => decide (token.lexeme ∈ own)) = some d := recorded d
    rw [first, List.findIdx?_eq_some_iff_getElem]
    simp only [Visit.declared_iff, decide_eq_true_eq]
    constructor
    · rintro ⟨isOpen, among, none_⟩
      refine ⟨⟨_, List.getElem?_eq_getElem isOpen, among⟩, ?_⟩
      rintro inner below ⟨own, known, also⟩
      obtain ⟨_, rfl⟩ := List.getElem?_eq_some_iff.1 known
      exact absurd also (by simpa using none_ inner below)
    · rintro ⟨⟨own, known, among⟩, none_⟩
      obtain ⟨isOpen, rfl⟩ := List.getElem?_eq_some_iff.1 known
      refine ⟨isOpen, among, ?_⟩
      intro inner below also
      exact none_ inner below ⟨_, List.getElem?_eq_getElem (below.trans isOpen), by simpa using also⟩
  refine ⟨?_, distance⟩
  constructor
  · rintro ⟨d, found⟩
    exact ⟨d, ((distance d).1 found).1⟩
  · intro declared
    classical
    have first := (distance (Nat.find declared)).2
    exact ⟨Nat.find declared, first ⟨Nat.find_spec declared, fun _ => Nat.find_min declared⟩⟩

def blockInFunction : String := "\x7b var a = 1; fun f(b) \x7b \x7b a; \x7d \x7d \x7d"

theorem distances_lexical_blockInFunction :
    let program := Session.statements
      (recoverProgram (Scan.tokens (Scan.items blockInFunction)) 0).value
    ∃ before e after token, Produces program ∧ (resolve program).error = none ∧
      Stmt.visitsList program = before ++ .node e :: after ∧ e.use? = some (1, token) ∧
      ((∃ d, (1, d) ∈ (resolve program).found) ↔ ∃ d, Visit.Declared before token.lexeme d) ∧
      ∀ d, (1, d) ∈ (resolve program).found ↔
        Visit.Declared before token.lexeme d ∧
          ∀ inner < d, ¬ Visit.Declared before token.lexeme inner := by
  intro program
  have produced : Produces program := ⟨_, 0, .inr rfl⟩
  have accepted : (resolve program).error = none := by decide +kernel
  have node : ((Stmt.visitsList program)[7]?.bind Visit.use?) = some (1, ⟨.identifier, "a", 1⟩) := by
    decide +kernel
  obtain ⟨v, seventh, used⟩ := Option.bind_eq_some_iff.1 node
  obtain ⟨e, rfl, use⟩ : ∃ e, v = .node e ∧ e.use? = some (1, ⟨.identifier, "a", 1⟩) := by
    cases v with
    | node e => exact ⟨e, rfl, used⟩
    | _ => cases used
  obtain ⟨short, same⟩ := List.getElem?_eq_some_iff.1 seventh
  have at_ : Stmt.visitsList program = (Stmt.visitsList program).take 7 ++
      .node e :: (Stmt.visitsList program).drop 8 := by
    rw [← same, List.cons_getElem_drop_succ, List.take_append_drop]
  exact ⟨_, e, _, _, produced, accepted, at_, use,
    produced.distances_lexical accepted at_ use⟩

end Grammar.Produces

end Lox
