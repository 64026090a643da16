import Mathlib
import Lox.Proofs.Activations
import Lox.Proofs.LexicalDistances

/-!
Which names a scope has in the text. At a position inside of it the scope has its parameters and the
names of the statements up to the one that the position is in; the names of later statements it does
not need to have yet.
-/

namespace Lox

namespace Enclosure

/-- The statements that stand directly in the scope. -/
def stmts : Enclosure → List Stmt
  | block body => body
  | function f => f.body
  | method f => f.body
  | class_ _ => []

/-- The names that the scope has from the start. -/
def parameters : Enclosure → List String
  | function f => f.parameters.map (·.lexeme)
  | method f => f.parameters.map (·.lexeme)
  | _ => []

end Enclosure

open Enclosure (depth)

/-- All names that are declared in the scope. -/
def Extent.names : Extent → List String
  | block body => body.flatMap Stmt.declared
  | function f => f.names

theorem Enclosure.names_extent {e : Enclosure} {extent : Extent}
    (isExtent : e.extent? = some extent) :
    extent.names = e.parameters ++ e.stmts.flatMap Stmt.declared := by
  cases e with
  | block body =>
    cases isExtent
    rfl
  | function f | method f =>
    cases isExtent
    rfl
  | class_ => cases isExtent

/-! ### Frames that grow -/

namespace Place

/-- Each scope has all the names that it has at the other place. -/
def Extends (q p : Place) : Prop :=
  ∀ (i : Nat) (frame : Frame), p.frames[i]? = some frame → ∃ frame' : Frame,
    q.frames[i]? = some frame' ∧ ∀ name, frame.contains name = true → frame'.contains name = true

theorem Extends.refl (p : Place) : p.Extends p := by
  intro i frame at_
  exact ⟨frame, at_, fun _ has => has⟩

theorem hold_extends (p : Place) (name : String) (b : Bool) : (p.hold name b).Extends p := by
  obtain ⟨frames, context, class_⟩ := p
  intro i frame at_
  cases frames with
  | nil => cases at_
  | cons first outer =>
    cases i with
    | zero =>
      obtain rfl := Option.some.inj at_
      refine ⟨_, rfl, fun key has => ?_⟩
      rw [Table.contains_insert, has, Bool.or_true]
    | succ i => exact ⟨frame, at_, fun _ has => has⟩

/-- The innermost scope has the name that it holds. -/
theorem hold_contains {p : Place} {frame : Frame} (name : String) (b : Bool)
    (at_ : (p.hold name b).frames[0]? = some frame) : frame.contains name = true := by
  obtain ⟨frames, context, class_⟩ := p
  cases frames with
  | nil => cases at_
  | cons first outer =>
    obtain rfl := Option.some.inj at_
    rw [Table.contains_insert, decide_eq_true rfl, Bool.true_or]

end Place

namespace Stmt

/-- A statement declares nothing, and leaves the place as it is, or it declares one name. -/
theorem after_cases {P : Token → Prop} (s : Stmt) (formed : s.Formed P) (p : Place) :
    (s.declared = [] ∧ s.after p = p) ∨
      ∃ name, s.declared = [name] ∧ s.after p = p.hold name true := by
  cases s with
  | varDecl name e => exact .inr ⟨name.lexeme, rfl, by rw [after]⟩
  | funDecl f => exact .inr ⟨f.name.lexeme, rfl, by rw [after]⟩
  | classDecl name e methods => exact .inr ⟨name.lexeme, rfl, by rw [after]⟩
  | _ => exact .inl ⟨rfl, after_branch _ formed rfl p⟩

section

variable {P : Token → Prop} {s : Stmt} (formed : s.Formed P) (p : Place)
include formed

theorem after_extends : (s.after p).Extends p := by
  rcases s.after_cases formed p with ⟨-, same⟩ | ⟨name, -, same⟩
  · rw [same]
    exact .refl p
  · rw [same]
    exact p.hold_extends name true

theorem after_declared {frame : Frame} (at_ : (s.after p).frames[0]? = some frame) :
    ∀ name ∈ s.declared, frame.contains name = true := by
  intro name among
  rcases s.after_cases formed p with ⟨none, -⟩ | ⟨own, declares, same⟩
  · rw [none] at among
    cases among
  · rw [declares] at among
    obtain rfl := List.mem_singleton.1 among
    rw [same] at at_
    exact Place.hold_contains name true at_

end

end Stmt

/-! ### Positions in a scope -/

/-- A statement of the scope has the other one inside of it, in these, and at this place the scope
has its names up to and with this statement. -/
def Stmt.Lies (e : Enclosure) (inner : List Enclosure) (p : Place) (u : Stmt) : Prop :=
  ∃ (before : List Stmt) (t : Stmt) (after : List Stmt) (frame : Frame),
    e.stmts = before ++ t :: after ∧ Occurs [t] inner u ∧ p.frames[depth inner]? = some frame ∧
      ∀ name ∈ e.parameters ++ (before ++ [t]).flatMap Stmt.declared, frame.contains name = true

theorem Stmt.Lies.extend {e : Enclosure} {inner : List Enclosure} {p q : Place} {u : Stmt}
    (lies : u.Lies e inner p) (extends_ : q.Extends p) : u.Lies e inner q := by
  obtain ⟨before, t, after, frame, split, occurs, at_, has⟩ := lies
  obtain ⟨frame', at', grown⟩ := extends_ _ frame at_
  refine ⟨before, t, after, frame', split, occurs, at', fun name among => ?_⟩
  exact grown name (has name among)

theorem Stmt.Lies.into {e : Enclosure} {inner : List Enclosure} {p : Place} {u b : Stmt}
    (lies : u.Lies e inner p) (within : ∀ t, Occurs [t] inner u → Occurs [t] inner b) :
    b.Lies e inner p := by
  obtain ⟨before, t, after, frame, split, occurs, rest⟩ := lies
  exact ⟨before, t, after, frame, split, within t occurs, rest⟩

/-- These statements are all that is ahead in the scope, or they are branches inside of the next
statement, which declares nothing. -/
inductive Ahead (rest : List Stmt) : List Stmt → Prop
  | here : Ahead rest rest
  | branch {t : Stmt} {after ss : List Stmt} (isRest : rest = t :: after) (none : t.declared = [])
      (inside : ∀ u ∈ ss, Occurs [t] [] u ∧ u.declared = []) : Ahead rest ss

namespace Ahead

variable {rest ss : List Stmt} {u : Stmt}

theorem first (ahead : Ahead rest (u :: ss)) : ∃ t after, rest = t :: after ∧ Occurs [t] [] u ∧
    ∀ name ∈ t.declared, name ∈ u.declared := by
  cases ahead with
  | here => exact ⟨u, ss, rfl, .top List.mem_cons_self, fun _ among => among⟩
  | branch isRest none inside =>
    refine ⟨_, _, isRest, (inside u List.mem_cons_self).1, fun name among => ?_⟩
    rw [none] at among
    cases among

/-- The branch of a statement is ahead where the statement is. -/
theorem into {b : Stmt} (ahead : Ahead rest (u :: ss)) (none : u.declared = [])
    (within : ∀ t, Occurs [t] [] u → Occurs [t] [] b) (isBranch : b.isBranch = true) :
    Ahead rest [b] := by
  have single {t : Stmt} (occurs : Occurs [t] [] b) :
      ∀ c ∈ [b], Occurs [t] [] c ∧ c.declared = [] := by
    intro c among
    obtain rfl := List.mem_singleton.1 among
    exact ⟨occurs, Stmt.declared_branch isBranch⟩
  cases ahead with
  | here => exact .branch rfl none (single (within u (.top List.mem_cons_self)))
  | branch isRest none inside =>
    exact .branch isRest none (single (within _ (inside u List.mem_cons_self).1))

end Ahead

namespace Stands

variable {program : List Stmt} {around outer inner : List Enclosure} {e : Enclosure} {p : Place}
  {ss : List Stmt} {u : Stmt}

/-- Outside of all scopes there is no frame. -/
theorem outermost (stands : Stands program [] p ss) : p = Place.outermost := by
  generalize same : ([] : List Enclosure) = around at stands
  induction stands with
  | program => rfl
  | @rest _ _ s _ _ ih =>
    obtain rfl := ih same
    exact Run.outermost_after s
  | ifThen _ ih | ifElseYes _ ih | whileLoop _ ih => exact ih same
  | @ifElseNo _ _ _ yes _ _ _ ih =>
    obtain rfl := ih same
    exact Run.outermost_after yes
  | block | function | method => cases same

/-- All statements of a scope stand in it. -/
theorem occurs_scope (stands : Stands program (inner ++ e :: outer) p ss) :
    ∀ t ∈ e.stmts, Occurs program (e :: outer) t := by
  intro t among
  generalize same : inner ++ e :: outer = around at stands
  induction stands generalizing inner with
  | program =>
    have := List.append_eq_nil_iff.1 same
    cases this.2
  | rest _ ih | ifThen _ ih | ifElseYes _ ih | ifElseNo _ ih | whileLoop _ ih => exact ih same
  | block stands ih | function stands ih =>
    cases inner with
    | nil =>
      obtain ⟨rfl, rfl⟩ := List.cons.inj same
      first
        | exact .block (stands.occurs _ List.mem_cons_self) among
        | exact .function (stands.occurs _ List.mem_cons_self) among
    | cons first inner => exact ih (List.cons.inj same).2
  | method stands isMethod ih =>
    cases inner with
    | nil =>
      obtain ⟨rfl, rfl⟩ := List.cons.inj same
      exact .method (stands.occurs _ List.mem_cons_self) isMethod among
    | cons first inner =>
      cases inner with
      | nil =>
        obtain ⟨-, rest⟩ := List.cons.inj same
        obtain ⟨rfl, -⟩ := List.cons.inj rest
        cases among
      | cons second inner =>
        obtain ⟨-, rest⟩ := List.cons.inj same
        exact ih (List.cons.inj rest).2

/-- What stands directly in a scope. The scope has the names of the statements before. -/
theorem direct (stands : Stands program (e :: outer) p ss)
    (formed : Stmt.FormedList Token.Spelled program) :
    ∃ (before rest : List Stmt) (frame : Frame), e.stmts = before ++ rest ∧ Ahead rest ss ∧
      p.frames[0]? = some frame ∧
        ∀ name ∈ e.parameters ++ before.flatMap Stmt.declared, frame.contains name = true := by
  generalize same : e :: outer = around at stands
  induction stands with
  | program => cases same
  | @rest around p s ss stands ih =>
    obtain ⟨before, rest, frame, split, ahead, at_, has⟩ := ih same
    have formedHere := (stands.formed formed).1
    obtain ⟨frame', at', grown⟩ := s.after_extends formedHere p 0 frame at_
    cases ahead with
    | here =>
      refine ⟨before ++ [s], ss, frame', ?_, .here, at', ?_⟩
      · rw [split, List.append_assoc, List.singleton_append]
      · intro name among
        rw [List.flatMap_append, ← List.append_assoc] at among
        rcases List.mem_append.1 among with among | among
        · exact grown name (has name among)
        · rw [List.flatMap_singleton] at among
          exact Stmt.after_declared formedHere p at' name among
    | branch isRest none inside =>
      refine ⟨before, rest, frame', split, .branch isRest none ?_, at', ?_⟩
      · exact fun u among => inside u (List.mem_cons_of_mem _ among)
      · exact fun name among => grown name (has name among)
  | block stands =>
    obtain ⟨rfl, rfl⟩ := List.cons.inj same
    exact ⟨[], _, _, rfl, .here, rfl, fun name among => nomatch among⟩
  | function stands =>
    obtain ⟨rfl, rfl⟩ := List.cons.inj same
    refine ⟨[], _, _, rfl, .here, rfl, fun name among => ?_⟩
    rw [parameterFrame_contains, List.append_nil, List.mem_reverse]
    simpa [Enclosure.parameters] using among
  | method stands isMethod =>
    obtain ⟨rfl, rfl⟩ := List.cons.inj same
    refine ⟨[], _, _, rfl, .here, rfl, fun name among => ?_⟩
    rw [parameterFrame_contains, List.append_nil, List.mem_reverse]
    simpa [Enclosure.parameters] using among
  | ifThen stands ih =>
    have branch := (stands.formed formed).1.2.2
    obtain ⟨before, rest, frame, split, ahead, at_, has⟩ := ih same
    exact ⟨before, rest, frame, split, ahead.into rfl (fun _ => .ifThen) branch, at_, has⟩
  | ifElseYes stands ih =>
    have branch := (stands.formed formed).1.2.1.2
    obtain ⟨before, rest, frame, split, ahead, at_, has⟩ := ih same
    exact ⟨before, rest, frame, split, ahead.into rfl (fun _ => .ifElseYes) branch, at_, has⟩
  | @ifElseNo around p condition yes no ss stands ih =>
    have branches := (stands.formed formed).1
    rw [yes.after_branch branches.2.1.1 branches.2.1.2]
    obtain ⟨before, rest, frame, split, ahead, at_, has⟩ := ih same
    exact ⟨before, rest, frame, split, ahead.into rfl (fun _ => .ifElseNo) branches.2.2.2, at_, has⟩
  | whileLoop stands ih =>
    have branch := (stands.formed formed).1.2.2
    obtain ⟨before, rest, frame, split, ahead, at_, has⟩ := ih same
    exact ⟨before, rest, frame, split, ahead.into rfl (fun _ => .whileLoop) branch, at_, has⟩

/-- What follows a statement directly in a scope lies after it, there. -/
theorem lies_after (stands : Stands program (inner ++ e :: outer) p (u :: ss))
    (formed : Stmt.FormedList Token.Spelled program) (deeper : inner ≠ [] → u.Lies e inner p) :
    u.Lies e inner (u.after p) := by
  have formedHere := (stands.formed formed).1
  cases inner with
  | cons first inner => exact (deeper (List.cons_ne_nil _ _)).extend (u.after_extends formedHere p)
  | nil =>
    obtain ⟨before, rest, frame, split, ahead, at_, has⟩ := stands.direct formed
    obtain ⟨t, after, rfl, occurs, own⟩ := ahead.first
    obtain ⟨frame', at', grown⟩ := u.after_extends formedHere p 0 frame at_
    refine ⟨before, t, after, frame', split, occurs, at', fun name among => ?_⟩
    rw [List.flatMap_append, ← List.append_assoc] at among
    rcases List.mem_append.1 among with among | among
    · exact grown name (has name among)
    · rw [List.flatMap_singleton] at among
      exact Stmt.after_declared formedHere p at' name (own name among)

/-- What stands further inside lies inside of a statement of the scope. -/
theorem lies (stands : Stands program (inner ++ e :: outer) p ss) (isScope : e.extent? ≠ none)
    (formed : Stmt.FormedList Token.Spelled program) (nonempty : inner ≠ []) :
    ∀ u ∈ ss, u.Lies e inner p := by
  generalize same : inner ++ e :: outer = around at stands
  induction stands generalizing inner with
  | program =>
    have := List.append_eq_nil_iff.1 same
    cases this.2
  | @rest around p s ss stands ih =>
    intro u among
    have extends_ := s.after_extends (stands.formed formed).1 p
    exact (ih nonempty same u (List.mem_cons_of_mem _ among)).extend extends_
  | @block around p body ss stands ih =>
    cases inner with
    | nil => exact absurd rfl nonempty
    | cons first inner =>
      obtain ⟨rfl, rfl⟩ := List.cons.inj same
      intro u among
      have outside := stands.lies_after formed fun deeper =>
        ih deeper rfl _ List.mem_cons_self
      obtain ⟨before, t, after, frame, split, occurs, at_, has⟩ := outside
      exact ⟨before, t, after, frame, split, .block occurs among, at_, has⟩
  | @function around p f ss stands ih =>
    cases inner with
    | nil => exact absurd rfl nonempty
    | cons first inner =>
      obtain ⟨rfl, rfl⟩ := List.cons.inj same
      intro u among
      have outside := stands.lies_after formed fun deeper =>
        ih deeper rfl _ List.mem_cons_self
      obtain ⟨before, t, after, frame, split, occurs, at_, has⟩ := outside
      rw [Stmt.after] at at_
      exact ⟨before, t, after, frame, split, .function occurs among, at_, has⟩
  | @method around p name superclass methods f ss stands isMethod ih =>
    cases inner with
    | nil => exact absurd rfl nonempty
    | cons first inner =>
      obtain ⟨rfl, rest⟩ := List.cons.inj same
      cases inner with
      | nil =>
        obtain ⟨rfl, -⟩ := List.cons.inj rest
        exact absurd rfl isScope
      | cons second inner =>
        obtain ⟨rfl, rfl⟩ := List.cons.inj rest
        intro u among
        have outside := stands.lies_after formed fun deeper =>
          ih deeper rfl _ List.mem_cons_self
        obtain ⟨before, t, after, frame, split, occurs, at_, has⟩ := outside
        rw [Stmt.after] at at_
        refine ⟨before, t, after, frame, split, .method occurs isMethod among, ?_, has⟩
        cases superclass <;> exact at_
  | ifThen stands ih =>
    intro u among
    obtain rfl := List.mem_singleton.1 among
    exact (ih nonempty same _ List.mem_cons_self).into fun _ => .ifThen
  | ifElseYes stands ih =>
    intro u among
    obtain rfl := List.mem_singleton.1 among
    exact (ih nonempty same _ List.mem_cons_self).into fun _ => .ifElseYes
  | @ifElseNo around p condition yes no ss stands ih =>
    intro u among
    obtain rfl := List.mem_singleton.1 among
    have extends_ := yes.after_extends (stands.formed formed).1.2.1.1 p
    exact ((ih nonempty same _ List.mem_cons_self).extend extends_).into fun _ => .ifElseNo
  | whileLoop stands ih =>
    intro u among
    obtain rfl := List.mem_singleton.1 among
    exact (ih nonempty same _ List.mem_cons_self).into fun _ => .whileLoop

/-- In the body of a class the scope of `this` has it. -/
theorem has_this {superclass : Option Expr}
    (stands : Stands program (inner ++ .class_ superclass :: outer) p ss)
    (formed : Stmt.FormedList Token.Spelled program) :
    ∃ frame : Frame, p.frames[depth inner]? = some frame ∧ frame.contains "this" = true := by
  have grown {p q : Place} {i : Nat} (extends_ : q.Extends p)
      (has : ∃ frame : Frame, p.frames[i]? = some frame ∧ frame.contains "this" = true) :
      ∃ frame : Frame, q.frames[i]? = some frame ∧ frame.contains "this" = true := by
    obtain ⟨frame, at_, has⟩ := has
    obtain ⟨frame', at', more⟩ := extends_ i frame at_
    exact ⟨frame', at', more _ has⟩
  generalize same : inner ++ .class_ superclass :: outer = around at stands
  induction stands generalizing inner with
  | program =>
    have := List.append_eq_nil_iff.1 same
    cases this.2
  | @rest around p s ss stands ih =>
    exact grown (s.after_extends (stands.formed formed).1 p) (ih same)
  | ifThen _ ih | ifElseYes _ ih | whileLoop _ ih => exact ih same
  | @ifElseNo around p condition yes no ss stands ih =>
    exact grown (yes.after_extends (stands.formed formed).1.2.1.1 p) (ih same)
  | block stands ih =>
    cases inner with
    | nil => cases (List.cons.inj same).1
    | cons first inner =>
      obtain ⟨rfl, rest⟩ := List.cons.inj same
      exact ih rest
  | @function around p f ss stands ih =>
    cases inner with
    | nil => cases (List.cons.inj same).1
    | cons first inner =>
      obtain ⟨rfl, rest⟩ := List.cons.inj same
      have outside := grown (p.hold_extends f.name.lexeme true) (@ih inner rest)
      exact outside
  | @method around p name parent methods f ss stands isMethod ih =>
    cases inner with
    | nil => cases (List.cons.inj same).1
    | cons first inner =>
      obtain ⟨rfl, rest⟩ := List.cons.inj same
      cases inner with
      | nil => exact ⟨thisFrame, rfl, rfl⟩
      | cons second inner =>
        have outside := grown (p.hold_extends name.lexeme true) (@ih inner (List.cons.inj rest).2)
        obtain ⟨rfl, -⟩ := List.cons.inj rest
        cases parent <;> exact outside

end Stands

end Lox
