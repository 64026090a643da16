import Mathlib
import Lox.Proofs.Receivers

/-!
Uses of names in the life of a session: the distance that a step finds recorded for a use is the one
that static scoping gives where the use stands.
-/

namespace Lox

open Scoping (distance?)
open Session (Happens Life)

/-- What is looked up by a recorded distance, with the id that it is recorded for. -/
def Expr.use? : Expr → Option (ExprId × Token)
  | .assign id name _ => some (id, name)
  | .var id name => some (id, name)
  | .this id keyword => some (id, keyword)
  | .super id keyword _ => some (id, keyword)
  | _ => none

section Scopes

variable {R : ExprId → Option Nat → Prop} {p : Place} {s : Stmt} {name : String}

theorem Expr.Scoped.use {e : Expr} {id : ExprId} {token : Token} (inside : e.Scoped R p)
    (use : e.use? = some (id, token)) : R id (distance? p.frames token.lexeme) := by
  cases e with
  | assign =>
    cases use
    exact inside.2.2
  | var | this | super =>
    cases use
    exact inside.2
  | _ => cases use

/-- The expressions of a statement are well scoped in the place that it has for them. -/
theorem Stmt.Scoped.exprs (inside : s.Scoped R p) : ∀ e ∈ s.exprs, e.Scoped R (s.inner p) := by
  intro e among
  match s with
  | .expression _ | .print _ =>
    obtain rfl := List.mem_singleton.1 among
    exact inside
  | .ifThen _ _ | .ifElse _ _ _ | .whileLoop _ _ =>
    obtain rfl := List.mem_singleton.1 among
    exact inside.1
  | .varDecl _ (some _) | .returnStmt _ (some _) =>
    obtain rfl := List.mem_singleton.1 among
    exact inside.2
  | .classDecl _ (some _) _ =>
    obtain rfl := List.mem_singleton.1 among
    exact inside.2.1.2

/-- A statement brings neither `this` nor `super` into scope. -/
theorem Stmt.after_keyword (s : Stmt) {p : Place} (formed : s.Formed Token.Spelled)
    (keyword : name = "this" ∨ name = "super") :
    distance? (s.after p).frames name = distance? p.frames name := by
  match s with
  | .expression _ | .print _ | .block _ | .returnStmt _ _ => simp only [Stmt.after]
  | .varDecl token none =>
    simp only [Stmt.after]
    exact p.distance?_hold (Token.IsName.differs formed keyword) true
  | .varDecl token (some _) =>
    simp only [Stmt.after]
    exact p.distance?_hold (formed.1.differs keyword) true
  | .classDecl token _ _ =>
    simp only [Stmt.after]
    exact p.distance?_hold (formed.className.1.differs keyword) true
  | .funDecl f =>
    simp only [Stmt.after]
    exact p.distance?_hold ((FunctionDecl.Formed.named formed).1.differs keyword) true
  | .ifThen _ yes | .whileLoop _ yes =>
    simp only [Stmt.after]
    exact yes.after_keyword formed.2.1 keyword
  | .ifElse _ yes no =>
    simp only [Stmt.after]
    exact (no.after_keyword formed.2.2.1 keyword).trans (yes.after_keyword formed.2.1.1 keyword)

theorem Stmt.inner_keyword (formed : s.Formed Token.Spelled)
    (keyword : name = "this" ∨ name = "super") :
    distance? (s.inner p).frames name = distance? p.frames name := by
  cases s with
  | varDecl token e =>
    cases e with
    | none => exact p.distance?_hold (Token.IsName.differs formed keyword) false
    | some e => exact p.distance?_hold (formed.1.differs keyword) false
  | classDecl token e methods => exact p.distance?_hold (formed.className.1.differs keyword) true
  | _ => rfl

end Scopes

theorem Text.formed {chunks : List Chunk} {around : List Enclosure} {p : Place} {ss : List Stmt}
    (text : Text chunks around p ss) : Stmt.FormedList Token.Spelled ss := by
  obtain ⟨c, given, accepts, stands⟩ := text
  exact stands.formed (Session.program_formed c.session c.source)

namespace Session

variable {chunks : List Chunk} {s : Session} {id : ExprId} {d : Option Nat}

/-- What is recorded for an id that has been given out stays recorded. -/
theorem Sound.recorded_run (sound : s.Sound) (recorded : s.Recorded id d) (fuel : Nat)
    (source : String) : (s.run fuel source).2.Recorded id d := by
  rcases accepts_or_rejects s source with accepts | ⟨faults, after, rejects⟩
  · rw [run_accepted fuel accepts]
    have bound : (s.bound source).Recorded id d := recorded.bound
    exact ⟨bound.1, (congrArg (·[id]?) (sound.kept accepts fuel).distances).trans bound.2⟩
  · rw [run_rejected fuel rejects]
    cases rejects with
    | lex => exact recorded
    | parse => exact ⟨Nat.lt_of_lt_of_le recorded.1 (program_handed s source).le, recorded.2⟩
    | resolve => exact recorded.bound

namespace Life

variable (life : Life chunks s)
include life

/-- What a chunk records is recorded ever after. -/
theorem recorded_now {c : Chunk} (given : c ∈ chunks) (accepts : c.session.Accepts c.source)
    (recorded : (c.session.bound c.source).Recorded id d) : s.Recorded id d := by
  induction life with
  | initial => cases given
  | @run _ s before fuel source ih =>
    rcases List.mem_cons.1 given with rfl | earlier
    · rw [run_accepted fuel accepts]
      have kept := before.reachable.sound.kept accepts fuel
      exact ⟨recorded.1, (congrArg (·[id]?) kept.distances).trans recorded.2⟩
    · exact before.reachable.sound.recorded_run (ih earlier) fuel source
  | defineGlobal _ _ _ ih | makeNative _ _ ih | resume _ _ _ ih => exact ih given

/-- What stands in an accepted chunk is well scoped with all that is recorded now. -/
theorem text_scoped {around : List Enclosure} {p : Place} {ss : List Stmt}
    (text : Text chunks around p ss) : Stmt.ScopedList s.Recorded p ss := by
  obtain ⟨c, given, accepts, stands⟩ := text
  refine stands.resolved (Stmt.ScopedList.imp (fun id d recorded => ?_) _
    (accepts.scoped (life.chunk_sound given)))
  exact life.recorded_now given accepts recorded

/-- What a step finds recorded for a use is recorded now, too. -/
theorem use_kept {fuel : Nat} {e : Expr} {m : Machine} {token : Token}
    (happens : Happens chunks ⟨fuel, .expr e, m⟩) (use : e.use? = some (id, token)) :
    s.machine.distances[id]? = m.distances[id]? := by
  obtain ⟨c, given, runs⟩ := happens
  obtain ⟨q, ready, inside, -⟩ := (life.chunk_sound given).runs runs
  have recorded := inside.use use
  exact (life.recorded_now given runs.1 recorded).2.trans (ready.sound.distances id _ recorded).symm

/-- A step that looks a name up finds the distance that static scoping gives it in the text. -/
theorem use_recorded {fuel : Nat} {e whole : Expr} {m : Machine} {token : Token} {p : Place}
    {around : List Enclosure} {t : Stmt} {ss : List Stmt}
    (happens : Happens chunks ⟨fuel, .expr e, m⟩) (use : e.use? = some (id, token))
    (text : Text chunks around p (t :: ss)) (among : whole ∈ t.exprs) (inside : e ∈ whole.parts) :
    m.distances[id]? = distance? (t.inner p).frames token.lexeme := by
  have static := ((life.text_scoped text).1.exprs whole among).part inside
  exact (life.use_kept happens use).symm.trans (static.use use).2

end Life

end Session

end Lox
