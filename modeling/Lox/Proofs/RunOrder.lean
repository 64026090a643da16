import Mathlib
import Lox.Proofs.Deeds

/-!
The order of what happens in a run. Of two things that happen one comes first, unless one is part of
the other; the later one finds the store that the earlier one has left, changed by writes of the run.
-/

namespace Lox

/-- How many tasks can start one another without using up fuel. -/
def Task.rank : Task → Nat
  | .expr _ => 0
  | .stmt _ => 0
  | .exprs es => es.length + 1
  | .stmts ss => ss.length + 1
  | .program ss => ss.length + 1
  | .body _ _ closure => closure.function.body.length + 2
  | .call _ _ (.function _ closure) => closure.function.body.length + 3
  | .call _ _ (.class_ c) =>
      match c.method? initializerName with
      | some method => method.function.body.length + 3
      | none => 0
  | .call _ _ _ => 0

/-- The step does this, with this store before it. -/
def Step.Does (step : Step) (d : Deed) (s : Store) : Prop :=
  ∃ before after, step.deeds = before ++ d :: after ∧ Passes step.machine.store before s

def Deed.isWrite : Deed → Bool
  | .part _ => false
  | _ => true

/-- With a step all that it starts happens. -/
def Closed (E : Step → Prop) : Prop := ∀ step part, E step → Step.Starts step part → E part

/-- A step that happens writes to the store by itself. -/
def Writes (E : Step → Prop) (s t : Store) : Prop :=
  ∃ step d, E step ∧ d.isWrite = true ∧ step.Does d s ∧ d.leaves s = t

/-- The store has become the other one by writes of steps that happen. -/
def Becomes (E : Step → Prop) : Store → Store → Prop := Relation.ReflTransGen (Writes E)

/-- What every write keeps stays. -/
theorem Becomes.keeps {E : Step → Prop} {s t : Store} {P : Store → Prop}
    (each : ∀ s t, Writes E s t → P s → P t) (becomes : Becomes E s t) (holds : P s) : P t := by
  induction becomes with
  | refl => exact holds
  | tail _ writes ih => exact each _ _ writes ih

theorem Passes.unique {s t u : Store} {ds : List Deed} (first : Passes s ds t)
    (second : Passes s ds u) : t = u := by
  induction ds generalizing s with
  | nil => exact first.symm.trans second
  | cons d ds ih => exact ih first.2 second.2

/-- Two places in a list are the same, or one of them comes first. -/
theorem List.places {α : Type} {a b : α} {before after before' after' : List α}
    (same : before ++ a :: after = before' ++ b :: after') :
    (before = before' ∧ a = b) ∨ (∃ mid, before' = before ++ a :: mid) ∨
      ∃ mid, before = before' ++ b :: mid := by
  rcases List.append_eq_append_iff.1 same with ⟨mid, earlier, rest⟩ | ⟨mid, later, rest⟩
  · cases mid with
    | nil =>
      obtain ⟨rfl, -⟩ := List.cons.inj rest
      exact .inl ⟨by rw [earlier, List.append_nil], rfl⟩
    | cons c mid =>
      obtain ⟨rfl, -⟩ := List.cons.inj rest
      exact .inr (.inl ⟨mid, earlier⟩)
  · cases mid with
    | nil =>
      obtain ⟨rfl, -⟩ := List.cons.inj rest
      exact .inl ⟨by rw [later, List.append_nil], rfl⟩
    | cons c mid =>
      obtain ⟨rfl, -⟩ := List.cons.inj rest
      exact .inr (.inr ⟨mid, later⟩)

namespace Step

variable {E : Step → Prop} {root step part other : Step} {d d' : Deed} {s t u : Store}

/-! ### Induction over steps -/

theorem Starts.lower (starts : Starts step part) :
    Prod.Lex (· < ·) (· < ·) (part.fuel, part.task.rank) (step.fuel, step.task.rank) := by
  cases starts with
  | firstExpr | restExprs | callBody | body | firstStmt | restStmts | firstOfProgram
  | restOfProgram =>
    refine .right _ ?_
    simp [Task.rank]
  | initializer made found linked =>
    cases linked
    refine .right _ ?_
    simp [Task.rank, found]
  | _ => exact .left _ _ (Nat.lt_succ_self _)

/-- What holds of a step if it holds of all that the step starts, holds of every step. -/
theorem induct {P : Step → Prop} (each : ∀ step, (∀ part, Starts step part → P part) → P step)
    (step : Step) : P step := by
  have order : WellFounded fun part step : Step =>
      Prod.Lex (· < ·) (· < ·) (part.fuel, part.task.rank) (step.fuel, step.task.rank) :=
    InvImage.wf (fun step : Step => (step.fuel, step.task.rank))
      (WellFounded.prod_lex Nat.lt_wfRel.wf Nat.lt_wfRel.wf)
  exact order.induction step fun step ih => each step fun part starts => ih part starts.lower

/-! ### What one step does -/

theorem Does.fits (does : step.Does d s) : d.Fits s := by
  obtain ⟨before, after, split, passes⟩ := does
  have whole := step.passes
  rw [split, Passes.append] at whole
  obtain ⟨u, first, fits, -⟩ := whole
  exact first.unique passes ▸ fits

theorem Does.starts (does : step.Does (.part part) s) : Starts step part := by
  obtain ⟨before, after, split, -⟩ := does
  exact starts_of_deed (by simp [split])

theorem Starts.does (starts : Starts step part) : step.Does (.part part) part.machine.store := by
  obtain ⟨before, after, split⟩ := List.append_of_mem starts.deed
  have whole := step.passes
  rw [split, Passes.append] at whole
  obtain ⟨u, first, fits, -⟩ := whole
  exact ⟨before, after, split, fits ▸ first⟩

/-- The step, or one that it comes to within this depth, passes the test. -/
def comesTo (test : Step → Bool) : Nat → Step → Bool
  | 0, step => test step
  | depth + 1, step => test step || step.deeds.any fun
      | .part part => comesTo test depth part
      | _ => false

theorem reaches_of_comesTo {test : Step → Bool} {depth : Nat}
    (comes : comesTo test depth step = true) : ∃ part, step.Reaches part ∧ test part = true := by
  induction depth generalizing step with
  | zero => exact ⟨step, .refl, comes⟩
  | succ depth ih =>
    simp only [comesTo, Bool.or_eq_true, List.any_eq_true] at comes
    rcases comes with here | ⟨d, among, comes⟩
    · exact ⟨step, .refl, here⟩
    · cases d with
      | part part =>
        obtain ⟨last, reaches, passes⟩ := ih comes
        exact ⟨last, .head (starts_of_deed among) reaches, passes⟩
      | _ => cases comes

/-- The deeds of a step are one after the other. -/
theorem Does.compare (first : step.Does d s) (second : step.Does d' t) :
    (d = d' ∧ s = t) ∨ (∃ before mid after, step.deeds = before ++ mid ++ after ∧
        Passes step.machine.store before (d.leaves s) ∧ Passes (d.leaves s) mid t) ∨
      ∃ before mid after, step.deeds = before ++ mid ++ after ∧
        Passes step.machine.store before (d'.leaves t) ∧ Passes (d'.leaves t) mid s := by
  obtain ⟨before, after, split, passes⟩ := first
  obtain ⟨before', after', split', passes'⟩ := second
  rcases List.places (split.symm.trans split') with ⟨rfl, rfl⟩ | ⟨mid, rfl⟩ | ⟨mid, rfl⟩
  · exact .inl ⟨rfl, passes.unique passes'⟩
  · obtain ⟨u, here, fits, rest⟩ := Passes.append.1 passes'
    obtain rfl := here.unique passes
    refine .inr (.inl ⟨before ++ [d], mid, d' :: after', by simpa using split', ?_, rest⟩)
    exact Passes.append.2 ⟨u, here, fits, rfl⟩
  · obtain ⟨u, here, fits, rest⟩ := Passes.append.1 passes
    obtain rfl := here.unique passes'
    refine .inr (.inr ⟨before' ++ [d'], mid, d :: after, by simpa using split, ?_, rest⟩)
    exact Passes.append.2 ⟨u, here, fits, rfl⟩

/-- What each thing that the step does keeps is kept by several in a row. -/
theorem keeps_between {P : Store → Prop} (each : ∀ d s, step.Does d s → P s → P (d.leaves s))
    (before : List Deed) {mid : List Deed} (after : List Deed)
    (split : step.deeds = before ++ mid ++ after) (first : Passes step.machine.store before s)
    (second : Passes s mid t) (holds : P s) : P t := by
  induction mid generalizing before s with
  | nil => exact second ▸ holds
  | cons d mid ih =>
    have does : step.Does d s := ⟨before, mid ++ after, by simpa using split, first⟩
    refine ih (before ++ [d]) (by simpa using split) ?_ second.2 (each d s does holds)
    exact Passes.append.2 ⟨s, first, second.1, rfl⟩

theorem keeps_finish {P : Store → Prop} (each : ∀ d s, step.Does d s → P s → P (d.leaves s))
    (holds : P step.machine.store) : P step.finish.store :=
  keeps_between each [] [] (List.append_nil _).symm rfl step.passes holds

/-! ### What happens in a run -/

section Closed

variable (closed : Closed E)
include closed

theorem reaches_happens (happens : E step) (reaches : step.Reaches part) : E part := by
  induction reaches with
  | refl => exact happens
  | tail _ starts ih => exact closed _ _ ih starts

theorem Does.becomes (happens : E step) (does : step.Does d s) : Becomes E s (d.leaves s) := by
  induction step using Step.induct generalizing d s with
  | each step ih =>
    cases d with
    | part part =>
      have starts := does.starts
      obtain rfl : part.machine.store = s := does.fits
      have happens' := closed step part happens starts
      exact keeps_finish (fun d s does since => since.trans (ih part starts happens' does)) .refl
    | _ => exact .single ⟨step, _, happens, rfl, does, rfl⟩

theorem becomes_finish (happens : E step) :
    Becomes E step.machine.store step.finish.store :=
  keeps_finish (fun _ _ does since => since.trans (does.becomes closed happens)) .refl

/-- From one thing that the step does to a later one, or to the end, the store changes by writes. -/
theorem becomes_between (happens : E step) (before : List Deed) {mid : List Deed}
    (after : List Deed) (split : step.deeds = before ++ mid ++ after)
    (first : Passes step.machine.store before s) (second : Passes s mid t) : Becomes E s t :=
  keeps_between (fun _ _ does since => since.trans (does.becomes closed happens)) before after split
    first second .refl

theorem Does.since_start (happens : E step) (does : step.Does d s) :
    Becomes E step.machine.store s := by
  obtain ⟨before, after, split, passes⟩ := does
  exact becomes_between closed happens [] (d :: after) split rfl passes

theorem Does.to_finish (happens : E step) (does : step.Does d s) :
    Becomes E (d.leaves s) step.finish.store := by
  have whole := step.passes
  obtain ⟨before, after, split, passes⟩ := does
  rw [split, Passes.append] at whole
  obtain ⟨u, first, fits, rest⟩ := whole
  obtain rfl := first.unique passes
  refine becomes_between closed happens (before ++ [d]) [] (by simpa using split) ?_ rest
  exact Passes.append.2 ⟨u, first, fits, rfl⟩

/-- Of two things that a step does the later one finds what the earlier one has left. -/
theorem Does.ordered (happens : E step) (first : step.Does d s) (second : step.Does d' t) :
    (d = d' ∧ s = t) ∨ Becomes E (d.leaves s) t ∨ Becomes E (d'.leaves t) s := by
  rcases first.compare second with same | ⟨_, _, _, split, here, rest⟩ | ⟨_, _, _, split, here, rest⟩
  · exact .inl same
  · exact .inr (.inl (becomes_between closed happens _ _ split here rest))
  · exact .inr (.inr (becomes_between closed happens _ _ split here rest))

theorem Reaches.started (reaches : root.Reaches step) (happens : E root) :
    Becomes E root.machine.store step.machine.store := by
  induction reaches with
  | refl => exact .refl
  | tail reaches starts ih =>
    exact ih.trans (starts.does.since_start closed (reaches_happens closed happens reaches))

theorem Reaches.ended (reaches : root.Reaches step) (happens : E root) :
    Becomes E step.finish.store root.finish.store := by
  induction reaches with
  | refl => exact .refl
  | tail reaches starts ih =>
    exact (starts.does.to_finish closed (reaches_happens closed happens reaches)).trans ih

/-- What happens in the course of a step happens after its start. -/
theorem Reaches.since_start (reaches : root.Reaches step) (happens : E root)
    (does : step.Does d s) : Becomes E root.machine.store s :=
  (reaches.started closed happens).trans
    (does.since_start closed (reaches_happens closed happens reaches))

/-- What happens in the course of a step happens before its end. -/
theorem Reaches.to_finish (reaches : root.Reaches step) (happens : E root)
    (does : step.Does d s) : Becomes E (d.leaves s) root.finish.store :=
  (does.to_finish closed (reaches_happens closed happens reaches)).trans
    (reaches.ended closed happens)

/-- A step is the whole, or inside of one that the whole starts. -/
theorem Reaches.whole_or_inside (reaches : root.Reaches step) (happens : E root) :
    step = root ∨ ∃ p, Starts root p ∧ E p ∧ p.Reaches step := by
  rcases reaches.cases_head with rfl | ⟨p, starts, below⟩
  · exact .inl rfl
  · exact .inr ⟨p, starts, closed _ _ happens starts, below⟩

/-- Of a write and anything else that happens in a run one comes first, or the write is part of the
other. -/
theorem Reaches.ordered (toFirst : root.Reaches step) (toSecond : root.Reaches other)
    (happens : E root) (first : step.Does d s) (second : other.Does d' t)
    (write : d.isWrite = true) :
    (step = other ∧ d = d' ∧ s = t) ∨ Becomes E (d.leaves s) t ∨ Becomes E (d'.leaves t) s ∨
      ∃ part, d' = .part part ∧ Becomes E t s := by
  induction root using Step.induct with
  | each root ih =>
    rcases toFirst.whole_or_inside closed happens with rfl | ⟨p, starts, started, below⟩ <;>
      rcases toSecond.whole_or_inside closed happens with rfl | ⟨q, starts', started', below'⟩
    · rcases first.ordered closed happens second with ⟨rfl, rfl⟩ | earlier | later
      · exact .inl ⟨rfl, rfl, rfl⟩
      · exact .inr (.inl earlier)
      · exact .inr (.inr (.inl later))
    · rcases first.ordered closed happens starts'.does with ⟨rfl, -⟩ | earlier | later
      · cases write
      · exact .inr (.inl (earlier.trans (below'.since_start closed started' second)))
      · exact .inr (.inr (.inl ((below'.to_finish closed started' second).trans later)))
    · have inside := below.since_start closed started first
      rcases starts.does.ordered closed happens second with ⟨rfl, rfl⟩ | earlier | later
      · exact .inr (.inr (.inr ⟨p, rfl, inside⟩))
      · exact .inr (.inl ((below.to_finish closed started first).trans earlier))
      · exact .inr (.inr (.inl (later.trans inside)))
    · rcases starts.does.ordered closed happens starts'.does with ⟨same, -⟩ | earlier | later
      · obtain rfl := Deed.part.inj same
        exact ih p starts below below' started
      · exact .inr (.inl ((below.to_finish closed started first).trans
          (earlier.trans (below'.since_start closed started' second))))
      · exact .inr (.inr (.inl ((below'.to_finish closed started' second).trans
          (later.trans (below.since_start closed started first)))))

end Closed

end Step

end Lox
