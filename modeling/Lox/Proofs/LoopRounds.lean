import Lox.Proofs.AlignedRuns
import Lox.Proofs.Steps

/-!
The rounds of a loop, run as the tree that the loop is read as and by the direct rule. The tree has a
scope for the loop only if there is an initializer, and the direct rule always has one; with an
increment each round of the tree has a scope of its own that holds nothing. So the runs track each
other in chains that differ by these scopes.
-/

namespace Lox

/-! ### Scopes that one run has alone -/

namespace Run

variable {α : Type} {body : Run α} {m n : Machine}

theorem inNewScope_ok {r : α} (run : body (Step.opened m) = .ok r n) :
    inNewScope body m = .ok r { n with chain := m.chain } := inChain_ok run

theorem inNewScope_error {h : Halt} (run : body (Step.opened m) = .error h n) :
    inNewScope body m = .error h { n with chain := m.chain } := inChain_error run

theorem sequence_single (execute : Stmt → Run Flow) (s : Stmt) : sequence execute [s] = execute s := by
  rw [sequence]
  refine Eq.trans (bind_congr fun flow => ?_) (bind_pure _)
  cases flow <;> rfl

end Run

section

variable {α : Type} {slack : Level} {D : TwoDistances} {A : Links → α → α → Prop} {w : Links}
  {a : Alignment} {m m' : Machine} {x x' : Run α}

open Machine.Aligned (Kept)

/-- A scope that only the left run has. -/
theorem Tracks.openLeft (aligned : m.Aligned D w a m')
    (inside : Machine.Aligned D w (.left :: a) (Step.opened m) m' →
      Tracks slack D A w (.left :: a) (Step.opened m) m' x x') :
    Tracks slack D A w a m m' (Run.inNewScope x) x' := by
  have back {n n' : Machine} {v : Links} (kept : Kept D w (.left :: a) (Step.opened m) m' v n n') :
      Kept D w a m m' v { n with chain := m.chain } n' := by
    refine ⟨kept.within, { kept.aligned with chain := ?_ }, rfl, kept.right⟩
    rw [kept.right]
    exact aligned.chain.later kept.within
  have opened : Machine.Aligned D w (.left :: a) (Step.opened m) m' :=
    { aligned with store := aligned.store.addLeft _, chain := .left aligned.chain }
  rcases inside opened with ⟨r, r', n, n', v, run, run', kept, given⟩ |
    ⟨h, n, n', v, run, run', kept⟩ | ⟨rfl, n, spent⟩ | ⟨rfl, n', spent⟩
  · exact of_ok (Run.inNewScope_ok run) run' (back kept) given
  · exact of_error (Run.inNewScope_error run) run' (back kept)
  · exact of_spent (Run.inNewScope_error spent)
  · exact of_spent' spent

/-- A scope that only the right run has. -/
theorem Tracks.openRight (aligned : m.Aligned D w a m')
    (inside : Machine.Aligned D w (.right :: a) m (Step.opened m') →
      Tracks slack D A w (.right :: a) m (Step.opened m') x x') :
    Tracks slack D A w a m m' x (Run.inNewScope x') := by
  have back {n n' : Machine} {v : Links} (kept : Kept D w (.right :: a) m (Step.opened m') v n n') :
      Kept D w a m m' v n { n' with chain := m'.chain } := by
    refine ⟨kept.within, { kept.aligned with chain := ?_ }, kept.left, rfl⟩
    rw [kept.left]
    exact aligned.chain.later kept.within
  have opened : Machine.Aligned D w (.right :: a) m (Step.opened m') :=
    { aligned with store := aligned.store.addRight _, chain := .right aligned.chain }
  rcases inside opened with ⟨r, r', n, n', v, run, run', kept, given⟩ |
    ⟨h, n, n', v, run, run', kept⟩ | ⟨rfl, n, spent⟩ | ⟨rfl, n', spent⟩
  · exact of_ok run (Run.inNewScope_ok run') (back kept) given
  · exact of_error run (Run.inNewScope_error run') (back kept)
  · exact of_spent spent
  · exact of_spent' (Run.inNewScope_error spent)

end

/-! ### The tree of a loop -/

/-- What a loop can begin with. -/
def Stmt.isInitializer : Stmt → Bool
  | varDecl _ _ => true
  | expression _ => true
  | _ => false

theorem Run.initializer_normal {fuel : Nat} {s : Stmt} {flow : Flow} {m n : Machine}
    (begins : s.isInitializer = true) (run : execute fuel s m = .ok flow n) : flow = .normal := by
  cases fuel with
  | zero =>
    rw [execute] at run
    cases run
  | succ fuel =>
    cases s with
    | varDecl name e =>
      cases e with
      | none =>
        rw [execute] at run
        obtain ⟨_, _, -, ends⟩ := bind_ok_iff.1 run
        cases ends
        rfl
      | some e =>
        rw [execute] at run
        obtain ⟨_, _, -, rest⟩ := bind_ok_iff.1 run
        obtain ⟨_, _, -, ends⟩ := bind_ok_iff.1 rest
        cases ends
        rfl
    | expression e =>
      rw [execute] at run
      obtain ⟨_, _, -, ends⟩ := bind_ok_iff.1 run
      cases ends
      rfl
    | _ => cases begins

namespace ForLoop

/-- The body, with the increment if there is one. -/
def step (l : ForLoop) : Stmt :=
  match l.increment with
  | some e => .block [l.body, .expression e]
  | none => l.body

/-- The loop without its initializer. -/
def while_ (l : ForLoop) (id : ExprId) : Stmt :=
  .whileLoop (l.condition.getD (.literal id (.bool true))) l.step

theorem desugared_eq (l : ForLoop) (id : ExprId) : l.desugared id =
    match l.initializer with
    | some s => .block [s, l.while_ id]
    | none => l.while_ id := by
  obtain ⟨initializer, condition, increment, body⟩ := l
  cases initializer <;> cases increment <;> rfl

/-- Where condition and increment are evaluated. -/
def alignment (l : ForLoop) (a : Alignment) : Alignment :=
  match l.initializer with
  | some _ => .both :: a
  | none => .right :: a

/-- Where the body is run. -/
def bodyAlignment (l : ForLoop) (a : Alignment) : Alignment :=
  match l.increment with
  | some _ => .left :: l.alignment a
  | none => l.alignment a

/-- All parts are aligned where they are run. -/
structure Aligned (D : TwoDistances) (f : ExprId → ExprId) (a : Alignment) (l : ForLoop) : Prop where
  initializer : ∀ s ∈ l.initializer, s.isInitializer = true ∧ s.Aligned D f (.both :: a)
  condition : ∀ e ∈ l.condition, e.Aligned D f (l.alignment a)
  increment : ∀ e ∈ l.increment, e.Aligned D f (.left :: l.alignment a)
  body : l.body.Aligned D f (l.bodyAlignment a)

end ForLoop

/-! ### Rounds -/

/-- The run of the tree has no more fuel than that of the loop, or it has enough for a round of it,
whichever of them may run out. -/
def Level.Leads (slack : Level) (fuel fuel' : Nat) : Prop :=
  slack = .left ∧ fuel ≤ fuel' ∨ slack = .right ∧ fuel' + 2 < fuel

theorem Level.Leads.fits {slack : Level} {fuel fuel' less : Nat} (leads : slack.Leads fuel fuel')
    (le : less ≤ fuel) (near : fuel ≤ less + 3) : slack.Fits less fuel' := by
  rcases leads with ⟨rfl, fewer⟩ | ⟨rfl, more⟩
  · exact Nat.le_trans le fewer
  · have enough : fuel' ≤ less := by omega
    exact enough

namespace Run

open ForLoop (step while_ alignment bodyAlignment)

variable {slack : Level} {D : TwoDistances} {f : ExprId → ExprId} {w : Links} {a : Alignment}
  {m m' : Machine} {l : ForLoop} {fuel fuel' : Nat}

theorem forRound_none (none : l.increment = none) : forRound fuel l = execute fuel l.body := by
  rw [forRound, none]
  refine Eq.trans (bind_congr fun flow => ?_) (bind_pure _)
  cases flow <;> rfl

theorem forRound_some {e : Expr} (written : l.increment = some e) :
    forRound fuel l = (do
      match ← execute fuel l.body with
      | .normal => do
          let _ ← evaluate fuel e
          pure .normal
      | .returned v => pure (.returned v)) := by
  obtain ⟨initializer, condition, increment, body⟩ := l
  cases written
  refine bind_congr fun flow => ?_
  cases flow <;> rfl

section

variable (tree : l.Aligned D f a) (leads : slack.Leads fuel fuel')
  (aligned : m.Aligned D w (l.alignment a) m')
include tree leads aligned

theorem condition_tracks (id : ExprId) :
    Tracks slack D (Value.Aligned D) w (l.alignment a) m m'
      (evaluate fuel (l.condition.getD (.literal id (.bool true))))
      (forCondition fuel' (l.renumber f)) := by
  cases written : l.condition with
  | some e =>
    have right : forCondition fuel' (l.renumber f) = evaluate fuel' (e.renumber f) := by
      simp only [forCondition, ForLoop.renumber, written, Option.map]
    rw [right]
    exact evaluate_tracks (leads.fits (Nat.le_refl _) (by omega)) aligned (tree.condition e written)
  | none =>
    have right : forCondition fuel' (l.renumber f) = pure (.bool true) := by
      simp only [forCondition, ForLoop.renumber, written, Option.map]
    rw [right]
    cases fuel with
    | zero =>
      rcases leads with ⟨rfl, -⟩ | ⟨-, less⟩
      · exact .of_spent (n := m) (by rw [evaluate]; rfl)
      · omega
    | succ fuel =>
      rw [Option.getD_none, evaluate]
      exact .pure aligned rfl

/-- One round: the body, and then the increment. -/
theorem round_tracks :
    Tracks slack D (Flow.Aligned D) w (l.alignment a) m m' (execute fuel l.step)
      (forRound fuel' (l.renumber f)) := by
  have body := tree.body
  cases written : l.increment with
  | none =>
    simp only [step, bodyAlignment, written] at body ⊢
    rw [forRound_none (by simp only [ForLoop.renumber, written, Option.map])]
    exact execute_tracks (leads.fits (Nat.le_refl _) (by omega)) aligned body
  | some e =>
    have increment := tree.increment e written
    simp only [step, bodyAlignment, written] at body ⊢
    match fuel with
    | 0 =>
      rcases leads with ⟨rfl, -⟩ | ⟨-, less⟩
      · exact .of_spent (n := m) (by rw [execute]; rfl)
      · omega
    | 1 =>
      rcases leads with ⟨rfl, -⟩ | ⟨-, less⟩
      · have spent : sequence (execute 0) [l.body, .expression e] (Step.opened m) =
            .error .outOfFuel (Step.opened m) := bind_of_error (by rw [execute]; rfl)
        exact .of_spent (inNewScope_error spent)
      · omega
    | less + 2 =>
      have right : (l.renumber f).increment = some (e.renumber f) := by
        rw [ForLoop.renumber, written, Option.map]
      rw [forRound_some right, execute]
      refine .openLeft aligned fun opened => ?_
      refine (execute_tracks (leads.fits (by omega) (by omega)) opened body).bind ?_
      intro flow flow' n n' v _ _ kept ends
      cases flow with
      | returned r =>
        obtain ⟨r', rfl, value⟩ := ends
        exact .pure kept.aligned ⟨r', rfl, value⟩
      | normal =>
        obtain rfl : flow' = .normal := ends
        dsimp only
        rw [sequence_single, execute]
        refine (evaluate_tracks (leads.fits (by omega) (by omega)) kept.aligned increment).bind ?_
        intro _ _ o o' u _ _ kept' _
        exact .pure kept'.aligned rfl

end

/-- The tree runs out of fuel by the rounds as well, so that it needs more of it for each. By
induction on the rounds that are left. -/
theorem rounds_track (tree : l.Aligned D f a) (id : ExprId) {bound : Nat}
    (leads : slack = .left ∧ fuel ≤ bound ∧ fuel ≤ fuel' ∨ slack = .right ∧ bound + fuel' + 2 < fuel)
    (aligned : m.Aligned D w (l.alignment a) m') :
    Tracks slack D (Flow.Aligned D) w (l.alignment a) m m' (execute fuel (l.while_ id))
      (forRounds fuel' (l.renumber f) bound) := by
  induction bound generalizing fuel w m m' with
  | zero =>
    rcases leads with ⟨rfl, none, -⟩ | ⟨rfl, -⟩
    · obtain rfl := Nat.le_zero.1 none
      exact .of_spent (n := m) (by rw [execute]; rfl)
    · have spent : forRounds fuel' (l.renumber f) 0 m' = .error .outOfFuel m' := by
        rw [forRounds]
        rfl
      exact .of_spent' spent
  | succ bound ih =>
    cases fuel with
    | zero =>
      rcases leads with ⟨rfl, -⟩ | ⟨-, less⟩
      · exact .of_spent (n := m) (by rw [execute]; rfl)
      · omega
    | succ fuel =>
      have one : slack.Leads fuel fuel' := by
        rcases leads with ⟨rfl, -, fewer⟩ | ⟨rfl, more⟩
        · exact .inl ⟨rfl, by omega⟩
        · exact .inr ⟨rfl, by omega⟩
      have rest : slack = .left ∧ fuel ≤ bound ∧ fuel ≤ fuel' ∨
          slack = .right ∧ bound + fuel' + 2 < fuel := by
        rcases leads with ⟨left, fewer, fewer'⟩ | ⟨right, more⟩
        · exact .inl ⟨left, by omega, by omega⟩
        · exact .inr ⟨right, by omega⟩
      rw [while_, execute, forRounds]
      refine (condition_tracks tree one aligned id).bind ?_
      intro u u' n n' v _ _ kept value
      rw [value.isTruthy]
      split
      · refine (round_tracks tree one kept.aligned).bind ?_
        intro flow flow' o o' x _ _ kept' ends
        cases flow with
        | normal =>
          obtain rfl : flow' = .normal := ends
          exact ih rest kept'.aligned
        | returned r =>
          obtain ⟨r', rfl, value⟩ := ends
          exact .pure kept'.aligned ⟨r', rfl, value⟩
      · exact .pure kept.aligned rfl

/-- The whole loop. -/
theorem loop_tracks (tree : l.Aligned D f a) (id : ExprId)
    (leads : slack = .left ∧ fuel ≤ fuel' ∨ slack = .right ∧ 2 * fuel' + 3 < fuel)
    (aligned : m.Aligned D w a m') :
    Tracks slack D (Flow.Aligned D) w a m m' (execute fuel (l.desugared id))
      (forLoop fuel' (l.renumber f)) := by
  rw [ForLoop.desugared_eq]
  have again {less : Nat} {w : Links} {m m' : Machine} (le : less ≤ fuel) (near : fuel ≤ less + 1)
      (aligned : m.Aligned D w (l.alignment a) m') :
      Tracks slack D (Flow.Aligned D) w (l.alignment a) m m' (execute less (l.while_ id))
        (forRounds fuel' (l.renumber f) fuel') := by
    refine rounds_track tree id (leads.imp ?_ ?_) aligned
    · rintro ⟨left, fewer⟩
      exact ⟨left, by omega, by omega⟩
    · rintro ⟨right, more⟩
      exact ⟨right, by omega⟩
  cases written : l.initializer with
  | none =>
    have right : forLoop fuel' (l.renumber f) =
        inNewScope (forRounds fuel' (l.renumber f) fuel') := by
      simp only [forLoop, inNewScope, ForLoop.renumber, written, Option.map, Option.toList_none,
        sequence, pure_bind]
    rw [right]
    refine .openRight aligned fun opened => ?_
    simp only [alignment, written] at again
    exact again (Nat.le_refl _) (Nat.le_succ _) opened
  | some s =>
    obtain ⟨begins, initializer⟩ := tree.initializer s written
    have right : forLoop fuel' (l.renumber f) = inNewScope (do
        let _ ← execute fuel' (s.renumber f)
        forRounds fuel' (l.renumber f) fuel') := by
      simp only [forLoop, inNewScope, ForLoop.renumber, written, Option.map, Option.toList_some,
        sequence_single]
    rw [right]
    simp only [alignment, written] at again
    cases fuel with
    | zero =>
      rcases leads with ⟨rfl, -⟩ | ⟨-, less⟩
      · exact .of_spent (n := m) (by rw [execute]; rfl)
      · omega
    | succ fuel =>
      have fits : slack.Fits fuel fuel' := by
        rcases leads with ⟨rfl, fewer⟩ | ⟨rfl, more⟩
        · exact Nat.le_of_succ_le fewer
        · have enough : fuel' ≤ fuel := by omega
          exact enough
      dsimp only
      rw [execute]
      refine inNewScope_tracks aligned fun v o o' opened => ?_
      refine (execute_tracks fits opened initializer).bind ?_
      intro flow flow' q q' u run _ kept _
      obtain rfl := initializer_normal begins run
      dsimp only
      rw [sequence_single]
      exact again (Nat.le_succ _) (Nat.le_refl _) kept.aligned

end Run

end Lox
