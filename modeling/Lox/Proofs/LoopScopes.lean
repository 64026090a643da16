import Lox.Proofs.LoopRounds
import Lox.Proofs.Unwinding

/-!
The scopes of a loop while the tree that it is read as is run: one scope is in force in all rounds,
and the body has scopes of its own in each of them.
-/

namespace Lox

open Step (Starts)

/-- A loop that is its own body would be larger than itself. -/
theorem Step.Starts.round {fuel : Nat} {condition : Expr} {body : Stmt} {m : Machine} {next : Step}
    (starts : Starts ⟨fuel, .stmt (.whileLoop condition body), m⟩ next)
    (same : next.task = .stmt (.whileLoop condition body)) :
    ∃ less a n o, fuel = less + 1 ∧ Run.evaluate less condition m = .ok a n ∧ a.isTruthy = true ∧
      Run.execute less body n = .ok .normal o ∧
      next = ⟨less, .stmt (.whileLoop condition body), o⟩ := by
  cases starts with
  | whileCondition => cases same
  | whileBody =>
    have whole : body = .whileLoop condition body := Task.stmt.inj same
    have size := congrArg sizeOf whole
    simp only [Stmt.whileLoop.sizeOf_spec] at size
    omega
  | whileAgain first holds second => exact ⟨_, _, _, _, rfl, first, holds, second, rfl⟩

theorem Step.Starts.loopBody {fuel less : Nat} {condition : Expr} {body : Stmt} {m n : Machine}
    (starts : Starts ⟨fuel, .stmt (.whileLoop condition body), m⟩ ⟨less, .stmt body, n⟩) :
    ∃ a, fuel = less + 1 ∧ Run.evaluate less condition m = .ok a n := by
  generalize same : Task.stmt body = task at starts
  cases starts with
  | whileCondition => cases same
  | whileBody first => exact ⟨_, rfl, first⟩
  | whileAgain =>
    have whole : body = .whileLoop condition body := Task.stmt.inj same
    have size := congrArg sizeOf whole
    simp only [Stmt.whileLoop.sizeOf_spec] at size
    omega

/-- A block opens a scope. -/
theorem Run.block_opens {fuel : Nat} {body : List Stmt} {m n : Machine} {flow : Flow}
    (run : execute fuel (.block body) m = .ok flow n) :
    m.store.scopes.size < n.store.scopes.size := by
  cases fuel with
  | zero =>
    rw [execute] at run
    cases run
  | succ fuel =>
    rw [execute] at run
    obtain ⟨o, inside, rfl⟩ := inChain_ok_inside run
    have unwound : (Step.opened m).Unwound o := by
      have all : Unwinds (sequence (execute fuel) body) :=
        sequence_unwinds (fun s => (runs_unwind fuel).2 s) body
      have ended := all (Step.opened m)
      rwa [show sequence (execute fuel) body (Step.opened m) = .ok flow o from inside] at ended
    have opened : (Step.opened m).store.scopes.size = m.store.scopes.size + 1 :=
      Store.size_addScope _ _
    have scopes := unwound.scopes
    dsimp only
    omega

namespace ForLoop

variable {l : ForLoop} {id : ExprId} {fuel : Nat} {m : Machine} {i j : Nat} {step next : Step}

/-- The steps that begin the rounds, in the run of the tree on a machine. -/
inductive Round (l : ForLoop) (id : ExprId) (fuel : Nat) (m : Machine) : Nat → Step → Prop
  | first (none : l.initializer = none) : Round l id fuel m 0 ⟨fuel, .stmt (l.while_ id), m⟩
  | initialized {s : Stmt} {less : Nat} {n : Machine} (some : l.initializer = some s)
      (enough : fuel = less + 1) (run : Run.execute less s (Step.opened m) = .ok .normal n) :
      Round l id fuel m 0 ⟨less, .stmt (l.while_ id), n⟩
  | next {i : Nat} {step next : Step} (round : Round l id fuel m i step)
      (starts : Starts step next) (same : next.task = .stmt (l.while_ id)) :
      Round l id fuel m (i + 1) next

/-- The step that runs the body in a round. -/
inductive BodyOf (l : ForLoop) (id : ExprId) (fuel : Nat) (m : Machine) (i : Nat) : Step → Prop
  | plain {step : Step} {less : Nat} {n : Machine} (none : l.increment = none)
      (round : l.Round id fuel m i step) (starts : Starts step ⟨less, .stmt l.step, n⟩) :
      BodyOf l id fuel m i ⟨less, .stmt l.body, n⟩
  | followed {e : Expr} {step : Step} {less : Nat} {n : Machine} (some : l.increment = some e)
      (round : l.Round id fuel m i step) (starts : Starts step ⟨less + 1, .stmt l.step, n⟩) :
      BodyOf l id fuel m i ⟨less, .stmt l.body, Step.opened n⟩

/-- The scopes that are in force in each round. -/
def chain (l : ForLoop) (m : Machine) : Chain :=
  match l.initializer with
  | some _ => m.store.scopes.size :: m.chain
  | none => m.chain

/-- A round begins with the condition, in the scope of the loop. -/
theorem Round.begins (round : l.Round id fuel m i step) :
    step.task = .stmt (l.while_ id) ∧ step.machine.chain = l.chain m := by
  induction round with
  | first none => exact ⟨rfl, by rw [chain, none]⟩
  | initialized some _ run =>
    refine ⟨rfl, (Run.execute_ok_unwound run).chain.trans ?_⟩
    rw [chain, some]
    exact congrArg (· :: m.chain) (Store.lastScope_addScope _ _)
  | @next i step next round starts same ih =>
    obtain ⟨fuel, task, n⟩ := step
    obtain ⟨isLoop, there⟩ := ih
    dsimp only at isLoop
    subst isLoop
    obtain ⟨less, a, o, q, rfl, first, -, second, rfl⟩ := starts.round same
    refine ⟨rfl, ?_⟩
    have unwound := (Run.evaluate_ok_unwound first).trans (Run.execute_ok_unwound second)
    exact unwound.chain.trans there

theorem Round.unique (round : l.Round id fuel m i step) {other : Step}
    (round' : l.Round id fuel m i other) : step = other := by
  induction round generalizing other with
  | first none =>
    cases round' with
    | first => rfl
    | initialized some => cases none.symm.trans some
  | initialized some enough run =>
    cases round' with
    | first none => cases none.symm.trans some
    | initialized some' enough' run' =>
      cases some.symm.trans some'
      obtain rfl := Nat.succ.inj (enough.symm.trans enough')
      cases run.symm.trans run'
      rfl
  | @next i step next round starts same ih =>
    cases round' with
    | @next _ step' _ before starts' same' =>
      obtain rfl := ih before
      obtain ⟨fuel, task, n⟩ := step
      obtain rfl : task = .stmt (l.while_ id) := round.begins.1
      obtain ⟨less, a, o, q, rfl, first, -, second, rfl⟩ := starts.round same
      obtain ⟨less', a', o', q', enough, first', -, second', rfl⟩ := starts'.round same'
      obtain rfl := Nat.succ.inj enough
      cases first.symm.trans first'
      cases second.symm.trans second'
      rfl

/-- Scopes stay once they are there. -/
theorem Round.later (round : l.Round id fuel m j step) (le : i ≤ j) :
    ∃ earlier, l.Round id fuel m i earlier ∧
      earlier.machine.store.scopes.size ≤ step.machine.store.scopes.size := by
  induction round with
  | first none =>
    obtain rfl := Nat.le_zero.1 le
    exact ⟨_, .first none, Nat.le_refl _⟩
  | initialized some enough run =>
    obtain rfl := Nat.le_zero.1 le
    exact ⟨_, .initialized some enough run, Nat.le_refl _⟩
  | @next j step next round starts same ih =>
    rcases Nat.le_succ_iff.1 le with before | rfl
    · obtain ⟨earlier, there, fewer⟩ := ih before
      refine ⟨earlier, there, Nat.le_trans fewer ?_⟩
      obtain ⟨fuel, task, n⟩ := step
      obtain rfl : task = .stmt (l.while_ id) := round.begins.1
      obtain ⟨less, a, o, q, rfl, first, -, second, rfl⟩ := starts.round same
      exact ((Run.evaluate_ok_unwound first).trans (Run.execute_ok_unwound second)).scopes
    · exact ⟨next, .next round starts same, Nat.le_refl _⟩

/-- The body is run in the scope of the loop, or with a scope in between that holds nothing. -/
theorem BodyOf.inside (body : l.BodyOf id fuel m i step) :
    ∃ n, n.chain = l.chain m ∧ step.machine = if l.increment.isSome then Step.opened n else n := by
  have there {round : Step} {less : Nat} {n : Machine} (begins : l.Round id fuel m i round)
      (starts : Starts round ⟨less, .stmt l.step, n⟩) : n.chain = l.chain m := by
    obtain ⟨fuel, task, o⟩ := round
    obtain ⟨rfl, chain⟩ := begins.begins
    obtain ⟨a, rfl, first⟩ := starts.loopBody
    exact (Run.evaluate_ok_unwound first).chain.trans chain
  cases body with
  | plain none begins starts => exact ⟨_, there begins starts, by rw [none]; rfl⟩
  | followed some begins starts => exact ⟨_, there begins starts, by rw [some]; rfl⟩

/-- A round that is followed by another has run its body to the end. -/
theorem BodyOf.ended (body : l.BodyOf id fuel m i step) (round : l.Round id fuel m (i + 1) next) :
    ∃ o, Run.execute step.fuel l.body step.machine = .ok .normal o ∧
      o.store.scopes.size ≤ next.machine.store.scopes.size := by
  have ran {before : Step} {less : Nat} {n : Machine} (begins : l.Round id fuel m i before)
      (starts : Starts before ⟨less, .stmt l.step, n⟩) :
      Run.execute less l.step n = .ok .normal next.machine := by
    cases round with
    | @next _ other _ begins' starts' same =>
      obtain rfl := begins.unique begins'
      obtain ⟨fuel, task, o⟩ := before
      obtain rfl : task = .stmt (l.while_ id) := begins.begins.1
      obtain ⟨a, enough, first⟩ := starts.loopBody
      obtain ⟨less', a', o', q, enough', first', -, second, rfl⟩ := starts'.round same
      obtain rfl := Nat.succ.inj (enough.symm.trans enough')
      cases first.symm.trans first'
      exact second
  cases body with
  | plain none begins starts =>
    have whole := ran begins starts
    have same : l.step = l.body := by rw [ForLoop.step, none]
    rw [same] at whole
    exact ⟨_, whole, Nat.le_refl _⟩
  | @followed e before less n some begins starts =>
    have whole := ran begins starts
    have same : l.step = .block [l.body, .expression e] := by rw [ForLoop.step, some]
    rw [same, Run.execute] at whole
    obtain ⟨o, inside, ends⟩ := Run.inChain_ok_inside whole
    obtain ⟨flow, q, first, rest⟩ := bind_ok_iff.1 inside
    have unwound := Run.sequence_unwinds (fun s => (Run.runs_unwind less).2 s) [.expression e] q
    cases flow with
    | returned v =>
      cases rest
    | normal =>
      refine ⟨q, first, ?_⟩
      rw [show Run.sequence (Run.execute less) [.expression e] q = .ok .normal o from rest] at unwound
      rw [ends]
      exact unwound.scopes

/-- What a block as the body declares is new in each round: the scope that it opens is none that an
earlier round has had. -/
theorem BodyOf.fresh {inner : List Stmt} (block : l.body = .block inner) (before : i < j)
    (body : l.BodyOf id fuel m i step) (body' : l.BodyOf id fuel m j next) :
    step.machine.store.scopes.size < next.machine.store.scopes.size := by
  have begun : ∃ round, l.Round id fuel m j round ∧
      round.machine.store.scopes.size ≤ next.machine.store.scopes.size := by
    have first {round : Step} {less : Nat} {n : Machine} (begins : l.Round id fuel m j round)
        (starts : Starts round ⟨less, .stmt l.step, n⟩) :
        round.machine.store.scopes.size ≤ n.store.scopes.size := by
      obtain ⟨fuel, task, o⟩ := round
      obtain rfl : task = .stmt (l.while_ id) := begins.begins.1
      obtain ⟨a, rfl, first⟩ := starts.loopBody
      exact (Run.evaluate_ok_unwound first).scopes
    cases body' with
    | plain _ begins starts => exact ⟨_, begins, first begins starts⟩
    | @followed _ _ _ n _ begins starts =>
      have opened : (Step.opened n).store.scopes.size = n.store.scopes.size + 1 :=
        Store.size_addScope _ _
      exact ⟨_, begins, by have fewer := first begins starts; dsimp only; omega⟩
  obtain ⟨round, begins, fewer⟩ := begun
  obtain ⟨after, follows, fewer'⟩ := begins.later before
  obtain ⟨o, run, fewer''⟩ := body.ended follows
  rw [block] at run
  have opens := Run.block_opens run
  omega

/-- What the scopes of a loop are when its tree is run on this machine, with any fuel. -/
structure SharesScope (l : ForLoop) (id : ExprId) (m : Machine) : Prop where
  /-- All rounds begin with the same scopes in force, that of the loop the innermost. -/
  rounds : ∀ fuel i step, l.Round id fuel m i step → step.machine.chain = l.chain m
  /-- So do body and increment, but for a scope that holds nothing. -/
  bodies : ∀ fuel i step, l.BodyOf id fuel m i step →
    ∃ n, n.chain = l.chain m ∧ step.machine = if l.increment.isSome then Step.opened n else n
  /-- A block as the body opens a scope that no earlier round has had. -/
  fresh : ∀ fuel i j step next inner, l.body = .block inner → i < j → l.BodyOf id fuel m i step →
    l.BodyOf id fuel m j next → step.machine.store.scopes.size < next.machine.store.scopes.size
  /-- After the loop the scopes are in force that were before. -/
  left : ∀ fuel, (stateOf (Run.execute fuel (l.desugared id) m)).chain = m.chain

theorem sharesScope (l : ForLoop) (id : ExprId) (m : Machine) : l.SharesScope id m := by
  constructor
  · exact fun _ _ _ round => round.begins.2
  · exact fun _ _ _ body => body.inside
  · exact fun _ _ _ _ _ _ block before body body' => body.fresh block before body'
  · exact fun fuel => ((Run.runs_unwind fuel).2 (l.desugared id) m).chain

end ForLoop

end Lox
