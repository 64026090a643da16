import Lox.ForLoop
import Lox.Proofs.Stateful

/-!
A run that ends before its fuel is used up ends the same way with more fuel. One computation
outlasts another if it does the same wherever the other does not run out of fuel.
-/

namespace Lox

namespace Run

def Outlasts {α : Type} (y x : Run α) : Prop :=
  ∀ m, (∃ n, x m = .error .outOfFuel n) ∨ y m = x m

variable {α β : Type} {x y z : Run α} {f g : α → Run β}

namespace Outlasts

theorem refl (x : Run α) : x.Outlasts x := fun _ => .inr rfl

theorem spent (y : Run α) : y.Outlasts Run.outOfFuel := fun m => .inl ⟨m, rfl⟩

theorem trans (first : y.Outlasts x) (second : z.Outlasts y) : z.Outlasts x := by
  intro m
  rcases first m with spent | same
  · exact .inl spent
  · rw [← same]
    exact second m

theorem bind (first : y.Outlasts x) (second : ∀ a, (g a).Outlasts (f a)) :
    Outlasts (y >>= g) (x >>= f) := by
  intro m
  rcases first m with ⟨n, spent⟩ | same
  · exact .inl ⟨n, bind_of_error spent⟩
  · cases run : x m with
    | error h n => exact .inr ((bind_of_error (same.trans run)).trans (bind_of_error run).symm)
    | ok a n =>
      rw [bind_of_ok run, bind_of_ok (same.trans run)]
      exact second a n

/-- Only what comes after differs. -/
theorem next (second : ∀ a, (g a).Outlasts (f a)) : Outlasts (x >>= g) (x >>= f) :=
  (refl x).bind second

theorem inChain (chain : Chain) (inside : y.Outlasts x) :
    (Run.inChain chain y).Outlasts (Run.inChain chain x) := by
  intro m
  rcases inside { m with chain := chain } with ⟨n, spent⟩ | same
  · exact .inl ⟨_, inChain_error spent⟩
  · exact .inr (by simp only [Run.inChain, same])

/-- A run that has ended ends the same way. -/
theorem ends (outlasts : y.Outlasts x) {m : Machine}
    (ended : ∀ n, x m ≠ .error .outOfFuel n) : y m = x m :=
  (outlasts m).resolve_left fun ⟨n, spent⟩ => ended n spent

end Outlasts

section Parts

variable {evaluate more : Expr → Run Value} {execute again : Stmt → Run Flow}

theorem arguments_outlasts (evaluates : ∀ e, (more e).Outlasts (evaluate e)) (es : List Expr) :
    (arguments more es).Outlasts (arguments evaluate es) := by
  induction es with
  | nil => exact .refl _
  | cons e es ih =>
    apply (evaluates e).bind
    intro v
    exact ih.bind fun _ => .refl _

variable (executes : ∀ s, (again s).Outlasts (execute s))
include executes

theorem sequence_outlasts (ss : List Stmt) :
    (sequence again ss).Outlasts (sequence execute ss) := by
  induction ss with
  | nil => exact .refl _
  | cons s ss ih =>
    apply (executes s).bind
    intro flow
    cases flow with
    | normal => exact ih
    | returned v => exact .refl _

theorem callClosure_outlasts (line : Nat) (closure : Closure) (vs : List Value) :
    (callClosure again line closure vs).Outlasts (callClosure execute line closure vs) := by
  apply Outlasts.next
  intro scope
  exact (Outlasts.inChain _ (sequence_outlasts executes _)).bind fun _ => .refl _

theorem callValue_outlasts (line : Nat) (vs : List Value) (callee : Value) :
    (callValue again line vs callee).Outlasts (callValue execute line vs callee) := by
  cases callee with
  | function _ closure => exact callClosure_outlasts executes line closure vs
  | class_ c =>
    apply Outlasts.next
    intro object
    cases c.method? initializerName with
    | none => exact .refl _
    | some method =>
      apply Outlasts.next
      intro bound
      exact (callClosure_outlasts executes line bound vs).bind fun _ => .refl _
  | _ => exact .refl _

end Parts

section Runs

variable {fuel : Nat} (evaluates : ∀ e, (evaluate (fuel + 1) e).Outlasts (evaluate fuel e))
  (executes : ∀ s, (execute (fuel + 1) s).Outlasts (execute fuel s))
include evaluates executes

theorem evaluate_outlasts (e : Expr) : (evaluate (fuel + 2) e).Outlasts (evaluate (fuel + 1) e) := by
  rw [evaluate.eq_def (fuel + 2), evaluate.eq_def (fuel + 1)]
  cases e with
  | literal | var | this | super => exact .refl _
  | grouping _ inner => exact evaluates inner
  | unary _ operator operand => exact (evaluates operand).bind fun _ => .refl _
  | binary _ left operator right =>
    exact (evaluates left).bind fun _ => (evaluates right).bind fun _ => .refl _
  | logical _ left operator right =>
    apply (evaluates left).bind
    intro a
    split
    · exact .refl _
    · exact evaluates right
  | assign id name value => exact (evaluates value).bind fun _ => .refl _
  | call _ callee paren args =>
    apply (evaluates callee).bind
    intro f
    cases f.arity? with
    | none => exact .refl _
    | some arity =>
      apply (arguments_outlasts evaluates args).bind
      intro vs
      split
      · exact .refl _
      · exact callValue_outlasts executes paren.line vs f
  | get _ object name => exact (evaluates object).bind fun _ => .refl _
  | set _ object name value =>
    apply (evaluates object).bind
    intro v
    cases v with
    | object i c => exact (evaluates value).bind fun _ => .refl _
    | _ => exact .refl _
  | comma _ left right => exact (evaluates left).bind fun _ => evaluates right
  | ternary _ condition yes no =>
    apply (evaluates condition).bind
    intro v
    split
    · exact evaluates yes
    · exact evaluates no

theorem execute_outlasts (s : Stmt) : (execute (fuel + 2) s).Outlasts (execute (fuel + 1) s) := by
  rw [execute.eq_def (fuel + 2), execute.eq_def (fuel + 1)]
  match s with
  | .varDecl _ none | .funDecl _ | .returnStmt _ none | .classDecl _ none _ => exact .refl _
  | .expression e | .print e | .varDecl _ (some e) | .returnStmt _ (some e)
  | .classDecl _ (some e) _ => exact (evaluates e).bind fun _ => .refl _
  | .block body =>
    apply Outlasts.next
    intro chain
    apply Outlasts.next
    intro scope
    exact Outlasts.inChain _ (sequence_outlasts executes body)
  | .ifThen condition yes =>
    apply (evaluates condition).bind
    intro v
    split
    · exact executes yes
    · exact .refl _
  | .ifElse condition yes no =>
    apply (evaluates condition).bind
    intro v
    split
    · exact executes yes
    · exact executes no
  | .whileLoop condition body =>
    apply (evaluates condition).bind
    intro v
    split
    · apply (executes body).bind
      intro flow
      cases flow with
      | normal => exact executes (.whileLoop condition body)
      | returned r => exact .refl _
    · exact .refl _

end Runs

/-- By induction on the fuel, expressions and statements together. -/
theorem runs_outlast_next (fuel : Nat) :
    (∀ e, (evaluate (fuel + 1) e).Outlasts (evaluate fuel e)) ∧
      ∀ s, (execute (fuel + 1) s).Outlasts (execute fuel s) := by
  induction fuel with
  | zero =>
    constructor
    · intro e
      rw [evaluate.eq_def 0]
      exact .spent _
    · intro s
      rw [execute.eq_def 0]
      exact .spent _
  | succ fuel ih =>
    constructor
    · exact evaluate_outlasts ih.1 ih.2
    · exact execute_outlasts ih.1 ih.2

/-- More fuel changes nothing about a run that has ended. -/
theorem runs_outlast {fuel more : Nat} (less : fuel ≤ more) :
    (∀ e, (evaluate more e).Outlasts (evaluate fuel e)) ∧
      ∀ s, (execute more s).Outlasts (execute fuel s) := by
  induction less with
  | refl => exact ⟨fun _ => .refl _, fun _ => .refl _⟩
  | step _ ih =>
    constructor
    · exact fun e => (ih.1 e).trans ((runs_outlast_next _).1 e)
    · exact fun s => (ih.2 s).trans ((runs_outlast_next _).2 s)

/-! ### The direct rule of a loop -/

section Loops

variable {fuel more : Nat} (less : fuel ≤ more) (l : ForLoop)
include less

theorem forCondition_outlasts : (forCondition more l).Outlasts (forCondition fuel l) := by
  unfold forCondition
  split
  · exact (runs_outlast less).1 _
  · exact .refl _

theorem forRound_outlasts : (forRound more l).Outlasts (forRound fuel l) := by
  apply ((runs_outlast less).2 l.body).bind
  intro flow
  cases flow with
  | returned v => exact .refl _
  | normal =>
    dsimp only
    split
    · exact ((runs_outlast less).1 _).bind fun _ => .refl _
    · exact .refl _

theorem forRounds_outlasts {bound bound' : Nat} (fewer : bound ≤ bound') :
    (forRounds more l bound').Outlasts (forRounds fuel l bound) := by
  induction bound generalizing bound' with
  | zero => exact .spent _
  | succ bound ih =>
    obtain ⟨rest, rfl⟩ := Nat.exists_eq_add_of_lt fewer
    rw [forRounds, forRounds]
    apply (forCondition_outlasts less l).bind
    intro v
    split
    · apply (forRound_outlasts less l).bind
      intro flow
      cases flow with
      | normal => exact ih (Nat.le_add_right _ _)
      | returned v => exact .refl _
    · exact .refl _

/-- More fuel changes nothing about a loop that has ended by the direct rule. -/
theorem forLoop_outlasts : (forLoop more l).Outlasts (forLoop fuel l) := by
  apply Outlasts.next
  intro chain
  apply Outlasts.next
  intro scope
  apply Outlasts.inChain
  apply (sequence_outlasts (runs_outlast less).2 _).bind
  intro flow
  exact forRounds_outlasts less l less

end Loops

end Run

end Lox
