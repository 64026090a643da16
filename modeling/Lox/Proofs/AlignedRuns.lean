import Lox.Proofs.AlignedOperations
import Lox.Proofs.MoreFuel

/-!
The run of a tree that is aligned and that of its copy with other ids track each other, from machines
that are aligned and with the same fuel. With different fuel they do so as long as the run with less
of it does not run out.
-/

namespace Lox

/-- With so much fuel the runs of an expression and of its copy track each other. -/
def EvaluatesTracked (D : TwoDistances) (fuel : Nat) : Prop :=
  ∀ (f : ExprId → ExprId) (e : Expr) (w : Links) (a : Alignment) (m m' : Machine),
    m.Aligned D w a m' → e.Aligned D f a → Tracks .both D (Value.Aligned D) w a m m'
      (Run.evaluate fuel e) (Run.evaluate fuel (e.renumber f))

/-- With so much fuel the runs of a statement and of its copy track each other. -/
def ExecutesTracked (D : TwoDistances) (fuel : Nat) : Prop :=
  ∀ (f : ExprId → ExprId) (s : Stmt) (w : Links) (a : Alignment) (m m' : Machine),
    m.Aligned D w a m' → s.Aligned D f a → Tracks .both D (Flow.Aligned D) w a m m'
      (Run.execute fuel s) (Run.execute fuel (s.renumber f))

namespace Run

variable {D : TwoDistances} {fuel : Nat} {w : Links} {a : Alignment} {m m' : Machine}
  {f : ExprId → ExprId} {e e' : Value} {vs vs' : List Value}

/-! ### Lists -/

theorem arguments_tracks (evaluates : EvaluatesTracked D fuel) (aligned : m.Aligned D w a m')
    (es : List Expr) (each : Expr.AlignedList D f a es) :
    Tracks .both D (ValuesAligned D) w a m m' (arguments (evaluate fuel) es)
      (arguments (evaluate fuel) (Expr.renumberList f es)) := by
  induction es generalizing w m m' with
  | nil => exact .pure aligned .nil
  | cons e es ih =>
    refine (evaluates f e w a m m' aligned each.1).bind ?_
    intro u u' n n' v _ _ kept value
    refine (ih kept.aligned each.2).bind ?_
    intro us us' o o' x _ _ kept' values
    exact .pure kept'.aligned (.cons (value.later kept'.within) values)

theorem sequence_tracks (executes : ExecutesTracked D fuel) (aligned : m.Aligned D w a m')
    (ss : List Stmt) (each : Stmt.AlignedList D f a ss) :
    Tracks .both D (Flow.Aligned D) w a m m' (sequence (execute fuel) ss)
      (sequence (execute fuel) (Stmt.renumberList f ss)) := by
  induction ss generalizing w m m' with
  | nil => exact .pure aligned rfl
  | cons s ss ih =>
    refine (executes f s w a m m' aligned each.1).bind ?_
    intro flow flow' n n' v _ _ kept ends
    cases flow with
    | normal =>
      obtain rfl : flow' = .normal := ends
      exact ih kept.aligned each.2
    | returned u =>
      obtain ⟨u', rfl, value⟩ := ends
      exact .pure kept.aligned ⟨u', rfl, value⟩

/-! ### Calls -/

theorem parameters_aligned (names : List String) (values : ValuesAligned D w vs vs') :
    List.Forall₂ (fun p p' => p'.1 = Renaming.same.perm p.1 ∧ Value.Aligned D w p.2 p'.2)
      (names.zip vs) (names.zip vs') := by
  induction names generalizing vs vs' with
  | nil => exact .nil
  | cons name names ih =>
    cases values with
    | nil => exact .nil
    | cons value values => exact .cons ⟨rfl, value⟩ (ih values)

/-- The body runs in linked scopes, in the chains of the declarations. -/
theorem callClosure_tracks (executes : ExecutesTracked D fuel) (line : Nat) {y y' : Closure}
    (aligned : m.Aligned D w a m') (closure : y.Aligned D w [] y')
    (values : ValuesAligned D w vs vs') :
    Tracks .both D (Value.Aligned D) w a m m' (callClosure (execute fuel) line y vs)
      (callClosure (execute fuel) line y' vs') := by
  obtain ⟨f, b, as⟩ := closure
  obtain ⟨⟨name, parameters, body⟩, chain, isInitializer⟩ := y
  obtain ⟨function', chain', isInitializer'⟩ := y'
  obtain rfl : function' = _ := as.function
  obtain rfl : isInitializer' = isInitializer := as.isInitializer
  have bound := Table.Like.empty.insertAll (parameters_aligned (parameters.map (·.lexeme)) values)
  refine (newScope_tracks aligned bound).bind ?_
  intro k k' n n' v _ _ kept linked
  have chains := as.chain.later kept.within
  have entered : Machine.Aligned D v (.both :: b) { n with chain := k :: chain }
      { n' with chain := k' :: chain' } :=
    { kept.aligned with chain := .both linked chains }
  refine (Tracks.inChain kept.aligned (sequence_tracks executes entered body as.body)).bind ?_
  intro flow flow' o o' u _ _ kept' ends
  dsimp only
  split
  · rename_i isInit
    obtain ⟨rest, front⟩ := as.receiver isInit
    obtain rfl : b = .both :: rest := front
    exact .ask kept'.aligned (kept'.aligned.store.getAt (chains.later kept'.within) .here "this")
  · refine .pure kept'.aligned ?_
    cases flow with
    | normal =>
      obtain rfl : flow' = .normal := ends
      exact rfl
    | returned r =>
      obtain ⟨r', rfl, value⟩ := ends
      exact value

theorem construct_tracks (executes : ExecutesTracked D fuel) (line : Nat) {c c' : Class}
    (aligned : m.Aligned D w a m') (classes : c.Aligned D w c')
    (values : ValuesAligned D w vs vs') :
    Tracks .both D (Value.Aligned D) w a m m' (construct (execute fuel) line c vs)
      (construct (execute fuel) line c' vs') := by
  refine (newInstance_tracks aligned classes).bind ?_
  intro object object' n n' v _ _ kept made
  rcases classes.method? initializerName with ⟨y, y', found, found', method⟩ | ⟨none, none'⟩
  · rw [found, found']
    refine (bindMethod_tracks kept.aligned (method.later kept.within) made).bind ?_
    intro z z' o o' u _ _ kept' bound
    have later := values.later (kept.within.trans kept'.within)
    refine (callClosure_tracks executes line kept'.aligned bound later).bind ?_
    intro _ _ p p' x _ _ kept'' _
    exact .pure kept''.aligned (made.later (kept'.within.trans kept''.within))
  · rw [none, none']
    exact .pure kept.aligned made

theorem callValue_tracks (executes : ExecutesTracked D fuel) (line : Nat)
    (aligned : m.Aligned D w a m') (callee : e.Aligned D w e')
    (values : ValuesAligned D w vs vs') :
    Tracks .both D (Value.Aligned D) w a m m' (callValue (execute fuel) line vs e)
      (callValue (execute fuel) line vs' e') := by
  cases e with
  | function n y =>
    obtain ⟨y', rfl, closure⟩ := callee
    exact callClosure_tracks executes line aligned closure values
  | native n native =>
    obtain rfl : e' = _ := callee
    exact callNative_tracks native line aligned values
  | class_ c =>
    obtain ⟨c', rfl, classes⟩ := callee
    exact construct_tracks executes line aligned classes values
  | object n c =>
    obtain ⟨c', rfl, -⟩ := callee
    exact .raise aligned
  | _ =>
    obtain rfl : e' = _ := callee
    exact .raise aligned

/-- What is not a class is refused, whatever it is. -/
theorem asSuperclass_other {name : Token} {superclass : Expr} {u : Value}
    (other : ∀ c, u ≠ .class_ c) :
    asSuperclass name superclass u = asSuperclass name superclass .nil := by
  cases u with
  | class_ c => exact absurd rfl (other c)
  | _ => rfl

theorem asSuperclass_tracks (name : Token) (superclass : Expr) (aligned : m.Aligned D w a m')
    (value : e.Aligned D w e') :
    Tracks .both D (Class.Aligned D) w a m m' (asSuperclass name superclass e)
      (asSuperclass name (superclass.renumber f) e') := by
  have fails (u u' : Value) (other : ∀ c, u ≠ .class_ c) (other' : ∀ c, u' ≠ .class_ c) :
      Tracks .both D (Class.Aligned D) w a m m' (asSuperclass name superclass u)
        (asSuperclass name (superclass.renumber f) u') := by
    rw [asSuperclass_other other, asSuperclass_other other']
    cases superclass <;> exact .raise aligned
  cases e with
  | class_ c =>
    obtain ⟨c', rfl, classes⟩ := value
    exact .pure aligned classes
  | function n y | object n y =>
    obtain ⟨y', rfl, -⟩ := value
    exact fails _ _ (by rintro c ⟨⟩) (by rintro c ⟨⟩)
  | _ =>
    obtain rfl : e' = _ := value
    exact fails _ _ (by rintro c ⟨⟩) (by rintro c ⟨⟩)

/-! ### Expressions and statements -/

theorem class_tracked (evaluates : EvaluatesTracked D fuel) {t : Token}
    {superclass : Option Expr} {ds : List FunctionDecl} (aligned : m.Aligned D w a m')
    (tree : (Stmt.classDecl t superclass ds).Aligned D f a) :
    Tracks .both D (Flow.Aligned D) w a m m' (execute (fuel + 1) (.classDecl t superclass ds))
      (execute (fuel + 1) (.classDecl t (superclass.map (·.renumber f))
        (FunctionDecl.renumberList f ds))) := by
  cases superclass with
  | none =>
    rw [Option.map, execute, execute]
    have supers : SuperclassAligned D w none none := trivial
    refine (declareClass_tracks t aligned tree.1 supers tree.2).bind ?_
    intro _ _ n n' v _ _ kept _
    exact .pure kept.aligned rfl
  | some e =>
    rw [Option.map, execute, execute]
    refine (evaluates f e w a m m' aligned tree.2.1).bind ?_
    intro u u' n n' v _ _ kept value
    refine (asSuperclass_tracks (f := f) t e kept.aligned value).bind ?_
    intro c c' o o' x _ _ kept' classes
    have supers : SuperclassAligned D x (some c) (some c') := classes
    refine (declareClass_tracks t kept'.aligned tree.1 supers tree.2.2).bind ?_
    intro _ _ p p' y _ _ kept'' _
    exact .pure kept''.aligned rfl

section Runs

variable (evaluates : EvaluatesTracked D fuel) (executes : ExecutesTracked D fuel)
include evaluates executes

theorem call_tracked {id : ExprId} {callee : Expr} {paren : Token} {args : List Expr}
    (aligned : m.Aligned D w a m') (tree : (Expr.call id callee paren args).Aligned D f a) :
    Tracks .both D (Value.Aligned D) w a m m' (evaluate (fuel + 1) (.call id callee paren args))
      (evaluate (fuel + 1) (.call (f id) (callee.renumber f) paren (Expr.renumberList f args))) := by
  rw [evaluate, evaluate]
  refine (evaluates f callee w a m m' aligned tree.1).bind ?_
  intro u u' n n' v _ _ kept value
  rw [value.arity?]
  cases u.arity? with
  | none => exact .raise kept.aligned
  | some arity =>
    refine (arguments_tracks evaluates kept.aligned args tree.2).bind ?_
    intro us us' o o' x _ _ kept' values
    rw [List.Forall₂.length_eq values]
    split
    · exact .raise kept'.aligned
    · exact callValue_tracks executes paren.line kept'.aligned (value.later kept'.within) values

theorem evaluate_tracked : EvaluatesTracked D (fuel + 1) := by
  intro f e w a m m' aligned tree
  match e with
  | .literal _ v =>
    rw [Expr.renumber, evaluate, evaluate]
    exact .pure aligned (.of_plain (by cases v <;> rfl))
  | .grouping _ b =>
    rw [Expr.renumber, evaluate, evaluate]
    exact evaluates f b w a m m' aligned tree
  | .unary _ t b =>
    rw [Expr.renumber, evaluate, evaluate]
    refine (evaluates f b w a m m' aligned tree).bind ?_
    intro u u' n n' v _ _ kept value
    exact unary_tracks t kept.aligned value
  | .binary _ b t c =>
    rw [Expr.renumber, evaluate, evaluate]
    refine (evaluates f b w a m m' aligned tree.1).bind ?_
    intro u u' n n' v _ _ kept value
    refine (evaluates f c v a n n' kept.aligned tree.2).bind ?_
    intro x x' o o' _ _ _ kept' value'
    exact binary_tracks t kept'.aligned (value.later kept'.within) value'
  | .logical _ b t c =>
    rw [Expr.renumber, evaluate, evaluate]
    refine (evaluates f b w a m m' aligned tree.1).bind ?_
    intro u u' n n' v _ _ kept value
    have same : stopsAt t u' = stopsAt t u := by rw [stopsAt, stopsAt, value.isTruthy]
    rw [same]
    split
    · exact .pure kept.aligned value
    · exact evaluates f c v a n n' kept.aligned tree.2
  | .assign id t b =>
    rw [Expr.renumber, evaluate, evaluate]
    refine (evaluates f b w a m m' aligned tree.1).bind ?_
    intro u u' n n' v _ _ kept value
    refine (assign_tracks t kept.aligned tree.2 value).bind ?_
    intro _ _ o o' _ _ _ kept' _
    exact .pure kept'.aligned (value.later kept'.within)
  | .var id t | .this id t =>
    rw [Expr.renumber, evaluate, evaluate]
    exact lookUp_tracks t aligned tree
  | .call id b t cs =>
    rw [Expr.renumber]
    exact call_tracked evaluates executes aligned tree
  | .get _ b t =>
    rw [Expr.renumber, evaluate, evaluate]
    refine (evaluates f b w a m m' aligned tree).bind ?_
    intro u u' n n' v _ _ kept value
    cases u with
    | object i c =>
      obtain ⟨c', rfl, classes⟩ := value
      exact property_tracks i t kept.aligned classes
    | function i c | class_ c =>
      obtain ⟨_, rfl, -⟩ := value
      exact .raise kept.aligned
    | _ =>
      obtain rfl : u' = _ := value
      exact .raise kept.aligned
  | .set _ b t c =>
    rw [Expr.renumber, evaluate, evaluate]
    refine (evaluates f b w a m m' aligned tree.1).bind ?_
    intro u u' n n' v _ _ kept value
    cases u with
    | object i _ =>
      obtain ⟨_, rfl, -⟩ := value
      refine (evaluates f c v a n n' kept.aligned tree.2).bind ?_
      intro x x' o o' _ _ _ kept' value'
      refine (setField_tracks i t.lexeme kept'.aligned value').bind ?_
      intro _ _ p p' _ _ _ kept'' _
      exact .pure kept''.aligned (value'.later kept''.within)
    | function i c | class_ c =>
      obtain ⟨_, rfl, -⟩ := value
      exact .raise kept.aligned
    | _ =>
      obtain rfl : u' = _ := value
      exact .raise kept.aligned
  | .super id t method =>
    obtain ⟨d, d', recorded, recorded', meets, meetsThis⟩ := tree
    rw [Expr.renumber, evaluate, evaluate]
    exact superMethod_tracks t method aligned recorded recorded' meets meetsThis
  | .comma _ b c =>
    rw [Expr.renumber, evaluate, evaluate]
    refine (evaluates f b w a m m' aligned tree.1).bind ?_
    intro u u' n n' v _ _ kept _
    exact evaluates f c v a n n' kept.aligned tree.2
  | .ternary _ b c d =>
    rw [Expr.renumber, evaluate, evaluate]
    refine (evaluates f b w a m m' aligned tree.1).bind ?_
    intro u u' n n' v _ _ kept value
    rw [value.isTruthy]
    split
    · exact evaluates f c v a n n' kept.aligned tree.2.1
    · exact evaluates f d v a n n' kept.aligned tree.2.2

theorem while_tracked {e : Expr} {s : Stmt} (aligned : m.Aligned D w a m')
    (tree : (Stmt.whileLoop e s).Aligned D f a) :
    Tracks .both D (Flow.Aligned D) w a m m' (execute (fuel + 1) (.whileLoop e s))
      (execute (fuel + 1) (.whileLoop (e.renumber f) (s.renumber f))) := by
  rw [execute, execute]
  refine (evaluates f e w a m m' aligned tree.1).bind ?_
  intro u u' n n' v _ _ kept value
  rw [value.isTruthy]
  split
  · refine (executes f s v a n n' kept.aligned tree.2).bind ?_
    intro flow flow' o o' x _ _ kept' ends
    cases flow with
    | normal =>
      obtain rfl : flow' = .normal := ends
      have again := executes f (.whileLoop e s) x a o o' kept'.aligned tree
      rwa [Stmt.renumber] at again
    | returned r =>
      obtain ⟨r', rfl, value⟩ := ends
      exact .pure kept'.aligned ⟨r', rfl, value⟩
  · exact .pure kept.aligned rfl

theorem execute_tracked : ExecutesTracked D (fuel + 1) := by
  intro f s w a m m' aligned tree
  match s with
  | .expression e =>
    rw [Stmt.renumber, execute, execute]
    refine (evaluates f e w a m m' aligned tree).bind ?_
    intro u u' n n' v _ _ kept _
    exact .pure kept.aligned rfl
  | .print e =>
    rw [Stmt.renumber, execute, execute]
    refine (evaluates f e w a m m' aligned tree).bind ?_
    intro u u' n n' v _ _ kept value
    rw [value.text]
    refine (printLine_tracks u.text kept.aligned).bind ?_
    intro _ _ o o' x _ _ kept' _
    exact .pure kept'.aligned rfl
  | .varDecl t none =>
    rw [Stmt.renumber, Option.map, execute]
    refine (define_tracks t.lexeme aligned tree (.of_plain rfl)).bind ?_
    intro _ _ n n' v _ _ kept _
    exact .pure kept.aligned rfl
  | .varDecl t (some e) =>
    rw [Stmt.renumber, Option.map, execute, execute]
    refine (evaluates f e w a m m' aligned tree.2).bind ?_
    intro u u' n n' v _ _ kept value
    refine (define_tracks t.lexeme kept.aligned tree.1 value).bind ?_
    intro _ _ o o' x _ _ kept' _
    exact .pure kept'.aligned rfl
  | .block body =>
    rw [Stmt.renumber, execute, execute]
    refine inNewScope_tracks aligned fun v o o' entered => ?_
    exact sequence_tracks executes entered body tree
  | .ifThen e yes =>
    rw [Stmt.renumber, execute, execute]
    refine (evaluates f e w a m m' aligned tree.1).bind ?_
    intro u u' n n' v _ _ kept value
    rw [value.isTruthy]
    split
    · exact executes f yes v a n n' kept.aligned tree.2
    · exact .pure kept.aligned rfl
  | .ifElse e yes no =>
    rw [Stmt.renumber, execute, execute]
    refine (evaluates f e w a m m' aligned tree.1).bind ?_
    intro u u' n n' v _ _ kept value
    rw [value.isTruthy]
    split
    · exact executes f yes v a n n' kept.aligned tree.2.1
    · exact executes f no v a n n' kept.aligned tree.2.2
  | .whileLoop e body =>
    rw [Stmt.renumber]
    exact while_tracked evaluates executes aligned tree
  | .funDecl d =>
    rw [Stmt.renumber, execute, execute]
    refine (Tracks.observe (A := fun v => a.Chains v) aligned aligned.chain).bind ?_
    intro c c' n n' v _ _ kept chains
    have closure : Closure.Aligned D v [] ⟨d, c, false⟩ ⟨d.renumber f, c', false⟩ :=
      ⟨f, a, rfl, tree.2, chains, rfl, fun same => nomatch same⟩
    refine (functionValue_tracks kept.aligned closure).bind ?_
    intro u u' o o' x _ _ kept' value
    rw [(d.renumber_name f).1]
    refine (define_tracks d.name.lexeme kept'.aligned tree.1 value).bind ?_
    intro _ _ p p' y _ _ kept'' _
    exact .pure kept''.aligned rfl
  | .returnStmt t none =>
    rw [Stmt.renumber, Option.map, execute]
    exact .pure aligned ⟨_, rfl, .of_plain rfl⟩
  | .returnStmt t (some e) =>
    rw [Stmt.renumber, Option.map, execute, execute]
    refine (evaluates f e w a m m' aligned tree).bind ?_
    intro u u' n n' v _ _ kept value
    exact .pure kept.aligned ⟨u', rfl, value⟩
  | .classDecl t superclass ds =>
    rw [Stmt.renumber]
    exact class_tracked evaluates aligned tree

end Runs

/-- By induction on the fuel, expressions and statements together. -/
theorem runs_tracked (D : TwoDistances) (fuel : Nat) :
    EvaluatesTracked D fuel ∧ ExecutesTracked D fuel := by
  induction fuel with
  | zero =>
    constructor
    · intro f e w a m m' aligned _
      rw [evaluate.eq_def, evaluate.eq_def]
      exact .outOfFuel aligned
    · intro f s w a m m' aligned _
      rw [execute.eq_def, execute.eq_def]
      exact .outOfFuel aligned
  | succ fuel ih =>
    constructor
    · exact evaluate_tracked ih.1 ih.2
    · exact execute_tracked ih.1 ih.2

end Run

/-! ### Different fuel -/

/-- The run that may run out of fuel has no more of it than the other. -/
def Level.Fits (slack : Level) (fuel fuel' : Nat) : Prop :=
  match slack with
  | .both => fuel = fuel'
  | .left => fuel ≤ fuel'
  | .right => fuel' ≤ fuel

section

variable {α : Type} {slack : Level} {D : TwoDistances} {A : Links → α → α → Prop} {w : Links}
  {a : Alignment} {m m' : Machine} {x x' y : Run α} {f : ExprId → ExprId} {fuel fuel' : Nat}

theorem Tracks.loosen (tracks : Tracks .both D A w a m m' x x') :
    Tracks slack D A w a m m' x x' := by
  rcases tracks with done | halted | ⟨differ, -⟩ | ⟨differ, -⟩
  · exact .inl done
  · exact .inr (.inl halted)
  · cases differ
  · cases differ

theorem Tracks.lessLeft (tracks : Tracks .both D A w a m m' x x') (outlasts : x.Outlasts y) :
    Tracks .left D A w a m m' y x' := by
  rcases outlasts m with ⟨n, spent⟩ | same
  · exact of_spent spent
  · have loose : Tracks .left D A w a m m' x x' := tracks.loosen
    rwa [Tracks, same] at loose

theorem Tracks.lessRight (tracks : Tracks .both D A w a m m' x x') (outlasts : x'.Outlasts y) :
    Tracks .right D A w a m m' x y := by
  rcases outlasts m' with ⟨n, spent⟩ | same
  · exact of_spent' spent
  · have loose : Tracks .right D A w a m m' x x' := tracks.loosen
    rwa [Tracks, same] at loose

theorem Run.evaluate_tracks (fits : slack.Fits fuel fuel') {e : Expr} (aligned : m.Aligned D w a m')
    (tree : e.Aligned D f a) :
    Tracks slack D (Value.Aligned D) w a m m' (evaluate fuel e) (evaluate fuel' (e.renumber f)) := by
  have same (fuel : Nat) := (runs_tracked D fuel).1 f e w a m m' aligned tree
  cases slack with
  | both =>
    obtain rfl : fuel = fuel' := fits
    exact same fuel
  | left => exact (same fuel').lessLeft ((runs_outlast fits).1 e)
  | right => exact (same fuel).lessRight ((runs_outlast fits).1 _)

theorem Run.execute_tracks (fits : slack.Fits fuel fuel') {s : Stmt} (aligned : m.Aligned D w a m')
    (tree : s.Aligned D f a) :
    Tracks slack D (Flow.Aligned D) w a m m' (execute fuel s) (execute fuel' (s.renumber f)) := by
  have same (fuel : Nat) := (runs_tracked D fuel).2 f s w a m m' aligned tree
  cases slack with
  | both =>
    obtain rfl : fuel = fuel' := fits
    exact same fuel
  | left => exact (same fuel').lessLeft ((runs_outlast fits).2 s)
  | right => exact (same fuel).lessRight ((runs_outlast fits).2 _)

end

end Lox
