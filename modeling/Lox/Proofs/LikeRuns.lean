import Mathlib
import Lox.Proofs.LikeOperations

/-!
Programs that are alike run alike: from machines that are alike they end in the same way, with
values and machines that are alike, and where they fail one expression is to blame in both.
-/

namespace Lox

/-- Two statements end alike: in order, or with values that are alike. -/
def Flow.Like (c : Translation) (w : World) : Flow → Flow → Prop
  | .normal, f' => f' = .normal
  | .returned v, f' => ∃ v', f' = .returned v' ∧ v.Like c w v'

theorem Flow.Like.value {c : Translation} {w : World} {f f' : Flow} (like : f.Like c w f') :
    f.value.Like c w f'.value := by
  cases f with
  | normal =>
    obtain rfl : f' = .normal := like
    exact rfl
  | returned v =>
    obtain ⟨v', rfl, related⟩ := like
    exact related

/-- Expressions that are alike are evaluated alike. -/
def EvaluatesAlike (c : Translation) (fuel : Nat) : Prop :=
  ∀ (e e' : Expr) (w : World) (m m' : Machine), m.Like c w m' → e.Like c (w.along m.chain) e' →
    (∀ id ∈ e.ids, c.known id) →
      Agree c (Step.Blames c ⟨fuel, .expr e, m⟩) (Value.Like c) w m m' (Run.evaluate fuel e)
        (Run.evaluate fuel e')

/-- Statements that are alike are executed alike. -/
def ExecutesAlike (c : Translation) (fuel : Nat) : Prop :=
  ∀ (s s' : Stmt) (w : World) (m m' : Machine), m.Like c w m' → s.Like c (w.along m.chain) s' →
    (∀ id ∈ s.ids, c.known id) →
      Agree c (Step.Blames c ⟨fuel, .stmt s, m⟩) (Flow.Like c) w m m' (Run.execute fuel s)
        (Run.execute fuel s')

section Parts

variable {α : Type} {c : Translation} {A : World → α → α → Prop} {w : World} {m m' : Machine}
  {x x' : Run α} {step inner : Step}

/-- What is to blame in a step is to blame in the step that starts it. -/
theorem Agree.started (agree : Agree c (Step.Blames c inner) A w m m' x x')
    (starts : Step.Starts step inner) : Agree c (Step.Blames c step) A w m m' x x' :=
  agree.blame fun _ _ _ _ blames => blames.started starts

theorem Agree.part (agree : Agree c (Step.Blames c inner) A w m m' x x')
    (starts : Step.Starts step inner) : Agree c (Step.Accounts c step) A w m m' x x' :=
  agree.blame fun _ _ _ _ blames => Step.Accounts.started starts blames

end Parts

namespace Run

variable {c : Translation} {fuel : Nat} {w : World} {m m' : Machine}

/-! ### Lists -/

theorem arguments_agree (evaluates : EvaluatesAlike c fuel) {es es' : List Expr}
    (like : m.Like c w m') (likeEs : Expr.LikeList c (w.along m.chain) es es')
    (known : ∀ id ∈ Expr.idsList es, c.known id) :
    Agree c (Step.Blames c ⟨fuel, .exprs es, m⟩) (ValuesLike c) w m m'
      (arguments (evaluate fuel) es) (arguments (evaluate fuel) es') := by
  induction es generalizing es' w m m' with
  | nil =>
    obtain rfl : es' = [] := likeEs
    exact Agree.pure like .nil
  | cons e es ih =>
    obtain ⟨e', fs', rfl, likeE, likeRest⟩ := likeEs
    simp only [Expr.idsList, List.mem_append] at known
    have first := evaluates e e' w m m' like likeE fun id among => known id (.inl among)
    refine (first.started .firstExpr).bind ?_
    intro a a' n n' v run run' on like' value
    rw [← on.along like] at likeRest
    have rest := ih like' likeRest fun id among => known id (.inr among)
    refine (rest.started (.restExprs run)).bind ?_
    intro vs vs' o o' u _ _ on' like'' values
    exact Agree.pure like'' (.cons (value.later (.refl c) on'.grown) values)

theorem sequence_agrees (executes : ExecutesAlike c fuel) {ss ss' : List Stmt}
    (like : m.Like c w m') (likeSs : Stmt.LikeList c (w.along m.chain) ss ss')
    (known : ∀ id ∈ Stmt.idsList ss, c.known id) :
    Agree c (Step.Blames c ⟨fuel, .stmts ss, m⟩) (Flow.Like c) w m m'
      (sequence (execute fuel) ss) (sequence (execute fuel) ss') := by
  induction ss generalizing ss' w m m' with
  | nil =>
    obtain rfl : ss' = [] := likeSs
    exact Agree.pure like rfl
  | cons s ss ih =>
    obtain ⟨s', us', rfl, likeS, likeRest⟩ := likeSs
    simp only [Stmt.idsList, List.mem_append] at known
    have first := executes s s' w m m' like likeS fun id among => known id (.inl among)
    refine (first.started .firstStmt).bind ?_
    intro flow flow' n n' v run run' on like' ends
    cases flow with
    | normal =>
      obtain rfl : flow' = .normal := ends
      rw [← on.along like] at likeRest
      have rest := ih like' likeRest fun id among => known id (.inr among)
      exact rest.started (.restStmts run)
    | returned a =>
      obtain ⟨a', rfl, value⟩ := ends
      exact Agree.pure like' ⟨a', rfl, value⟩

/-! ### Calls -/

/-- The scope of a call binds the parameters, each by its name in the run. -/
theorem parameters_like {π : Renaming} {scopes : List Renaming} {ts ts' : List Token}
    {vs vs' : List Value}
    (tokens : List.Forall₂ (Token.LikeDeclaration c (π :: scopes)) ts ts')
    (values : ValuesLike c w vs vs') :
    List.Forall₂ (fun e e' => e'.1 = π.perm e.1 ∧ Value.Like c w e.2 e'.2)
      ((ts.map (·.lexeme)).zip vs) ((ts'.map (·.lexeme)).zip vs') := by
  induction tokens generalizing vs vs' with
  | nil => exact .nil
  | cons token _ ih =>
    cases values with
    | nil => exact .nil
    | cons value rest => exact .cons ⟨token.lexeme, value⟩ (ih rest)

theorem callClosure_agrees (executes : ExecutesAlike c fuel) (line line' : Nat)
    {a a' : Closure} {vs vs' : List Value} (like : m.Like c w m') (closure : a.Like c w [] a')
    (values : ValuesLike c w vs vs') :
    Agree c (Step.Blames c ⟨fuel, .body line vs a, m⟩) (Value.Like c) w m m'
      (callClosure (execute fuel) line a vs) (callClosure (execute fuel) line' a' vs') := by
  refine Agree.blame (Q := Step.Accounts c ⟨fuel, .body line vs a, m⟩) ?_
    fun h h' n run accounts => accounts (congrArg haltOf run)
  obtain ⟨⟨name, parameters, body⟩, chain, isInitializer⟩ := a
  obtain ⟨function', chain', isInitializer'⟩ := a'
  obtain ⟨⟨π, name', parameters', body', rfl, -, -, likeParameters, likeBody⟩, known, sameChain, held,
    sameRole⟩ := closure
  obtain rfl : chain = chain' := sameChain.symm
  obtain rfl : isInitializer = isInitializer' := sameRole.symm
  have bound := Table.Like.empty.insertAll (parameters_like likeParameters values)
  refine (newScope_agrees like bound).bind ?_
  rintro scope scope' n n' v run - on like' ⟨rfl, here, here'⟩
  obtain rfl : scope = scope' := here.trans here'.symm
  have entry : { n with chain := scope :: chain } =
      Step.entered m ⟨⟨name, parameters, body⟩, chain, isInitializer⟩ vs := by
    cases run
    rfl
  have heldAfter : ∀ s ∈ scope :: chain, s < (w ++ [π]).length := by
    intro s among
    rcases List.mem_cons.1 among with rfl | among
    · simp [here]
    · exact Nat.lt_of_lt_of_le (held s among) on.grown.length_le
  have overAfter : (w ++ [π]).along (scope :: chain) = π :: w.along chain := by
    rw [World.along_cons, here, World.at_last, World.along_later on.grown held]
  have entered : Machine.Like c (w ++ [π]) { n with chain := scope :: chain }
      { n' with chain := scope :: chain } :=
    { like' with chain := rfl, front := List.cons_ne_nil _ _, held := heldAfter }
  have starts : Step.Starts ⟨fuel, .body line vs ⟨⟨name, parameters, body⟩, chain, isInitializer⟩, m⟩
      ⟨fuel, .stmts body, { n with chain := scope :: chain }⟩ := by
    rw [entry]
    exact .body
  have statements := sequence_agrees executes entered (by rw [overAfter]; exact likeBody) known
  refine (Agree.inChain like' (statements.part starts)).bind ?_
  intro flow flow' o o' u run _ on' like'' ends
  dsimp only
  split
  · rename_i isInit
    have kept := Renaming.use_this (u.along chain) (some 0)
    rcases like''.store.getAt chain 0 "this" with
      ⟨this, this', read, read', related⟩ | ⟨cause, cause', read, read', -⟩
    · rw [kept] at read'
      exact Agree.ask_ok read read' like'' related
    · rw [kept] at read'
      obtain ⟨last, inside, rfl⟩ := inChain_ok_inside run
      rw [entry] at inside
      have itself : ∀ part, Step.Starts ⟨fuel, .body line vs
          ⟨⟨name, parameters, body⟩, chain, isInitializer⟩, m⟩ part → part.halt? = none := by
        rintro part ⟨⟩
        simp only [Step.halt?, inside, haltOf]
      refine Agree.ask_error cause cause' read read' like'' fun ends => ?_
      exact Step.Blames.here ends itself (.inl ⟨isInit, flow, last, cause, inside, read⟩)
  · exact Agree.pure like'' ends.value

theorem construct_agrees (executes : ExecutesAlike c fuel) (line line' : Nat) {a a' : Class}
    {vs vs' : List Value} (like : m.Like c w m') (likeClass : a.Like c w a')
    (values : ValuesLike c w vs vs') :
    Agree c (Step.Blames c ⟨fuel, .call line vs (.class_ a), m⟩) (Value.Like c) w m m'
      (construct (execute fuel) line a vs) (construct (execute fuel) line' a' vs') := by
  have extends_ := Translation.Extends.refl c
  refine (newInstance_agrees like likeClass).bind ?_
  rintro object object' n n' v made - on like' ⟨i, b, b', rfl, rfl, rfl, rfl, likeClass'⟩
  obtain ⟨some, missing⟩ := likeClass'.method? initializerName
  cases found : b.method? initializerName with
  | none =>
    rw [missing found]
    exact Agree.pure like' ⟨b', rfl, likeClass'⟩
  | some method =>
    obtain ⟨method', found', likeMethod⟩ := some method found
    rw [found']
    refine (bindMethod_agrees like' likeMethod likeClass').bind ?_
    rintro bound bound' o o' u linked - on' like'' ⟨likeBound, -⟩
    have later : ValuesLike c u vs vs' :=
      values.imp fun _ _ value => value.later extends_ (on.trans on').grown
    have called := callClosure_agrees executes line line' like'' likeBound later
    refine (called.started (.initializer made found linked)).bind ?_
    intro _ _ last last' t _ _ on'' likeEnd _
    exact Agree.pure likeEnd ⟨b', rfl, likeClass'.later extends_ (on'.trans on'').grown⟩

theorem callValue_agrees (executes : ExecutesAlike c fuel) (line line' : Nat) {f f' : Value}
    {vs vs' : List Value} (like : m.Like c w m') (callee : f.Like c w f')
    (values : ValuesLike c w vs vs') (callable : f.arity? ≠ none) (inside : f.isNative = false) :
    Agree c (Step.Blames c ⟨fuel, .call line vs f, m⟩) (Value.Like c) w m m'
      (callValue (execute fuel) line vs f) (callValue (execute fuel) line' vs' f') := by
  cases f with
  | function n a =>
    obtain ⟨a', rfl, closure⟩ := callee
    have called := callClosure_agrees executes line line' like closure values
    exact called.started .callBody
  | class_ a =>
    obtain ⟨a', rfl, likeClass⟩ := callee
    exact construct_agrees executes line line' like likeClass values
  | native n native => cases inside
  | _ => exact (callable rfl).elim

theorem asSuperclass_agrees (name name' : Token) {e e' : Expr} {f f' : Value}
    (like : m.Like c w m') (likeE : e.Like c (w.along m.chain) e')
    (isName : ∃ id used, e = .var id used) (value : f.Like c w f') :
    Agree c (FailsAt c e.id False fun _ => False) (Class.Like c) w m m' (asSuperclass name e f)
      (asSuperclass name' e' f') := by
  obtain ⟨id, used, rfl⟩ := isName
  obtain ⟨used', rfl, token⟩ := likeE
  cases f with
  | class_ a =>
    obtain ⟨a', rfl, likeClass⟩ := value
    exact Agree.pure like likeClass
  | function n a | object n a =>
    obtain ⟨_, rfl, -⟩ := value
    exact Agree.raise like (.told token.line _ (by simp))
  | _ =>
    obtain rfl : f' = _ := value
    exact Agree.raise like (.told token.line _ (by simp))

/-! ### Expressions -/

/-- A call fails by itself if the value is not to be called, if the number of arguments is wrong, or
if it is a call of a function of the host. -/
theorem call_alike (evaluates : EvaluatesAlike c fuel) (executes : ExecutesAlike c fuel)
    {id : ExprId} {callee callee' : Expr} {paren paren' : Token} {args args' : List Expr}
    (like : m.Like c w m') (likeCallee : callee.Like c (w.along m.chain) callee')
    (token : paren.LikeIn c id paren') (likeArgs : Expr.LikeList c (w.along m.chain) args args')
    (known : ∀ i ∈ (Expr.call id callee paren args).ids, c.known i) :
    Agree c (Step.Accounts c ⟨fuel + 1, .expr (.call id callee paren args), m⟩) (Value.Like c) w m
      m' (evaluate (fuel + 1) (.call id callee paren args))
      (evaluate (fuel + 1) (.call (c.ids id) callee' paren' args')) := by
  simp only [Expr.ids, List.mem_append, List.mem_singleton] at known
  have here : c.known id := known id (.inr rfl)
  rw [evaluate, evaluate]
  have first := evaluates callee callee' w m m' like likeCallee fun i among =>
    known i (.inl (.inl among))
  refine (first.part .callee).bind ?_
  intro f f' n n' v run _ on like' value
  rw [value.arity?]
  cases arity : f.arity? with
  | none =>
    refine Agree.raise like' ((FailsAt.told token.line .notCallable (by simp)).accounts rfl here ?_)
    rintro part ⟨⟩ <;> simp_all [Step.halt?, haltOf]
  | some count =>
    rw [← on.along like] at likeArgs
    have second := arguments_agree evaluates like' likeArgs fun i among =>
      known i (.inl (.inr among))
    refine (second.part (.arguments run arity)).bind ?_
    intro vs vs' o o' u run' _ on' like'' values
    have callee := value.later (.refl c) on'.grown
    have length : vs'.length = vs.length := values.length_eq.symm
    rw [length]
    by_cases fits : vs.length = count
    · rw [if_neg (not_not.2 fits), if_neg (not_not.2 fits)]
      subst fits
      cases native : f.isNative with
      | false =>
        have called := callValue_agrees executes paren.line paren'.line like'' callee values
          (by simp [arity]) native
        exact called.part (.called run run' arity native)
      | true =>
        cases f with
        | native k action =>
          obtain rfl : f' = .native k action := value
          refine (callNative_agrees like'' values).blame fun _ _ _ _ failed =>
            (failed.at_ token.line False fun _ => False).accounts rfl here ?_
          rintro part ⟨⟩ <;> simp_all [Step.halt?, haltOf]
        | _ => cases native
    · rw [if_pos fits, if_pos fits]
      refine Agree.raise like''
        ((FailsAt.told token.line (.wrongArity _ _) (by simp)).accounts rfl here ?_)
      rintro part ⟨⟩ <;> simp_all [Step.halt?, haltOf]

/-- A name that is assigned to is missed if it has a distance and no scope is there. -/
theorem assign_alike (evaluates : EvaluatesAlike c fuel) {id : ExprId} {t t' : Token} {a a' : Expr}
    (like : m.Like c w m') (token : t.LikeUse c (w.along m.chain) id t')
    (likeA : a.Like c (w.along m.chain) a') (known : ∀ i ∈ (Expr.assign id t a).ids, c.known i) :
    Agree c (Step.Accounts c ⟨fuel + 1, .expr (.assign id t a), m⟩) (Value.Like c) w m m'
      (evaluate (fuel + 1) (.assign id t a)) (evaluate (fuel + 1) (.assign (c.ids id) t' a')) := by
  simp only [Expr.ids, List.mem_append, List.mem_singleton] at known
  rw [evaluate, evaluate]
  have given := evaluates a a' w m m' like likeA fun i among => known i (.inl among)
  refine (given.part .assigned).bind ?_
  intro v v' n n' u run _ on like' value
  have here : c.known id := known id (.inr rfl)
  rw [← on.along like] at token
  refine ((assign_agrees like' here token value).blame
    fun _ _ _ _ failed ends => failed.blames ends rfl here ?_ ?_ ?_).bind ?_
  · rintro part ⟨⟩
    simp only [Step.halt?, run, haltOf]
  · rintro ⟨d, recorded, missing⟩
    rw [(like'.distances id here).1, ← (like.distances id here).1] at recorded
    exact ⟨d, recorded, by rw [← on.chain, missing]⟩
  · rintro name ⟨same, unrecorded⟩
    rw [(like'.distances id here).1, ← (like.distances id here).1] at unrecorded
    exact ⟨same, unrecorded⟩
  · intro _ _ o o' q _ _ on' like'' _
    exact Agree.pure like'' (value.later (.refl c) on'.grown)

theorem get_alike (evaluates : EvaluatesAlike c fuel) {id : ExprId} {a a' : Expr} {t t' : Token}
    (like : m.Like c w m') (likeA : a.Like c (w.along m.chain) a') (token : t.LikeIn c id t')
    (known : ∀ i ∈ (Expr.get id a t).ids, c.known i) :
    Agree c (Step.Accounts c ⟨fuel + 1, .expr (.get id a t), m⟩) (Value.Like c) w m m'
      (evaluate (fuel + 1) (.get id a t)) (evaluate (fuel + 1) (.get (c.ids id) a' t')) := by
  simp only [Expr.ids, List.mem_append, List.mem_singleton] at known
  rw [evaluate, evaluate]
  have object := evaluates a a' w m m' like likeA fun i among => known i (.inl among)
  refine (object.part .getObject).bind ?_
  intro v v' n n' u run _ _ like' value
  have itself : ∀ part, Step.Starts ⟨fuel + 1, .expr (.get id a t), m⟩ part →
      part.halt? = none := by
    rintro part ⟨⟩
    simp only [Step.halt?, run, haltOf]
  have fails : FailsAt c id False (fun _ => False) (.runtime ⟨t.line, .notInstance⟩)
      (.runtime ⟨t'.line, .notInstance⟩) := .told token.line .notInstance (by simp)
  cases v with
  | object i b =>
    obtain ⟨b', rfl, likeClass⟩ := value
    exact (property_agrees like' likeClass token).blame fun _ _ _ _ failed =>
      (failed.at_ token.line False fun _ => False).accounts rfl (known id (.inr rfl)) itself
  | function i f | class_ f =>
    obtain ⟨_, rfl, -⟩ := value
    exact Agree.raise like' (fails.accounts rfl (known id (.inr rfl)) itself)
  | _ =>
    obtain rfl : v' = _ := value
    exact Agree.raise like' (fails.accounts rfl (known id (.inr rfl)) itself)

theorem set_alike (evaluates : EvaluatesAlike c fuel) {id : ExprId} {a a' b b' : Expr}
    {t t' : Token} (like : m.Like c w m') (likeA : a.Like c (w.along m.chain) a')
    (token : t.LikeIn c id t') (likeB : b.Like c (w.along m.chain) b')
    (known : ∀ i ∈ (Expr.set id a t b).ids, c.known i) :
    Agree c (Step.Accounts c ⟨fuel + 1, .expr (.set id a t b), m⟩) (Value.Like c) w m m'
      (evaluate (fuel + 1) (.set id a t b)) (evaluate (fuel + 1) (.set (c.ids id) a' t' b')) := by
  simp only [Expr.ids, List.mem_append, List.mem_singleton] at known
  rw [evaluate, evaluate]
  have object := evaluates a a' w m m' like likeA fun i among => known i (.inl (.inl among))
  refine (object.part .setObject).bind ?_
  intro v v' n n' u run _ on like' value
  have fails : FailsAt c id False (fun _ => False) (.runtime ⟨t.line, .notInstance⟩)
      (.runtime ⟨t'.line, .notInstance⟩) := .told token.line .notInstance (by simp)
  cases v with
  | object i d =>
    obtain ⟨d', rfl, likeClass⟩ := value
    rw [← on.along like] at likeB
    have given := evaluates b b' u n n' like' likeB fun i among => known i (.inl (.inr among))
    refine (given.part (.setValue run)).bind ?_
    intro y y' o o' q _ _ _ like'' value'
    rw [token.lexeme]
    refine (setField_agrees like'' value').bind ?_
    intro _ _ p p' r _ _ on'' likeEnd _
    exact Agree.pure likeEnd (value'.later (.refl c) on''.grown)
  | function i f | class_ f =>
    obtain ⟨_, rfl, -⟩ := value
    refine Agree.raise like' (fails.accounts rfl (known id (.inr rfl)) ?_)
    rintro part ⟨⟩ <;> simp_all [Step.halt?, haltOf]
  | _ =>
    obtain rfl : v' = _ := value
    refine Agree.raise like' (fails.accounts rfl (known id (.inr rfl)) ?_)
    rintro part ⟨⟩ <;> simp_all [Step.halt?, haltOf]

theorem evaluate_alike (evaluates : EvaluatesAlike c fuel) (executes : ExecutesAlike c fuel) :
    EvaluatesAlike c (fuel + 1) := by
  intro e e' w m m' like likeE known
  refine Agree.blame (Q := Step.Accounts c ⟨fuel + 1, .expr e, m⟩) ?_
    fun h h' n run accounts => accounts (congrArg haltOf run)
  match e with
  | .literal id v =>
    obtain rfl : e' = .literal (c.ids id) v := likeE
    rw [evaluate, evaluate]
    exact Agree.pure like (Value.Like.of_plain (by cases v <;> rfl))
  | .grouping id a =>
    obtain ⟨a', rfl, likeA⟩ := likeE
    rw [evaluate, evaluate]
    have inner := evaluates a a' w m m' like likeA fun i among => known i (by simp [Expr.ids, among])
    exact inner.part .grouping
  | .unary id t a =>
    obtain ⟨t', a', rfl, token, likeA⟩ := likeE
    simp only [Expr.ids, List.mem_append, List.mem_singleton] at known
    rw [evaluate, evaluate]
    have operand := evaluates a a' w m m' like likeA fun i among => known i (.inl among)
    refine (operand.part .unary).bind ?_
    intro v v' n n' u run _ _ like' value
    refine (unary_agrees like' token value).blame fun _ _ _ _ failed =>
      (failed.at_ token.line False fun _ => False).accounts rfl (known id (.inr rfl)) ?_
    rintro part ⟨⟩
    simp only [Step.halt?, run, haltOf]
  | .binary id a t b =>
    obtain ⟨a', t', b', rfl, likeA, token, likeB⟩ := likeE
    simp only [Expr.ids, List.mem_append, List.mem_singleton] at known
    rw [evaluate, evaluate]
    have left := evaluates a a' w m m' like likeA fun i among => known i (.inl (.inl among))
    refine (left.part .binaryLeft).bind ?_
    intro v v' n n' u run _ on like' value
    rw [← on.along like] at likeB
    have right := evaluates b b' u n n' like' likeB fun i among => known i (.inl (.inr among))
    refine (right.part (.binaryRight run)).bind ?_
    intro y y' o o' q run' _ on' like'' value'
    refine (binary_agrees like'' token (value.later (.refl c) on'.grown) value').blame
      fun _ _ _ _ failed =>
        (failed.at_ token.line False fun _ => False).accounts rfl (known id (.inr rfl)) ?_
    rintro part ⟨⟩ <;> simp_all [Step.halt?, haltOf]
  | .logical id a t b =>
    obtain ⟨a', t', b', rfl, likeA, token, likeB⟩ := likeE
    simp only [Expr.ids, List.mem_append, List.mem_singleton] at known
    rw [evaluate, evaluate]
    have left := evaluates a a' w m m' like likeA fun i among => known i (.inl (.inl among))
    refine (left.part .logicalLeft).bind ?_
    intro v v' n n' u run _ on like' value
    rw [stopsAt_same token value]
    cases stops : stopsAt t v with
    | true => exact Agree.pure like' value
    | false =>
      rw [← on.along like] at likeB
      have right := evaluates b b' u n n' like' likeB fun i among => known i (.inl (.inr among))
      exact right.part (.logicalRight run stops)
  | .assign id t a =>
    obtain ⟨t', a', rfl, token, likeA⟩ := likeE
    exact assign_alike evaluates like token likeA known
  | .var id t | .this id t =>
    obtain ⟨t', rfl, token⟩ := likeE
    have here := known id (by simp [Expr.ids])
    rw [evaluate, evaluate]
    exact (lookUp_agrees like here token).blame fun _ _ _ _ failed ends =>
      failed.blames ends rfl here (by rintro part ⟨⟩) (fun misses => misses) fun _ uses => uses
  | .call id callee paren args =>
    obtain ⟨callee', paren', args', rfl, likeCallee, token, likeArgs⟩ := likeE
    exact call_alike evaluates executes like likeCallee token likeArgs known
  | .get id a t =>
    obtain ⟨a', t', rfl, likeA, token⟩ := likeE
    exact get_alike evaluates like likeA token known
  | .set id a t b =>
    obtain ⟨a', t', b', rfl, likeA, token, likeB⟩ := likeE
    exact set_alike evaluates like likeA token likeB known
  | .super id t u =>
    obtain ⟨t', u', rfl, token, named⟩ := likeE
    have here := known id (by simp [Expr.ids])
    rw [evaluate, evaluate]
    exact (superMethod_agrees like here token named).blame fun _ _ _ _ failed ends =>
      failed.blames ends rfl here (by rintro part ⟨⟩) (fun misses => misses) fun _ never => never.elim
  | .comma id a b =>
    obtain ⟨a', b', rfl, likeA, likeB⟩ := likeE
    simp only [Expr.ids, List.mem_append, List.mem_singleton] at known
    rw [evaluate, evaluate]
    have left := evaluates a a' w m m' like likeA fun i among => known i (.inl (.inl among))
    refine (left.part .commaLeft).bind ?_
    intro v v' n n' u run _ on like' _
    rw [← on.along like] at likeB
    have right := evaluates b b' u n n' like' likeB fun i among => known i (.inl (.inr among))
    exact right.part (.commaRight run)
  | .ternary id a b d =>
    obtain ⟨a', b', d', rfl, likeA, likeB, likeD⟩ := likeE
    simp only [Expr.ids, List.mem_append, List.mem_singleton] at known
    rw [evaluate, evaluate]
    have condition := evaluates a a' w m m' like likeA fun i among =>
      known i (.inl (.inl (.inl among)))
    refine (condition.part .ternaryCondition).bind ?_
    intro v v' n n' u run _ on like' value
    rw [← on.along like] at likeB likeD
    rw [value.isTruthy]
    cases holds : v.isTruthy with
    | true =>
      have yes := evaluates b b' u n n' like' likeB fun i among =>
        known i (.inl (.inl (.inr among)))
      exact yes.part (.ternaryThen run holds)
    | false =>
      have no := evaluates d d' u n n' like' likeD fun i among => known i (.inl (.inr among))
      exact no.part (.ternaryElse run holds)

/-! ### Statements -/

theorem block_alike (executes : ExecutesAlike c fuel) {π : Renaming} {ss ss' : List Stmt}
    (like : m.Like c w m') (likeSs : Stmt.LikeList c (π :: w.along m.chain) ss ss')
    (known : ∀ id ∈ Stmt.idsList ss, c.known id) :
    Agree c (Step.Accounts c ⟨fuel + 1, .stmt (.block ss), m⟩) (Flow.Like c) w m m'
      (execute (fuel + 1) (.block ss)) (execute (fuel + 1) (.block ss')) := by
  rw [execute, execute]
  refine (Agree.observe like).bind ?_
  rintro chain chain' n n' v run run' - - ⟨same, here, here'⟩
  obtain rfl : w = v := same.symm
  cases run
  cases run'
  rw [here, here']
  have bound : Table.Like (Value.Like c w) π Table.empty Table.empty := .empty
  refine (newScope_agrees like bound).bind ?_
  rintro scope scope' n n' v run - on like' ⟨rfl, here, here'⟩
  obtain rfl : scope = scope' := here.trans here'.symm
  rw [like.chain]
  have entry : { n with chain := scope :: m.chain } = Step.opened m := by
    cases run
    rfl
  have heldAfter : ∀ s ∈ scope :: m.chain, s < (w ++ [π]).length := by
    intro s among
    rcases List.mem_cons.1 among with rfl | among
    · simp [here]
    · exact Nat.lt_of_lt_of_le (like.held s among) on.grown.length_le
  have overAfter : (w ++ [π]).along (scope :: m.chain) = π :: w.along m.chain := by
    rw [World.along_cons, here, World.at_last, World.along_later on.grown like.held]
  have entered : Machine.Like c (w ++ [π]) { n with chain := scope :: m.chain }
      { n' with chain := scope :: m.chain } :=
    { like' with chain := rfl, front := List.cons_ne_nil _ _, held := heldAfter }
  have starts : Step.Starts ⟨fuel + 1, .stmt (.block ss), m⟩
      ⟨fuel, .stmts ss, { n with chain := scope :: m.chain }⟩ := by
    rw [entry]
    exact .block
  have statements := sequence_agrees executes entered (by rw [overAfter]; exact likeSs) known
  exact Agree.inChain like' (statements.part starts)

theorem while_alike (evaluates : EvaluatesAlike c fuel) (executes : ExecutesAlike c fuel)
    {e e' : Expr} {s s' : Stmt} (like : m.Like c w m') (likeE : e.Like c (w.along m.chain) e')
    (likeS : s.Like c (w.along m.chain) s') (known : ∀ id ∈ (Stmt.whileLoop e s).ids, c.known id) :
    Agree c (Step.Accounts c ⟨fuel + 1, .stmt (.whileLoop e s), m⟩) (Flow.Like c) w m m'
      (execute (fuel + 1) (.whileLoop e s)) (execute (fuel + 1) (.whileLoop e' s')) := by
  have knownParts := known
  simp only [Stmt.ids, List.mem_append] at knownParts
  rw [execute, execute]
  have condition := evaluates e e' w m m' like likeE fun i among => knownParts i (.inl among)
  refine (condition.part .whileCondition).bind ?_
  intro v v' n n' u run _ on like' value
  rw [value.isTruthy]
  cases holds : v.isTruthy with
  | false => exact Agree.pure like' rfl
  | true =>
    rw [← on.along like] at likeE likeS
    have body := executes s s' u n n' like' likeS fun i among => knownParts i (.inr among)
    refine (body.part (.whileBody run holds)).bind ?_
    intro flow flow' o o' q run' _ on' like'' ends
    cases flow with
    | normal =>
      obtain rfl : flow' = .normal := ends
      rw [← on'.along like'] at likeE likeS
      have again := executes (.whileLoop e s) (.whileLoop e' s') q o o' like''
        ⟨e', s', rfl, likeE, likeS⟩ known
      exact again.part (.whileAgain run holds run')
    | returned a =>
      obtain ⟨a', rfl, given⟩ := ends
      exact Agree.pure like'' ⟨a', rfl, given⟩

theorem derivedClass_alike (evaluates : EvaluatesAlike c fuel) {t t' : Token} {e e' : Expr}
    {fs fs' : List FunctionDecl} (like : m.Like c w m')
    (token : t.LikeName c (w.along m.chain) t') (isName : ∃ id used, e = .var id used)
    (likeE : e.Like c (w.along m.chain) e')
    (likeFs : FunctionDecl.LikeList c (Renaming.same :: Renaming.same :: w.along m.chain) fs fs')
    (known : ∀ id ∈ (Stmt.classDecl t (some e) fs).ids, c.known id) :
    Agree c (Step.Accounts c ⟨fuel + 1, .stmt (.classDecl t (some e) fs), m⟩) (Flow.Like c) w m m'
      (execute (fuel + 1) (.classDecl t (some e) fs))
      (execute (fuel + 1) (.classDecl t' (some e') fs')) := by
  simp only [Stmt.ids, List.mem_append] at known
  have here : c.known e.id := by
    obtain ⟨id, used, rfl⟩ := isName
    exact known id (.inl (by simp [Expr.ids]))
  rw [execute, execute]
  have superclass := evaluates e e' w m m' like likeE fun i among => known i (.inl among)
  refine (superclass.part .superclass).bind ?_
  intro v v' n n' u run _ on like' value
  rw [← on.along like] at likeE likeFs token
  have asked := asSuperclass_agrees t t' like' likeE isName value
  refine (asked.blame fun _ _ _ _ failed => failed.accounts rfl here ?_).bind ?_
  · rintro part ⟨⟩
    simp only [Step.halt?, run, haltOf]
  intro a a' o o' q _ _ on' like'' likeClass
  rw [← on'.along like'] at likeFs token
  refine (declareClass_agrees (some a) (some a') like'' token likeClass likeFs
    fun i among => known i (.inr among)).bind ?_
  intro _ _ p p' r _ _ _ likeEnd _
  exact Agree.pure likeEnd rfl

theorem funDecl_alike {f f' : FunctionDecl} (like : m.Like c w m')
    (token : f.name.LikeName c (w.along m.chain) f'.name) (likeF : f.Like c (w.along m.chain) f')
    (known : ∀ id ∈ (Stmt.funDecl f).ids, c.known id) :
    Agree c (Step.Accounts c ⟨fuel + 1, .stmt (.funDecl f), m⟩) (Flow.Like c) w m m'
      (execute (fuel + 1) (.funDecl f)) (execute (fuel + 1) (.funDecl f')) := by
  rw [execute, execute]
  refine (Agree.observe like).bind ?_
  rintro chain chain' n n' v run run' - - ⟨same, here, here'⟩
  obtain rfl : w = v := same.symm
  cases run
  cases run'
  rw [here, here', like.chain]
  have closure : Closure.Like c w [] ⟨f, m.chain, false⟩ ⟨f', m.chain, false⟩ :=
    ⟨likeF, known, rfl, like.held, rfl⟩
  refine (functionValue_agrees like closure).bind ?_
  intro a a' n n' v _ _ on like' given
  rw [← on.along like] at token
  have defined := define_agrees (Q := Step.Accounts c ⟨fuel + 1, .stmt (.funDecl f), m⟩)
    f.name.lexeme like' given
  rw [token.kept] at defined
  rw [token.lexeme]
  refine defined.bind ?_
  intro _ _ o o' q _ _ _ like'' _
  exact Agree.pure like'' rfl

theorem execute_alike (evaluates : EvaluatesAlike c fuel) (executes : ExecutesAlike c fuel) :
    ExecutesAlike c (fuel + 1) := by
  intro s s' w m m' like likeS known
  refine Agree.blame (Q := Step.Accounts c ⟨fuel + 1, .stmt s, m⟩) ?_
    fun h h' n run accounts => accounts (congrArg haltOf run)
  match s with
  | .expression e =>
    obtain ⟨e', rfl, likeE⟩ := likeS
    rw [execute, execute]
    have value := evaluates e e' w m m' like likeE known
    refine (value.part .expression).bind ?_
    intro v v' n n' u _ _ _ like' _
    exact Agree.pure like' rfl
  | .print e =>
    obtain ⟨e', rfl, likeE⟩ := likeS
    rw [execute, execute]
    have value := evaluates e e' w m m' like likeE known
    refine (value.part .print).bind ?_
    intro v v' n n' u _ _ _ like' given
    rw [given.text]
    refine (printLine_agrees like' v.text fun _ => .sinkFull).bind ?_
    intro _ _ o o' q _ _ _ like'' _
    exact Agree.pure like'' rfl
  | .varDecl t none =>
    obtain ⟨t', rfl, token⟩ := likeS
    rw [execute, execute, token.lexeme]
    refine (define_agrees t.lexeme like (Value.Like.nil c w)).bind ?_
    intro _ _ n n' u _ _ _ like' _
    exact Agree.pure like' rfl
  | .varDecl t (some e) =>
    obtain ⟨t', e', rfl, token, likeE⟩ := likeS
    rw [execute, execute, token.lexeme]
    have value := evaluates e e' w m m' like likeE known
    refine (value.part .varDecl).bind ?_
    intro v v' n n' u _ _ on like' given
    rw [← on.along like]
    refine (define_agrees t.lexeme like' given).bind ?_
    intro _ _ o o' q _ _ _ like'' _
    exact Agree.pure like'' rfl
  | .block ss =>
    obtain ⟨π, ss', rfl, -, likeSs⟩ := likeS
    exact block_alike executes like likeSs known
  | .ifThen e s =>
    obtain ⟨e', u', rfl, likeE, likeU⟩ := likeS
    simp only [Stmt.ids, List.mem_append] at known
    rw [execute, execute]
    have condition := evaluates e e' w m m' like likeE fun i among => known i (.inl among)
    refine (condition.part .ifThenCondition).bind ?_
    intro v v' n n' u run _ on like' value
    rw [value.isTruthy]
    cases holds : v.isTruthy with
    | false => exact Agree.pure like' rfl
    | true =>
      rw [← on.along like] at likeU
      have yes := executes s u' u n n' like' likeU fun i among => known i (.inr among)
      exact yes.part (.ifThen run holds)
  | .ifElse e s t =>
    obtain ⟨e', s', t', rfl, likeE, likeS, likeT⟩ := likeS
    simp only [Stmt.ids, List.mem_append] at known
    rw [execute, execute]
    have condition := evaluates e e' w m m' like likeE fun i among => known i (.inl (.inl among))
    refine (condition.part .ifElseCondition).bind ?_
    intro v v' n n' u run _ on like' value
    rw [value.isTruthy]
    rw [← on.along like] at likeS likeT
    cases holds : v.isTruthy with
    | false =>
      have no := executes t t' u n n' like' likeT fun i among => known i (.inr among)
      exact no.part (.ifElseElse run holds)
    | true =>
      have yes := executes s s' u n n' like' likeS fun i among => known i (.inl (.inr among))
      exact yes.part (.ifElseThen run holds)
  | .whileLoop e s =>
    obtain ⟨e', s', rfl, likeE, likeS⟩ := likeS
    exact while_alike evaluates executes like likeE likeS known
  | .funDecl f =>
    obtain ⟨f', rfl, token, likeF⟩ := likeS
    exact funDecl_alike like token likeF known
  | .returnStmt t none =>
    obtain ⟨t', rfl, -⟩ := likeS
    rw [execute, execute]
    exact Agree.pure like ⟨.nil, rfl, rfl⟩
  | .returnStmt t (some e) =>
    obtain ⟨t', e', rfl, -, likeE⟩ := likeS
    rw [execute, execute]
    have value := evaluates e e' w m m' like likeE known
    refine (value.part .returned).bind ?_
    intro v v' n n' u _ _ _ like' given
    exact Agree.pure like' ⟨v', rfl, given⟩
  | .classDecl t none fs =>
    obtain ⟨t', fs', rfl, token, likeFs⟩ := likeS
    rw [execute, execute]
    refine (declareClass_agrees none none like token trivial likeFs
      known).bind ?_
    intro _ _ n n' u _ _ _ like' _
    exact Agree.pure like' rfl
  | .classDecl t (some e) fs =>
    obtain ⟨t', e', fs', rfl, token, ⟨isName, likeE⟩, likeFs⟩ := likeS
    exact derivedClass_alike evaluates like token isName likeE likeFs known

theorem runs_alike (c : Translation) (fuel : Nat) :
    EvaluatesAlike c fuel ∧ ExecutesAlike c fuel := by
  induction fuel with
  | zero =>
    constructor
    · intro e e' w m m' like _ _
      rw [evaluate, evaluate]
      exact Agree.of_error rfl rfl (.refl w m) like .outOfFuel
    · intro s s' w m m' like _ _
      rw [execute, execute]
      exact Agree.of_error rfl rfl (.refl w m) like .outOfFuel
  | succ fuel ih => exact ⟨evaluate_alike ih.1 ih.2, execute_alike ih.1 ih.2⟩

/-- Programs that are alike run alike. -/
theorem interpret_alike (fuel : Nat) {ss ss' : List Stmt} (like : m.Like c w m')
    (likeSs : Stmt.LikeList c (w.along m.chain) ss ss') (known : ∀ id ∈ Stmt.idsList ss, c.known id) :
    Agree c (Step.Blames c ⟨fuel, .program ss, m⟩) (fun _ _ _ => True) w m m' (interpret fuel ss)
      (interpret fuel ss') := by
  induction ss generalizing ss' w m m' with
  | nil =>
    obtain rfl : ss' = [] := likeSs
    exact Agree.pure like trivial
  | cons s ss ih =>
    obtain ⟨s', us', rfl, likeS, likeRest⟩ := likeSs
    simp only [Stmt.idsList, List.mem_append] at known
    have first := (runs_alike c fuel).2 s s' w m m' like likeS fun id among => known id (.inl among)
    refine (first.started .firstOfProgram).bind ?_
    intro flow flow' n n' v run run' on like' _
    rw [← on.along like] at likeRest
    have rest := ih like' likeRest fun id among => known id (.inr among)
    exact rest.started (.restOfProgram run)

end Run

end Lox
