import Mathlib
import Lox.Proofs.DistinctIds
import Lox.Proofs.Lineage

/-!
In the life of a session every step finds what steps that happened have made: what it runs stands in
an accepted chunk with the chain of its scopes in force, and each value in the store, and each that
is handed on, was made by a step that happened.
-/

namespace Lox

open Session (Happens Life happens_closed)

/-- What is known of the end of a step. -/
structure Step.Outcome (chunks : List Chunk) (step : Step) : Prop where
  store : step.finish.store.Made chunks
  chain : step.finish.chain = step.machine.chain
  values : ∀ v, step.Gives v → v.Made chunks

section

variable {chunks : List Chunk} {s : Session} {step part : Step} {fuel : Nat} {m n : Machine}
  {d : Deed} {u : Store}

/-! ### Chains -/

/-- After a sound step the scopes of before are in force. -/
theorem Step.Sound.chain_kept {R : ExprId → Option Nat → Prop} (sound : step.Sound R) :
    step.finish.chain = step.machine.chain := by
  have kept {α : Type} {A : α → Machine → Prop} {x : Run α} {m : Machine} (safe : Safe R m A x) :
      (stateOf (x m)).chain = m.chain := by
    cases run : x m with
    | ok a n => exact (safe.ok run).1.chain
    | error h n => exact (safe.error run).1.chain
  obtain ⟨fuel, task, m⟩ := step
  have evaluates := (Run.runs_safe (R := R) fuel).1
  have executes := (Run.runs_safe (R := R) fuel).2
  cases task with
  | expr e =>
    obtain ⟨p, ready, inside, formed⟩ := sound
    exact kept (evaluates e p m ready inside formed)
  | exprs es =>
    obtain ⟨p, ready, inside, formed⟩ := sound
    exact kept (Run.arguments_safe evaluates es ready inside formed)
  | stmt s =>
    obtain ⟨p, ready, inside, formed⟩ := sound
    exact kept (executes s p m ready inside formed)
  | stmts ss =>
    obtain ⟨p, ready, inside, formed⟩ := sound
    exact kept (Run.sequence_safe executes ss ready inside formed)
  | program ss =>
    obtain ⟨ready, inside, formed⟩ := sound
    exact kept (Run.interpret_safe fuel ss ready inside formed)
  | call line vs callee =>
    obtain ⟨sound, callable, values, fits⟩ := sound
    exact kept (Run.callValue_safe executes sound callable values fits)
  | body line vs closure =>
    obtain ⟨sound, ⟨q, callable⟩, values, fits⟩ := sound
    exact kept (Run.callClosure_safe executes sound callable values fits)

theorem Session.Life.step_sound (life : Life chunks s) (happens : Happens chunks step) :
    ∃ R, step.Sound R := by
  obtain ⟨c, given, runs⟩ := happens
  exact ⟨_, (life.chunk_sound given).runs runs⟩

/-! ### Ends of parts -/

namespace Step.Outcome

theorem expr {e : Expr} {v : Value} (outcome : Outcome chunks ⟨fuel, .expr e, m⟩)
    (run : Run.evaluate fuel e m = .ok v n) :
    n.store.Made chunks ∧ n.chain = m.chain ∧ v.Made chunks := by
  obtain ⟨store, chain, values⟩ := outcome
  simp only [finish, run, stateOf] at store chain
  exact ⟨store, chain, values v ⟨n, run⟩⟩

theorem exprs {es : List Expr} {vs : List Value} (outcome : Outcome chunks ⟨fuel, .exprs es, m⟩)
    (run : Run.arguments (Run.evaluate fuel) es m = .ok vs n) :
    n.store.Made chunks ∧ n.chain = m.chain ∧ ∀ v ∈ vs, v.Made chunks := by
  obtain ⟨store, chain, values⟩ := outcome
  simp only [finish, run, stateOf] at store chain
  exact ⟨store, chain, fun v among => values v ⟨vs, n, run, among⟩⟩

theorem stmt {t : Stmt} {flow : Flow} (outcome : Outcome chunks ⟨fuel, .stmt t, m⟩)
    (run : Run.execute fuel t m = .ok flow n) :
    n.store.Made chunks ∧ n.chain = m.chain := by
  obtain ⟨store, chain, -⟩ := outcome
  simp only [finish, run, stateOf] at store chain
  exact ⟨store, chain⟩

end Step.Outcome

/-! ### Values -/

/-- The instance that a call of a class makes. -/
theorem Value.Made.created {c : Class} {line : Nat} {vs : List Value} (made : c.Made chunks)
    (happens : Happens chunks ⟨fuel, .call line vs (.class_ c), m⟩) :
    Value.Made chunks (.object m.store.addInstance.lastInstance c) := by
  refine ⟨made, fuel, line, vs, m, happens, ?_⟩
  rw [Store.lastInstance, Store.size_addInstance]
  rfl

theorem Value.made_of_plain {v : Value} (plain : v.isPlain = true) : v.Made chunks := by
  cases v <;> first | exact trivial | cases plain

namespace Run

/-- Whatever the computation succeeds with is a value that the run makes by itself. -/
def Plain (x : Run Value) : Prop := ∀ m v n, x m = .ok v n → v.isPlain = true

theorem Plain.pure {v : Value} (plain : v.isPlain = true) : Plain (Pure.pure v) := by
  intro m w n run
  cases run
  exact plain

theorem Plain.raise (line : Nat) (cause : RuntimeCause) : Plain (Run.raise line cause) :=
  fun _ _ _ run => nomatch run

theorem unary_plain (operator : Token) (v : Value) : Plain (unary operator v) := by
  unfold unary negate
  repeat' split
  all_goals first | exact .pure rfl | exact .raise _ _

theorem binary_plain (operator : Token) (v w : Value) : Plain (binary operator v w) := by
  unfold binary add onNumbers arithmetic
  repeat' split
  all_goals first | exact .pure rfl | exact .raise _ _

theorem callNative_plain (native : Native) (line : Nat) (vs : List Value) :
    Plain (callNative native line vs) := by
  unfold callNative
  repeat' split
  · intro m v n run
    cases run
    rfl
  all_goals first | exact .pure rfl | exact .raise _ _

end Run

/-! ### What is started -/

namespace Step.Made

theorem parts_expr {e : Expr} (made : Step.Made chunks ⟨fuel, .expr e, m⟩)
    (each : ∀ part, Starts ⟨fuel, .expr e, m⟩ part → part.Made chunks → part.Outcome chunks)
    (starts : Starts ⟨fuel, .expr e, m⟩ part) : part.Made chunks := by
  obtain ⟨happens, ⟨around, p, s, ss, whole, text, among, inside, chained⟩, store⟩ := made
  have within {c : Expr} (child : c ∈ e.children) : c ∈ whole.parts :=
    Expr.parts_trans inside (Expr.child_mem_parts child)
  have first {k : Nat} {c : Expr} (starts : Starts ⟨fuel, .expr e, m⟩ ⟨k, .expr c, m⟩)
      (child : c ∈ e.children) : Step.Made chunks ⟨k, .expr c, m⟩ :=
    ⟨happens_closed chunks _ _ happens starts,
      ⟨around, p, s, ss, whole, text, among, within child, chained⟩, store⟩
  have happens' := happens_closed chunks _ _ happens starts
  cases starts.inside with
  | first child => exact first starts child
  | next begun child run child' =>
    obtain ⟨store, chain, -⟩ := (each _ begun (first begun child)).expr run
    exact ⟨happens', ⟨around, p, s, ss, whole, text, among, within child', chain ▸ chained⟩, store⟩
  | arguments begun child run children =>
    obtain ⟨store, chain, -⟩ := (each _ begun (first begun child)).expr run
    exact ⟨happens', ⟨around, p, s, ss, whole, text, among, fun _ listed => within (children listed),
      chain ▸ chained⟩, store⟩
  | call begun child run begun' children run' =>
    obtain ⟨store, chain, callable⟩ := (each _ begun (first begun child)).expr run
    have toArguments := happens_closed chunks _ _ happens begun'
    obtain ⟨store, -, values⟩ := (each _ begun' ⟨toArguments, ⟨around, p, s, ss, whole, text, among,
      fun _ listed => within (children listed), chain ▸ chained⟩, store⟩).exprs run'
    exact ⟨happens', ⟨values, callable⟩, store⟩

theorem parts_stmt {t : Stmt} (made : Step.Made chunks ⟨fuel, .stmt t, m⟩)
    (each : ∀ part, Starts ⟨fuel, .stmt t, m⟩ part → part.Made chunks → part.Outcome chunks)
    (starts : Starts ⟨fuel, .stmt t, m⟩ part) : part.Made chunks := by
  obtain ⟨happens, ⟨around, p, ss, text, chained⟩, store⟩ := made
  have enter {k : Nat} {e : Expr} (starts : Starts ⟨fuel, .stmt t, m⟩ ⟨k, .expr e, m⟩)
      (among : e ∈ t.exprs) : Step.Made chunks ⟨k, .expr e, m⟩ :=
    ⟨happens_closed chunks _ _ happens starts,
      ⟨around, p, t, ss, e, text, among, e.mem_parts, chained⟩, store⟩
  have branch {k l : Nat} {e : Expr} {v : Value} {b : Stmt} {n : Machine}
      (starts : Starts ⟨fuel, .stmt t, m⟩ ⟨k, .expr e, m⟩) (among : e ∈ t.exprs)
      (first : Run.evaluate k e m = .ok v n) (next : Starts ⟨fuel, .stmt t, m⟩ ⟨l, .stmt b, n⟩)
      (place : ∃ p, Text chunks around p [b]) : Step.Made chunks ⟨l, .stmt b, n⟩ := by
    obtain ⟨store, chain, -⟩ := (each _ starts (enter starts among)).expr first
    obtain ⟨p, text⟩ := place
    exact ⟨happens_closed chunks _ _ happens next, ⟨around, p, [], text, chain ▸ chained⟩, store⟩
  have itself := starts
  obtain ⟨c, given, accepts, stands⟩ := text
  cases starts with
  | expression | print | varDecl | ifThenCondition | ifElseCondition | whileCondition | returned
  | superclass => exact enter itself (by simp [Stmt.exprs])
  | ifThen first _ =>
    exact branch .ifThenCondition (by simp [Stmt.exprs]) first itself
      ⟨_, c, given, accepts, .ifThen stands⟩
  | ifElseThen first _ =>
    exact branch .ifElseCondition (by simp [Stmt.exprs]) first itself
      ⟨_, c, given, accepts, .ifElseYes stands⟩
  | ifElseElse first _ =>
    exact branch .ifElseCondition (by simp [Stmt.exprs]) first itself
      ⟨_, c, given, accepts, .ifElseNo stands⟩
  | whileBody first _ =>
    exact branch .whileCondition (by simp [Stmt.exprs]) first itself
      ⟨_, c, given, accepts, .whileLoop stands⟩
  | @whileAgain _ condition body _ a n o first holds second =>
    have inBody := branch .whileCondition (by simp [Stmt.exprs]) first (.whileBody first holds)
      ⟨_, c, given, accepts, .whileLoop stands⟩
    obtain ⟨-, chain, -⟩ := (each _ .whileCondition
      (enter .whileCondition (by simp [Stmt.exprs]))).expr first
    obtain ⟨store, chain'⟩ := (each _ (.whileBody first holds) inBody).stmt second
    refine ⟨happens_closed chunks _ _ happens itself,
      ⟨around, p, ss, ⟨c, given, accepts, stands⟩, ?_⟩, store⟩
    rw [chain', chain]
    exact chained
  | @block _ body =>
    refine ⟨happens_closed chunks _ _ happens itself,
      ⟨_, _, ⟨c, given, accepts, .block stands⟩, ?_⟩, ?_⟩
    · simpa only [opened, Store.lastScope_addScope] using Chained.block happens chained
    · exact store.openBlock

/-- All that is started finds what has been made. -/
theorem parts (made : step.Made chunks)
    (each : ∀ part, Starts step part → part.Made chunks → part.Outcome chunks)
    (starts : Starts step part) : part.Made chunks := by
  obtain ⟨fuel, task, m⟩ := step
  have happens := happens_closed chunks _ _ made.happens starts
  cases task with
  | expr e => exact parts_expr made each starts
  | stmt t => exact parts_stmt made each starts
  | exprs es =>
    obtain ⟨runs, ⟨around, p, s, ss, whole, text, among, inside, chained⟩, store⟩ := made
    cases starts with
    | firstExpr =>
      exact ⟨happens, ⟨around, p, s, ss, whole, text, among, inside _ List.mem_cons_self, chained⟩, store⟩
    | @restExprs _ e es _ v n first =>
      have toFirst : Step.Made chunks ⟨fuel, .expr e, m⟩ :=
        ⟨happens_closed chunks _ _ runs .firstExpr, ⟨around, p, s, ss, whole, text, among,
          inside _ List.mem_cons_self, chained⟩, store⟩
      obtain ⟨store, chain, -⟩ := (each _ .firstExpr toFirst).expr first
      exact ⟨happens, ⟨around, p, s, ss, whole, text, among,
        fun e member => inside e (List.mem_cons_of_mem _ member), chain ▸ chained⟩, store⟩
  | stmts ss =>
    obtain ⟨runs, ⟨around, p, text, chained⟩, store⟩ := made
    cases starts with
    | firstStmt => exact ⟨happens, ⟨around, p, _, text, chained⟩, store⟩
    | restStmts first =>
      have toFirst := happens_closed chunks _ _ runs .firstStmt
      obtain ⟨store, chain⟩ :=
        (each _ .firstStmt ⟨toFirst, ⟨around, p, _, text, chained⟩, store⟩).stmt first
      exact ⟨happens, ⟨around, _, text.rest, chain ▸ chained⟩, store⟩
  | program ss =>
    obtain ⟨runs, ⟨⟨p, text⟩, chain⟩, store⟩ := made
    have chained : Chained chunks [] m.chain := chain ▸ .global
    cases starts with
    | firstOfProgram => exact ⟨happens, ⟨[], p, _, text, chained⟩, store⟩
    | restOfProgram first =>
      have toFirst := happens_closed chunks _ _ runs .firstOfProgram
      obtain ⟨store, chain'⟩ :=
        (each _ .firstOfProgram ⟨toFirst, ⟨[], p, _, text, chained⟩, store⟩).stmt first
      exact ⟨happens, ⟨⟨_, text.rest⟩, chain'.trans chain⟩, store⟩
  | call line vs callee =>
    obtain ⟨runs, ⟨values, callable⟩, store⟩ := made
    cases starts with
    | callBody => exact ⟨happens, ⟨values, callable⟩, store⟩
    | @initializer _ _ _ c method _ object n bound o created found linked =>
      cases created
      cases linked
      have binds : Opens ⟨fuel, .call line vs (.class_ c), m⟩ _ _ := (Effect.initializer found).opens
      have value := Value.Made.created callable runs
      refine ⟨happens, ⟨values, ?_⟩, store.addInstance.receiver value⟩
      obtain ⟨superclass, around, bound⟩ := Class.Made.bind callable found runs binds
      exact ⟨_, by simpa only [Store.lastScope_addScope] using bound⟩
  | body line vs closure =>
    obtain ⟨runs, ⟨values, around, closureMade⟩, store⟩ := made
    cases starts with
    | body =>
      obtain ⟨p, text⟩ := closureMade.stands
      refine ⟨happens, ⟨around, p, text, ?_⟩, store.addScope fun name v found => ?_⟩
      · simpa only [entered, Store.lastScope_addScope] using closureMade.chained runs
      · rcases Table.get?_insertAll found with listed | before
        · exact values v (List.of_mem_zip listed).2
        · cases before

/-- What is written was made by steps that happened. -/
theorem writes (made : step.Made chunks)
    (each : ∀ part, Starts step part → part.Made chunks → part.Outcome chunks)
    (effect : step.Effect d u) (store : u.Made chunks) : (d.leaves u).Made chunks := by
  have declared {n : Machine} {name : Token} {superclass : Option Class} {methods : List FunctionDecl}
      (declares : step.Declares n name superclass methods) :
      (∀ c, superclass = some c → c.Made chunks) ∧
        (n.declared name superclass methods).Made chunks := by
    have happens := made.happens
    have itself := declares
    cases declares with
    | base =>
      obtain ⟨-, ⟨around, p, ss, text, chained⟩, -⟩ := made
      exact ⟨nofun, .mk happens itself rfl text chained nofun⟩
    | derived first =>
      obtain ⟨-, chain, value⟩ := (each _ .superclass (made.parts each .superclass)).expr first
      obtain ⟨-, ⟨around, p, ss, text, chained⟩, -⟩ := made
      have inherited : ∀ c : Class, some _ = some c → c.Made chunks :=
        fun c same => Option.some.inj same ▸ value
      exact ⟨inherited, .mk happens itself rfl text (chain ▸ chained) inherited⟩
  cases effect with
  | assign first found =>
    exact store.bind ((each _ .assigned (made.parts each .assigned)).expr first).2.2
  | get first field found =>
    exact store.receiver ((each _ .getObject (made.parts each .getObject)).expr first).2.2
  | set first second =>
    have value := each _ (.setValue first) (made.parts each (.setValue first))
    exact store.setField (value.expr second).2.2
  | super recorded parent receiver inherited => exact store.receiver (store.getAt receiver)
  | allocate => exact store.addInstance
  | initializer found => exact store.receiver (Value.Made.created made.placed.2 made.happens)
  | body =>
    refine store.addScope fun name v found => ?_
    rcases Table.get?_insertAll found with listed | before
    · exact made.placed.1 v (List.of_mem_zip listed).2
    · cases before
  | block => exact store.openBlock
  | undefined => exact store.define (v := .nil) trivial
  | define first => exact store.define ((each _ .varDecl (made.parts each .varDecl)).expr first).2.2
  | function =>
    obtain ⟨happens, ⟨around, p, ss, text, chained⟩, -⟩ := made
    exact store.define (v := .function _ _) ⟨_, .function happens text chained⟩
  | className declares => exact store.define (v := .nil) trivial
  | parent declares =>
    refine store.addScope fun name v found => ?_
    rw [Table.get?_insert] at found
    split at found
    · exact Option.some.inj found ▸ (declared declares).1 _ rfl
    · cases found
  | class_ declares found => exact store.bind (v := .class_ _) (declared declares).2

theorem gives_bound {c : Class} {method : Closure} {name : String} {receiver v : Value}
    (made : c.Made chunks) (happens : Happens chunks step) (found : c.method? name = some method)
    (effect : step.Effect (.openScope (receiverScope receiver)) m.store)
    (run : (Run.bindMethod method receiver >>= Run.functionValue) m = .ok v n) : v.Made chunks := by
  cases run
  obtain ⟨superclass, around, bound⟩ := made.bind found happens effect.opens
  rw [← Store.lastScope_addScope m.store (receiverScope receiver)] at bound
  exact ⟨_, bound⟩

theorem gives_call {id : ExprId} {callee : Expr} {paren : Token} {args : List Expr} {v : Value}
    (made : Step.Made chunks ⟨fuel + 1, .expr (.call id callee paren args), m⟩)
    (each : ∀ part, Starts ⟨fuel + 1, .expr (.call id callee paren args), m⟩ part →
      part.Made chunks → part.Outcome chunks)
    (run : Run.evaluate (fuel + 1) (.call id callee paren args) m = .ok v n) : v.Made chunks := by
  obtain ⟨f, k, first, run⟩ := bind_ok_iff.1 run
  cases callable : f.arity? with
  | none =>
    rw [callable] at run
    cases run
  | some arity =>
    rw [callable] at run
    obtain ⟨vs, k', second, run⟩ := bind_ok_iff.1 run
    by_cases fits : vs.length = arity
    · rw [if_neg (not_not.2 fits)] at run
      cases inside : f.isNative with
      | false =>
        have starts : Starts ⟨fuel + 1, .expr (.call id callee paren args), m⟩
            ⟨fuel, .call paren.line vs f, k'⟩ := .called first second (fits ▸ callable) inside
        exact (each _ starts (made.parts each starts)).values v ⟨n, run⟩
      | true =>
        cases f with
        | native i native => exact Value.made_of_plain (Run.callNative_plain _ _ _ _ _ _ run)
        | _ => cases inside
    · rw [if_pos fits] at run
      cases run

/-- What is found in an object is held by a field of it, or is a method bound to it. -/
theorem gives_property {id : ExprId} {object : Expr} {name : Token} {v : Value}
    (made : Step.Made chunks ⟨fuel + 1, .expr (.get id object name), m⟩)
    (each : ∀ part, Starts ⟨fuel + 1, .expr (.get id object name), m⟩ part →
      part.Made chunks → part.Outcome chunks)
    (run : Run.evaluate (fuel + 1) (.get id object name) m = .ok v n) : v.Made chunks := by
  obtain ⟨w, k, first, run⟩ := bind_ok_iff.1 run
  cases w with
  | object i c =>
    obtain ⟨store, -, known⟩ := (each _ .getObject (made.parts each .getObject)).expr first
    obtain ⟨v?, k', observed, run⟩ := bind_ok_iff.1 run
    cases observed
    dsimp only at run
    cases field : (k.store.fields i).get? name.lexeme with
    | some w =>
      rw [field] at run
      cases run
      exact store.fields i name.lexeme _ field
    | none =>
      rw [field] at run
      dsimp only at run
      cases found : c.method? name.lexeme with
      | none =>
        rw [found] at run
        cases run
      | some method =>
        rw [found] at run
        exact gives_bound known.1 made.happens found (.get first field found) run
  | _ => cases run

theorem gives_expr {e : Expr} {v : Value} (made : Step.Made chunks ⟨fuel, .expr e, m⟩)
    (each : ∀ part, Starts ⟨fuel, .expr e, m⟩ part → part.Made chunks → part.Outcome chunks)
    (run : Run.evaluate fuel e m = .ok v n) : v.Made chunks := by
  have given {part : Step} (starts : Starts ⟨fuel, .expr e, m⟩ part) (gives : part.Gives v) :
      v.Made chunks := (each part starts (made.parts each starts)).values v gives
  cases fuel with
  | zero =>
    cases e <;> cases run
  | succ fuel =>
    cases e with
    | literal id l =>
      cases run
      cases l <;> exact trivial
    | grouping => exact given .grouping ⟨n, run⟩
    | unary =>
      obtain ⟨w, k, first, run⟩ := bind_ok_iff.1 run
      exact Value.made_of_plain (Run.unary_plain _ _ _ _ _ run)
    | binary =>
      obtain ⟨w, k, first, run⟩ := bind_ok_iff.1 run
      obtain ⟨w', k', second, run⟩ := bind_ok_iff.1 run
      exact Value.made_of_plain (Run.binary_plain _ _ _ _ _ _ run)
    | logical id left operator right =>
      obtain ⟨w, k, first, run⟩ := bind_ok_iff.1 run
      cases stops : Run.stopsAt operator w with
      | true =>
        rw [stops] at run
        cases run
        exact given .logicalLeft ⟨_, first⟩
      | false =>
        rw [stops] at run
        exact given (.logicalRight first stops) ⟨n, run⟩
    | assign =>
      obtain ⟨w, k, first, run⟩ := bind_ok_iff.1 run
      obtain ⟨-, k', second, run⟩ := bind_ok_iff.1 run
      cases run
      exact given .assigned ⟨_, first⟩
    | var id name => exact made.store.lookUp run
    | this id name => exact made.store.lookUp run
    | call id callee paren args => exact gives_call made each run
    | get id object name => exact gives_property made each run
    | set =>
      obtain ⟨w, k, first, run⟩ := bind_ok_iff.1 run
      cases w with
      | object i c =>
        obtain ⟨w, k', second, run⟩ := bind_ok_iff.1 run
        cases run
        exact given (.setValue first) ⟨_, second⟩
      | _ => cases run
    | super id keyword method =>
      obtain ⟨inner, c, i, own, found, recorded, parent, receiver, inherited, run⟩ :=
        Run.superMethod_ok run
      exact gives_bound (made.store.getAt (v := .class_ c) parent) made.happens inherited
        (.super recorded parent receiver inherited) run
    | comma =>
      obtain ⟨w, k, first, run⟩ := bind_ok_iff.1 run
      exact given (.commaRight first) ⟨n, run⟩
    | ternary =>
      obtain ⟨w, k, first, run⟩ := bind_ok_iff.1 run
      cases truth : w.isTruthy with
      | true =>
        rw [truth] at run
        exact given (.ternaryThen first truth) ⟨n, run⟩
      | false =>
        rw [truth] at run
        exact given (.ternaryElse first truth) ⟨n, run⟩

theorem gives_stmt {t : Stmt} {v : Value} (made : Step.Made chunks ⟨fuel, .stmt t, m⟩)
    (each : ∀ part, Starts ⟨fuel, .stmt t, m⟩ part → part.Made chunks → part.Outcome chunks)
    (run : Run.execute fuel t m = .ok (.returned v) n) : v.Made chunks := by
  have given {part : Step} (starts : Starts ⟨fuel, .stmt t, m⟩ part) (gives : part.Gives v) :
      v.Made chunks := (each part starts (made.parts each starts)).values v gives
  cases fuel with
  | zero => cases t <;> cases run
  | succ fuel =>
    cases t with
    | expression =>
      obtain ⟨w, k, first, run⟩ := bind_ok_iff.1 run
      cases run
    | print =>
      obtain ⟨w, k, first, run⟩ := bind_ok_iff.1 run
      obtain ⟨-, k', second, run⟩ := bind_ok_iff.1 run
      cases run
    | varDecl name e =>
      cases e with
      | none => cases run
      | some e =>
        obtain ⟨w, k, first, run⟩ := bind_ok_iff.1 run
        cases run
    | block body =>
      obtain ⟨k, inside, -⟩ := Run.inChain_ok_inside run
      exact given .block ⟨k, inside⟩
    | ifThen =>
      obtain ⟨w, k, first, run⟩ := bind_ok_iff.1 run
      cases truth : w.isTruthy with
      | true =>
        rw [truth] at run
        exact given (.ifThen first truth) ⟨n, run⟩
      | false =>
        rw [truth] at run
        cases run
    | ifElse =>
      obtain ⟨w, k, first, run⟩ := bind_ok_iff.1 run
      cases truth : w.isTruthy with
      | true =>
        rw [truth] at run
        exact given (.ifElseThen first truth) ⟨n, run⟩
      | false =>
        rw [truth] at run
        exact given (.ifElseElse first truth) ⟨n, run⟩
    | whileLoop =>
      obtain ⟨w, k, first, run⟩ := bind_ok_iff.1 run
      cases truth : w.isTruthy with
      | true =>
        rw [truth] at run
        obtain ⟨flow, k', second, run⟩ := bind_ok_iff.1 run
        cases flow with
        | normal => exact given (.whileAgain first truth second) ⟨n, run⟩
        | returned w =>
          cases run
          exact given (.whileBody first truth) ⟨_, second⟩
      | false =>
        rw [truth] at run
        cases run
    | funDecl f =>
      cases run
    | returnStmt keyword e =>
      cases e with
      | none =>
        cases run
        exact trivial
      | some e =>
        obtain ⟨w, k, first, run⟩ := bind_ok_iff.1 run
        cases run
        exact given .returned ⟨_, first⟩
    | classDecl name e methods =>
      cases e with
      | none =>
        obtain ⟨-, k, first, run⟩ := bind_ok_iff.1 run
        cases run
      | some e =>
        obtain ⟨w, k, first, run⟩ := bind_ok_iff.1 run
        obtain ⟨c, k', second, run⟩ := bind_ok_iff.1 run
        obtain ⟨-, k'', third, run⟩ := bind_ok_iff.1 run
        cases run

theorem gives_stmts {ss : List Stmt} {v : Value} (made : Step.Made chunks ⟨fuel, .stmts ss, m⟩)
    (each : ∀ part, Starts ⟨fuel, .stmts ss, m⟩ part → part.Made chunks → part.Outcome chunks)
    (run : Run.sequence (Run.execute fuel) ss m = .ok (.returned v) n) : v.Made chunks := by
  have given {part : Step} (starts : Starts ⟨fuel, .stmts ss, m⟩ part) (gives : part.Gives v) :
      v.Made chunks := (each part starts (made.parts each starts)).values v gives
  cases ss with
  | nil => cases run
  | cons t ss =>
    obtain ⟨flow, k, first, run⟩ := bind_ok_iff.1 run
    cases flow with
    | normal => exact given (.restStmts first) ⟨n, run⟩
    | returned w =>
      cases run
      exact given .firstStmt ⟨_, first⟩

theorem gives_exprs {es : List Expr} {vs : List Value} {v : Value}
    (made : Step.Made chunks ⟨fuel, .exprs es, m⟩)
    (each : ∀ part, Starts ⟨fuel, .exprs es, m⟩ part → part.Made chunks → part.Outcome chunks)
    (run : Run.arguments (Run.evaluate fuel) es m = .ok vs n) (among : v ∈ vs) : v.Made chunks := by
  have given {part : Step} (starts : Starts ⟨fuel, .exprs es, m⟩ part) (gives : part.Gives v) :
      v.Made chunks := (each part starts (made.parts each starts)).values v gives
  cases es with
  | nil =>
    cases run
    cases among
  | cons e es =>
    obtain ⟨w, k, first, run⟩ := bind_ok_iff.1 run
    obtain ⟨ws, k', second, run⟩ := bind_ok_iff.1 run
    cases run
    rcases List.mem_cons.1 among with rfl | among
    · exact given .firstExpr ⟨_, first⟩
    · exact given (.restExprs first) ⟨ws, _, second, among⟩

theorem gives_body {line : Nat} {vs : List Value} {closure : Closure} {v : Value}
    (made : Step.Made chunks ⟨fuel, .body line vs closure, m⟩)
    (each : ∀ part, Starts ⟨fuel, .body line vs closure, m⟩ part → part.Made chunks →
      part.Outcome chunks)
    (run : Run.callClosure (Run.execute fuel) line closure vs m = .ok v n) : v.Made chunks := by
  have ended := each _ .body (made.parts each .body)
  obtain ⟨scope, k, opened, run⟩ := bind_ok_iff.1 run
  cases opened
  obtain ⟨flow, k, inside, run⟩ := bind_ok_iff.1 run
  obtain ⟨o, ran, rfl⟩ := Run.inChain_ok_inside inside
  have inBody : Run.sequence (Run.execute fuel) closure.function.body (entered m closure vs) =
      .ok flow o := ran
  cases isInit : closure.isInitializer with
  | true =>
    rw [isInit] at run
    obtain ⟨answered, -⟩ := Run.ask_ok_iff.1 run
    have store := ended.store
    simp only [finish, inBody, stateOf] at store
    exact store.getAt answered
  | false =>
    rw [isInit] at run
    cases run
    cases flow with
    | normal => exact trivial
    | returned w => exact ended.values w ⟨o, inBody⟩

/-- What a step gives was made by steps that happened. -/
theorem gives (made : step.Made chunks)
    (each : ∀ part, Starts step part → part.Made chunks → part.Outcome chunks) {v : Value}
    (gives : step.Gives v) : v.Made chunks := by
  obtain ⟨fuel, task, m⟩ := step
  cases task with
  | expr e =>
    obtain ⟨n, run⟩ := gives
    exact gives_expr made each run
  | exprs es =>
    obtain ⟨vs, n, run, among⟩ := gives
    exact gives_exprs made each run among
  | stmt t =>
    obtain ⟨n, run⟩ := gives
    exact gives_stmt made each run
  | stmts ss =>
    obtain ⟨n, run⟩ := gives
    exact gives_stmts made each run
  | program ss => exact gives.elim
  | call line vs callee =>
    obtain ⟨n, run⟩ := gives
    cases callee with
    | function i closure => exact (each _ .callBody (made.parts each .callBody)).values v ⟨n, run⟩
    | native i native => exact Value.made_of_plain (Run.callNative_plain _ _ _ _ _ _ run)
    | class_ c =>
      obtain ⟨object, k, created, run⟩ := bind_ok_iff.1 run
      cases created
      have known := Value.Made.created (c := c) made.placed.2 made.happens
      cases found : c.method? initializerName with
      | none =>
        rw [found] at run
        cases run
        exact known
      | some method =>
        rw [found] at run
        obtain ⟨bound, k, -, run⟩ := bind_ok_iff.1 run
        obtain ⟨w, k', -, run⟩ := bind_ok_iff.1 run
        cases run
        exact known
    | _ => cases run
  | body line vs closure =>
    obtain ⟨n, run⟩ := gives
    exact gives_body made each run

/-- A step that finds what was made leaves nothing else. -/
theorem outcome (life : Life chunks s) (made : step.Made chunks) : step.Outcome chunks := by
  induction step using Step.induct with
  | each step ih =>
    obtain ⟨R, sound⟩ := life.step_sound made.happens
    refine ⟨?_, sound.chain_kept, fun v gives => made.gives ih gives⟩
    refine Step.keeps_finish (fun d u does store => ?_) made.store
    by_cases write : d.isWrite = true
    · exact made.writes ih (does.effect write) store
    · cases d with
      | part part => exact (ih part does.starts (made.parts ih does.starts)).store
      | _ => exact absurd rfl write

theorem reaches (life : Life chunks s) (made : step.Made chunks) (reaches : step.Reaches part) :
    part.Made chunks := by
  induction reaches with
  | refl => exact made
  | tail _ starts ih => exact ih.parts (fun _ _ made => made.outcome life) starts

end Step.Made

end

/-! ### Sessions -/

namespace Session

variable {chunks given : List Chunk} {s t : Session}

theorem made_firstStep {c : Chunk} (among : c ∈ chunks) (accepts : c.session.Accepts c.source)
    (sound : c.session.Sound) (store : c.session.machine.store.Made chunks) :
    (c.session.firstStep c.fuel c.source).Made chunks := by
  refine ⟨happens_firstStep among accepts, ⟨⟨_, c, among, accepts, .program⟩, ?_⟩, ?_⟩
  · have same : (c.session.bound c.source).machine.chain = c.session.machine.chain :=
      (congrArg Machine.chain (c.session.bound_machine c.source) :)
    exact same.trans sound.chain
  · rw [firstStep_store]
    exact store

theorem Life.chunk_life (life : Life chunks s) {c : Chunk} (among : c ∈ chunks) :
    ∃ given, Life given c.session ∧ given ⊆ chunks := by
  induction life with
  | initial => cases among
  | @run chunks _ before fuel source ih =>
    rcases List.mem_cons.1 among with rfl | earlier
    · exact ⟨chunks, before, List.subset_cons_self _ _⟩
    · obtain ⟨given, life, within⟩ := ih earlier
      exact ⟨given, life, List.subset_cons_of_subset _ within⟩
  | defineGlobal _ _ _ ih | makeNative _ _ ih | resume _ _ _ ih => exact ih among

theorem Offered.made {store : Store} (made : store.Made chunks) {value : Value}
    (offered : store.Offers value) : value.Made chunks := by
  rcases offered with plain | ⟨scope, name, found⟩ | ⟨object, name, found⟩
  · exact Value.made_of_plain plain
  · exact made.bound scope name value found
  · exact made.fields object name value found

/-- The values that a session holds were made by steps that happened. -/
theorem Life.store_made (life : Life chunks s) (earlier : Life given t) (within : given ⊆ chunks) :
    t.machine.store.Made chunks := by
  induction earlier with
  | initial sink clock =>
    have empty : (Store.empty.addScope Table.empty).Made chunks := by
      refine Store.Made.addScope ⟨fun scope name v found => ?_, fun object name v found => ?_⟩
        fun name v found => nomatch found
      · cases found
      · cases found
    exact (empty.bind (v := .native _ _) trivial).bind (v := .native _ _) trivial
  | @run given t before fuel source ih =>
    have store := ih fun c member => within (List.mem_cons_of_mem _ member)
    have among := within List.mem_cons_self
    rcases t.accepts_or_rejects source with accepts | ⟨faults, after, rejects⟩
    · have made := made_firstStep among accepts before.reachable.sound store
      rw [← finish_store accepts]
      exact (made.outcome life).store
    · rw [run_rejected fuel rejects]
      cases rejects with
      | lex | parse => exact store
      | resolve =>
        rw [t.bound_machine source]
        exact store
  | defineGlobal before name offered ih =>
    have store := ih within
    exact store.bind (Offered.made store offered)
  | makeNative _ _ ih | resume _ _ _ ih => exact ih within

/-- Every step in the life of a session finds what steps that happened have made. -/
theorem Life.step_made (life : Life chunks s) {step : Step} (happens : Happens chunks step) :
    step.Made chunks := by
  obtain ⟨c, among, accepts, reaches⟩ := happens
  obtain ⟨given, earlier, within⟩ := life.chunk_life among
  have store := life.store_made earlier within
  exact (made_firstStep among accepts earlier.reachable.sound store).reaches life reaches

end Session

end Lox
