import Mathlib
import Lox.Proofs.CallFrames
import Lox.Proofs.ScopeNames

/-!
Which names the scopes of an activation bind while it runs: those that are defined at the place in
the text that the run has come to. A statement is run after those before it and not together with
those after it, and a scope of the activation gets a name by a declaration in it only.
-/

namespace Lox

open Enclosure (depth functionOf)
open Scoping (distance?)
open Session (Happens Life Since happens_closed since_of_becomes)

/-- No variable other than a global one is assigned to in its own initializer. -/
def InitializersSpare (program : List Stmt) : Prop :=
  ∀ around name e, Occurs program around (.varDecl name (some e)) → around ≠ [] →
    ∀ id token value, .assign id token value ∈ e.parts → token.lexeme ≠ name.lexeme

def Chunk.program (c : Chunk) : List Stmt := c.session.program c.source

/-- The session is given this chunk only, which is accepted, and in which initializers spare their
variables. -/
structure Chunk.Alone (c : Chunk) (s : Session) : Prop where
  life : Life [c] s
  accepts : c.session.Accepts c.source
  spare : InitializersSpare c.program

/-! ### Names that are bound -/

/-- What is bound stays bound. -/
theorem Session.Since.contains_kept {chunks : List Chunk} {u v : Store} {scope : ScopeId}
    {name : String} (since : Since chunks u v) (known : scope < u.scopes.size)
    (bound : (u.bindings scope).contains name = true) :
    (v.bindings scope).contains name = true := by
  refine (since.keeps (P := fun t => scope < t.scopes.size ∧
    (t.bindings scope).contains name = true) ?_ ⟨known, bound⟩).2
  rintro t t' changes ⟨known, bound⟩
  refine ⟨Nat.lt_of_lt_of_le known (Since.size (.single changes)), ?_⟩
  cases changes with
  | host key value =>
    rw [Store.bindings_bind]
    split
    · rw [Table.contains_insert, bound, Bool.or_true]
    · exact bound
  | write writes =>
    obtain ⟨step, d, happens, write, does, rfl⟩ := writes
    rw [Deed.contains_leaves write known fun _ => bound]
    exact bound

/-- The names that the task itself declares, in the innermost scope. -/
def Task.declares : Task → List String
  | .stmt t => t.declared
  | .stmts ss => ss.flatMap Stmt.declared
  | .program ss => ss.flatMap Stmt.declared
  | _ => []

/-- A scope that is there before the step binds no more names after it, or it is the innermost one
and the step declares the name. -/
def Step.Adds (step : Step) : Prop :=
  ∀ scope < step.machine.store.scopes.size, ∀ name,
    (step.finish.store.bindings scope).contains name = true →
      (step.machine.store.bindings scope).contains name = true ∨
        name ∈ step.task.declares ∧ step.machine.chain.head? = some scope

/-! ### Chains -/

namespace Chained

variable {chunks : List Chunk} {s : Session} {around outer : List Enclosure} {e : Enclosure}
  {k : ScopeId} {chain rest : Chain}

/-- The innermost scope of a chain is newer than the others. -/
theorem newest (chained : Chained chunks around (k :: rest)) (life : Life chunks s) :
    ∀ scope ∈ rest, scope < k := by
  cases chained with
  | global => exact fun _ among => nomatch among
  | block opened _ =>
    obtain ⟨R, p, ready, -⟩ := life.step_sound opened
    exact ready.chain.held ready.sound.store.global
  | function entered _ =>
    obtain ⟨R, sound, ⟨q, callable⟩, -⟩ := life.step_sound entered
    exact callable.chain.held sound.store.global
  | method entered =>
    obtain ⟨R, sound, ⟨q, callable⟩, -⟩ := life.step_sound entered
    exact callable.chain.held sound.store.global

/-- Inside of a scope the innermost scope in force is an activation of it. -/
theorem innermost (chained : Chained chunks (e :: outer) chain) :
    ∃ extent k rest, chain = k :: rest ∧ e.extent? = some extent ∧ Activation chunks extent k := by
  cases chained with
  | block opened _ => exact ⟨_, _, _, rfl, rfl, .block opened rfl⟩
  | function entered _ => exact ⟨_, _, _, rfl, rfl, .function entered rfl⟩
  | method entered => exact ⟨_, _, _, rfl, rfl, .function entered rfl⟩

end Chained

/-! ### Scenes -/

/-- The scopes of the activation bind the names that the frames have defined, and no others. -/
def Store.Fits (u : Store) (around : List Enclosure) (frames : List Frame) (chain : Chain) : Prop :=
  ∀ inner e outer k, around = inner ++ e :: outer → functionOf inner = .outside →
    chain[depth inner]? = some k → ∃ frame : Frame, frames[depth inner]? = some frame ∧
      ∀ name, (u.bindings k).contains name = true ↔ frame.get? name = some true

/-- The machine is at work inside of these, with these frames in the text. -/
structure Scene (c : Chunk) (around : List Enclosure) (frames : List Frame) (m : Machine) :
    Prop where
  chained : Chained [c] around m.chain
  fits : m.store.Fits around frames m.chain

/-- The place while the expressions of a statement are evaluated. -/
def Stmt.during (p : Place) : Stmt → Place
  | .varDecl name _ => p.hold name.lexeme false
  | _ => p

/-- What the step runs stands in the program, and the scopes of its activation fit the place. -/
def Step.Set (c : Chunk) : Step → Prop
  | ⟨_, .expr e, m⟩ => ∃ around p t ss whole, Stands c.program around p (t :: ss) ∧
      whole ∈ t.exprs ∧ e ∈ whole.parts ∧ Scene c around (t.during p).frames m
  | ⟨_, .exprs es, m⟩ => ∃ around p t ss whole, Stands c.program around p (t :: ss) ∧
      whole ∈ t.exprs ∧ (∀ e ∈ es, e ∈ whole.parts) ∧ Scene c around (t.during p).frames m
  | ⟨_, .stmt t, m⟩ => ∃ around p ss, Stands c.program around p (t :: ss) ∧
      Scene c around p.frames m
  | ⟨_, .stmts ss, m⟩ => ∃ around p, Stands c.program around p ss ∧ Scene c around p.frames m
  | ⟨_, .program ss, m⟩ => Stands c.program [] Place.outermost ss ∧ m.chain = globalChain
  | _ => True

namespace Store.Fits

variable {u v : Store} {around : List Enclosure} {frames : List Frame} {chain : Chain}

theorem same (fits : u.Fits around frames chain) (names : ∀ scope ∈ chain, ∀ name,
    (v.bindings scope).contains name = (u.bindings scope).contains name) :
    v.Fits around frames chain := by
  intro inner e outer k split direct at_
  obtain ⟨frame, found, holds⟩ := fits inner e outer k split direct at_
  refine ⟨frame, found, fun name => ?_⟩
  rw [names k (List.mem_of_getElem? at_) name]
  exact holds name

/-- A name that the innermost scope gets in the text and in the store. -/
theorem declare {p : Place} {own : String} {chunks : List Chunk} {s : Session}
    (fits : u.Fits around p.frames chain) (chained : Chained chunks around chain)
    (life : Life chunks s) (names : ∀ scope ∈ chain, ∀ name,
      (v.bindings scope).contains name = true ↔
        (u.bindings scope).contains name = true ∨ name = own ∧ chain.head? = some scope) :
    v.Fits around (p.hold own true).frames chain := by
  intro inner e outer k split direct at_
  obtain ⟨frame, found, holds⟩ := fits inner e outer k split direct at_
  have known := names k (List.mem_of_getElem? at_)
  obtain ⟨frames, context, class_⟩ := p
  cases frames with
  | nil => cases found
  | cons first others =>
    generalize depth inner = i at at_ found
    cases i with
    | zero =>
      obtain rfl := Option.some.inj found
      refine ⟨_, rfl, fun name => ?_⟩
      rw [known name, holds name, List.head?_eq_getElem?, at_, Table.get?_insert]
      by_cases same : own = name
      · simp [same]
      · simp [same, Ne.symm same]
    | succ i =>
      refine ⟨frame, found, fun name => ?_⟩
      rw [known name, holds name]
      -- The innermost scope is none of the others.
      refine or_iff_left fun both => ?_
      cases chain with
      | nil => cases at_
      | cons newest rest =>
        obtain rfl := Option.some.inj both.2
        exact absurd (chained.newest life newest (List.mem_of_getElem? at_)) (Nat.lt_irrefl newest)

/-- A block starts with a scope that binds nothing. -/
theorem enter {p : Place} {body : List Stmt} (fits : u.Fits around p.frames chain)
    (known : ∀ scope ∈ chain, scope < u.scopes.size) :
    (u.addScope Table.empty).Fits (.block body :: around) (p.enter Table.empty).frames
      (u.scopes.size :: chain) := by
  intro inner e outer k split direct at_
  cases inner with
  | nil =>
    obtain rfl := Option.some.inj at_
    refine ⟨_, rfl, fun name => ?_⟩
    rw [bindings_lastScope]
    simp [Table.contains, Table.get?_empty]
  | cons first inner =>
    obtain ⟨rfl, rest⟩ := List.cons.inj split
    obtain ⟨frame, found, holds⟩ := fits inner e outer k rest direct at_
    refine ⟨frame, found, fun name => ?_⟩
    rw [bindings_addScope, if_neg (Nat.ne_of_lt (known k (List.mem_of_getElem? at_)))]
    exact holds name

/-- A function starts with a scope that binds its parameters. No other scope is of this
activation. -/
theorem call {ps : List Token} {vs : List Value} {first : Enclosure}
    (isFunction : ∀ inner, functionOf (first :: inner) ≠ .outside) (arity : vs.length = ps.length) :
    (u.addScope (Table.empty.insertAll ((ps.map (·.lexeme)).zip vs))).Fits (first :: around)
      (parameterFrame ps :: frames) (u.scopes.size :: chain) := by
  intro inner e outer k split direct at_
  cases inner with
  | nil =>
    obtain rfl := Option.some.inj at_
    refine ⟨_, rfl, fun name => ?_⟩
    have defined : (parameterFrame ps).contains name = true ↔
        (parameterFrame ps).get? name = some true := by
      rw [Table.contains_iff]
      constructor
      · rintro ⟨b, found⟩
        rw [found, settled_parameterFrame ps name b found]
      · exact fun found => ⟨true, found⟩
    rw [bindings_lastScope, ← defined, parameterFrame_contains, Table.contains_insertAll,
      List.map_fst_zip (by simp [arity])]
    simp [Table.contains, Table.get?_empty]
  | cons second inner =>
    obtain ⟨rfl, -⟩ := List.cons.inj split
    exact absurd direct (isFunction inner)

end Store.Fits

structure Step.Staged (c : Chunk) (step : Step) : Prop where
  happens : Happens [c] step
  set : step.Set c

section Static

variable {R : ExprId → Option Nat → Prop} {p : Place} {t : Stmt} {name : String}

theorem Stmt.Scoped.during (inside : t.Scoped R p) (formed : t.Formed Token.Spelled) :
    ∀ e ∈ t.exprs, e.Scoped R (t.during p) := by
  intro e among
  cases t with
  | classDecl own parent methods =>
    cases parent with
    | none => cases among
    | some parent =>
      obtain rfl := List.mem_singleton.1 among
      obtain ⟨id, used, isName, -⟩ := formed.superclass
      exact Run.superclass_scoped isName inside.2.1.1 inside.2.1.2
  | _ => exact inside.exprs e among

/-- What is in scope is defined, but for a variable in its own initializer. -/
theorem Stmt.during_defined {frame : Frame} {b : Bool} (settled : p.Settled)
    (among : frame ∈ (t.during p).frames) (has : frame.get? name = some b)
    (other : ∀ own e, t = .varDecl own e → own.lexeme ≠ name) : b = true := by
  cases t with
  | varDecl own e =>
    have differ := other own e rfl
    obtain ⟨frames, context, class_⟩ := p
    cases frames with
    | nil => cases among
    | cons first outer =>
      rcases List.mem_cons.1 among with rfl | among
      · rw [Table.get?_insert_ne _ _ differ] at has
        exact settled first List.mem_cons_self name b has
      · exact settled frame (List.mem_cons_of_mem _ among) name b has
  | _ => exact settled frame among name b has

end Static

section

variable {c : Chunk} {s : Session} {R : ExprId → Option Nat → Prop} {around : List Enclosure}
  {frames : List Frame} {p : Place} {m n : Machine} {step part : Step} {t : Stmt}
  {ss : List Stmt} {fuel : Nat}

theorem Chunk.program_formed (c : Chunk) : Stmt.FormedList Token.Spelled c.program :=
  Session.program_formed c.session c.source

namespace Chunk.Alone

variable (alone : c.Alone s)
include alone

theorem sound (happens : Happens [c] step) : step.Sound (c.session.bound c.source).Recorded := by
  obtain ⟨other, given, runs⟩ := happens
  obtain rfl := List.mem_singleton.1 given
  exact (alone.life.chunk_sound given).runs runs

theorem resolved (stands : Stands c.program around p ss) :
    Stmt.ScopedList (c.session.bound c.source).Recorded p ss :=
  stands.resolved (alone.accepts.scoped (alone.life.chunk_sound List.mem_cons_self))

/-- After a statement the innermost scope has the names that the statement declares. -/
theorem declared_bound {extent : Extent} {k : ScopeId} (happens : Happens [c] ⟨fuel, .stmt t, m⟩)
    (run : Run.execute fuel t m = .ok .normal n) (active : Activation [c] extent k)
    (head : m.chain.head? = some k) :
    ∀ name ∈ t.declared, (n.store.bindings k).contains name = true := by
  intro name among
  obtain ⟨q, ready, inside, formed⟩ := alone.sound happens
  have ends : n.store.Matches n.chain (t.after q).frames := (executed ready inside formed run).2
  rw [alone.life.executed happens run] at ends
  have matches_ := ready.chain
  rcases t.after_cases formed q with ⟨none, -⟩ | ⟨own, declares, moves⟩
  · rw [none] at among
    cases among
  · rw [declares] at among
    obtain rfl := List.mem_singleton.1 among
    rw [moves] at ends
    obtain ⟨frames, context, class_⟩ := q
    cases frames with
    | nil =>
      rw [show m.chain = globalChain from matches_] at head
      obtain rfl := Option.some.inj head
      exact absurd (active.not_global alone.life) (Nat.lt_irrefl 0)
    | cons first others =>
      obtain ⟨scope, outer, chain, -, held, -⟩ := ends
      rw [chain] at head
      obtain rfl := Option.some.inj head
      obtain ⟨v, bound, -⟩ := held name (Table.get?_insert_self first name true)
      exact Table.contains_iff.2 ⟨v, bound⟩

end Chunk.Alone

/-! ### Scenes that are kept -/

namespace Scene

variable (scene : Scene c around frames m)
include scene

theorem kept (chain : n.chain = m.chain) (names : ∀ scope ∈ m.chain, ∀ name,
    (n.store.bindings scope).contains name = (m.store.bindings scope).contains name) :
    Scene c around frames n := by
  constructor
  · exact chain ▸ scene.chained
  · exact chain ▸ scene.fits.same names

/-- In a variable's initializer the variable is in scope, but not bound. -/
theorem during (same : frames = p.frames) (inside : t.Scoped R p) :
    Scene c around (t.during p).frames m := by
  subst same
  cases t with
  | varDecl own e =>
    have vacant : p.Vacant own.lexeme := by
      cases e with
      | none => exact inside
      | some e => exact inside.1
    constructor
    · exact scene.chained
    · intro inner e outer k split direct at_
      obtain ⟨frame, found, fits⟩ := scene.fits inner e outer k split direct at_
      obtain ⟨frames, context, class_⟩ := p
      cases frames with
      | nil => cases found
      | cons first others =>
        generalize depth inner = i at found
        cases i with
        | succ i => exact ⟨frame, found, fits⟩
        | zero =>
          obtain rfl := Option.some.inj found
          have absent : first.get? own.lexeme = none := by
            simpa [Table.contains] using vacant first rfl
          refine ⟨_, rfl, fun name => ?_⟩
          rw [fits name]
          by_cases same : own.lexeme = name
          · subst same
            rw [Table.get?_insert_self, absent]
            simp
          · rw [Table.get?_insert_ne _ _ same]
  | _ => exact scene

variable (alone : c.Alone s)
include alone

/-- An expression changes nothing about the names that are bound. -/
theorem evaluated {e : Expr} {v : Value} (happens : Happens [c] ⟨fuel, .expr e, m⟩)
    (adds : Step.Adds ⟨fuel, .expr e, m⟩) (run : Run.evaluate fuel e m = .ok v n) :
    Scene c around frames n := by
  refine scene.kept (alone.life.evaluated happens run).1 fun scope among name => ?_
  have known := alone.life.chain_known happens scope among
  have became := since_of_becomes (Step.becomes_finish (happens_closed [c]) happens)
  have added := adds scope known name
  simp only [Step.finish, run, stateOf] at became added
  rw [Bool.eq_iff_iff]
  constructor
  · intro bound
    rcases added bound with before | ⟨declared, -⟩
    · exact before
    · cases declared
  · exact became.contains_kept known

/-- A statement in order binds what it declares in the innermost scope, and nothing else. -/
theorem names_after (inScope : around ≠ []) (happens : Happens [c] ⟨fuel, .stmt t, m⟩)
    (adds : Step.Adds ⟨fuel, .stmt t, m⟩) (run : Run.execute fuel t m = .ok .normal n) :
    ∀ scope ∈ m.chain, ∀ name, (n.store.bindings scope).contains name = true ↔
      (m.store.bindings scope).contains name = true ∨
        name ∈ t.declared ∧ m.chain.head? = some scope := by
  intro scope among name
  obtain ⟨q, ready, -⟩ := alone.sound happens
  have held := ready.chain.held ready.sound.store.global scope among
  have became := since_of_becomes (Step.becomes_finish (happens_closed [c]) happens)
  simp only [Step.Adds, Step.finish, run, stateOf] at adds became
  constructor
  · exact adds scope held name
  · rintro (before | ⟨declared, head⟩)
    · exact became.contains_kept held before
    · obtain ⟨e, outer, rfl⟩ := List.exists_cons_of_ne_nil inScope
      obtain ⟨extent, k, rest, chain, -, active⟩ := scene.chained.innermost
      rw [chain] at head
      obtain rfl := Option.some.inj head
      exact alone.declared_bound happens run active (by rw [chain]; rfl) name declared

theorem executed (same : frames = p.frames) (happens : Happens [c] ⟨fuel, .stmt t, m⟩)
    (adds : Step.Adds ⟨fuel, .stmt t, m⟩) (run : Run.execute fuel t m = .ok .normal n) :
    Scene c around (t.after p).frames n := by
  subst same
  have chain := alone.life.executed happens run
  obtain ⟨-, -, -, formed⟩ := alone.sound happens
  constructor
  · exact chain ▸ scene.chained
  · by_cases inScope : around = []
    · intro inner e outer k split
      rw [inScope] at split
      cases (List.append_eq_nil_iff.1 split.symm).2
    · rw [chain]
      have names := scene.names_after alone inScope happens adds run
      rcases t.after_cases formed p with ⟨none, stays⟩ | ⟨own, declares, moves⟩
      · rw [stays]
        apply scene.fits.same
        intro scope among name
        rw [Bool.eq_iff_iff, names scope among name, none]
        simp
      · rw [moves]
        apply scene.fits.declare scene.chained alone.life
        intro scope among name
        rw [names scope among name, declares, List.mem_singleton]

end Scene

/-! ### What is staged -/

namespace Step.Staged

variable (alone : c.Alone s)
include alone

theorem parts_expr {e : Expr} (staged : Staged c ⟨fuel, .expr e, m⟩)
    (each : ∀ part, Starts ⟨fuel, .expr e, m⟩ part → part.Staged c → part.Adds)
    (starts : Starts ⟨fuel, .expr e, m⟩ part) : part.Staged c := by
  obtain ⟨happens, around, p, t, ss, whole, stands, among, inside, scene⟩ := staged
  have within {d : Expr} (child : d ∈ e.children) : d ∈ whole.parts :=
    Expr.parts_trans inside (Expr.child_mem_parts child)
  have first {k : Nat} {d : Expr} (starts : Starts ⟨fuel, .expr e, m⟩ ⟨k, .expr d, m⟩)
      (child : d ∈ e.children) : Staged c ⟨k, .expr d, m⟩ :=
    ⟨happens_closed [c] _ _ happens starts,
      around, p, t, ss, whole, stands, among, within child, scene⟩
  have after {k : Nat} {d : Expr} {v : Value} {n : Machine}
      (begun : Starts ⟨fuel, .expr e, m⟩ ⟨k, .expr d, m⟩) (child : d ∈ e.children)
      (run : Run.evaluate k d m = .ok v n) : Scene c around (t.during p).frames n := by
    have before := first begun child
    exact scene.evaluated alone before.happens (each _ begun before) run
  have happens' := happens_closed [c] _ _ happens starts
  cases starts.inside with
  | first child => exact first starts child
  | next begun child run child' =>
    exact ⟨happens', around, p, t, ss, whole, stands, among, within child', after begun child run⟩
  | arguments begun child run children =>
    exact ⟨happens', around, p, t, ss, whole, stands, among,
      fun _ listed => within (children listed), after begun child run⟩
  | call => exact ⟨happens', trivial⟩

theorem parts_stmt (staged : Staged c ⟨fuel, .stmt t, m⟩)
    (each : ∀ part, Starts ⟨fuel, .stmt t, m⟩ part → part.Staged c → part.Adds)
    (starts : Starts ⟨fuel, .stmt t, m⟩ part) : part.Staged c := by
  obtain ⟨happens, around, p, ss, stands, scene⟩ := staged
  have inside := (alone.resolved stands).1
  have formed := (stands.formed c.program_formed).1
  have enter {k : Nat} {e : Expr} (starts : Starts ⟨fuel, .stmt t, m⟩ ⟨k, .expr e, m⟩)
      (among : e ∈ t.exprs) : Staged c ⟨k, .expr e, m⟩ :=
    ⟨happens_closed [c] _ _ happens starts,
      around, p, t, ss, e, stands, among, e.mem_parts, scene.during rfl inside⟩
  have before {k : Nat} {e : Expr} {v : Value} {n : Machine}
      (starts : Starts ⟨fuel, .stmt t, m⟩ ⟨k, .expr e, m⟩) (among : e ∈ t.exprs)
      (first : Run.evaluate k e m = .ok v n) : Scene c around p.frames n := by
    have staged := enter starts among
    exact scene.evaluated alone staged.happens (each _ starts staged) first
  have branch {k l : Nat} {e : Expr} {v : Value} {b : Stmt} {n : Machine}
      (starts : Starts ⟨fuel, .stmt t, m⟩ ⟨k, .expr e, m⟩) (among : e ∈ t.exprs)
      (first : Run.evaluate k e m = .ok v n) (next : Starts ⟨fuel, .stmt t, m⟩ ⟨l, .stmt b, n⟩)
      (place : Stands c.program around p [b]) : Staged c ⟨l, .stmt b, n⟩ :=
    ⟨happens_closed [c] _ _ happens next, around, p, [], place, before starts among first⟩
  have itself := starts
  cases starts with
  | expression | print | varDecl | ifThenCondition | ifElseCondition | whileCondition | returned
  | superclass => exact enter itself (by simp [Stmt.exprs])
  | ifThen first _ =>
    exact branch .ifThenCondition (by simp [Stmt.exprs]) first itself stands.ifThen
  | ifElseThen first _ =>
    exact branch .ifElseCondition (by simp [Stmt.exprs]) first itself stands.ifElseYes
  | @ifElseElse _ _ yes no _ _ _ first _ =>
    have place := stands.ifElseNo
    rw [yes.after_branch formed.2.1.1 formed.2.1.2] at place
    exact branch .ifElseCondition (by simp [Stmt.exprs]) first itself place
  | whileBody first _ =>
    exact branch .whileCondition (by simp [Stmt.exprs]) first itself stands.whileLoop
  | @whileAgain _ condition body _ a n o first holds second =>
    have inBody := branch .whileCondition (by simp [Stmt.exprs]) first (.whileBody first holds)
      stands.whileLoop
    have adds := each _ (.whileBody first holds) inBody
    have later := (before .whileCondition (by simp [Stmt.exprs]) first).executed alone rfl
      inBody.happens adds second
    rw [body.after_branch formed.2.1 formed.2.2] at later
    exact ⟨happens_closed [c] _ _ happens itself, around, p, ss, stands, later⟩
  | @block _ body =>
    obtain ⟨R, q, ready, -⟩ := alone.life.step_sound happens
    have known := ready.chain.held ready.sound.store.global
    refine ⟨happens_closed [c] _ _ happens itself, .block body :: around, _, stands.block, ?_, ?_⟩
    · simpa only [opened, Store.lastScope_addScope] using Chained.block happens scene.chained
    · simpa only [opened, Store.lastScope_addScope] using scene.fits.enter known

theorem parts_body {line : Nat} {vs : List Value} {closure : Closure}
    (staged : Staged c ⟨fuel, .body line vs closure, m⟩)
    (starts : Starts ⟨fuel, .body line vs closure, m⟩ part) : part.Staged c := by
  have happens := staged.happens
  obtain ⟨-, -, -, arity⟩ := alone.sound happens
  obtain ⟨-, around, made⟩ := (alone.life.step_made happens).placed
  have chained := made.chained happens
  have stood {around : List Enclosure} {p : Place} {ss : List Stmt} (text : Text [c] around p ss) :
      Stands c.program around p ss := by
    obtain ⟨other, given, -, stands⟩ := text
    obtain rfl := List.mem_singleton.1 given
    exact stands
  cases starts with
  | body =>
    refine ⟨happens_closed [c] _ _ happens .body, ?_⟩
    cases made with
    | function declared text outer =>
      refine ⟨_, _, (stood text).function, ?_, ?_⟩
      · simpa only [entered, Store.lastScope_addScope] using chained
      · rw [entered, Store.lastScope_addScope]
        apply Store.Fits.call _ arity
        intro inner same
        cases same
    | method bound binds declared declares isMethod same text outer =>
      refine ⟨_, _, (stood text).method isMethod, ?_, ?_⟩
      · simpa only [entered, Store.lastScope_addScope] using chained
      · rw [entered, Store.lastScope_addScope]
        apply Store.Fits.call _ arity
        intro inner same
        unfold functionOf at same
        split at same <;> cases same

theorem parts (staged : step.Staged c)
    (each : ∀ part, Starts step part → part.Staged c → part.Adds) (starts : Starts step part) :
    part.Staged c := by
  obtain ⟨fuel, task, m⟩ := step
  cases task with
  | expr e => exact parts_expr alone staged each starts
  | stmt t => exact parts_stmt alone staged each starts
  | body line vs closure => exact parts_body alone staged starts
  | call line vs callee =>
    have happens := happens_closed [c] _ _ staged.happens starts
    cases starts <;> exact ⟨happens, trivial⟩
  | exprs es =>
    obtain ⟨happens, around, p, t, ss, whole, stands, among, inside, scene⟩ := staged
    cases starts with
    | firstExpr =>
      exact ⟨happens_closed [c] _ _ happens .firstExpr,
        around, p, t, ss, whole, stands, among, inside _ List.mem_cons_self, scene⟩
    | @restExprs _ e es _ v n first =>
      have before : Staged c ⟨fuel, .expr e, m⟩ := ⟨happens_closed [c] _ _ happens .firstExpr,
        around, p, t, ss, whole, stands, among, inside _ List.mem_cons_self, scene⟩
      have later := scene.evaluated alone before.happens (each _ .firstExpr before) first
      exact ⟨happens_closed [c] _ _ happens (.restExprs first), around, p, t, ss, whole, stands,
        among, fun e member => inside e (List.mem_cons_of_mem _ member), later⟩
  | stmts ss =>
    obtain ⟨happens, around, p, stands, scene⟩ := staged
    cases starts with
    | firstStmt => exact ⟨happens_closed [c] _ _ happens .firstStmt, around, p, _, stands, scene⟩
    | @restStmts _ t ss _ n first =>
      have before : Staged c ⟨fuel, .stmt t, m⟩ :=
        ⟨happens_closed [c] _ _ happens .firstStmt, around, p, _, stands, scene⟩
      have later := scene.executed alone rfl before.happens (each _ .firstStmt before) first
      exact ⟨happens_closed [c] _ _ happens (.restStmts first), around, _, stands.rest, later⟩
  | program ss =>
    obtain ⟨happens, stands, chain⟩ := staged
    have scene : Scene c [] Place.outermost.frames m := by
      constructor
      · exact chain ▸ .global
      · intro inner e outer k split
        cases (List.append_eq_nil_iff.1 split.symm).2
    cases starts with
    | firstOfProgram =>
      exact ⟨happens_closed [c] _ _ happens .firstOfProgram, [], _, _, stands, scene⟩
    | @restOfProgram _ t ss _ flow n first =>
      have before := happens_closed [c] _ _ happens .firstOfProgram
      have rest := stands.rest
      rw [Run.outermost_after t] at rest
      exact ⟨happens_closed [c] _ _ happens (.restOfProgram first), rest,
        (alone.life.executed before first).trans chain⟩

/-- A name that is assigned to is bound, in the scope that the distance leads to. -/
theorem assign_bound {id : ExprId} {token : Token} {value : Expr} {v : Value} {scope : ScopeId}
    (staged : Staged c ⟨fuel + 1, .expr (.assign id token value), m⟩)
    (first : Run.evaluate fuel value m = .ok v n) (found : target n id token = .ok scope) :
    (n.store.bindings scope).contains token.lexeme = true := by
  obtain ⟨happens, around, p, t, ss, whole, stands, among, inside, scene⟩ := staged
  rcases alone.life.target_bound happens first found with bound | ⟨recorded, head⟩
  · exact bound
  · have static := (((alone.resolved stands).1.during (stands.formed c.program_formed).1) whole
      among).part inside
    obtain ⟨q, ready, -⟩ := alone.sound happens
    have innermost := (ready.sound.distances id _ (static.use rfl)).symm.trans recorded
    obtain ⟨within, has, -⟩ := List.findIdx?_eq_some_iff_getElem.1 innermost
    obtain ⟨b, has⟩ := Table.contains_iff.1 has
    have inScope : around ≠ [] := by
      rintro rfl
      rw [stands.outermost] at within
      cases t <;> exact absurd within (Nat.not_lt_zero 0)
    have defined : b = true := by
      refine Stmt.during_defined stands.settled (List.getElem_mem within) has fun own e isOwn => ?_
      subst isOwn
      obtain rfl := Option.mem_toList.1 among
      have apart := alone.spare around own whole (stands.occurs _ List.mem_cons_self) inScope id
      exact (apart token value inside).symm
    subst defined
    obtain ⟨e, outer, rfl⟩ := List.exists_cons_of_ne_nil inScope
    obtain ⟨frame, at_, holds⟩ := scene.fits [] e outer scope rfl rfl
      (List.head?_eq_getElem?.symm.trans head)
    obtain rfl := Option.some.inj ((List.getElem?_eq_getElem within).symm.trans at_)
    have before := happens_closed [c] _ _ happens .assigned
    have became := since_of_becomes (Step.becomes_finish (happens_closed [c]) before)
    simp only [Step.finish, first, stateOf] at became
    have known := alone.life.chain_known happens scope (List.mem_of_mem_head? head)
    exact became.contains_kept known ((holds token.lexeme).2 has)

/-- What a part declares in a scope that is older than the step, the step declares. -/
theorem starts_declares (staged : step.Staged c) (starts : Starts step part) {name : String}
    {scope : ScopeId} (old : scope < step.machine.store.scopes.size)
    (declares : name ∈ part.task.declares) (head : part.machine.chain.head? = some scope) :
    name ∈ step.task.declares ∧ step.machine.chain.head? = some scope := by
  have sound := alone.sound staged.happens
  have branch {b : Stmt} (isBranch : b.isBranch = true) : name ∉ b.declared := by
    rw [Stmt.declared_branch isBranch]
    exact List.not_mem_nil
  cases inside : part.task.isCall with
  | true =>
    obtain ⟨k, task, n⟩ := part
    cases task with
    | call | body => cases declares
    | _ => cases inside
  | false =>
    have enters := alone.life.enters staged.happens starts inside
    cases enters with
    | block chain | body chain =>
      rw [chain] at head
      obtain rfl := Option.some.inj head
      exact absurd old (Nat.lt_irrefl _)
    | same outside chain =>
      rw [chain] at head
      refine ⟨?_, head⟩
      cases starts with
      | firstStmt | firstOfProgram => exact List.mem_append_left _ declares
      | restStmts | restOfProgram => exact List.mem_append_right _ declares
      | ifThen | whileBody => exact absurd declares (branch sound.choose_spec.2.2.2.2)
      | ifElseThen => exact absurd declares (branch sound.choose_spec.2.2.2.1.2)
      | ifElseElse => exact absurd declares (branch sound.choose_spec.2.2.2.2.2)
      | block => exact absurd chain (List.cons_ne_self _ _)
      | body => cases outside
      | _ => cases declares

/-- Only declarations add names to the scopes that there are. -/
theorem adds (staged : step.Staged c) : step.Adds := by
  induction step using Step.induct with
  | each step ih =>
    intro scope old name bound
    refine (Step.keeps_finish (P := fun u => step.machine.store.scopes.size ≤ u.scopes.size ∧
      ∀ name, (u.bindings scope).contains name = true →
        (step.machine.store.bindings scope).contains name = true ∨
          name ∈ step.task.declares ∧ step.machine.chain.head? = some scope) ?_
      ⟨Nat.le_refl _, fun _ => .inl⟩).2 name bound
    rintro d u does ⟨size, names⟩
    have grown := (since_of_becomes (does.becomes (happens_closed [c]) staged.happens)).size
    have known := Nat.lt_of_lt_of_le old size
    refine ⟨Nat.le_trans size grown, fun name bound => ?_⟩
    by_cases write : d.isWrite = true
    · by_cases binds : d.Binds scope name
      · rcases alone.life.binds staged.happens (does.effect write) binds with
          ⟨fuel, id, token, value, m, n, v, rfl, rfl, first, found, rfl⟩ |
          ⟨fuel, t, m, rfl, declared, head⟩
        · exact names _ (assign_bound alone staged first found)
        · exact .inr ⟨declared, head⟩
      · rw [Deed.contains_leaves write known fun here => absurd here binds] at bound
        exact names name bound
    · cases d with
      | part part =>
        have starts := does.starts
        have fits : part.machine.store = u := does.fits
        subst fits
        rcases ih part starts (staged.parts alone ih starts) scope known name bound with
          before | ⟨declares, head⟩
        · exact names name before
        · exact .inr (staged.starts_declares alone starts old declares head)
      | _ => exact absurd rfl write

/-- All that a staged step comes to is staged. -/
theorem reaches (staged : step.Staged c) (reaches : step.Reaches part) : part.Staged c := by
  induction reaches with
  | refl => exact staged
  | tail _ starts ih => exact ih.parts alone (fun _ _ inner => inner.adds alone) starts

end Step.Staged

/-- Every step of the run is staged. -/
theorem Chunk.Alone.staged (alone : c.Alone s) (happens : Happens [c] step) : step.Staged c := by
  obtain ⟨other, given, accepts, reaches⟩ := happens
  obtain rfl := List.mem_singleton.1 given
  have first : (other.session.firstStep other.fuel other.source).Staged other := by
    refine ⟨Session.happens_firstStep given accepts, .program, ?_⟩
    exact (alone.life.step_made (Session.happens_firstStep given accepts)).placed.2
  exact first.reaches alone reaches

end

end Lox
