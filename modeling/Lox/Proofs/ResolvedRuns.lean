import Lox.Proofs.LikeRuns
import Lox.Proofs.LikeMoved
import Lox.Proofs.SoundSessions

/-!
Static resolution makes the internal failures of the interpreter unreachable: in every run of every
session each name that has a recorded distance is found there, and what the interpreter keeps ready
to tell of its own slips is never told.
-/

namespace Lox

namespace Step

/-- Where the step follows a recorded distance, it finds what static scoping promises; an assignment
does so after its value, when the same scopes are in force. The nodes of `this` and `super` have a
distance recorded. No statement at the top level returns. -/
def Answered : Step → Prop
  | ⟨_, .expr (.var id name), m⟩ =>
      ∀ d, m.distances[id]? = some d →
        ∃ scope v, Store.ancestor m.chain d name.lexeme = .ok scope ∧
          m.store.getAt m.chain d name.lexeme = .ok v
  | ⟨fuel, .expr (.assign id name value), m⟩ =>
      (∀ d, m.distances[id]? = some d →
        ∃ scope, Store.ancestor m.chain d name.lexeme = .ok scope) ∧
      ∀ v n, Run.evaluate (fuel - 1) value m = .ok v n →
        n.chain = m.chain ∧ n.distances = m.distances
  | ⟨_, .expr (.this id keyword), m⟩ =>
      ∃ d scope v, m.distances[id]? = some d ∧ Store.ancestor m.chain d keyword.lexeme = .ok scope ∧
        m.store.getAt m.chain d keyword.lexeme = .ok v
  | ⟨_, .expr (.super id keyword _), m⟩ =>
      ∃ inner c i own, m.distances[id]? = some (inner + 1) ∧
        m.store.getAt m.chain (inner + 1) keyword.lexeme = .ok (.class_ c) ∧
          m.store.getAt m.chain inner "this" = .ok (.object i own)
  | ⟨fuel, .body _ vs closure, m⟩ =>
      closure.isInitializer = true → ∀ flow n,
        Run.sequence (Run.execute fuel) closure.function.body (entered m closure vs) = .ok flow n →
          ∃ v, n.store.getAt closure.chain 0 "this" = .ok v
  | ⟨fuel, .program (s :: _), m⟩ => ∀ v n, Run.execute fuel s m ≠ .ok (.returned v) n
  | _ => True

variable {R : ExprId → Option Nat → Prop} {m : Machine} {fuel : Nat} {step : Step}

theorem Sound.answered (sound : step.Sound R) : step.Answered := by
  obtain ⟨fuel, task, m⟩ := step
  cases task with
  | expr e =>
    obtain ⟨p, ready, inside, formed⟩ := sound
    have reads {name : String} {d : Nat} (answers : p.Answers name d) :
        ∃ scope v, Store.ancestor m.chain d name = .ok scope ∧
          m.store.getAt m.chain d name = .ok v := by
      obtain ⟨scope, v, inChain, -, read, -, -⟩ := ready.getAt answers
      exact ⟨scope, v, by simp only [Store.ancestor, inChain], read⟩
    cases e with
    | var id name =>
      intro d recorded
      rw [ready.sound.distances id _ inside.2] at recorded
      exact reads ⟨recorded, inside.1 d recorded⟩
    | assign id name value =>
      constructor
      · intro d recorded
        rw [ready.sound.distances id _ inside.2.2] at recorded
        obtain ⟨scope, inChain⟩ :=
          ready.chain.scope (List.findIdx?_eq_some_iff_findIdx_eq.1 recorded).1
        exact ⟨scope, by simp only [Store.ancestor, inChain]⟩
      · intro v n run
        obtain ⟨kept, -⟩ := ((Run.runs_safe _).1 value p m ready inside.1 formed.2).ok run
        exact ⟨kept.chain, kept.distances⟩
    | this id keyword =>
      have spelled : keyword.lexeme = "this" := formed.1.keyword formed.2
      obtain ⟨d, answers, -⟩ := ready.proper inside.1
      obtain ⟨scope, v, inChain, read⟩ := reads answers
      have recorded := ready.sound.distances id _ inside.2
      rw [spelled, answers.1] at recorded
      rw [← spelled] at inChain read
      exact ⟨d, scope, v, recorded, inChain, read⟩
    | super id keyword method =>
      have spelled : keyword.lexeme = "super" := formed.1.keyword formed.2.1
      have known := inside.2
      rw [spelled] at known
      obtain ⟨inner, c, i, own, recorded, ⟨readSuper, -⟩, readThis, -⟩ :=
        ready.getSuper inside.1 known
      rw [← spelled] at readSuper
      exact ⟨inner, c, i, own, recorded, readSuper, readThis⟩
    | _ => exact trivial
  | program ss =>
    obtain ⟨ready, inside, formed⟩ := sound
    cases ss with
    | nil => exact trivial
    | cons s ss =>
      intro v n run
      obtain ⟨-, ends⟩ := executed ready inside.1 formed.1 run
      exact ends.2 rfl
  | body line vs closure =>
    have starts : Starts ⟨fuel, .body line vs closure, m⟩
        ⟨fuel, .stmts closure.function.body, entered m closure vs⟩ := .body
    have soundBody := starts.sound sound
    obtain ⟨-, ⟨q, callable⟩, -, -⟩ := sound
    obtain ⟨p, ready, inside, formed⟩ := soundBody
    intro isInit flow n run
    obtain ⟨kept, -⟩ := (Run.sequence_safe (Run.runs_safe fuel).2 _ ready inside formed).ok run
    obtain ⟨-, frame, at_, defined⟩ := callable.receiver isInit
    have grows := (m.store.grows_addScope _).trans kept.grows
    obtain ⟨scope, inChain, v, bound, -⟩ := (callable.chain.grow grows).found at_ defined
    exact ⟨v, by simp [Store.getAt, Store.ancestor, inChain, bound, Bind.bind, Except.bind]⟩
  | _ => exact trivial

/-- What is recorded is found. -/
theorem Answered.not_misses (answered : step.Answered) : ¬ step.Misses := by
  obtain ⟨fuel, task, m⟩ := step
  intro misses
  cases task with
  | expr e =>
    cases e with
    | var id name =>
      obtain ⟨d, cause, recorded, missing⟩ := misses
      obtain ⟨-, v, -, read⟩ := answered d recorded
      cases read.symm.trans missing
    | assign id name value =>
      obtain ⟨d, recorded, missing⟩ := misses
      obtain ⟨scope, found⟩ := answered.1 d recorded
      simp only [Store.ancestor, missing] at found
      cases found
    | this id keyword =>
      obtain ⟨d, cause, recorded, missing⟩ := misses
      obtain ⟨d', -, v, recorded', -, read⟩ := answered
      cases recorded.symm.trans recorded'
      cases read.symm.trans missing
    | super id keyword method =>
      obtain ⟨d, cause, recorded, missing⟩ := misses
      obtain ⟨inner, c, i, own, recorded', readSuper, readThis⟩ := answered
      cases recorded.symm.trans recorded'
      rcases missing with missing | ⟨inner', same, missing⟩
      · cases readSuper.symm.trans missing
      · cases same
        cases readThis.symm.trans missing
    | _ => exact misses
  | body line vs closure =>
    obtain ⟨isInit, flow, n, cause, run, missing⟩ := misses
    obtain ⟨v, read⟩ := answered isInit flow n run
    cases read.symm.trans missing
  | _ => exact misses

theorem Sound.fair (sound : step.Sound R) {h : Halt} (ends : step.halt? = some h) : h.Fair := by
  have fair {α : Type} {A : α → Machine → Prop} {x : Run α} {m : Machine} (safe : Safe R m A x)
      (ends : haltOf (x m) = some h) : h.Fair := by
    cases run : x m with
    | ok a n =>
      rw [run] at ends
      cases ends
    | error g n =>
      rw [run] at ends
      cases ends
      exact (safe.error run).2
  obtain ⟨fuel, task, m⟩ := step
  have evaluates := (Run.runs_safe (R := R) fuel).1
  have executes := (Run.runs_safe (R := R) fuel).2
  cases task with
  | expr e =>
    obtain ⟨p, ready, inside, formed⟩ := sound
    exact fair (evaluates e p m ready inside formed) ends
  | exprs es =>
    obtain ⟨p, ready, inside, formed⟩ := sound
    exact fair (Run.arguments_safe evaluates es ready inside formed) ends
  | stmt s =>
    obtain ⟨p, ready, inside, formed⟩ := sound
    exact fair (executes s p m ready inside formed) ends
  | stmts ss =>
    obtain ⟨p, ready, inside, formed⟩ := sound
    exact fair (Run.sequence_safe executes ss ready inside formed) ends
  | program ss =>
    obtain ⟨ready, inside, formed⟩ := sound
    exact fair (Run.interpret_safe fuel ss ready inside formed) ends
  | call line vs callee =>
    obtain ⟨sound, callable, values, fits⟩ := sound
    exact fair (Run.callValue_safe executes sound callable values fits) ends
  | body line vs closure =>
    obtain ⟨sound, ⟨q, callable⟩, values, fits⟩ := sound
    exact fair (Run.callClosure_safe executes sound callable values fits) ends

/-- Of the steps of a run, one raises the error at this expression by itself. -/
def RaisesAt (step : Step) (e : RuntimeError) (id : ExprId) : Prop :=
  ∃ part, step.Reaches part ∧ part.Raises e ∧ part.node? = some id

/-- Runs that are alike fail with the same error, but for its line. -/
theorem Blames.same (sound : step.Sound R) {c : Translation} {h h' : Halt}
    (blames : step.Blames c h h') :
    (h' = h ∧ ∀ e, h ≠ .runtime e) ∨ ∃ e id, step.RaisesAt e id ∧ c.known id ∧ h = .runtime e ∧
      h' = .runtime ⟨c.line id e.line, e.cause⟩ := by
  cases blames with
  | @runtime part e e' reaches raises told =>
    rcases told with missed | ⟨id, tells⟩
    · exact ((reaches.sound sound).answered.not_misses missed).elim
    · refine .inr ⟨e, id, ⟨part, reaches, raises, tells.node⟩, tells.known, rfl, ?_⟩
      rw [← tells.line, ← tells.cause]
  | sinkFull => exact .inl ⟨rfl, fun e differ => nomatch differ⟩
  | outOfFuel => exact .inl ⟨rfl, fun e differ => nomatch differ⟩

end Step

/-! ### Sessions -/

namespace Session

variable {s : Session} {source : String} {fuel : Nat}

/-- All that the session has given ids to goes over into itself. -/
def itself (s : Session) : Translation :=
  ⟨fun id => id < s.nextId, fun id => id, fun id => s.machine.distances[id]?, fun _ l => l, Eq,
    fun π => π = Renaming.same⟩

theorem itself_moves (s : Session) (id : ExprId) : s.itself.Moves .none id := ⟨rfl, fun _ => rfl⟩

theorem itself_movesPlain (s : Session) : s.itself.MovesPlain .none := ⟨fun _ => rfl, rfl⟩

/-- A sound machine is like itself, if what is known goes over into itself. -/
theorem Sound.like (sound : s.Sound) {c : Translation}
    (known : ∀ id, id < s.nextId → c.known id ∧ c.Moves .none id) (plain : c.MovesPlain .none)
    (recorded : ∀ id, c.known id → s.machine.distances[id]? = c.recorded id ∧
      s.machine.distances[c.ids id]? = c.recorded id) :
    s.machine.Like c (World.still s.machine.store.scopes.size) s.machine := by
  have global := sound.store.global
  have store := Store.Like.self (fun id d recorded => known id recorded.1) plain global sound.store
  refine ⟨store, rfl, ?_, ?_, recorded, rfl, rfl, rfl⟩
  · rw [sound.chain]
    exact List.cons_ne_nil 0 []
  · rw [sound.chain]
    intro scope among
    obtain rfl := List.mem_singleton.1 among
    rw [World.still, List.length_replicate]
    exact global

theorem Sound.like_self (sound : s.Sound) :
    s.machine.Like s.itself (World.still s.machine.store.scopes.size) s.machine :=
  sound.like (fun id given => ⟨given, s.itself_moves id⟩) s.itself_movesPlain
    fun _ _ => ⟨rfl, rfl⟩

/-- The run of the chunk comes to this step. -/
def Runs (s : Session) (fuel : Nat) (source : String) (step : Step) : Prop :=
  s.Accepts source ∧ (s.firstStep fuel source).Reaches step

theorem Sound.runs (sound : s.Sound) {step : Step} (runs : s.Runs fuel source step) :
    step.Sound (s.bound source).Recorded :=
  runs.2.sound (sound.firstStep runs.1 fuel)

/-- A run-time error ends the first step of a chunk that was accepted. -/
theorem firstStep_of_fault {e : RuntimeError}
    (told : Fault.runtime e ∈ (s.run fuel source).1.faults) :
    s.Accepts source ∧ (s.firstStep fuel source).halt? = some (.runtime e) := by
  rcases accepts_or_rejects s source with accepts | ⟨faults, after, rejects⟩
  · refine ⟨accepts, ?_⟩
    rw [run_accepted fuel accepts] at told
    cases ends : (s.firstStep fuel source).halt? with
    | none =>
      rw [ends] at told
      cases told
    | some h =>
      rw [ends] at told
      cases h with
      | runtime e' =>
        cases List.mem_singleton.1 told
        rfl
      | sinkFull => cases List.mem_singleton.1 told
      | outOfFuel => cases told
  · rw [run_rejected fuel rejects] at told
    cases rejects with
    | lex => simp [Report.faults] at told
    | parse => simp [Report.faults] at told
    | resolve => simp [Report.faults] at told

/-- An error about a name that is not defined comes of a use that no scope of the text holds. -/
theorem Sound.undefined_global (sound : s.Sound) {e : RuntimeError}
    (told : Fault.runtime e ∈ (s.run fuel source).1.faults) {name : String}
    (about : e.cause = .undefinedVariable name) :
    ∃ step, s.Runs fuel source step ∧ step.Raises e ∧ step.UsesGlobal name := by
  obtain ⟨accepts, ends⟩ := firstStep_of_fault told
  have all : AllSame ((World.still (s.bound source).machine.store.scopes.size).along
      (s.bound source).machine.chain) := World.along_still _ _
  have likeSelf := Stmt.LikeList.moved (s.bound source).itself_movesPlain all (s.program source)
    (program_formed s source) fun id _ => (s.bound source).itself_moves id
  rw [Stmt.movedList_none] at likeSelf
  rcases Run.interpret_alike fuel sound.bound.like_self likeSelf fun id among =>
    ((program_handed s source).bounds id among).2 with
    ⟨_, _, n, _, _, run, -, -, -, -⟩ | ⟨h, h', n, n', v, run, run', -, -, blames⟩
  · have fine : (s.firstStep fuel source).halt? = none := congrArg haltOf run
    cases fine.symm.trans ends
  · have failed : (s.firstStep fuel source).halt? = some h := congrArg haltOf run
    cases failed.symm.trans ends
    cases run.symm.trans run'
    cases blames with
    | runtime reaches raises told =>
      have runs : s.Runs fuel source _ := ⟨accepts, reaches⟩
      rcases told with missed | ⟨id, tells⟩
      · exact ((sound.runs runs).answered.not_misses missed).elim
      · exact ⟨_, runs, raises, tells.missing name about⟩

/-- A chunk with all the nodes that have a distance recorded. -/
def inheritedGreeting : String :=
  "class A { m() { return this; } }" ++
    "class B < A { m() { var r = super.m(); r = r; return r; } } B().m();"

end Session

end Lox
