import Lox.Proofs.LikeTrees
import Lox.Proofs.Steps

/-!
Where an error of a run comes from: the one step that raises it by itself, and the expression that
this step is about. Two runs of programs that are alike fail at steps that are alike.
-/

namespace Lox

namespace Step

/-- The expression that an error of the step is told for, by its id. -/
def node? : Step → Option ExprId
  | ⟨_, .expr e, _⟩ => some e.id
  | ⟨_, .stmt (.classDecl _ (some e) _), _⟩ => some e.id
  | _ => none

/-- A name that has a recorded distance, or that the language binds by itself, is not found. -/
def Misses : Step → Prop
  | ⟨_, .expr (.var id name), m⟩ =>
      ∃ d cause, m.distances[id]? = some d ∧ m.store.getAt m.chain d name.lexeme = .error cause
  | ⟨_, .expr (.this id keyword), m⟩ =>
      ∃ d cause, m.distances[id]? = some d ∧ m.store.getAt m.chain d keyword.lexeme = .error cause
  | ⟨_, .expr (.assign id _ _), m⟩ => ∃ d, m.distances[id]? = some d ∧ m.chain[d]? = none
  | ⟨_, .expr (.super id keyword _), m⟩ =>
      ∃ d cause, m.distances[id]? = some d ∧
        (m.store.getAt m.chain d keyword.lexeme = .error cause ∨
          ∃ inner, d = inner + 1 ∧ m.store.getAt m.chain inner "this" = .error cause)
  | ⟨fuel, .body _ vs closure, m⟩ =>
      closure.isInitializer = true ∧ ∃ flow n cause,
        Run.sequence (Run.execute fuel) closure.function.body (entered m closure vs) =
          .ok flow n ∧ n.store.getAt closure.chain 0 "this" = .error cause
  | _ => False

/-- The step uses the name, and no distance is recorded for the use. -/
def UsesGlobal (name : String) : Step → Prop
  | ⟨_, .expr (.var id used), m⟩ => used.lexeme = name ∧ m.distances[id]? = none
  | ⟨_, .expr (.this id used), m⟩ => used.lexeme = name ∧ m.distances[id]? = none
  | ⟨_, .expr (.assign id used _), m⟩ => used.lexeme = name ∧ m.distances[id]? = none
  | _ => False

/-- The two errors are one, but for the line: told for the same expression, of the same cause. -/
structure Tells (c : Translation) (step : Step) (id : ExprId) (e e' : RuntimeError) : Prop where
  node : step.node? = some id
  known : c.known id
  line : e'.line = c.line id e.line
  cause : e'.cause = e.cause
  missing : ∀ name, e.cause = .undefinedVariable name → step.UsesGlobal name

/-- How the ends of two runs that are alike agree, the first of them being a run of the step. -/
inductive Blames (c : Translation) (step : Step) : Halt → Halt → Prop
  | runtime {part : Step} {e e' : RuntimeError} (reaches : step.Reaches part)
      (raises : part.Raises e) (told : part.Misses ∨ ∃ id, part.Tells c id e e') :
      Blames c step (.runtime e) (.runtime e')
  | sinkFull : Blames c step .sinkFull .sinkFull
  | outOfFuel : Blames c step .outOfFuel .outOfFuel

/-- A step fails as one that it starts does. -/
theorem Blames.started {c : Translation} {step part : Step} {h h' : Halt}
    (starts : Starts step part) (blames : part.Blames c h h') : step.Blames c h h' := by
  cases blames with
  | runtime reaches raises told =>
    exact .runtime (Relation.ReflTransGen.head starts reaches) raises told
  | sinkFull => exact .sinkFull
  | outOfFuel => exact .outOfFuel

theorem Blames.here {c : Translation} {step : Step} {e e' : RuntimeError}
    (fails : step.halt? = some (.runtime e)) (itself : ∀ part, Starts step part → part.halt? = none)
    (told : step.Misses ∨ ∃ id, step.Tells c id e e') :
    step.Blames c (.runtime e) (.runtime e') :=
  .runtime Relation.ReflTransGen.refl ⟨fails, itself⟩ told

/-- If the step fails so, it is known where from. -/
def Accounts (c : Translation) (step : Step) (h h' : Halt) : Prop :=
  step.halt? = some h → step.Blames c h h'

theorem Accounts.started {c : Translation} {step part : Step} {h h' : Halt}
    (starts : Starts step part) (blames : part.Blames c h h') : step.Accounts c h h' :=
  fun _ => blames.started starts

end Step

end Lox
