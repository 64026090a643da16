import Mathlib
import Lox.Proofs.Effects
import Lox.Proofs.Unwinding

/-!
An expression or a statement that fails by itself has written nothing by itself: what it would write
it writes only once nothing can fail any more. The scopes and the instances are as its parts have
left them.
-/

namespace Lox

open Relation

/-- The expressions and statements of a tree. -/
def Task.isNode : Task → Bool
  | .expr _ | .stmt _ => true
  | _ => false

/-- The call was refused: there is nothing to call, or it takes another number of arguments. -/
def Halt.refusesCall : Halt → Bool
  | .runtime ⟨_, .notCallable⟩ | .runtime ⟨_, .wrongArity _ _⟩ => true
  | _ => false

/-- The innermost of the scopes in force is there. -/
def Machine.Current (m : Machine) : Prop :=
  ∃ scope outer, m.chain = scope :: outer ∧ scope < m.store.scopes.size

theorem Machine.Unwound.current {m n : Machine} (unwound : m.Unwound n) (current : m.Current) :
    n.Current := by
  obtain ⟨scope, outer, head, known⟩ := current
  exact ⟨scope, outer, unwound.chain.trans head, Nat.lt_of_lt_of_le known unwound.scopes⟩

namespace Step

variable {fuel : Nat} {m n : Machine} {step part root : Step} {d : Deed} {s : Store} {h : Halt}

/-- An expression or a statement fails with an error, though no expression and no statement in it
does, be it a part of it or in the body of a function that it calls. -/
structure FailsItself (step : Step) (h : Halt) : Prop where
  node : step.task.isNode = true
  fails : step.halt? = some h
  error : h ≠ .outOfFuel
  itself : ∀ part, TransGen Starts step part → part.task.isNode = true → part.halt? = none

/-! ### What fails in a list -/

theorem stmts_fail {ss : List Stmt} (fails : halt? ⟨fuel, .stmts ss, m⟩ = some h) :
    ∃ part, TransGen Starts ⟨fuel, .stmts ss, m⟩ part ∧ part.task.isNode = true ∧
      part.halt? = some h := by
  induction ss generalizing m with
  | nil => cases fails
  | cons s ss ih =>
    cases first : Run.execute fuel s m with
    | error h' n =>
      have fails : haltOf (Run.sequence (Run.execute fuel) (s :: ss) m) = some h := fails
      rw [Run.sequence, bind_of_error first] at fails
      refine ⟨⟨fuel, .stmt s, m⟩, .single .firstStmt, rfl, ?_⟩
      rw [halt?, first]
      exact fails
    | ok flow n =>
      have fails : haltOf (Run.sequence (Run.execute fuel) (s :: ss) m) = some h := fails
      rw [Run.sequence, bind_of_ok first] at fails
      cases flow with
      | returned v => cases fails
      | normal =>
        obtain ⟨part, inside, rest⟩ := ih fails
        exact ⟨part, .head (.restStmts first) inside, rest⟩

theorem exprs_fail {es : List Expr} (fails : halt? ⟨fuel, .exprs es, m⟩ = some h) :
    ∃ part, TransGen Starts ⟨fuel, .exprs es, m⟩ part ∧ part.task.isNode = true ∧
      part.halt? = some h := by
  induction es generalizing m with
  | nil => cases fails
  | cons e es ih =>
    cases first : Run.evaluate fuel e m with
    | error h' n =>
      have fails : haltOf (Run.arguments (Run.evaluate fuel) (e :: es) m) = some h := fails
      rw [Run.arguments, bind_of_error first] at fails
      refine ⟨⟨fuel, .expr e, m⟩, .single .firstExpr, rfl, ?_⟩
      rw [halt?, first]
      exact fails
    | ok v n =>
      have fails : haltOf (Run.arguments (Run.evaluate fuel) (e :: es) m) = some h := fails
      rw [Run.arguments, bind_of_ok first] at fails
      cases rest : Run.arguments (Run.evaluate fuel) es n with
      | ok vs o =>
        rw [bind_of_ok rest] at fails
        cases fails
      | error h' o =>
        rw [bind_of_error rest] at fails
        obtain ⟨part, inside, found⟩ := ih (m := n) (by rw [halt?, rest]; exact fails)
        exact ⟨part, .head (.restExprs first) inside, found⟩

theorem inChain_halts {α : Type} (chain : Chain) (x : Run α) (m : Machine) :
    haltOf (Run.inChain chain x m) = haltOf (x { m with chain := chain }) := by
  cases run : x { m with chain := chain } with
  | ok a n =>
    rw [Run.inChain_ok run]
    rfl
  | error h n =>
    rw [Run.inChain_error run]
    rfl

theorem block_halts {body : List Stmt} :
    halt? ⟨fuel + 1, .stmt (.block body), m⟩ = halt? ⟨fuel, .stmts body, opened m⟩ :=
  inChain_halts (opened m).chain (Run.sequence (Run.execute fuel) body)
    { m with store := m.store.addScope Table.empty }

/-! ### What a node writes it writes last -/

/-- A node that writes to the store by itself succeeds, unless it is a block. -/
theorem Effect.succeeds (effect : Effect step d s) (node : step.task.isNode = true)
    (current : step.machine.Current) :
    step.halt? = none ∨ ∃ fuel body m, step = ⟨fuel + 1, .stmt (.block body), m⟩ := by
  have done {α : Type} {x : Run α} {a : α} {m n : Machine} (run : x m = .ok a n) :
      haltOf (x m) = none := by
    rw [run]
    rfl
  have declared {step n name superclass methods} (declares : Declares step n name superclass methods)
      (current : step.machine.Current) : step.halt? = none := by
    cases declares with
    | base =>
      obtain ⟨scope, outer, head, known⟩ := current
      exact done (bind_of_ok (Run.declareClass_ok head known _ _ _))
    | @derived fuel m n name e methods c first =>
      obtain ⟨scope, outer, head, known⟩ := (Run.evaluate_ok_unwound first).current current
      have isClass : Run.asSuperclass name e (.class_ c) n = .ok c n := rfl
      exact done ((bind_of_ok first).trans ((bind_of_ok isClass).trans
        (bind_of_ok (Run.declareClass_ok head known _ _ _))))
  cases effect with
  | assign first found =>
    exact .inl (done ((bind_of_ok first).trans (bind_of_ok (bind_of_ok (Run.ask_ok found)))))
  | @get fuel id object name m i c n method first field found =>
    have noField : Run.observe (fun m => (m.store.fields i).get? name.lexeme) n = .ok none n := by
      rw [Run.observe, field]
    left
    rw [halt?, Run.evaluate, bind_of_ok first]
    dsimp only
    rw [Run.property, bind_of_ok noField, found]
    rfl
  | set first second => exact .inl (done ((bind_of_ok first).trans (bind_of_ok second)))
  | @super fuel id keyword method m inner c i own found recorded parent receiver inherited =>
    have distance : Run.observe (fun m => m.distances[id]?) m = .ok (some (inner + 1)) m := by
      rw [Run.observe, recorded]
    left
    rw [halt?, Run.evaluate, Run.superMethod, bind_of_ok distance]
    dsimp only
    rw [bind_of_ok (Run.ask_ok parent)]
    dsimp only
    rw [bind_of_ok (Run.ask_ok receiver), inherited]
    rfl
  | block => exact .inr ⟨_, _, _, rfl⟩
  | undefined | function => exact .inl rfl
  | define first => exact .inl (done (bind_of_ok first))
  | className declares | parent declares | class_ declares => exact .inl (declared declares current)
  | allocate | initializer | body => cases node

theorem FailsItself.only_parts (own : step.FailsItself h) (current : step.machine.Current)
    (does : d ∈ step.deeds) : ∃ part, d = .part part := by
  cases d with
  | part part => exact ⟨part, rfl⟩
  | _ =>
    obtain ⟨before, after, split⟩ := List.append_of_mem does
    have whole := step.passes
    rw [split, Passes.append] at whole
    obtain ⟨u, passes, -⟩ := whole
    have effect := Does.effect ⟨before, after, split, passes⟩ rfl
    rcases effect.succeeds own.node current with succeeds | ⟨fuel, body, m, rfl⟩
    · cases succeeds.symm.trans own.fails
    · obtain ⟨part, inside, isNode, failed⟩ := stmts_fail (m := opened m) (block_halts.symm.trans own.fails)
      cases failed.symm.trans (own.itself part (.head .block inside) isNode)

theorem FailsItself.deeds_parts (own : step.FailsItself h) (current : step.machine.Current) :
    ∃ parts : List Step, step.deeds = parts.map .part := by
  have only : step.deeds ∈ {ds | ∀ d ∈ ds, d ∈ Set.range Deed.part} := by
    intro d does
    obtain ⟨part, rfl⟩ := own.only_parts current does
    exact ⟨part, rfl⟩
  rw [← Set.range_list_map] at only
  obtain ⟨parts, same⟩ := only
  exact ⟨parts, same.symm⟩

/-! ### Calls that fail by themselves -/

theorem finish_last (before : List Deed) (last : step.deeds = before ++ [.part part]) :
    step.finish.store = part.finish.store := by
  have passes := step.passes
  rw [last, Passes.append] at passes
  obtain ⟨_, -, -, same⟩ := passes
  exact same.symm

theorem getAt_refuses {chain : Chain} {distance line : Nat} {name : String} {cause : RuntimeCause}
    (missing : s.getAt chain distance name = .error cause) :
    (Halt.runtime ⟨line, cause⟩).refusesCall = false := by
  unfold Store.getAt Store.ancestor at missing
  cases found : chain[distance]? with
  | none =>
    rw [found] at missing
    cases missing
    rfl
  | some scope =>
    rw [found] at missing
    cases bound : (s.bindings scope).get? name with
    | some v =>
      dsimp only [bind, Except.bind] at missing
      rw [bound] at missing
      cases missing
    | none =>
      dsimp only [bind, Except.bind] at missing
      rw [bound] at missing
      cases missing
      rfl

/-- If its body does not fail, a function fails only if it is an initializer whose receiver is not
where it looks for it. -/
theorem body_fails {line : Nat} {vs : List Value} {closure : Closure}
    (fails : halt? ⟨fuel, .body line vs closure, m⟩ = some h)
    (ends : halt? ⟨fuel, .stmts closure.function.body, entered m closure vs⟩ = none) :
    h.refusesCall = false := by
  cases ended : Run.sequence (Run.execute fuel) closure.function.body (entered m closure vs) with
  | error h' n =>
    rw [halt?, ended] at ends
    cases ends
  | ok flow n =>
    have run : Run.callClosure (Run.execute fuel) line closure vs m =
        (if closure.isInitializer then Run.ask line fun m => m.store.getAt closure.chain 0 "this"
          else pure flow.value : Run Value) { n with chain := m.chain } :=
      (bind_of_ok (show Run.newScope _ m = .ok _ _ from rfl)).trans (bind_of_ok (Run.inChain_ok ended))
    rw [halt?, run] at fails
    split at fails
    · cases receiver : n.store.getAt closure.chain 0 "this" with
      | ok v =>
        rw [Run.ask_ok receiver] at fails
        cases fails
      | error cause =>
        rw [Run.ask_error receiver] at fails
        cases fails
        exact getAt_refuses receiver
    · cases fails

/-- The statements of a body that the step comes to have ended, and the step has written nothing
since. -/
def EndsBody (step : Step) : Prop :=
  ∃ body ss, step.Reaches body ∧ body.task = .stmts ss ∧ body.halt? = none ∧
    step.finish.store = body.finish.store

theorem closure_fails {line : Nat} {vs : List Value} {closure : Closure}
    (fails : halt? ⟨fuel, .body line vs closure, m⟩ = some h)
    (itself : ∀ part, TransGen Starts ⟨fuel, .body line vs closure, m⟩ part →
      part.task.isNode = true → part.halt? = none) :
    h.refusesCall = false ∧ EndsBody ⟨fuel, .body line vs closure, m⟩ := by
  cases ends : halt? ⟨fuel, .stmts closure.function.body, entered m closure vs⟩ with
  | none =>
    refine ⟨body_fails fails ends, _, _, .single .body, rfl, ends, ?_⟩
    exact finish_last [_] rfl
  | some h' =>
    obtain ⟨part, inside, isNode, failed⟩ := stmts_fail ends
    cases failed.symm.trans (itself part (.head .body inside) isNode)

theorem call_fails {line arity : Nat} {vs : List Value} {callee : Value}
    (fails : halt? ⟨fuel, .call line vs callee, m⟩ = some h) (inside : callee.isNative = false)
    (callable : callee.arity? = some arity)
    (itself : ∀ part, TransGen Starts ⟨fuel, .call line vs callee, m⟩ part →
      part.task.isNode = true → part.halt? = none) :
    h.refusesCall = false ∧ EndsBody ⟨fuel, .call line vs callee, m⟩ := by
  cases callee with
  | function i closure =>
    have starts : Starts ⟨fuel, .call line vs (.function i closure), m⟩ ⟨fuel, .body line vs closure, m⟩ :=
      .callBody
    obtain ⟨refuses, body, ss, reaches, rest⟩ :=
      closure_fails fails fun part toPart => itself part (.head starts toPart)
    exact ⟨refuses, body, ss, .head starts reaches, rest⟩
  | class_ c =>
    obtain ⟨object, n, made⟩ : ∃ object n, Run.newInstance c m = .ok object n := ⟨_, _, rfl⟩
    have fails : haltOf (Run.callValue (Run.execute fuel) line vs (.class_ c) m) = some h := fails
    rw [Run.callValue, Run.construct, bind_of_ok made] at fails
    cases found : c.method? initializerName with
    | none =>
      rw [found] at fails
      cases fails
    | some method =>
      obtain ⟨bound, o, linked⟩ : ∃ bound o, Run.bindMethod method object n = .ok bound o :=
        ⟨_, _, rfl⟩
      have starts : Starts ⟨fuel, .call line vs (.class_ c), m⟩ ⟨fuel, .body line vs bound, o⟩ :=
        .initializer made found linked
      rw [found] at fails
      dsimp only at fails
      rw [bind_of_ok linked] at fails
      have failed : halt? ⟨fuel, .body line vs bound, o⟩ = some h := by
        cases run : Run.callClosure (Run.execute fuel) line bound vs o with
        | ok v k =>
          rw [bind_of_ok run] at fails
          cases fails
        | error h' k =>
          rw [bind_of_error run] at fails
          rwa [halt?, run]
      obtain ⟨refuses, body, ss, reaches, list, ends, last⟩ :=
        closure_fails failed fun part toPart => itself part (.head starts toPart)
      refine ⟨refuses, body, ss, .head starts reaches, list, ends, Eq.trans ?_ last⟩
      refine finish_last [.allocate, .openScope (Table.empty.insert "this" object)] ?_
      simp only [deeds, callDeeds, made, onOk, found, linked]
      rfl
  | native => cases inside
  | _ => cases callable

theorem called_eq {id : ExprId} {callee : Expr} {paren : Token} {args : List Expr} {f : Value}
    {vs : List Value} {o : Machine} (first : Run.evaluate fuel callee m = .ok f n)
    (second : Run.arguments (Run.evaluate fuel) args n = .ok vs o)
    (fits : f.arity? = some vs.length) :
    Run.evaluate (fuel + 1) (.call id callee paren args) m =
      Run.callValue (Run.execute fuel) paren.line vs f o := by
  rw [Run.evaluate, bind_of_ok first, fits]
  dsimp only
  rw [bind_of_ok second, if_neg (not_not_intro rfl)]

namespace FailsItself

theorem part_ends (own : step.FailsItself h) (starts : Starts step part)
    (other : part.task.isCall = false) : part.halt? = none := by
  cases ends : part.halt? with
  | none => rfl
  | some h' =>
    obtain ⟨fuel, task, m⟩ := part
    cases task with
    | expr | stmt => exact ends.symm.trans (own.itself _ (.single starts) rfl)
    | exprs es =>
      obtain ⟨part, inside, isNode, failed⟩ := exprs_fail ends
      cases failed.symm.trans (own.itself part (.head starts inside) isNode)
    | stmts ss =>
      obtain ⟨part, inside, isNode, failed⟩ := stmts_fail ends
      cases failed.symm.trans (own.itself part (.head starts inside) isNode)
    | call | body => cases other
    | program =>
      have node := own.node
      cases starts
      all_goals cases node

theorem call_ends (own : step.FailsItself h) (starts : Starts step part)
    (isCall : part.task.isCall = true) : h.refusesCall = false ∧ step.EndsBody := by
  obtain ⟨fuel, task, m⟩ := part
  cases task with
  | call line vs callee =>
    have starts' := starts
    cases starts with
    | @called fuel id callee paren args m f n vs o first second fits inside =>
      have same : Run.evaluate (fuel + 1) (.call id callee paren args) m = _ :=
        called_eq first second fits
      have failed := own.fails
      rw [halt?, same] at failed
      obtain ⟨refuses, body, ss, reaches, list, ends, last⟩ :=
        call_fails failed inside fits fun part toPart => own.itself part (.head starts' toPart)
      refine ⟨refuses, body, ss, .head starts' reaches, list, ends, Eq.trans ?_ last⟩
      rw [finish, same, finish]
  | body =>
    have node := own.node
    cases starts
    all_goals cases node
  | _ => cases isCall

end FailsItself

/-! ### Where the scopes in force are there -/

theorem Starts.current (starts : Starts step part) (current : step.machine.Current) :
    part.machine.Current := by
  have opened (m : Machine) (bindings : Table Value) (outer : Chain) : Machine.Current
      { m with store := m.store.addScope bindings,
               chain := (m.store.addScope bindings).lastScope :: outer } := by
    refine ⟨_, _, rfl, ?_⟩
    rw [Store.lastScope_addScope, Store.size_addScope]
    exact Nat.lt_succ_self _
  cases starts with
  | body | block => exact opened _ _ _
  | initializer made _ linked =>
    cases made
    cases linked
    obtain ⟨scope, outer, head, known⟩ := current
    refine ⟨scope, outer, head, ?_⟩
    exact known.trans (by rw [Store.size_addScope]; exact Nat.lt_succ_self _)
  | called first second =>
    exact (Run.arguments_ok_unwound second).current ((Run.evaluate_ok_unwound first).current current)
  | whileAgain first _ second =>
    exact (Run.execute_ok_unwound second).current ((Run.evaluate_ok_unwound first).current current)
  | binaryRight first | logicalRight first | arguments first | setValue first | commaRight first
  | ternaryThen first | ternaryElse first | restExprs first | ifThen first | ifElseThen first
  | ifElseElse first | whileBody first => exact (Run.evaluate_ok_unwound first).current current
  | restStmts first | restOfProgram first => exact (Run.execute_ok_unwound first).current current
  | _ => exact current

theorem Reaches.current (reaches : root.Reaches step) (current : root.machine.Current) :
    step.machine.Current := by
  induction reaches with
  | refl => exact current
  | tail _ starts ih => exact starts.current ih

/-- A class is to take the name of a native, and that native for its superclass. -/
def classOverNative : Step :=
  let clock : Token := ⟨.identifier, "clock", 1⟩
  ⟨2, .stmt (.classDecl clock (some (.var 0 clock)) []), Machine.initial .unlimited 0⟩

end Step

/-- The scope is there whenever the program of a chunk is run. -/
theorem Session.Reachable.current {s : Session} (reachable : s.Reachable) (fuel : Nat)
    (source : String) : (s.firstStep fuel source).machine.Current := by
  change (s.bound source).machine.Current
  rw [bound_machine]
  exact ⟨0, [], reachable.sound.chain, reachable.sound.store.global⟩

end Lox
