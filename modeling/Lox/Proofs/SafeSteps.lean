import Lox.Proofs.ScopeSafety
import Lox.Proofs.Steps

/-!
Every step of a sound run is sound: whatever a run comes to evaluate, execute or call is well scoped
where it stands.
-/

namespace Lox

open Run

/-- What has to hold of a step for all it does to be well scoped. -/
def Step.Sound (R : ExprId → Option Nat → Prop) : Step → Prop
  | ⟨_, .expr e, m⟩ => ∃ p, m.Ready R p ∧ e.Scoped R p ∧ e.Formed Token.Spelled
  | ⟨_, .exprs es, m⟩ =>
      ∃ p, m.Ready R p ∧ Expr.ScopedList R p es ∧ Expr.FormedList Token.Spelled es
  | ⟨_, .stmt s, m⟩ => ∃ p, m.Ready R p ∧ s.Scoped R p ∧ s.Formed Token.Spelled
  | ⟨_, .stmts ss, m⟩ =>
      ∃ p, m.Ready R p ∧ Stmt.ScopedList R p ss ∧ Stmt.FormedList Token.Spelled ss
  | ⟨_, .program ss, m⟩ =>
      m.Ready R Place.outermost ∧ Stmt.ScopedList R Place.outermost ss ∧
        Stmt.FormedList Token.Spelled ss
  | ⟨_, .call _ vs callee, m⟩ =>
      m.Sound R ∧ callee.Sound R m.store ∧ (∀ v ∈ vs, v.Sound R m.store) ∧
        callee.arity? = some vs.length
  | ⟨_, .body _ vs closure, m⟩ =>
      m.Sound R ∧ (∃ q, closure.Sound R m.store q) ∧ (∀ v ∈ vs, v.Sound R m.store) ∧
        vs.length = closure.function.parameters.length

section

variable {R : ExprId → Option Nat → Prop} {m n : Machine} {p : Place} {fuel : Nat}

theorem evaluated {e : Expr} {v : Value} (ready : m.Ready R p) (inside : e.Scoped R p)
    (formed : e.Formed Token.Spelled) (run : evaluate fuel e m = .ok v n) :
    n.Ready R p ∧ v.Sound R n.store := by
  obtain ⟨kept, value⟩ := ((runs_safe fuel).1 e p m ready inside formed).ok run
  exact ⟨ready.kept kept, value⟩

theorem executed {s : Stmt} {flow : Flow} (ready : m.Ready R p) (inside : s.Scoped R p)
    (formed : s.Formed Token.Spelled) (run : execute fuel s m = .ok flow n) :
    n.Ready R p ∧ Ends R p (s.after p) flow n := by
  obtain ⟨kept, ends⟩ := ((runs_safe fuel).2 s p m ready inside formed).ok run
  exact ⟨ready.kept kept, ends⟩

/-- What an expression starts: its parts, in order, and at most one call. -/
theorem Step.Starts.sound_expr {e : Expr} {part : Step} (starts : Starts ⟨fuel, .expr e, m⟩ part)
    (sound : Step.Sound R ⟨fuel, .expr e, m⟩) : part.Sound R := by
  obtain ⟨p, ready, inside, formed⟩ := sound
  cases starts with
  | grouping => exact ⟨p, ready, inside, formed⟩
  | unary => exact ⟨p, ready, inside, formed.2.2⟩
  | binaryLeft | logicalLeft => exact ⟨p, ready, inside.1, formed.1⟩
  | binaryRight first => exact ⟨p, (evaluated ready inside.1 formed.1 first).1, inside.2, formed.2.2.2⟩
  | logicalRight first _ =>
    exact ⟨p, (evaluated ready inside.1 formed.1 first).1, inside.2, formed.2.2.2⟩
  | assigned => exact ⟨p, ready, inside.1, formed.2⟩
  | callee => exact ⟨p, ready, inside.1, formed.1⟩
  | arguments first _ => exact ⟨p, (evaluated ready inside.1 formed.1 first).1, inside.2, formed.2.2⟩
  | called first second fits _ =>
    obtain ⟨readyCallee, callable⟩ := evaluated ready inside.1 formed.1 first
    obtain ⟨kept, values⟩ :=
      (arguments_safe (runs_safe _).1 _ readyCallee inside.2 formed.2.2).ok second
    exact ⟨readyCallee.sound.kept kept, callable.grow kept.grows, values, fits⟩
  | getObject => exact ⟨p, ready, inside, formed.1⟩
  | setObject => exact ⟨p, ready, inside.1, formed.1⟩
  | setValue first => exact ⟨p, (evaluated ready inside.1 formed.1 first).1, inside.2, formed.2.2⟩
  | commaLeft => exact ⟨p, ready, inside.1, formed.1⟩
  | commaRight first => exact ⟨p, (evaluated ready inside.1 formed.1 first).1, inside.2, formed.2⟩
  | ternaryCondition => exact ⟨p, ready, inside.1, formed.1⟩
  | ternaryThen first _ =>
    exact ⟨p, (evaluated ready inside.1 formed.1 first).1, inside.2.1, formed.2.1⟩
  | ternaryElse first _ =>
    exact ⟨p, (evaluated ready inside.1 formed.1 first).1, inside.2.2, formed.2.2⟩

theorem Step.Starts.sound_stmt {s : Stmt} {part : Step} (starts : Starts ⟨fuel, .stmt s, m⟩ part)
    (sound : Step.Sound R ⟨fuel, .stmt s, m⟩) : part.Sound R := by
  obtain ⟨p, ready, inside, formed⟩ := sound
  cases starts with
  | expression | print => exact ⟨p, ready, inside, formed⟩
  | @varDecl _ name e =>
    exact ⟨p.hold name.lexeme false, ⟨ready.sound, ready.chain.declare name.lexeme,
      ready.proper.hold formed.1.ne_this formed.1.ne_super false⟩, inside.2, formed.2⟩
  | block =>
    refine ⟨p.enter Table.empty, ?_, inside, formed⟩
    simpa only [Step.opened, Store.lastScope_addScope] using ready.open
  | ifThenCondition | ifElseCondition | whileCondition => exact ⟨p, ready, inside.1, formed.1⟩
  | ifThen first _ => exact ⟨p, (evaluated ready inside.1 formed.1 first).1, inside.2, formed.2.1⟩
  | ifElseThen first _ =>
    exact ⟨p, (evaluated ready inside.1 formed.1 first).1, inside.2.1, formed.2.1.1⟩
  | @ifElseElse _ condition yes no _ _ _ first _ =>
    have insideNo := inside.2.2
    rw [yes.after_branch formed.2.1.1 formed.2.1.2 p] at insideNo
    exact ⟨p, (evaluated ready inside.1 formed.1 first).1, insideNo, formed.2.2.1⟩
  | whileBody first _ =>
    exact ⟨p, (evaluated ready inside.1 formed.1 first).1, inside.2, formed.2.1⟩
  | whileAgain first _ second =>
    have readyBody := (evaluated ready inside.1 formed.1 first).1
    exact ⟨p, (executed readyBody inside.2 formed.2.1 second).1, inside, formed⟩
  | returned => exact ⟨p, ready, inside.2, formed.2⟩
  | superclass =>
    obtain ⟨id, used, isName, usedName⟩ := formed.superclass
    refine ⟨p, ready, superclass_scoped isName inside.2.1.1 inside.2.1.2, ?_⟩
    rw [isName]
    exact usedName

/-- Every step that a sound step starts is sound. -/
theorem Step.Starts.sound {step part : Step} (starts : Starts step part) (sound : step.Sound R) :
    part.Sound R := by
  obtain ⟨fuel, task, m⟩ := step
  cases task with
  | expr e => exact starts.sound_expr sound
  | stmt s => exact starts.sound_stmt sound
  | exprs es =>
    obtain ⟨p, ready, inside, formed⟩ := sound
    cases starts with
    | firstExpr => exact ⟨p, ready, inside.1, formed.1⟩
    | restExprs first => exact ⟨p, (evaluated ready inside.1 formed.1 first).1, inside.2, formed.2⟩
  | stmts ss =>
    obtain ⟨p, ready, inside, formed⟩ := sound
    cases starts with
    | firstStmt => exact ⟨p, ready, inside.1, formed.1⟩
    | @restStmts _ s _ _ _ first =>
      obtain ⟨readyAfter, ends⟩ := executed ready inside.1 formed.1 first
      exact ⟨s.after p, ⟨readyAfter.sound, ends, s.after_proper formed.1 ready.proper⟩, inside.2,
        formed.2⟩
  | program ss =>
    obtain ⟨ready, inside, formed⟩ := sound
    cases starts with
    | firstOfProgram => exact ⟨Place.outermost, ready, inside.1, formed.1⟩
    | @restOfProgram _ s _ _ _ _ first =>
      have insideRest := inside.2
      rw [outermost_after s] at insideRest
      exact ⟨(executed ready inside.1 formed.1 first).1, insideRest, formed.2⟩
  | call line vs callee =>
    obtain ⟨sound, callable, values, fits⟩ := sound
    cases starts with
    | callBody => exact ⟨sound, callable, values, (Option.some.inj fits).symm⟩
    | initializer made found linked =>
      obtain ⟨kept, i, rfl, known⟩ := (newInstance_safe sound callable).ok made
      have soundMade := sound.kept kept
      obtain ⟨q, bindable⟩ := known.2.method found
      obtain ⟨kept', same, callable'⟩ := (bindMethod_safe soundMade bindable known).ok linked
      refine ⟨soundMade.kept kept', ⟨_, callable'⟩, fun v member => ?_, ?_⟩
      · exact (values v member).grow (kept.grows.trans kept'.grows)
      · rw [Value.arity?, found] at fits
        rw [same]
        exact (Option.some.inj fits).symm
  | body line vs closure =>
    obtain ⟨sound, ⟨q, callable⟩, values, fits⟩ := sound
    cases starts with
    | body =>
      obtain ⟨⟨name, parameters, body⟩, chain, isInitializer⟩ := closure
      refine ⟨q.enter (parameterFrame parameters), ?_, callable.body.2, callable.formed.2.2⟩
      simpa only [Step.entered, Store.lastScope_addScope] using sound.enter callable values fits

/-- Every step of a sound step is sound. -/
theorem Step.Reaches.sound {step part : Step} (reaches : step.Reaches part)
    (sound : step.Sound R) : part.Sound R := by
  induction reaches with
  | refl => exact sound
  | tail _ starts ih => exact starts.sound ih

end

end Lox
