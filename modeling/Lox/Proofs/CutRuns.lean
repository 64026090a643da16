import Mathlib
import Lox.Proofs.FullSinks
import Lox.Proofs.Steps

/-!
Every run is cut where its sink overflows. The text that does not fit is printed by one of the steps
of the run on an unlimited sink, and what the limited run evaluates and executes is what that one
does up to there.
-/

namespace Lox

open Run

variable {limit fuel : Nat}

namespace Step

/-- One of the steps of this one prints the text, with the machine in this state. -/
def Prints (step : Step) (n : Machine) (text : String) : Prop :=
  ∃ fuel e m v, step.Reaches ⟨fuel + 1, .stmt (.print e), m⟩ ∧ evaluate fuel e m = .ok v n ∧
    text = v.text ++ "\n"

theorem Prints.of_part {step part : Step} {n : Machine} {text : String} (starts : Starts step part) :
    part.Prints n text → step.Prints n text := by
  rintro ⟨fuel, e, m, v, reaches, evaluated, written⟩
  exact ⟨fuel, e, m, v, .head starts reaches, evaluated, written⟩

end Step

theorem Run.Cut.part {α : Type} {x : Run α} {m : Machine} {step part : Step}
    (cut : Cut limit part.Prints x m) (starts : step.Starts part) : Cut limit step.Prints x m :=
  cut.of_prints fun _ _ => .of_part starts

namespace Run

section Parts

variable
  (evaluates : ∀ e m, m.sink.room = none → Cut limit (Step.Prints ⟨fuel, .expr e, m⟩) (evaluate fuel e) m)
  (executes : ∀ s m, m.sink.room = none → Cut limit (Step.Prints ⟨fuel, .stmt s, m⟩) (execute fuel s) m)

include evaluates in
theorem arguments_cut (es : List Expr) (m : Machine) (unlimited : m.sink.room = none) :
    Cut limit (Step.Prints ⟨fuel, .exprs es, m⟩) (arguments (evaluate fuel) es) m := by
  induction es generalizing m with
  | nil => exact .of_blind (.pure _) unlimited
  | cons e es ih =>
    apply ((evaluates e m unlimited).part .firstExpr).bind
    intro v n first room
    exact ((ih n room).part (.restExprs first)).bind fun _ _ _ room => .of_blind (.pure _) room

include executes

theorem sequence_cut (ss : List Stmt) (m : Machine) (unlimited : m.sink.room = none) :
    Cut limit (Step.Prints ⟨fuel, .stmts ss, m⟩) (sequence (execute fuel) ss) m := by
  induction ss generalizing m with
  | nil => exact .of_blind (.pure _) unlimited
  | cons s ss ih =>
    apply ((executes s m unlimited).part .firstStmt).bind
    intro flow n first room
    cases flow with
    | normal => exact (ih n room).part (.restStmts first)
    | returned v => exact .of_blind (.pure _) room

theorem callClosure_cut (line : Nat) (closure : Closure) (vs : List Value) (m : Machine)
    (unlimited : m.sink.room = none) :
    Cut limit (Step.Prints ⟨fuel, .body line vs closure, m⟩)
      (callClosure (execute fuel) line closure vs) m := by
  apply Cut.bind (.of_blind (blind_modular.newScope _) unlimited)
  intro scope n made room
  cases made
  apply Cut.bind
  · apply Cut.inChain
    exact (sequence_cut executes closure.function.body (Step.entered m closure vs) room).part .body
  · intro flow n _ room
    split
    · exact .of_blind (blind_modular.ask fun _ _ => rfl) room
    · exact .of_blind (.pure _) room

theorem callValue_cut (line : Nat) (vs : List Value) (callee : Value) (m : Machine)
    (unlimited : m.sink.room = none) :
    Cut limit (Step.Prints ⟨fuel, .call line vs callee, m⟩)
      (callValue (execute fuel) line vs callee) m := by
  cases callee with
  | function _ closure => exact (callClosure_cut executes line closure vs m unlimited).part .callBody
  | native _ native => exact .of_blind (blind_modular.callNative native line vs) unlimited
  | class_ c =>
    apply Cut.bind (.of_blind (newInstance_blind c) unlimited)
    intro object n made room
    cases found : c.method? initializerName with
    | none => exact .of_blind (.pure _) room
    | some method =>
      apply Cut.bind (.of_blind (blind_modular.bindMethod method object) room)
      intro bound o linked room
      apply Cut.bind
      · exact (callClosure_cut executes line bound vs o room).part (.initializer made found linked)
      · exact fun _ _ _ room => .of_blind (.pure _) room
  | _ => exact .of_blind (.raise _ _) unlimited

include evaluates

theorem evaluate_cut (e : Expr) (m : Machine) (unlimited : m.sink.room = none) :
    Cut limit (Step.Prints ⟨fuel + 1, .expr e, m⟩) (evaluate (fuel + 1) e) m := by
  cases e with
  | literal _ v => exact .of_blind (.pure _) unlimited
  | grouping _ inner => exact (evaluates inner m unlimited).part .grouping
  | unary _ operator operand =>
    apply ((evaluates operand m unlimited).part .unary).bind
    exact fun v n _ room => .of_blind (blind_modular.unary operator v) room
  | binary _ left operator right =>
    apply ((evaluates left m unlimited).part .binaryLeft).bind
    intro a n first room
    apply ((evaluates right n room).part (.binaryRight first)).bind
    exact fun b o _ room => .of_blind (blind_modular.binary operator a b) room
  | logical _ left operator right =>
    rw [evaluate]
    apply ((evaluates left m unlimited).part .logicalLeft).bind
    intro a n first room
    cases stops : stopsAt operator a with
    | true => exact .of_blind (.pure _) room
    | false => exact (evaluates right n room).part (.logicalRight first stops)
  | assign id name value =>
    apply ((evaluates value m unlimited).part .assigned).bind
    intro v n _ room
    exact .of_blind ((blind_modular.assign id name v).bind fun _ => .pure _) room
  | var id name => exact .of_blind (blind_modular.lookUp id name) unlimited
  | call _ callee paren args =>
    rw [evaluate]
    apply ((evaluates callee m unlimited).part .callee).bind
    intro f n first room
    cases callable : f.arity? with
    | none => exact .of_blind (.raise _ _) room
    | some arity =>
      apply ((arguments_cut evaluates args n room).part (.arguments first callable)).bind
      intro vs o second room
      split
      · exact .of_blind (.raise _ _) room
      · rename_i same
        have fits : f.arity? = some vs.length := by rw [callable, not_not.1 same]
        cases host : f.isNative with
        | true =>
          obtain ⟨n, native, rfl⟩ : ∃ n native, f = .native n native := by
            cases f with
            | native n native => exact ⟨n, native, rfl⟩
            | _ => cases host
          exact .of_blind (blind_modular.callNative native paren.line vs) room
        | false =>
          exact (callValue_cut executes paren.line vs f o room).part
            (.called first second fits host)
  | get _ object name =>
    rw [evaluate]
    apply ((evaluates object m unlimited).part .getObject).bind
    intro v n _ room
    cases v with
    | object i c => exact .of_blind (blind_modular.property i c name) room
    | _ => exact .of_blind (.raise _ _) room
  | set _ object name value =>
    rw [evaluate]
    apply ((evaluates object m unlimited).part .setObject).bind
    intro v n first room
    cases v with
    | object i c =>
      apply ((evaluates value n room).part (.setValue first)).bind
      intro w o _ room
      exact .of_blind ((setField_blind i name.lexeme w).bind fun _ => .pure _) room
    | _ => exact .of_blind (.raise _ _) room
  | this id keyword => exact .of_blind (blind_modular.lookUp id keyword) unlimited
  | super id keyword method => exact .of_blind (blind_modular.superMethod id keyword method) unlimited
  | comma _ left right =>
    apply ((evaluates left m unlimited).part .commaLeft).bind
    exact fun a n first room => (evaluates right n room).part (.commaRight first)
  | ternary _ condition yes no =>
    rw [evaluate]
    apply ((evaluates condition m unlimited).part .ternaryCondition).bind
    intro v n first room
    cases holds : v.isTruthy with
    | true => exact (evaluates yes n room).part (.ternaryThen first holds)
    | false => exact (evaluates no n room).part (.ternaryElse first holds)

theorem execute_cut (s : Stmt) (m : Machine) (unlimited : m.sink.room = none) :
    Cut limit (Step.Prints ⟨fuel + 1, .stmt s, m⟩) (execute (fuel + 1) s) m := by
  match s with
  | .expression e =>
    apply ((evaluates e m unlimited).part .expression).bind
    exact fun _ _ _ room => .of_blind (.pure _) room
  | .print e =>
    apply ((evaluates e m unlimited).part .print).bind
    intro v n evaluated room
    apply (Cut.printLine room ⟨fuel, e, m, v, .refl, evaluated, rfl⟩).bind
    exact fun _ _ _ room => .of_blind (.pure _) room
  | .varDecl name none => exact .of_blind ((blind_modular.define _ _).bind fun _ => .pure _) unlimited
  | .varDecl name (some e) =>
    apply ((evaluates e m unlimited).part .varDecl).bind
    intro v n _ room
    exact .of_blind ((blind_modular.define name.lexeme v).bind fun _ => .pure _) room
  | .block body =>
    apply Cut.bind (.of_blind (.observe fun _ _ => rfl) unlimited)
    intro chain n seen room
    cases seen
    apply Cut.bind (.of_blind (blind_modular.newScope _) room)
    intro scope n made room
    cases made
    apply Cut.inChain
    exact (sequence_cut executes body (Step.opened m) room).part .block
  | .ifThen condition yes =>
    rw [execute]
    apply ((evaluates condition m unlimited).part .ifThenCondition).bind
    intro v n first room
    cases holds : v.isTruthy with
    | true => exact (executes yes n room).part (.ifThen first holds)
    | false => exact .of_blind (.pure _) room
  | .ifElse condition yes no =>
    rw [execute]
    apply ((evaluates condition m unlimited).part .ifElseCondition).bind
    intro v n first room
    cases holds : v.isTruthy with
    | true => exact (executes yes n room).part (.ifElseThen first holds)
    | false => exact (executes no n room).part (.ifElseElse first holds)
  | .whileLoop condition body =>
    rw [execute]
    apply ((evaluates condition m unlimited).part .whileCondition).bind
    intro v n first room
    cases holds : v.isTruthy with
    | false => exact .of_blind (.pure _) room
    | true =>
      apply ((executes body n room).part (.whileBody first holds)).bind
      intro flow o second room
      cases flow with
      | normal =>
        exact (executes (.whileLoop condition body) o room).part (.whileAgain first holds second)
      | returned r => exact .of_blind (.pure _) room
  | .funDecl f =>
    apply Cut.of_blind _ unlimited
    apply (Blind.observe fun _ _ => rfl).bind
    intro chain
    apply (blind_modular.functionValue _).bind
    intro v
    exact (blind_modular.define _ _).bind fun _ => .pure _
  | .returnStmt _ none => exact .of_blind (.pure _) unlimited
  | .returnStmt _ (some e) =>
    apply ((evaluates e m unlimited).part .returned).bind
    exact fun _ _ _ room => .of_blind (.pure _) room
  | .classDecl name none methods =>
    exact .of_blind ((blind_modular.declareClass name none methods).bind fun _ => .pure _) unlimited
  | .classDecl name (some superclass) methods =>
    apply ((evaluates superclass m unlimited).part .superclass).bind
    intro v n _ room
    apply Cut.of_blind _ room
    apply (blind_modular.asSuperclass name superclass v).bind
    intro c
    exact (blind_modular.declareClass name (some c) methods).bind fun _ => .pure _

end Parts

/-- By induction on the fuel, expressions and statements together. -/
theorem runs_cut (limit fuel : Nat) :
    (∀ e m, m.sink.room = none →
      Cut limit (Step.Prints ⟨fuel, .expr e, m⟩) (evaluate fuel e) m) ∧
    ∀ s m, m.sink.room = none →
      Cut limit (Step.Prints ⟨fuel, .stmt s, m⟩) (execute fuel s) m := by
  induction fuel with
  | zero =>
    constructor
    · intro e m unlimited
      rw [evaluate]
      exact .of_blind .outOfFuel unlimited
    · intro s m unlimited
      rw [execute]
      exact .of_blind .outOfFuel unlimited
  | succ fuel ih =>
    constructor
    · exact evaluate_cut ih.1 ih.2
    · exact execute_cut ih.1 ih.2

theorem interpret_cut (limit : Nat) (program : List Stmt) (m : Machine) (unlimited : m.sink.room = none) :
    Cut limit (Step.Prints ⟨fuel, .program program, m⟩) (interpret fuel program) m := by
  induction program generalizing m with
  | nil => exact .of_blind (.pure _) unlimited
  | cons s ss ih =>
    apply (((runs_cut limit fuel).2 s m unlimited).part .firstOfProgram).bind
    exact fun flow n first room => (ih n room).part (.restOfProgram first)

end Run

/-! ### The steps of a limited run -/

namespace Step

/-- The same task on a machine with room for so many bytes in all. -/
def within (step : Step) (limit : Nat) : Step := { step with machine := step.machine.within limit }

/-- How much has been written when the step begins. -/
def written (step : Step) : Nat := step.machine.sink.bytes.size

section

variable {m n : Machine} {e : Expr} {s : Stmt} {v : Value} {flow : Flow} {step part : Step}

/-- What a task starts without a limit begins with more written, and is started under the limit as
well if that much fits. -/
theorem Starts.within (limit : Nat) (starts : step.Starts part) (unlimited : step.machine.sink.room = none) :
    part.machine.sink.room = none ∧ step.written ≤ part.written ∧
      (part.written ≤ limit → (step.within limit).Starts (part.within limit)) := by
  have evaluated {fuel e m v n} (unlimited : m.sink.room = none) (run : evaluate fuel e m = .ok v n) :=
    ((runs_cut limit fuel).1 e m unlimited).ok run
  have executed {fuel s m flow n} (unlimited : m.sink.room = none)
      (run : execute fuel s m = .ok flow n) :=
    ((runs_cut limit fuel).2 s m unlimited).ok run
  have value {k l k' e t u m v n} (unlimited : m.sink.room = none) (run : evaluate k e m = .ok v n)
      (starts : evaluate k e (m.within limit) = .ok v (n.within limit) →
        Starts ⟨l, t, m.within limit⟩ ⟨k', u, n.within limit⟩) :
      n.sink.room = none ∧ written ⟨l, t, m⟩ ≤ written ⟨k', u, n⟩ ∧ (written ⟨k', u, n⟩ ≤ limit →
        (Step.within ⟨l, t, m⟩ limit).Starts (Step.within ⟨k', u, n⟩ limit)) := by
    obtain ⟨room, more, same⟩ := evaluated unlimited run
    exact ⟨room, more, fun fits => starts (same fits)⟩
  cases starts with
  | grouping | unary | binaryLeft | logicalLeft | assigned | callee | getObject | setObject |
    commaLeft | ternaryCondition | firstExpr | callBody | expression | print | varDecl |
    ifThenCondition | ifElseCondition | whileCondition | returned | superclass | firstStmt |
    firstOfProgram => exact ⟨unlimited, le_rfl, fun _ => by constructor⟩
  | body => exact ⟨unlimited, le_rfl, fun _ => .body⟩
  | block => exact ⟨unlimited, le_rfl, fun _ => .block⟩
  | initializer made found linked =>
    cases made
    cases linked
    exact ⟨unlimited, le_rfl, fun _ => .initializer rfl found rfl⟩
  | binaryRight first => exact value unlimited first .binaryRight
  | logicalRight first goesOn => exact value unlimited first (.logicalRight · goesOn)
  | arguments first callable => exact value unlimited first (.arguments · callable)
  | setValue first => exact value unlimited first .setValue
  | commaRight first => exact value unlimited first .commaRight
  | ternaryThen first holds => exact value unlimited first (.ternaryThen · holds)
  | ternaryElse first fails => exact value unlimited first (.ternaryElse · fails)
  | restExprs first => exact value unlimited first .restExprs
  | ifThen first holds => exact value unlimited first (.ifThen · holds)
  | ifElseThen first holds => exact value unlimited first (.ifElseThen · holds)
  | ifElseElse first fails => exact value unlimited first (.ifElseElse · fails)
  | whileBody first holds => exact value unlimited first (.whileBody · holds)
  | restStmts first =>
    obtain ⟨room, more, same⟩ := executed unlimited first
    exact ⟨room, more, fun fits => .restStmts (same fits)⟩
  | restOfProgram first =>
    obtain ⟨room, more, same⟩ := executed unlimited first
    exact ⟨room, more, fun fits => .restOfProgram (same fits)⟩
  | called first second fits inside =>
    obtain ⟨room, more, same⟩ := evaluated unlimited first
    obtain ⟨room, most, also⟩ := (arguments_cut (runs_cut limit _).1 _ _ room).ok second
    refine ⟨room, more.trans most, fun enough => ?_⟩
    exact .called (same (most.trans enough)) (also enough) fits inside
  | whileAgain first holds second =>
    obtain ⟨room, more, same⟩ := evaluated unlimited first
    obtain ⟨room, most, also⟩ := executed room second
    refine ⟨room, more.trans most, fun enough => ?_⟩
    exact .whileAgain (same (most.trans enough)) holds (also enough)

/-- Whatever is started under the limit is started without it as well. -/
theorem Starts.of_within {step : Step} (starts : (step.within limit).Starts part)
    (unlimited : step.machine.sink.room = none) (inside : step.written ≤ limit) :
    ∃ other, step.Starts other ∧ other.written ≤ limit ∧ part = other.within limit := by
  have evaluated {fuel e m v o} (unlimited : m.sink.room = none) (inside : m.sink.bytes.size ≤ limit)
      (run : evaluate fuel e (m.within limit) = .ok v o) :=
    ((runs_cut limit fuel).1 e m unlimited).ok_within inside run
  have executed {fuel s m flow o} (unlimited : m.sink.room = none)
      (inside : m.sink.bytes.size ≤ limit) (run : execute fuel s (m.within limit) = .ok flow o) :=
    ((runs_cut limit fuel).2 s m unlimited).ok_within inside run
  obtain ⟨fuel, task, m⟩ := step
  unfold Step.within at starts
  dsimp only at starts unlimited
  have begun {k u} (starts : Starts ⟨fuel, task, m⟩ ⟨k, u, m⟩) :
      ∃ other, Starts ⟨fuel, task, m⟩ other ∧ other.written ≤ limit ∧
        ⟨k, u, m.within limit⟩ = other.within limit := ⟨_, starts, inside, rfl⟩
  have value {k k' e u v o} (run : evaluate k e (m.within limit) = .ok v o)
      (starts : ∀ n, evaluate k e m = .ok v n → Starts ⟨fuel, task, m⟩ ⟨k', u, n⟩) :
      ∃ other, Starts ⟨fuel, task, m⟩ other ∧ other.written ≤ limit ∧
        ⟨k', u, o⟩ = other.within limit := by
    obtain ⟨n, ran, -, fits, rfl⟩ := evaluated unlimited inside run
    exact ⟨_, starts n ran, fits, rfl⟩
  cases starts with
  | grouping | unary | binaryLeft | logicalLeft | assigned | callee | getObject | setObject |
    commaLeft | ternaryCondition | firstExpr | callBody | expression | print | varDecl |
    ifThenCondition | ifElseCondition | whileCondition | returned | superclass | firstStmt |
    firstOfProgram => exact begun (by constructor)
  | body => exact ⟨_, .body, inside, rfl⟩
  | block => exact ⟨_, .block, inside, rfl⟩
  | binaryRight first => exact value first fun _ ran => .binaryRight ran
  | logicalRight first goesOn => exact value first fun _ ran => .logicalRight ran goesOn
  | arguments first callable => exact value first fun _ ran => .arguments ran callable
  | called first second fits native =>
    obtain ⟨n, ran, room, inside, rfl⟩ := evaluated unlimited inside first
    obtain ⟨o, ranToo, -, inside, rfl⟩ :=
      (arguments_cut (runs_cut limit _).1 _ _ room).ok_within inside second
    exact ⟨_, .called ran ranToo fits native, inside, rfl⟩
  | setValue first => exact value first fun _ ran => .setValue ran
  | commaRight first => exact value first fun _ ran => .commaRight ran
  | ternaryThen first holds => exact value first fun _ ran => .ternaryThen ran holds
  | ternaryElse first fails => exact value first fun _ ran => .ternaryElse ran fails
  | restExprs first => exact value first fun _ ran => .restExprs ran
  | initializer made found linked =>
    cases made
    cases linked
    exact ⟨_, .initializer rfl found rfl, inside, rfl⟩
  | ifThen first holds => exact value first fun _ ran => .ifThen ran holds
  | ifElseThen first holds => exact value first fun _ ran => .ifElseThen ran holds
  | ifElseElse first fails => exact value first fun _ ran => .ifElseElse ran fails
  | whileBody first holds => exact value first fun _ ran => .whileBody ran holds
  | whileAgain first holds second =>
    obtain ⟨n, ran, room, inside, rfl⟩ := evaluated unlimited inside first
    obtain ⟨o, ranToo, -, inside, rfl⟩ := executed room inside second
    exact ⟨_, .whileAgain ran holds ranToo, inside, rfl⟩
  | restStmts first =>
    obtain ⟨n, ran, -, fits, rfl⟩ := executed unlimited inside first
    exact ⟨_, .restStmts ran, fits, rfl⟩
  | restOfProgram first =>
    obtain ⟨n, ran, -, fits, rfl⟩ := executed unlimited inside first
    exact ⟨_, .restOfProgram ran, fits, rfl⟩

/-- The steps of a limited run are those of the other that begin before it overflows. -/
theorem reaches_within (unlimited : step.machine.sink.room = none) (inside : step.written ≤ limit) :
    (step.within limit).Reaches part ↔
      ∃ other, step.Reaches other ∧ other.written ≤ limit ∧ part = other.within limit := by
  constructor
  · intro reaches
    suffices known : ∃ other, step.Reaches other ∧ other.machine.sink.room = none ∧
        other.written ≤ limit ∧ part = other.within limit by
      obtain ⟨other, reaches, -, rest⟩ := known
      exact ⟨other, reaches, rest⟩
    induction reaches with
    | refl => exact ⟨step, .refl, unlimited, inside, rfl⟩
    | tail _ starts ih =>
      obtain ⟨other, reaches, room, fits, rfl⟩ := ih
      obtain ⟨next, also, fits, rfl⟩ := starts.of_within room fits
      exact ⟨next, reaches.tail also, (also.within limit room).1, fits, rfl⟩
  · rintro ⟨other, reaches, fits, rfl⟩
    suffices known : other.machine.sink.room = none ∧
        (other.written ≤ limit → (step.within limit).Reaches (other.within limit)) from known.2 fits
    clear fits
    induction reaches with
    | refl => exact ⟨unlimited, fun _ => .refl⟩
    | tail _ starts ih =>
      obtain ⟨room, more, also⟩ := starts.within limit ih.1
      exact ⟨room, fun fits => (ih.2 (more.trans fits)).tail (also fits)⟩

end

end Step

namespace Run

end Run

namespace Session

/-- The second of three lines is printed by a call. -/
def threeLines : String := "fun f() \x7b print nil; \x7d print true; f(); print false;"

end Session

end Lox
