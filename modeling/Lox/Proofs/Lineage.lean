import Mathlib
import Lox.Proofs.LifeOrder
import Lox.Proofs.Positions

/-!
Where chains and values come from. Every chain in force in the life of a session has a scope for
each scope of the text around, opened by a step that happened; every function that can be called was
made by such a step, and every class.
-/

namespace Lox

/-- The chain of the methods of a class that is declared on this machine. -/
def Machine.methodScopes (n : Machine) (name : Token) (superclass : Option Class) : Chain :=
  (n.store.define n.chain name.lexeme .nil).methodChain n.chain superclass

/-- A scope that binds `this` to the value, and nothing else. -/
def receiverScope (receiver : Value) : Table Value := Table.empty.insert "this" receiver

section Origins

variable (chunks : List Chunk)

open Session (Happens)

/-- The statements stand like this in a chunk that was accepted. -/
def Text (around : List Enclosure) (p : Place) (ss : List Stmt) : Prop :=
  ∃ c ∈ chunks, c.session.Accepts c.source ∧ Stands (c.session.program c.source) around p ss

/-- The chain has come about for text inside of these: each scope was opened by a step that happened
and that runs the text, with the scopes around it in force. -/
inductive Chained : List Enclosure → Chain → Prop
  | global : Chained [] globalChain
  | block {fuel : Nat} {body : List Stmt} {m : Machine} {around : List Enclosure}
      (opened : Happens chunks ⟨fuel + 1, .stmt (.block body), m⟩) (outer : Chained around m.chain) :
      Chained (.block body :: around) (m.store.scopes.size :: m.chain)
  | function {fuel line : Nat} {vs : List Value} {closure : Closure} {m : Machine}
      {around : List Enclosure} (entered : Happens chunks ⟨fuel, .body line vs closure, m⟩)
      (outer : Chained around closure.chain) :
      Chained (.function closure.function :: around) (m.store.scopes.size :: closure.chain)
  | method {fuel line : Nat} {vs : List Value} {closure : Closure} {m n : Machine}
      {binding declaring : Step} {receiver : Value} {this : ScopeId} {name : Token}
      {parent : Option Class} {methods : List FunctionDecl} {superclass : Option Expr}
      {around : List Enclosure} (entered : Happens chunks ⟨fuel, .body line vs closure, m⟩)
      (bound : Happens chunks binding) (binds : binding.Opens (receiverScope receiver) this)
      (declared : Happens chunks declaring) (declares : declaring.Declares n name parent methods)
      (isMethod : closure.function ∈ methods) (same : superclass.isSome = parent.isSome)
      (scopes : closure.chain = this :: n.methodScopes name parent) (outer : Chained around n.chain) :
      Chained (.method closure.function :: .class_ superclass :: around)
        (m.store.scopes.size :: closure.chain)

/-- The closure was made by a declaration or by binding a method; its body stands inside of these. -/
inductive Closure.Made : Closure → List Enclosure → Prop
  | function {fuel : Nat} {f : FunctionDecl} {m : Machine} {around : List Enclosure} {p : Place}
      {ss : List Stmt} (declared : Happens chunks ⟨fuel + 1, .stmt (.funDecl f), m⟩)
      (stands : Text chunks around p (.funDecl f :: ss)) (outer : Chained chunks around m.chain) :
      Made ⟨f, m.chain, false⟩ (.function f :: around)
  | method {n : Machine} {binding declaring : Step} {receiver : Value} {this : ScopeId}
      {name : Token} {parent : Option Class} {methods : List FunctionDecl}
      {superclass : Option Expr} {f : FunctionDecl} {around : List Enclosure} {p : Place}
      {ss : List Stmt} (bound : Happens chunks binding)
      (binds : binding.Opens (receiverScope receiver) this) (declared : Happens chunks declaring)
      (declares : declaring.Declares n name parent methods) (isMethod : f ∈ methods)
      (same : superclass.isSome = parent.isSome)
      (stands : Text chunks around p (.classDecl name superclass methods :: ss))
      (outer : Chained chunks around n.chain) :
      Made ⟨f, this :: n.methodScopes name parent, f.name.lexeme = initializerName⟩
        (.method f :: .class_ superclass :: around)

/-- The class was made by a declaration, and so were those that it inherits from. -/
inductive Class.Made : Class → Prop
  | mk {n : Machine} {declaring : Step} {name : Token} {parent : Option Class}
      {methods : List FunctionDecl} {superclass : Option Expr} {around : List Enclosure} {p : Place}
      {ss : List Stmt} (declared : Happens chunks declaring)
      (declares : declaring.Declares n name parent methods)
      (same : superclass.isSome = parent.isSome)
      (stands : Text chunks around p (.classDecl name superclass methods :: ss))
      (outer : Chained chunks around n.chain) (inherited : ∀ c, parent = some c → Class.Made c) :
      Class.Made (n.declared name parent methods)

/-- A call of the class has made the object. -/
def Class.Creates (c : Class) (i : InstanceId) : Prop :=
  ∃ fuel line vs m, Happens chunks ⟨fuel, .call line vs (.class_ c), m⟩ ∧ m.store.instances.size = i

def Value.Made : Value → Prop
  | .function _ closure => ∃ around, closure.Made chunks around
  | .class_ c => c.Made chunks
  | .object i c => c.Made chunks ∧ c.Creates chunks i
  | _ => True

structure Store.Made (s : Store) : Prop where
  bound : ∀ scope name v, (s.bindings scope).get? name = some v → v.Made chunks
  fields : ∀ object name v, (s.fields object).get? name = some v → v.Made chunks

/-- What the step has to run stands in a chunk, with its chain in force, and the values that it uses
were made by steps that happened. -/
def Step.Placed : Step → Prop
  | ⟨_, .expr e, m⟩ => ∃ around p s ss whole, Text chunks around p (s :: ss) ∧ whole ∈ s.exprs ∧
      e ∈ whole.parts ∧ Chained chunks around m.chain
  | ⟨_, .exprs es, m⟩ => ∃ around p s ss whole, Text chunks around p (s :: ss) ∧ whole ∈ s.exprs ∧
      (∀ e ∈ es, e ∈ whole.parts) ∧ Chained chunks around m.chain
  | ⟨_, .stmt s, m⟩ => ∃ around p ss, Text chunks around p (s :: ss) ∧ Chained chunks around m.chain
  | ⟨_, .stmts ss, m⟩ => ∃ around p, Text chunks around p ss ∧ Chained chunks around m.chain
  | ⟨_, .program ss, m⟩ => (∃ p, Text chunks [] p ss) ∧ m.chain = globalChain
  | ⟨_, .call _ vs callee, _⟩ => (∀ v ∈ vs, v.Made chunks) ∧ callee.Made chunks
  | ⟨_, .body _ vs closure, _⟩ => (∀ v ∈ vs, v.Made chunks) ∧ ∃ around, closure.Made chunks around

/-- A step that happens, where all that it finds was made by steps that happened. -/
structure Step.Made (step : Step) : Prop where
  happens : Happens chunks step
  placed : step.Placed chunks
  store : step.machine.store.Made chunks

end Origins

/-- A value that the task ends with, if it succeeds. -/
def Step.Gives : Step → Value → Prop
  | ⟨fuel, .expr e, m⟩, v => ∃ n, Run.evaluate fuel e m = .ok v n
  | ⟨fuel, .exprs es, m⟩, v => ∃ vs n, Run.arguments (Run.evaluate fuel) es m = .ok vs n ∧ v ∈ vs
  | ⟨fuel, .stmt s, m⟩, v => ∃ n, Run.execute fuel s m = .ok (.returned v) n
  | ⟨fuel, .stmts ss, m⟩, v => ∃ n, Run.sequence (Run.execute fuel) ss m = .ok (.returned v) n
  | ⟨_, .program _, _⟩, _ => False
  | ⟨fuel, .call line vs callee, m⟩, v =>
      ∃ n, Run.callValue (Run.execute fuel) line vs callee m = .ok v n
  | ⟨fuel, .body line vs closure, m⟩, v =>
      ∃ n, Run.callClosure (Run.execute fuel) line closure vs m = .ok v n

section Values

variable {chunks : List Chunk} {s : Store} {v : Value}

open Session (Happens)

theorem Text.rest {around : List Enclosure} {p : Place} {t : Stmt} {ss : List Stmt}
    (text : Text chunks around p (t :: ss)) : Text chunks around (t.after p) ss := by
  obtain ⟨c, given, accepts, stands⟩ := text
  exact ⟨c, given, accepts, .rest stands⟩

/-- The body of a closure stands in the text, too. -/
theorem Closure.Made.stands {closure : Closure} {around : List Enclosure}
    (made : closure.Made chunks around) : ∃ p, Text chunks around p closure.function.body := by
  cases made with
  | function _ stands =>
    obtain ⟨c, given, accepts, stands⟩ := stands
    exact ⟨_, c, given, accepts, .function stands⟩
  | method _ _ _ _ isMethod _ stands =>
    obtain ⟨c, given, accepts, stands⟩ := stands
    exact ⟨_, c, given, accepts, .method stands isMethod⟩

/-- A call of the closure opens a scope inside of its own. -/
theorem Closure.Made.chained {closure : Closure} {around : List Enclosure} {fuel line : Nat}
    {vs : List Value} {m : Machine} (made : closure.Made chunks around)
    (entered : Happens chunks ⟨fuel, .body line vs closure, m⟩) :
    Chained chunks around (m.store.scopes.size :: closure.chain) := by
  cases made with
  | function _ _ outer => exact .function entered outer
  | method bound binds declared declares isMethod same _ outer =>
    exact .method entered bound binds declared declares isMethod same rfl outer

/-- A method that is found, bound to a receiver, is one of a class body. -/
theorem Class.Made.bind {c : Class} (made : c.Made chunks) {name : String} {method : Closure}
    (found : c.method? name = some method) {binding : Step} {receiver : Value} {this : ScopeId}
    (bound : Happens chunks binding) (binds : binding.Opens (receiverScope receiver) this) :
    ∃ superclass around, Closure.Made chunks { method with chain := this :: method.chain }
      (.method method.function :: .class_ superclass :: around) := by
  induction made with
  | @mk n declaring token parent methods superclass around p ss declared declares same stands outer
      inherited ih =>
    rw [Class.method?.eq_def] at found
    dsimp only [Machine.declared] at found
    cases here : (Run.methodTable (n.methodScopes token parent) methods).get? name with
    | some own =>
      rw [Machine.methodScopes] at here
      simp only [here, Option.some.injEq] at found
      subst found
      rcases Table.get?_insertAll here with listed | before
      · obtain ⟨f, isMethod, same'⟩ := List.mem_map.1 listed
        obtain ⟨-, rfl⟩ := Prod.mk.inj same'
        exact ⟨_, _, .method bound binds declared declares isMethod same stands outer⟩
      · cases before
    | none =>
      rw [Machine.methodScopes] at here
      cases parent with
      | none => simp [here] at found
      | some c =>
        simp only [here] at found
        exact ih c rfl found

namespace Store.Made

theorem addScope (made : s.Made chunks) {table : Table Value}
    (values : ∀ name v, table.get? name = some v → v.Made chunks) : (s.addScope table).Made chunks := by
  refine ⟨fun scope name v found => ?_, made.fields⟩
  rw [bindings_addScope] at found
  split at found
  · exact values name v found
  · exact made.bound scope name v found

theorem openBlock (made : s.Made chunks) : (s.addScope Table.empty).Made chunks := by
  refine made.addScope fun name v found => ?_
  cases found

theorem bind (made : s.Made chunks) {scope : ScopeId} {name : String} (value : v.Made chunks) :
    (s.bind scope name v).Made chunks := by
  refine ⟨fun other key w found => ?_, made.fields⟩
  rcases get?_bind_cases s found with rfl | before
  · exact value
  · exact made.bound other key w before

theorem define (made : s.Made chunks) {chain : Chain} {name : String} (value : v.Made chunks) :
    (s.define chain name v).Made chunks := by
  cases chain with
  | nil => exact made
  | cons scope outer => exact made.bind value

theorem addInstance (made : s.Made chunks) : s.addInstance.Made chunks := by
  refine ⟨made.bound, fun object name v found => ?_⟩
  rw [fields_addInstance] at found
  exact made.fields object name v found

theorem setField (made : s.Made chunks) {object : InstanceId} {name : String}
    (value : v.Made chunks) : (s.setField object name v).Made chunks := by
  refine ⟨made.bound, fun other key w found => ?_⟩
  rcases get?_setField_cases s found with rfl | before
  · exact value
  · exact made.fields other key w before

theorem receiver (made : s.Made chunks) (value : v.Made chunks) :
    (s.addScope (receiverScope v)).Made chunks := by
  refine made.addScope fun name w found => ?_
  rw [receiverScope, Table.get?_insert] at found
  split at found
  · exact Option.some.inj found ▸ value
  · cases found

theorem getAt (made : s.Made chunks) {chain : Chain} {distance : Nat} {name : String}
    (read : s.getAt chain distance name = .ok v) : v.Made chunks := by
  obtain ⟨scope, -, bound⟩ := Store.getAt_ok read
  exact made.bound scope name v bound

theorem get (made : s.Made chunks) {chain : Chain} {name : String}
    (read : s.get chain name = .ok v) : v.Made chunks := by
  obtain ⟨scope, -, bound⟩ := Store.get_ok read
  exact made.bound scope name v bound

theorem lookUp {m n : Machine} (made : m.store.Made chunks) {id : ExprId} {name : Token}
    (run : Run.lookUp id name m = .ok v n) : v.Made chunks := by
  obtain ⟨answered, rfl⟩ := Run.ask_ok_iff.1 run
  cases recorded : m.distances[id]? with
  | some distance =>
    rw [recorded] at answered
    exact made.getAt answered
  | none =>
    rw [recorded] at answered
    exact made.get answered

end Store.Made

end Values

end Lox
