import Mathlib
import Lox.Proofs.RunOrder

/-!
What a step writes by itself, told by its task. The store that it writes to is the one that the
parts before the write have left.
-/

namespace Lox

/-- The deeds, each with the store before it. -/
def along : Store → List Deed → List (Deed × Store)
  | _, [] => []
  | s, d :: ds => (d, s) :: along (d.leaves s) ds

theorem mem_along_append {s t : Store} {before : List Deed} (after : List Deed) (d : Deed)
    (passes : Passes s before t) : (d, t) ∈ along s (before ++ d :: after) := by
  induction before generalizing s with
  | nil =>
    obtain rfl : s = t := passes
    exact List.mem_cons_self
  | cons first before ih => exact List.mem_cons_of_mem _ (ih passes.2)

/-- An answer changes nothing. -/
theorem Run.ask_ok_iff {α : Type} {m n : Machine} {line : Nat}
    {g : Machine → Except RuntimeCause α} {a : α} : ask line g m = .ok a n ↔ g m = .ok a ∧ m = n := by
  constructor
  · intro run
    obtain ⟨answer, k, observed, run⟩ := bind_ok_iff.1 run
    cases observed
    cases answered : g m with
    | ok b =>
      rw [answered] at run
      cases run
      exact ⟨rfl, rfl⟩
    | error cause =>
      rw [answered] at run
      cases run
  · rintro ⟨answer, rfl⟩
    exact ask_ok answer

namespace Step

/-- The step declares a class with these methods, on this machine. -/
inductive Declares : Step → Machine → Token → Option Class → List FunctionDecl → Prop
  | base {fuel : Nat} {m : Machine} {name : Token} {methods : List FunctionDecl} :
      Declares ⟨fuel + 1, .stmt (.classDecl name none methods), m⟩ m name none methods
  | derived {fuel : Nat} {m n : Machine} {name : Token} {e : Expr} {methods : List FunctionDecl}
      {c : Class} (first : Run.evaluate fuel e m = .ok (.class_ c) n) :
      Declares ⟨fuel + 1, .stmt (.classDecl name (some e) methods), m⟩ n name (some c) methods

end Step

/-- What is needed for a method of the superclass to be found. -/
theorem Run.superMethod_ok {id : ExprId} {keyword method : Token} {m n : Machine} {v : Value}
    (run : superMethod id keyword method m = .ok v n) :
    ∃ inner c i own found, m.distances[id]? = some (inner + 1) ∧
      m.store.getAt m.chain (inner + 1) keyword.lexeme = .ok (.class_ c) ∧
        m.store.getAt m.chain inner "this" = .ok (.object i own) ∧
          c.method? method.lexeme = some found ∧
            (bindMethod found (.object i own) >>= functionValue) m = .ok v n := by
  obtain ⟨distance?, k, observed, run⟩ := bind_ok_iff.1 run
  cases observed
  dsimp only at run
  cases recorded : m.distances[id]? with
  | none =>
    rw [recorded] at run
    cases run
  | some distance =>
    rw [recorded] at run
    obtain ⟨w, k, asked, run⟩ := bind_ok_iff.1 run
    obtain ⟨parent, rfl⟩ := ask_ok_iff.1 asked
    cases w with
    | class_ c =>
      cases distance with
      | zero => cases run
      | succ inner =>
        obtain ⟨w, k', asked, run⟩ := bind_ok_iff.1 run
        obtain ⟨receiver, rfl⟩ := ask_ok_iff.1 asked
        cases w with
        | object i own =>
          dsimp only at run
          cases inherited : c.method? method.lexeme with
          | none =>
            rw [inherited] at run
            cases run
          | some found =>
            rw [inherited] at run
            exact ⟨inner, c, i, own, found, rfl, parent, receiver, inherited, run⟩
        | _ => cases run
    | _ => cases run

namespace Step

/-- What a step writes, and the store that it writes to. -/
inductive Effect : Step → Deed → Store → Prop
  | assign {fuel id name value m v n scope} (first : Run.evaluate fuel value m = .ok v n)
      (found : target n id name = .ok scope) :
      Effect ⟨fuel + 1, .expr (.assign id name value), m⟩ (.bind scope name.lexeme v) n.store
  | get {fuel id object name m i c n method}
      (first : Run.evaluate fuel object m = .ok (.object i c) n)
      (field : (n.store.fields i).get? name.lexeme = none)
      (found : c.method? name.lexeme = some method) :
      Effect ⟨fuel + 1, .expr (.get id object name), m⟩
        (.openScope (Table.empty.insert "this" (.object i c))) n.store
  | set {fuel id object name value m i c n v o}
      (first : Run.evaluate fuel object m = .ok (.object i c) n)
      (second : Run.evaluate fuel value n = .ok v o) :
      Effect ⟨fuel + 1, .expr (.set id object name value), m⟩ (.setField i name.lexeme v) o.store
  | super {fuel id keyword method m inner c i own found} (recorded : m.distances[id]? = some (inner + 1))
      (parent : m.store.getAt m.chain (inner + 1) keyword.lexeme = .ok (.class_ c))
      (receiver : m.store.getAt m.chain inner "this" = .ok (.object i own))
      (inherited : c.method? method.lexeme = some found) :
      Effect ⟨fuel + 1, .expr (.super id keyword method), m⟩
        (.openScope (Table.empty.insert "this" (.object i own))) m.store
  | allocate {fuel line vs c m} : Effect ⟨fuel, .call line vs (.class_ c), m⟩ .allocate m.store
  | initializer {fuel line vs c m method} (found : c.method? initializerName = some method) :
      Effect ⟨fuel, .call line vs (.class_ c), m⟩
        (.openScope (Table.empty.insert "this" (.object m.store.addInstance.lastInstance c)))
        m.store.addInstance
  | body {fuel line vs closure m} :
      Effect ⟨fuel, .body line vs closure, m⟩ (.openScope (Table.empty.insertAll
        ((closure.function.parameters.map (·.lexeme)).zip vs))) m.store
  | block {fuel body m} :
      Effect ⟨fuel + 1, .stmt (.block body), m⟩ (.openScope Table.empty) m.store
  | undefined {fuel name m} :
      Effect ⟨fuel + 1, .stmt (.varDecl name none), m⟩ (.define m.chain name.lexeme .nil) m.store
  | define {fuel name e m v n} (first : Run.evaluate fuel e m = .ok v n) :
      Effect ⟨fuel + 1, .stmt (.varDecl name (some e)), m⟩ (.define n.chain name.lexeme v) n.store
  | function {fuel f m} :
      Effect ⟨fuel + 1, .stmt (.funDecl f), m⟩
        (.define m.chain f.name.lexeme (.function m.nextIdentity ⟨f, m.chain, false⟩)) m.store
  | className {step n name superclass methods} (declares : Declares step n name superclass methods) :
      Effect step (.define n.chain name.lexeme .nil) n.store
  | parent {step n name c methods} (declares : Declares step n name (some c) methods) :
      Effect step (.openScope (Table.empty.insert "super" (.class_ c)))
        (n.store.define n.chain name.lexeme .nil)
  | class_ {step n name superclass methods scope} (declares : Declares step n name superclass methods)
      (found : ((n.store.define n.chain name.lexeme .nil).forMethods superclass).holder n.chain
        name.lexeme = .ok scope) :
      Effect step (.bind scope name.lexeme (.class_ (n.declared name superclass methods)))
        ((n.store.define n.chain name.lexeme .nil).forMethods superclass)

section

variable {fuel : Nat} {m n : Machine} {s : Store} {d : Deed} {step : Step}

/-- What is written is written after the first part, and only if that succeeds. -/
theorem written_after {α : Type} {run : EStateM.Result Halt Machine α}
    {next : α → Machine → List Deed} {part : Step} {t : Store} (ends : part.finish = stateOf run)
    (member : (d, s) ∈ along t (.part part :: onOk run next)) (write : d.isWrite = true) :
    ∃ a n, run = .ok a n ∧ (d, s) ∈ along n.store (next a n) := by
  rcases List.mem_cons.1 member with same | later
  · obtain ⟨rfl, -⟩ := Prod.mk.inj same
    cases write
  · rw [Deed.leaves, ends] at later
    cases run with
    | ok a n => exact ⟨a, n, rfl, later⟩
    | error h n => cases later

theorem not_written {part : Step} {t : Store} (write : d.isWrite = true) :
    (d, s) ∉ along t [.part part] := by
  intro member
  obtain ⟨rfl, -⟩ := Prod.mk.inj (List.mem_singleton.1 member)
  cases write

theorem written_bound {c : Class} {name : String} {receiver : Value} {t : Store}
    (member : (d, s) ∈ along t (boundDeeds c name receiver)) :
    ∃ method, c.method? name = some method ∧
      d = .openScope (Table.empty.insert "this" receiver) ∧ s = t := by
  unfold boundDeeds at member
  split at member
  · rename_i method found
    obtain ⟨rfl, rfl⟩ := Prod.mk.inj (List.mem_singleton.1 member)
    exact ⟨method, found, rfl, rfl⟩
  · cases member

theorem Effect.of_expr {e : Expr} (member : (d, s) ∈ along m.store (exprDeeds fuel m e))
    (write : d.isWrite = true) : Effect ⟨fuel + 1, .expr e, m⟩ d s := by
  cases e with
  | literal | var | this => cases member
  | grouping | unary => exact absurd member (not_written write)
  | binary | comma =>
    obtain ⟨a, n, -, member⟩ := written_after rfl member write
    exact absurd member (not_written write)
  | logical =>
    obtain ⟨a, n, -, member⟩ := written_after rfl member write
    split at member
    · cases member
    · exact absurd member (not_written write)
  | ternary =>
    obtain ⟨a, n, -, member⟩ := written_after rfl member write
    split at member
    · exact absurd member (not_written write)
    · exact absurd member (not_written write)
  | assign id name value =>
    obtain ⟨v, n, first, member⟩ := written_after rfl member write
    unfold assignDeeds at member
    split at member
    · rename_i scope found
      obtain ⟨rfl, rfl⟩ := Prod.mk.inj (List.mem_singleton.1 member)
      exact .assign first found
    · cases member
  | call id callee paren args =>
    obtain ⟨f, n, -, member⟩ := written_after rfl member write
    split at member
    · cases member
    · obtain ⟨vs, o, -, member⟩ := written_after rfl member write
      split at member
      · cases member
      · split at member
        · cases member
        · exact absurd member (not_written write)
  | get id object name =>
    obtain ⟨v, n, first, member⟩ := written_after rfl member write
    cases v with
    | object i c =>
      dsimp only [propertyDeeds] at member
      split at member
      · cases member
      · rename_i field
        obtain ⟨method, found, rfl, rfl⟩ := written_bound member
        exact .get first field found
    | _ => cases member
  | set id object name value =>
    obtain ⟨v, n, first, member⟩ := written_after rfl member write
    cases v with
    | object i c =>
      obtain ⟨v, o, second, member⟩ := written_after rfl member write
      obtain ⟨rfl, rfl⟩ := Prod.mk.inj (List.mem_singleton.1 member)
      exact .set first second
    | _ => cases member
  | super id keyword method =>
    simp only [exprDeeds, superDeeds] at member
    split at member
    · cases member
    · rename_i distance recorded
      split at member
      · rename_i c parent
        split at member
        · cases member
        · rename_i inner
          split at member
          · rename_i i own receiver
            obtain ⟨found, inherited, rfl, rfl⟩ := written_bound member
            exact .super recorded parent receiver inherited
          · cases member
      · cases member

theorem written_made {name : Token} {superclass : Option Class} {methods : List FunctionDecl}
    {t : Store} (member : (d, s) ∈ along t (madeDeeds m name superclass methods)) :
    ∃ scope, ((m.store.define m.chain name.lexeme .nil).forMethods superclass).holder m.chain
        name.lexeme = .ok scope ∧
      d = .bind scope name.lexeme (.class_ (m.declared name superclass methods)) ∧ s = t := by
  unfold madeDeeds at member
  split at member
  · rename_i scope found
    obtain ⟨rfl, rfl⟩ := Prod.mk.inj (List.mem_singleton.1 member)
    exact ⟨scope, found, rfl, rfl⟩
  · cases member

theorem written_class {fuel : Nat} {k : Machine} {name : Token} {superclass : Option Class}
    {e : Option Expr} {methods : List FunctionDecl}
    (declares : Declares ⟨fuel + 1, .stmt (.classDecl name e methods), k⟩ m name superclass methods)
    (member : (d, s) ∈ along m.store (classDeeds m name superclass methods)) :
    Effect ⟨fuel + 1, .stmt (.classDecl name e methods), k⟩ d s := by
  rcases List.mem_cons.1 member with same | member
  · obtain ⟨rfl, rfl⟩ := Prod.mk.inj same
    exact .className declares
  · cases superclass with
    | none =>
      obtain ⟨scope, found, rfl, rfl⟩ := written_made member
      exact .class_ declares found
    | some c =>
      rcases List.mem_cons.1 member with same | member
      · obtain ⟨rfl, rfl⟩ := Prod.mk.inj same
        exact .parent declares
      · obtain ⟨scope, found, rfl, rfl⟩ := written_made member
        exact .class_ declares found

theorem Effect.of_stmt {t : Stmt} (member : (d, s) ∈ along m.store (stmtDeeds fuel m t))
    (write : d.isWrite = true) : Effect ⟨fuel + 1, .stmt t, m⟩ d s := by
  cases t with
  | expression | print => exact absurd member (not_written write)
  | varDecl name e =>
    cases e with
    | none =>
      obtain ⟨rfl, rfl⟩ := Prod.mk.inj (List.mem_singleton.1 member)
      exact .undefined
    | some e =>
      obtain ⟨v, n, first, member⟩ := written_after rfl member write
      obtain ⟨rfl, rfl⟩ := Prod.mk.inj (List.mem_singleton.1 member)
      exact .define first
  | block body =>
    rcases List.mem_cons.1 member with same | member
    · obtain ⟨rfl, rfl⟩ := Prod.mk.inj same
      exact .block
    · exact absurd member (not_written write)
  | ifThen =>
    obtain ⟨v, n, -, member⟩ := written_after rfl member write
    split at member
    · exact absurd member (not_written write)
    · cases member
  | ifElse =>
    obtain ⟨v, n, -, member⟩ := written_after rfl member write
    split at member
    · exact absurd member (not_written write)
    · exact absurd member (not_written write)
  | whileLoop =>
    obtain ⟨v, n, -, member⟩ := written_after rfl member write
    split at member
    · obtain ⟨flow, o, -, member⟩ := written_after rfl member write
      cases flow with
      | normal => exact absurd member (not_written write)
      | returned v => cases member
    · cases member
  | funDecl f =>
    obtain ⟨rfl, rfl⟩ := Prod.mk.inj (List.mem_singleton.1 member)
    exact .function
  | returnStmt keyword e =>
    cases e with
    | none => cases member
    | some e => exact absurd member (not_written write)
  | classDecl name e methods =>
    cases e with
    | none => exact written_class .base member
    | some e =>
      obtain ⟨v, n, first, member⟩ := written_after rfl member write
      cases v with
      | class_ c => exact written_class (.derived first) member
      | _ => cases member

theorem Effect.of_call {line : Nat} {vs : List Value} {callee : Value}
    (member : (d, s) ∈ along m.store (callDeeds fuel m line vs callee))
    (write : d.isWrite = true) : Effect ⟨fuel, .call line vs callee, m⟩ d s := by
  cases callee with
  | function => exact absurd member (not_written write)
  | class_ c =>
    rcases List.mem_cons.1 member with same | member
    · obtain ⟨rfl, rfl⟩ := Prod.mk.inj same
      exact .allocate
    · dsimp only [onOk, Run.newInstance] at member
      split at member
      · cases member
      · rename_i method found
        rcases List.mem_cons.1 member with same | member
        · obtain ⟨rfl, rfl⟩ := Prod.mk.inj same
          exact .initializer found
        · exact absurd member (not_written write)
  | _ => cases member

/-- All that a step writes by itself. -/
theorem Does.effect (does : step.Does d s) (write : d.isWrite = true) : Effect step d s := by
  obtain ⟨before, after, split, passes⟩ := does
  have member := mem_along_append after d passes
  rw [← split] at member
  clear split passes
  obtain ⟨fuel, task, m⟩ := step
  cases task with
  | expr e =>
    cases fuel with
    | zero => cases member
    | succ fuel => exact .of_expr member write
  | stmt s =>
    cases fuel with
    | zero => cases member
    | succ fuel => exact .of_stmt member write
  | exprs es =>
    cases es with
    | nil => cases member
    | cons e es =>
      obtain ⟨v, n, -, member⟩ := written_after rfl member write
      exact absurd member (not_written write)
  | stmts ss =>
    cases ss with
    | nil => cases member
    | cons s ss =>
      obtain ⟨flow, n, -, member⟩ := written_after rfl member write
      cases flow with
      | normal => exact absurd member (not_written write)
      | returned v => cases member
  | program ss =>
    cases ss with
    | nil => cases member
    | cons s ss =>
      obtain ⟨flow, n, -, member⟩ := written_after rfl member write
      exact absurd member (not_written write)
  | call line vs callee => exact .of_call member write
  | body line vs closure =>
    rcases List.mem_cons.1 member with same | member
    · obtain ⟨rfl, rfl⟩ := Prod.mk.inj same
      exact .body
    · exact absurd member (not_written write)

/-! ### The same told the other way round -/

theorem does_first (rest : List Deed) (deeds : step.deeds = d :: rest) :
    step.Does d step.machine.store :=
  ⟨[], rest, deeds, rfl⟩

/-- What is written after the first part is written to the store that this part leaves. -/
theorem does_after {e : Expr} {v : Value} {task : Task} (rest : List Deed)
    (first : Run.evaluate fuel e m = .ok v n)
    (deeds : Step.deeds ⟨fuel + 1, task, m⟩ = .part ⟨fuel, .expr e, m⟩ :: d :: rest) :
    Step.Does ⟨fuel + 1, task, m⟩ d n.store :=
  ⟨[.part ⟨fuel, .expr e, m⟩], rest, deeds, rfl, by simp only [Deed.leaves, finish, first, stateOf, Passes]⟩

theorem Declares.deeds {name : Token} {superclass : Option Class} {methods : List FunctionDecl}
    (declares : Declares step n name superclass methods) :
    ∃ before, step.deeds = before ++ classDeeds n name superclass methods ∧
      Passes step.machine.store before n.store := by
  cases declares with
  | base => exact ⟨[], rfl, rfl⟩
  | @derived fuel m n name e methods c first =>
    refine ⟨[.part ⟨fuel, .expr e, m⟩], ?_, rfl, ?_⟩
    · simp only [Step.deeds, fueled, stmtDeeds, first, onOk, List.singleton_append]
    · simp only [Deed.leaves, finish, first, stateOf, Passes]

theorem Declares.passes_parent {name : Token} {superclass : Option Class}
    {methods : List FunctionDecl} (declares : Declares step n name superclass methods) :
    ∃ before, step.deeds = before ++ (parentDeeds superclass ++ madeDeeds n name superclass methods) ∧
      Passes step.machine.store before (n.store.define n.chain name.lexeme .nil) := by
  obtain ⟨before, deeds, passes⟩ := declares.deeds
  refine ⟨before ++ [.define n.chain name.lexeme .nil], ?_, Passes.append.2 ⟨n.store, passes, ?_⟩⟩
  · rw [deeds, classDeeds, List.append_assoc, List.singleton_append]
  · exact ⟨trivial, rfl⟩

theorem Effect.does (effect : Effect step d s) : step.Does d s := by
  cases effect with
  | assign first found =>
    refine does_after [] first ?_
    simp [deeds, fueled, exprDeeds, first, onOk, assignDeeds, found]
  | get first field found =>
    refine does_after [] first ?_
    simp [deeds, fueled, exprDeeds, first, onOk, propertyDeeds, field, boundDeeds, found]
  | @set fuel id object name value m i c n v o first second =>
    refine ⟨[.part ⟨fuel, .expr object, m⟩, .part ⟨fuel, .expr value, n⟩], [], ?_, rfl, ?_, ?_⟩
    · simp [deeds, fueled, exprDeeds, first, onOk, second]
    · simp only [Deed.leaves, Deed.Fits, finish, first, stateOf]
    · simp only [Deed.leaves, finish, second, stateOf, Passes]
  | super recorded parent receiver inherited =>
    refine does_first [] ?_
    simp [deeds, fueled, exprDeeds, superDeeds, recorded, parent, receiver, boundDeeds, inherited]
  | allocate => exact does_first _ rfl
  | @initializer fuel line vs c m method found =>
    refine ⟨[.allocate], ?_, ?_, trivial, rfl⟩
    · exact onOk (Run.bindMethod method (.object m.store.addInstance.lastInstance c)
        { m with store := m.store.addInstance }) fun bound o => [.part ⟨fuel, .body line vs bound, o⟩]
    · simp only [deeds, callDeeds, Run.newInstance, onOk, found, List.singleton_append]
  | body => exact does_first _ rfl
  | block => exact does_first _ rfl
  | undefined => exact does_first _ rfl
  | define first =>
    refine does_after [] first ?_
    simp [deeds, fueled, stmtDeeds, first, onOk]
  | function => exact does_first _ rfl
  | className declares =>
    obtain ⟨before, deeds, passes⟩ := declares.deeds
    exact ⟨before, _, deeds, passes⟩
  | parent declares =>
    obtain ⟨before, deeds, passes⟩ := declares.passes_parent
    exact ⟨before, _, deeds, passes⟩
  | @class_ step n name superclass methods scope declares found =>
    obtain ⟨before, deeds, passes⟩ := declares.passes_parent
    rw [madeDeeds, found] at deeds
    refine ⟨before ++ parentDeeds superclass, [], by simpa using deeds, Passes.append.2 ⟨_, passes, ?_⟩⟩
    cases superclass with
    | none => exact rfl
    | some c => exact ⟨trivial, rfl⟩

/-- The effects of a step are all that it writes by itself. -/
theorem effect_iff : Effect step d s ↔ step.Does d s ∧ d.isWrite = true := by
  constructor
  · intro effect
    exact ⟨effect.does, by cases effect <;> rfl⟩
  · exact fun ⟨does, write⟩ => does.effect write

end

end Step

end Lox
