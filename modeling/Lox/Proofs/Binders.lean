import Mathlib
import Lox.Proofs.Receivers
import Lox.Proofs.Uses

/-!
What binds names: a declaration, in the innermost scope, and an assignment, where the name is bound
already or in the innermost scope. Also where the chain of a step comes from.
-/

namespace Lox

open Session (Happens Life happens_closed since_of_becomes)

/-- Where the chain of a step comes from that another one starts. -/
inductive Step.Enters : Step → Step → Prop
  | same {step part : Step} (inside : step.task.isCall = false)
      (chain : part.machine.chain = step.machine.chain) : Enters step part
  | block {fuel : Nat} {body : List Stmt} {m : Machine} {part : Step}
      (chain : part.machine.chain = m.store.scopes.size :: m.chain) :
      Enters ⟨fuel + 1, .stmt (.block body), m⟩ part
  | body {fuel line : Nat} {vs : List Value} {closure : Closure} {m : Machine} {part : Step}
      (chain : part.machine.chain = m.store.scopes.size :: closure.chain) :
      Enters ⟨fuel, .body line vs closure, m⟩ part

section

variable {chunks : List Chunk} {s : Session} {step part : Step} {d : Deed} {u : Store} {chain : Chain}
  {scope : ScopeId} {name : String} {m n : Machine}

/-! ### Chains -/

namespace Session.Life

variable (life : Life chunks s)
include life

/-- All scopes in force are there. -/
theorem chain_known {fuel : Nat} {e : Expr} (happens : Happens chunks ⟨fuel, .expr e, m⟩) :
    ∀ scope ∈ m.chain, scope < m.store.scopes.size := by
  obtain ⟨R, q, ready, -⟩ := life.step_sound happens
  exact ready.chain.held ready.sound.store.global

/-- After an expression that succeeds the scopes of before are in force. -/
theorem evaluated {fuel : Nat} {e : Expr} {v : Value} (happens : Happens chunks ⟨fuel, .expr e, m⟩)
    (run : Run.evaluate fuel e m = .ok v n) : n.chain = m.chain ∧ ∃ R p, n.Ready R p := by
  obtain ⟨R, sound⟩ := life.step_sound happens
  have kept := sound.chain_kept
  rw [Step.finish, run] at kept
  obtain ⟨p, ready, inside, formed⟩ := sound
  exact ⟨kept, R, p, (Lox.evaluated ready inside formed run).1⟩

theorem executed {fuel : Nat} {t : Stmt} {flow : Flow} (happens : Happens chunks ⟨fuel, .stmt t, m⟩)
    (run : Run.execute fuel t m = .ok flow n) : n.chain = m.chain := by
  obtain ⟨R, sound⟩ := life.step_sound happens
  have kept := sound.chain_kept
  rwa [Step.finish, run] at kept

theorem enters (happens : Happens chunks step) (starts : Step.Starts step part)
    (inside : part.task.isCall = false) : step.Enters part := by
  have expr {k : Nat} {e : Expr} {m n : Machine} {v : Value}
      (starts : Step.Starts step ⟨k, .expr e, m⟩) (run : Run.evaluate k e m = .ok v n) :
      n.chain = m.chain := (life.evaluated (happens_closed chunks _ _ happens starts) run).1
  have stmt {k : Nat} {t : Stmt} {m n : Machine} {flow : Flow}
      (starts : Step.Starts step ⟨k, .stmt t, m⟩) (run : Run.execute k t m = .ok flow n) :
      n.chain = m.chain := life.executed (happens_closed chunks _ _ happens starts) run
  cases starts with
  | called | callBody | initializer => cases inside
  | body => exact .body (by rw [Step.entered, Store.lastScope_addScope])
  | block => exact .block (by rw [Step.opened, Store.lastScope_addScope])
  | binaryRight first => exact .same rfl (expr .binaryLeft first)
  | logicalRight first => exact .same rfl (expr .logicalLeft first)
  | arguments first => exact .same rfl (expr .callee first)
  | setValue first => exact .same rfl (expr .setObject first)
  | commaRight first => exact .same rfl (expr .commaLeft first)
  | ternaryThen first | ternaryElse first => exact .same rfl (expr .ternaryCondition first)
  | restExprs first => exact .same rfl (expr .firstExpr first)
  | ifThen first => exact .same rfl (expr .ifThenCondition first)
  | ifElseThen first | ifElseElse first => exact .same rfl (expr .ifElseCondition first)
  | whileBody first => exact .same rfl (expr .whileCondition first)
  | whileAgain first holds second =>
    exact .same rfl ((stmt (.whileBody first holds) second).trans (expr .whileCondition first))
  | restStmts first => exact .same rfl (stmt .firstStmt first)
  | restOfProgram first => exact .same rfl (stmt .firstOfProgram first)
  | _ => exact .same rfl rfl

end Session.Life

/-- The class is made in the scope in force, and this one is there. -/
theorem Step.Declares.scene (life : Life chunks s) (happens : Happens chunks step) {token : Token}
    {superclass : Option Class} {methods : List FunctionDecl}
    (declares : step.Declares n token superclass methods) :
    n.chain = step.machine.chain ∧ ∃ scope outer, n.chain = scope :: outer ∧ scope < n.store.scopes.size := by
  cases declares with
  | base =>
    obtain ⟨R, p, ready, -⟩ := life.step_sound happens
    exact ⟨rfl, ready.chain.head ready.sound.store.global⟩
  | derived first =>
    have happens' := happens_closed chunks _ _ happens .superclass
    obtain ⟨chain, R, p, ready⟩ := life.evaluated happens' first
    exact ⟨chain, ready.chain.head ready.sound.store.global⟩

/-! ### What is bound by a step -/

/-- A name is bound by an assignment, or by a declaration in the innermost scope. -/
theorem Session.Life.binds (life : Life chunks s) (happens : Happens chunks step)
    (effect : step.Effect d u) (binds : d.Binds scope name) :
    (∃ fuel id token value m n v, step = ⟨fuel + 1, .expr (.assign id token value), m⟩ ∧
      token.lexeme = name ∧ Run.evaluate fuel value m = .ok v n ∧
        Step.target n id token = .ok scope ∧ u = n.store) ∨
    ∃ fuel t m, step = ⟨fuel + 1, .stmt t, m⟩ ∧ name ∈ t.declared ∧ m.chain.head? = some scope := by
  have inClass {n : Machine} {token : Token} {superclass : Option Class} {methods : List FunctionDecl}
      (declares : step.Declares n token superclass methods) (head : n.chain.head? = some scope)
      (same : token.lexeme = name) :
      ∃ fuel t m, step = ⟨fuel + 1, .stmt t, m⟩ ∧ name ∈ t.declared ∧ m.chain.head? = some scope := by
    have chain := (declares.scene life happens).1
    rw [chain] at head
    cases declares <;> exact ⟨_, _, _, rfl, List.mem_singleton.2 same.symm, head⟩
  cases effect with
  | @assign fuel id token value m v n target first found =>
    obtain ⟨rfl, same⟩ := binds
    exact .inl ⟨fuel, id, token, value, m, n, v, rfl, same, first, found, rfl⟩
  | get | set | super | allocate | initializer | body | block | parent => cases binds
  | undefined | function =>
    exact .inr ⟨_, _, _, rfl, List.mem_singleton.2 binds.2.symm, binds.1⟩
  | define first =>
    have chain := (life.evaluated (happens_closed chunks _ _ happens .varDecl) first).1
    exact .inr ⟨_, _, _, rfl, List.mem_singleton.2 binds.2.symm, chain ▸ binds.1⟩
  | className declares => exact .inr (inClass declares binds.1 binds.2)
  | class_ declares found =>
    obtain ⟨-, first, outer, chain, known⟩ := declares.scene life happens
    rw [chain, Store.holder_define known] at found
    obtain ⟨rfl, same⟩ := binds
    cases found
    exact .inr (inClass declares (by rw [chain]; rfl) same)

theorem Deed.contains_leaves (write : d.isWrite = true) (known : scope < u.scopes.size)
    (bound : d.Binds scope name → (u.bindings scope).contains name = true) :
    ((d.leaves u).bindings scope).contains name = (u.bindings scope).contains name := by
  by_cases binds : d.Binds scope name
  · have insert (w : Value) : ((u.bind scope name w).bindings scope).contains name = true := by
      rw [Store.bindings_bind, if_pos ⟨rfl, known⟩, Table.contains, Table.get?_insert_self]
      rfl
    rw [bound binds]
    cases d with
    | bind target key w =>
      obtain ⟨rfl, rfl⟩ := binds
      exact insert w
    | define chain key w =>
      cases chain with
      | nil => cases binds.1
      | cons target outer =>
        obtain ⟨same, rfl⟩ := binds
        obtain rfl := Option.some.inj same
        exact insert w
    | _ => cases binds
  · rw [Table.contains, Deed.get?_leaves binds write known, Table.contains]

/-! ### What is assigned to -/

theorem Store.holder_holds (found : u.holder chain name = .ok scope) :
    scope ∈ chain ∧ (u.bindings scope).contains name = true := by
  unfold Store.holder Store.holder? at found
  split at found
  · rename_i first holds
    cases found
    exact ⟨List.mem_of_find?_eq_some holds,
      List.find?_some (p := fun k => (u.bindings k).contains name) holds⟩
  · cases found

theorem Store.ancestor_ok_iff {distance : Nat} :
    Store.ancestor chain distance name = .ok scope ↔ chain[distance]? = some scope := by
  unfold Store.ancestor
  cases chain[distance]? <;> simp

/-- A name that is assigned to is bound already, if the scope is not the innermost one. -/
theorem Session.Life.target_bound (life : Life chunks s) {fuel : Nat} {id : ExprId} {token : Token}
    {value : Expr} {v : Value} (happens : Happens chunks ⟨fuel + 1, .expr (.assign id token value), m⟩)
    (first : Run.evaluate fuel value m = .ok v n) (found : Step.target n id token = .ok scope) :
    (n.store.bindings scope).contains token.lexeme = true ∨
      m.distances[id]? = some 0 ∧ m.chain.head? = some scope := by
  obtain ⟨R, q, ready, inside, formed⟩ := life.step_sound happens
  have kept := ((Run.runs_safe fuel).1 value q m ready inside.1 formed.2).ok first
  have ready' := ready.kept kept.1
  unfold Step.target at found
  rw [kept.1.distances] at found
  cases recorded : m.distances[id]? with
  | none =>
    rw [recorded] at found
    exact .inl (Store.holder_holds found).2
  | some d =>
    rw [recorded] at found
    have at_ := Store.ancestor_ok_iff.1 found
    cases d with
    | zero =>
      rw [kept.1.chain, ← List.head?_eq_getElem?] at at_
      exact .inr ⟨rfl, at_⟩
    | succ d =>
      have distance := ready.sound.distances id _ inside.2.2
      obtain ⟨frame, inFrames, defined⟩ := inside.2.1 d (distance.symm.trans recorded)
      obtain ⟨other, at', w, bound, -⟩ := ready'.chain.found inFrames defined
      obtain rfl := Option.some.inj (at_.symm.trans at')
      exact .inl (Table.contains_iff.2 ⟨w, bound⟩)

end

end Lox
