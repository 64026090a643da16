import Lox.Evaluation
import Lox.Proofs.Stateful
import Lox.Proofs.Stores

/-!
What the declaration of a class does, step by step: it always makes its class.
-/

namespace Lox

/-- The store in which the methods of a class are declared. -/
def Store.forMethods (s : Store) : Option Class → Store
  | none => s
  | some c => s.addScope (Table.empty.insert "super" (.class_ c))

/-- The scopes that the methods of a class are declared in. -/
def Store.methodChain (s : Store) (chain : Chain) : Option Class → Chain
  | none => chain
  | some _ => s.scopes.size :: chain

/-- The class that a declaration makes. -/
def Machine.declared (m : Machine) (name : Token) (superclass : Option Class)
    (methods : List FunctionDecl) : Class :=
  let chain := (m.store.define m.chain name.lexeme .nil).methodChain m.chain superclass
  ⟨m.nextIdentity, name.lexeme, superclass, Run.methodTable chain methods⟩

namespace Store

variable {s : Store}

/-- After its definition in the innermost scope a name is found there. -/
theorem holder_define {scope : ScopeId} (known : scope < s.scopes.size) (outer : Chain)
    (name : String) (v : Value) (superclass : Option Class) :
    ((s.define (scope :: outer) name v).forMethods superclass).holder (scope :: outer) name =
      .ok scope := by
  have held : (((s.define (scope :: outer) name v).forMethods superclass).bindings scope).contains
      name = true := by
    have defined : ((s.define (scope :: outer) name v).bindings scope).contains name = true := by
      simp [define, bindings_bind, known, Table.contains, Table.get?_insert_self]
    cases superclass with
    | none => exact defined
    | some c =>
      have size : (s.define (scope :: outer) name v).scopes.size = s.scopes.size := size_bind ..
      rw [forMethods, bindings_addScope, size, if_neg (Nat.ne_of_lt known)]
      exact defined
  simp [holder, holder?, held]

end Store

namespace Run

variable {α : Type} {m : Machine}

theorem ask_ok {line : Nat} {g : Machine → Except RuntimeCause α} {a : α} (answer : g m = .ok a) :
    ask line g m = .ok a m := by
  refine bind_ok_iff.2 ⟨g m, m, rfl, ?_⟩
  rw [answer]
  rfl

theorem ask_error {line : Nat} {g : Machine → Except RuntimeCause α} {cause : RuntimeCause}
    (answer : g m = .error cause) : ask line g m = .error (.runtime ⟨line, cause⟩) m := by
  refine bind_error_iff.2 (Or.inr ⟨g m, m, rfl, ?_⟩)
  rw [answer]
  rfl

theorem methodChain_ok (superclass : Option Class) :
    methodChain superclass m = .ok (m.store.methodChain m.chain superclass)
      { m with store := m.store.forMethods superclass } := by
  refine bind_ok_iff.2 ⟨m.chain, m, rfl, ?_⟩
  cases superclass with
  | none => rfl
  | some c =>
    refine bind_ok_iff.2 ⟨m.store.scopes.size, _, ?_, rfl⟩
    simp only [newScope, Store.lastScope_addScope, Store.forMethods]

/-- A declaration always makes its class, and binds it in the innermost scope. -/
theorem declareClass_ok {scope : ScopeId} {outer : Chain} (head : m.chain = scope :: outer)
    (known : scope < m.store.scopes.size) (name : Token) (superclass : Option Class)
    (methods : List FunctionDecl) :
    declareClass name superclass methods m = .ok () { m with
      store := ((m.store.define m.chain name.lexeme .nil).forMethods superclass).bind scope
        name.lexeme (.class_ (m.declared name superclass methods))
      nextIdentity := m.nextIdentity + 1 } := by
  have found := Store.holder_define known outer name.lexeme .nil superclass
  rw [← head] at found
  refine bind_ok_iff.2 ⟨(), _, rfl, ?_⟩
  refine bind_ok_iff.2 ⟨_, _, methodChain_ok superclass, ?_⟩
  refine bind_ok_iff.2 ⟨m.nextIdentity, _, rfl, ?_⟩
  exact bind_ok_iff.2 ⟨scope, _, ask_ok found, rfl⟩

end Run

end Lox
