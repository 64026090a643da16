import Mathlib
import Lox.Proofs.Activations
import Lox.Proofs.Binders

/-!
What a call leaves alone: it adds no name to a scope that is older than itself, and it changes a
variable there only by an assignment in a function or method that stands in the scope of the
variable.
-/

namespace Lox

open Enclosure (functionOf)
open Session (Happens Life happens_closed since_of_becomes)

/-- The scopes of the chain are not older than this, up to one that a function has. -/
def Fresh (chunks : List Chunk) (old : Nat) (chain : Chain) : Prop :=
  ∃ (inner : Chain) (k : ScopeId) (outer : Chain) (f : FunctionDecl), chain = inner ++ k :: outer ∧
    Activation chunks (.function f) k ∧ ∀ scope ∈ inner ++ [k], old ≤ scope

/-- In the text of the scope there is a function or method, or several, in which an assignment is to
this variable of the scope: the distance recorded for it is that of the scope. -/
def Session.AssignsWithin (chunks : List Chunk) (s : Session) (extent : Extent) (name : String) : Prop :=
  ∃ c ∈ chunks, c.session.Accepts c.source ∧ ∃ inner e outer t whole id token value,
    Occurs (c.session.program c.source) (inner ++ e :: outer) t ∧ e.extent? = some extent ∧
      functionOf inner ≠ .outside ∧ whole ∈ t.exprs ∧ .assign id token value ∈ whole.parts ∧
        token.lexeme = name ∧ s.machine.distances[id]? = some (Enclosure.depth inner)

/-- The store as it is somewhere in the course of the step. -/
def Step.Course (step : Step) (u : Store) : Prop :=
  ∃ part, step.Reaches part ∧ (u = part.machine.store ∨ u = part.finish.store)

section

variable {chunks : List Chunk} {s : Session} {step part call : Step} {old : Nat} {chain : Chain}
  {d : Deed} {u : Store} {scope : ScopeId} {name : String}

/-! ### Scopes inside of a call -/

theorem Fresh.head (fresh : Fresh chunks old chain) (first : chain.head? = some scope) : old ≤ scope := by
  obtain ⟨inner, k, outer, f, rfl, -, all⟩ := fresh
  cases inner with
  | nil => exact Option.some.inj first ▸ all k (List.mem_append_right _ (List.mem_singleton.2 rfl))
  | cons own inner => exact Option.some.inj first ▸ all own List.mem_cons_self

/-- Whatever runs in the course of a call runs in scopes that are not older than the call. -/
theorem Session.Life.fresh_inside (life : Life chunks s) (happens : Happens chunks call)
    (isCall : call.task.isCall = true) (reaches : call.Reaches step) :
    step.task.isCall = true ∨ Fresh chunks call.machine.store.scopes.size step.machine.chain := by
  have closed := happens_closed chunks
  induction reaches with
  | refl => exact .inl isCall
  | @tail step part reaches starts ih =>
    cases inside : part.task.isCall with
    | true => exact .inl rfl
    | false =>
      refine .inr ?_
      have happens' := Step.reaches_happens closed happens reaches
      have grown := (since_of_becomes (Step.Reaches.started closed reaches happens)).size
      cases life.enters happens' starts inside with
      | same inside' chain =>
        rcases ih with called | fresh
        · rw [called] at inside'
          cases inside'
        · exact chain ▸ fresh
      | block chain =>
        rcases ih with called | ⟨inner, k, outer, f, same, active, all⟩
        · cases called
        · refine ⟨_ :: inner, k, outer, f, ?_, active, List.forall_mem_cons.2 ⟨grown, all⟩⟩
          rw [chain, same, List.cons_append]
      | body chain =>
        exact ⟨[], _, _, _, chain, .function happens' rfl, List.forall_mem_singleton.2 grown⟩

/-! ### What is bound in older scopes -/

/-- In the course of a call only assignments bind names in scopes that are older. -/
theorem Session.Life.binds_old (life : Life chunks s) (happens : Happens chunks step)
    (fresh : step.task.isCall = true ∨ Fresh chunks old step.machine.chain) (effect : step.Effect d u)
    (binds : d.Binds scope name) (before : scope < old) :
    ∃ fuel id token value m n v, step = ⟨fuel + 1, .expr (.assign id token value), m⟩ ∧
      token.lexeme = name ∧ Run.evaluate fuel value m = .ok v n ∧
        Step.target n id token = .ok scope ∧ u = n.store ∧ Fresh chunks old m.chain := by
  rcases life.binds happens effect binds with
    ⟨fuel, id, token, value, m, n, v, rfl, same, first, found, ends⟩ | ⟨fuel, t, m, rfl, -, head⟩
  · rcases fresh with isCall | fresh
    · cases isCall
    · exact ⟨fuel, id, token, value, m, n, v, rfl, same, first, found, ends, fresh⟩
  · rcases fresh with isCall | fresh
    · cases isCall
    · exact absurd (fresh.head head) (Nat.not_le_of_lt before)

section Assigned

variable {fuel : Nat} {id : ExprId} {token : Token} {value : Expr} {m n : Machine} {v : Value}
  (life : Life chunks s) (happens : Happens chunks ⟨fuel + 1, .expr (.assign id token value), m⟩)
  (first : Run.evaluate fuel value m = .ok v n) (found : Step.target n id token = .ok scope)
  (fresh : Fresh chunks old m.chain) (before : scope < old)
include life happens first found fresh before

/-- An older activation is written to only by an assignment that stands in a function inside of the
text of the scope. -/
theorem Session.Life.assigns_within {extent : Extent} (active : Activation chunks extent scope) :
    s.AssignsWithin chunks extent token.lexeme := by
  obtain ⟨R, q, ready, inside, formed⟩ := life.step_sound happens
  have kept := ((Run.runs_safe fuel).1 value q m ready inside.1 formed.2).ok first
  obtain ⟨around, p, t, ss, whole, text, among, part, chained⟩ := (life.step_made happens).placed
  unfold Step.target at found
  rw [kept.1.distances, kept.1.chain] at found
  cases recorded : m.distances[id]? with
  | none =>
    rw [recorded] at found
    have isGlobal := List.mem_singleton.1 (Store.holder_holds found).1
    exact absurd isGlobal (Nat.ne_of_gt (active.not_global life))
  | some d =>
    rw [recorded] at found
    have at_ := Store.ancestor_ok_iff.1 found
    obtain ⟨inner, e, outer, split, isExtent, depth⟩ := chained.level life at_ active
    have now := (life.use_kept happens rfl).trans recorded
    obtain ⟨c, given, accepts, stands⟩ := text
    have occurs := stands.occurs t List.mem_cons_self
    rw [split] at occurs
    refine ⟨c, given, accepts, inner, e, outer, t, whole, id, token, value, occurs, isExtent, ?_,
      among, part, rfl, depth ▸ now⟩
    -- Otherwise the scope is one of those that the call itself has opened.
    intro direct
    obtain ⟨length, blocks⟩ := chained.blocks split direct
    obtain ⟨first, k, rest, f, chain, called, all⟩ := fresh
    rw [chain] at at_ blocks
    have far : inner.length ≤ first.length := by
      by_contra short
      obtain ⟨body, k', at', isBlock⟩ := blocks first.length (Nat.lt_of_not_le short)
      rw [List.getElem?_append_right (Nat.le_refl _), Nat.sub_self] at at'
      obtain rfl := Option.some.inj at'
      cases isBlock.unique called life
    have near : d < (first ++ [k]).length := by
      rw [List.length_append, List.length_singleton]
      omega
    rw [List.append_cons, List.getElem?_append_left near] at at_
    exact absurd (all scope (List.mem_of_getElem? at_)) (Nat.not_le_of_lt before)

end Assigned

end

/-! ### A call that leaves a variable alone -/

theorem Enclosure.depth_pos {inner : List Enclosure} (inside : functionOf inner ≠ .outside) :
    0 < Enclosure.depth inner := by
  cases inner with
  | nil => exact absurd rfl inside
  | cons e inner =>
    cases e with
    | class_ superclass => cases superclass <;> exact Nat.succ_pos _
    | _ => exact Nat.succ_pos _

/-- A call with this many scopes before it. -/
def Step.isCallAfter (scopes : Nat) (step : Step) : Bool :=
  step.task.isCall && step.machine.store.scopes.size == scopes

/-- A block with this many scopes before it. -/
def Step.isBlockAfter (scopes : Nat) : Step → Bool
  | ⟨_ + 1, .stmt (.block _), m⟩ => m.store.scopes.size == scopes
  | _ => false

theorem Step.of_isBlockAfter {scopes : Nat} {step : Step} (isBlock : step.isBlockAfter scopes = true) :
    ∃ fuel body m, step = ⟨fuel + 1, .stmt (.block body), m⟩ ∧ m.store.scopes.size = scopes := by
  obtain ⟨fuel, task, m⟩ := step
  cases fuel with
  | zero => cases isBlock
  | succ fuel =>
    cases task with
    | stmt t =>
      cases t with
      | block body => exact ⟨fuel, body, m, rfl, of_decide_eq_true isBlock⟩
      | _ => cases isBlock
    | _ => cases isBlock

namespace Session

/-- A function assigns to its parameter, but not to the variable of the block around. -/
def ownParameter : Chunk :=
  ⟨Session.initial .unlimited 0, 9, "{ var a = true; fun f(b) { b = nil; } f(a); }"⟩

theorem ownParameter_assigns (extent : Extent) (name : String) :
    ¬ ownParameter.after.AssignsWithin [ownParameter] extent name := by
  rintro ⟨c, given, -, inner, e, outer, t, whole, id, token, value, occurs, -, inside, among, part, -,
    recorded⟩
  obtain rfl := List.mem_singleton.1 given
  have member : id ∈ Stmt.idsList (ownParameter.session.program ownParameter.source) :=
    Node.id_mem ⟨_, t, whole, occurs, among, part⟩
  have nearest : ∀ id ∈ Stmt.idsList (ownParameter.session.program ownParameter.source),
      ∀ d ∈ ownParameter.after.machine.distances[id]?, d = 0 := by decide +kernel
  exact absurd (nearest id member _ recorded) (Nat.ne_of_gt (Enclosure.depth_pos inside))

end Session

end Lox
