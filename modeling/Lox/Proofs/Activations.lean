import Mathlib
import Lox.Proofs.Receivers

/-!
Activations of scopes. A block, and the parameters and body of a function, have one scope for each
time that they are entered. Along a chain every such scope lies as far out as the text says.
-/

namespace Lox

open Enclosure (functionOf)
open Session (Happens Life)

/-- The text of a scope that variables can be declared in. -/
inductive Extent where
  | block (body : List Stmt)
  | function (f : FunctionDecl)

namespace Enclosure

def extent? : Enclosure → Option Extent
  | block body => some (.block body)
  | function f => some (.function f)
  | method f => some (.function f)
  | class_ _ => none

/-- How many scopes these make. A class has one for `this`, and one for `super` if it has a
superclass. -/
def depth : List Enclosure → Nat
  | [] => 0
  | block _ :: around => depth around + 1
  | function _ :: around => depth around + 1
  | method _ :: around => depth around + 1
  | class_ none :: around => depth around + 1
  | class_ (some _) :: around => depth around + 2

end Enclosure

/-- The scope was opened when this text was entered. -/
inductive Activation (chunks : List Chunk) : Extent → ScopeId → Prop
  | block {fuel : Nat} {body : List Stmt} {m : Machine} {k : ScopeId}
      (opened : Happens chunks ⟨fuel + 1, .stmt (.block body), m⟩) (new : m.store.scopes.size = k) :
      Activation chunks (.block body) k
  | function {fuel line : Nat} {vs : List Value} {closure : Closure} {m : Machine} {k : ScopeId}
      (entered : Happens chunks ⟨fuel, .body line vs closure, m⟩)
      (new : m.store.scopes.size = k) : Activation chunks (.function closure.function) k

section

variable {chunks : List Chunk} {s : Session} {extent extent' : Extent} {k : ScopeId}
  {around inner : List Enclosure} {chain : Chain} {name : String} {d : Nat}

namespace Activation

/-- Neither `this` nor `super` is bound when such a scope is opened. -/
theorem opening (active : Activation chunks extent k) (life : Life chunks s)
    (keyword : name = "this" ∨ name = "super") :
    ∃ step bindings, Happens chunks step ∧ step.Opens bindings k ∧ bindings.get? name = none := by
  cases active with
  | block opened new => exact ⟨_, _, opened, new ▸ Step.Effect.block.opens, rfl⟩
  | function entered new =>
    obtain ⟨R, -, ⟨q, callable⟩, -⟩ := life.step_sound entered
    refine ⟨_, _, entered, new ▸ Step.Effect.body.opens, ?_⟩
    refine Option.eq_none_iff_forall_ne_some.2 fun v found => ?_
    rcases Table.get?_insertAll found with listed | before
    · obtain ⟨t, among, same⟩ := List.mem_map.1 (List.of_mem_zip listed).1
      exact (callable.formed.named.2 t among).differs keyword same
    · cases before

theorem not_global (active : Activation chunks extent k) (life : Life chunks s) : 0 < k := by
  cases active with
  | block happens new | function happens new =>
    obtain ⟨R, sound⟩ := life.step_sound happens
    exact new ▸ sound.global

/-- A scope is an activation of one text only. -/
theorem unique (active : Activation chunks extent k) (active' : Activation chunks extent' k)
    (life : Life chunks s) : extent = extent' := by
  have once {step other : Step} {bindings bindings' : Table Value} (happens : Happens chunks step)
      (happens' : Happens chunks other) (opens : step.Opens bindings k)
      (opens' : other.Opens bindings' k) : step = other :=
    (life.opened_once happens happens' opens opens').1
  cases active with
  | block opened new =>
    cases active' with
    | block opened' new' =>
      cases once opened opened' (new ▸ Step.Effect.block.opens) (new' ▸ Step.Effect.block.opens)
      rfl
    | function entered new' =>
      cases once opened entered (new ▸ Step.Effect.block.opens) (new' ▸ Step.Effect.body.opens)
  | function entered new =>
    cases active' with
    | block opened' new' =>
      cases once entered opened' (new ▸ Step.Effect.body.opens) (new' ▸ Step.Effect.block.opens)
    | function entered' new' =>
      cases once entered entered' (new ▸ Step.Effect.body.opens) (new' ▸ Step.Effect.body.opens)
      rfl

/-- A scope that binds `this` or `super` from the start is none of these. -/
theorem not_keyword (active : Activation chunks extent k) (life : Life chunks s)
    (keyword : name = "this" ∨ name = "super") {step : Step} {bindings : Table Value}
    (happens : Happens chunks step) (opens : step.Opens bindings k) : bindings.get? name = none := by
  obtain ⟨other, bindings', happens', opens', absent⟩ := active.opening life keyword
  rw [(life.opened_once happens happens' opens opens').2, absent]

end Activation

/-! ### Along a chain -/

/-- What is between the text and the nearest function is blocks, each with a scope of its own. -/
theorem Chained.blocks (chained : Chained chunks around chain) {outer : List Enclosure}
    (split : around = inner ++ outer) (direct : functionOf inner = .outside) :
    Enclosure.depth inner = inner.length ∧ ∀ d < inner.length, ∃ body k, chain[d]? = some k ∧
      Activation chunks (.block body) k := by
  induction chained generalizing inner with
  | global =>
    obtain ⟨rfl, -⟩ := List.append_eq_nil_iff.1 split.symm
    exact ⟨rfl, fun d inside => absurd inside (Nat.not_lt_zero d)⟩
  | @block _ body m around opened _ ih =>
    cases inner with
    | nil => exact ⟨rfl, fun d inside => absurd inside (Nat.not_lt_zero d)⟩
    | cons first inner =>
      obtain ⟨rfl, rest⟩ := List.cons.inj split
      obtain ⟨depth, active⟩ := ih rest direct
      refine ⟨congrArg (· + 1) depth, fun d inside => ?_⟩
      cases d with
      | zero => exact ⟨body, _, rfl, .block opened rfl⟩
      | succ d => exact active d (Nat.lt_of_succ_lt_succ inside)
  | function =>
    cases inner with
    | nil => exact ⟨rfl, fun d inside => absurd inside (Nat.not_lt_zero d)⟩
    | cons first inner =>
      obtain ⟨rfl, -⟩ := List.cons.inj split
      cases direct
  | method =>
    cases inner with
    | nil => exact ⟨rfl, fun d inside => absurd inside (Nat.not_lt_zero d)⟩
    | cons first inner =>
      obtain ⟨rfl, -⟩ := List.cons.inj split
      unfold functionOf at direct
      split at direct <;> cases direct

/-- An activation in the chain is one of a text around, and as far out as this text is. -/
theorem Chained.level (chained : Chained chunks around chain) (life : Life chunks s)
    (at_ : chain[d]? = some k) (active : Activation chunks extent k) :
    ∃ inner e outer, around = inner ++ e :: outer ∧ e.extent? = some extent ∧
      Enclosure.depth inner = d := by
  induction chained generalizing d with
  | global =>
    have among := List.mem_of_getElem? at_
    obtain rfl := List.mem_singleton.1 among
    exact absurd rfl (Nat.ne_of_gt (active.not_global life)).symm
  | @block _ body m around opened _ ih =>
    cases d with
    | zero =>
      obtain rfl := Option.some.inj at_
      obtain rfl := active.unique (.block opened rfl) life
      exact ⟨[], .block body, around, rfl, rfl, rfl⟩
    | succ d =>
      obtain ⟨inner, e, outer, rfl, same, depth⟩ := ih at_
      exact ⟨.block body :: inner, e, outer, rfl, same, congrArg (· + 1) depth⟩
  | @function _ _ _ closure m around entered _ ih =>
    cases d with
    | zero =>
      obtain rfl := Option.some.inj at_
      obtain rfl := active.unique (.function entered rfl) life
      exact ⟨[], .function closure.function, around, rfl, rfl, rfl⟩
    | succ d =>
      obtain ⟨inner, e, outer, rfl, same, depth⟩ := ih at_
      exact ⟨.function closure.function :: inner, e, outer, rfl, same, congrArg (· + 1) depth⟩
  | @method _ _ _ closure m n binding declaring receiver this token parent methods superclass
      around entered bound binds declared declares isMethod same scopes _ ih =>
    rw [scopes] at at_
    cases d with
    | zero =>
      obtain rfl := Option.some.inj at_
      obtain rfl := active.unique (.function entered rfl) life
      exact ⟨[], .method closure.function, _, rfl, rfl, rfl⟩
    | succ d =>
      cases d with
      | zero =>
        obtain rfl := Option.some.inj at_
        have absent := active.not_keyword life (.inl rfl) bound binds
        rw [receiverScope, Table.get?_insert_self] at absent
        cases absent
      | succ d =>
        cases parent with
        | none =>
          obtain ⟨inner, e, outer, rfl, isExtent, depth⟩ := ih at_
          refine ⟨.method closure.function :: .class_ superclass :: inner, e, outer, rfl, isExtent, ?_⟩
          cases superclass with
          | none => simp only [Enclosure.depth, depth]
          | some e => cases same
        | some c =>
          cases d with
          | zero =>
            obtain rfl := Option.some.inj at_
            have absent := active.not_keyword life (.inr rfl) declared (Step.Effect.parent declares).opens
            rw [Table.get?_insert_self] at absent
            cases absent
          | succ d =>
            obtain ⟨inner, e, outer, rfl, isExtent, depth⟩ := ih at_
            refine ⟨.method closure.function :: .class_ superclass :: inner, e, outer, rfl, isExtent, ?_⟩
            cases superclass with
            | none => cases same
            | some e => simp only [Enclosure.depth, depth]

end

end Lox
