import Mathlib
import Lox.Proofs.ActivationNames

/-!
Which names the scopes of a chain can bind at all. An activation binds names that its text declares,
the scopes of a class bind `this` and `super`. A scope further in than that of a name does not bind
the name when it is used, unless a function was declared before the scope got the name.
-/

namespace Lox

open Enclosure (depth functionOf)
open Scoping (distance?)
open Session (Happens Life Since happens_closed since_of_becomes)

/-- The token of a variable that is read or assigned to, with the id of the use. -/
def Expr.variable? : Expr → Option (ExprId × Token)
  | .assign id name _ => some (id, name)
  | .var id name => some (id, name)
  | _ => none

/-- A function or method inside of the statement mentions a variable of this name that is bound
outside of the scope that the statement stands in, as told by the distances. -/
def Stmt.Captures (distance : ExprId → Option Nat) (t : Stmt) (name : String) : Prop :=
  ∃ inner u whole e id token, Occurs [t] inner u ∧ functionOf inner ≠ .outside ∧ whole ∈ u.exprs ∧
    e ∈ whole.parts ∧ e.variable? = some (id, token) ∧ token.lexeme = name ∧
      ∀ d, distance id = some d → depth inner < d

/-- No scope but the global one declares a name that is captured before in the scope. -/
def ScopesSpare (distance : ExprId → Option Nat) (program : List Stmt) : Prop :=
  ∀ e outer before t after, Occurs program (e :: outer) t → e.stmts = before ++ t :: after →
    ∀ name, t.Captures distance name → ∀ later ∈ after, name ∉ later.declared

/-! ### The scopes of a chain -/

/-- What the scope at a distance in the chain is, for text inside of these. -/
inductive ScopeAt (chunks : List Chunk) (around : List Enclosure) : Nat → ScopeId → Prop
  | global {i : Nat} : ScopeAt chunks around i 0
  | activation {inner outer : List Enclosure} {e : Enclosure} {extent : Extent} {k : ScopeId}
      (split : around = inner ++ e :: outer) (isExtent : e.extent? = some extent)
      (active : Activation chunks extent k) : ScopeAt chunks around (depth inner) k
  | this {inner outer : List Enclosure} {superclass : Option Expr} {opening : Step}
      {receiver : Value} {k : ScopeId} (split : around = inner ++ .class_ superclass :: outer)
      (happens : Happens chunks opening) (opens : opening.Opens (receiverScope receiver) k) :
      ScopeAt chunks around (depth inner) k
  | super {i : Nat} {opening : Step} {parent : Class} {k : ScopeId}
      (happens : Happens chunks opening)
      (opens : opening.Opens (Table.empty.insert "super" (.class_ parent)) k) :
      ScopeAt chunks around i k

theorem Enclosure.depth_append (inner outer : List Enclosure) :
    depth (inner ++ outer) = depth inner + depth outer := by
  induction inner with
  | nil => exact (Nat.zero_add _).symm
  | cons e inner ih =>
    rcases e with body | f | f | superclass
    · simp only [List.cons_append, depth, ih]; omega
    · simp only [List.cons_append, depth, ih]; omega
    · simp only [List.cons_append, depth, ih]; omega
    · cases superclass <;> simp only [List.cons_append, depth, ih] <;> omega

section

variable {chunks : List Chunk} {around : List Enclosure} {chain : Chain} {i : Nat} {k : ScopeId}

theorem ScopeAt.inside (scope : ScopeAt chunks around i k) (first : List Enclosure) :
    ScopeAt chunks (first ++ around) (depth first + i) k := by
  cases scope with
  | global => exact .global
  | activation split isExtent active =>
    rw [← Enclosure.depth_append]
    exact .activation (by rw [split, List.append_assoc]) isExtent active
  | this split happens opens =>
    rw [← Enclosure.depth_append]
    exact .this (by rw [split, List.append_assoc]) happens opens
  | super happens opens => exact .super happens opens

/-- Each scope of a chain is one of these. -/
theorem Chained.scope_at (chained : Chained chunks around chain) (at_ : chain[i]? = some k) :
    ScopeAt chunks around i k := by
  induction chained generalizing i with
  | global =>
    obtain rfl := List.mem_singleton.1 (List.mem_of_getElem? at_)
    exact .global
  | @block _ body m around opened _ ih =>
    cases i with
    | zero =>
      obtain rfl := Option.some.inj at_
      exact @ScopeAt.activation _ _ [] _ _ _ _ rfl rfl (.block opened rfl)
    | succ i => exact Nat.add_comm 1 i ▸ (ih at_).inside [.block body]
  | @function _ _ _ closure m around entered _ ih =>
    cases i with
    | zero =>
      obtain rfl := Option.some.inj at_
      exact @ScopeAt.activation _ _ [] _ _ _ _ rfl rfl (.function entered rfl)
    | succ i => exact Nat.add_comm 1 i ▸ (ih at_).inside [.function closure.function]
  | @method _ _ _ closure m n binding declaring receiver this token parent methods superclass
      around entered bound binds declared declares isMethod same scopes _ ih =>
    have further {j : Nat} (at_ : n.chain[j]? = some k) :=
      (ih at_).inside [.method closure.function, .class_ superclass]
    rw [scopes] at at_
    rcases i with _ | _ | i
    · obtain rfl := Option.some.inj at_
      exact @ScopeAt.activation _ _ [] _ _ _ _ rfl rfl (.function entered rfl)
    · obtain rfl := Option.some.inj at_
      exact @ScopeAt.this _ _ [.method closure.function] _ _ _ _ _ rfl bound binds
    · cases parent with
      | none =>
        have scope := further at_
        cases superclass with
        | none => exact Nat.add_comm 2 i ▸ scope
        | some e => cases same
      | some c =>
        cases i with
        | zero =>
          obtain rfl := Option.some.inj at_
          exact .super declared (Step.Effect.parent declares).opens
        | succ i =>
          have scope := further at_
          cases superclass with
          | none => cases same
          | some e =>
            rw [show i + 1 + 1 + 1 = 3 + i by omega]
            exact scope

end

/-! ### What can be bound -/

section

variable {c : Chunk} {s : Session} {step : Step} {k : ScopeId} {name : String}

namespace Chunk.Alone

variable (alone : c.Alone s)
include alone

/-- What a scope binds it binds from the start, or a statement that runs right in it declares it. -/
theorem bound_from {N : String → Prop} {opening : Step} {bindings : Table Value}
    (opened : Happens [c] opening) (opens : opening.Opens bindings k)
    (atFirst : ∀ name, bindings.contains name = true → N name)
    (declared : ∀ fuel t m, Happens [c] ⟨fuel + 1, .stmt t, m⟩ → m.chain.head? = some k →
      ∀ name ∈ t.declared, N name)
    (happens : Happens [c] step) (known : k < step.machine.store.scopes.size)
    (bound : (step.machine.store.bindings k).contains name = true) : N name := by
  obtain ⟨u, does, rfl⟩ := opens
  have global : 0 < u.scopes.size :=
    Nat.lt_of_lt_of_le (alone.sound opened).global (opened.since_start does).size
  have since := alone.life.opened_before opened happens does known
  refine (since.keeps (P := fun t => u.scopes.size < t.scopes.size ∧
    ∀ name, (t.bindings u.scopes.size).contains name = true → N name) ?_ ⟨?_, ?_⟩).2 name bound
  · rintro t t' changes ⟨size, names⟩
    refine ⟨Nat.lt_of_lt_of_le size (Since.size (.single changes)), fun name bound => ?_⟩
    cases changes with
    | host key value =>
      rw [Store.bindings_bind, if_neg fun both => Nat.ne_of_lt global both.1] at bound
      exact names name bound
    | write writes =>
      obtain ⟨step, d, happens, write, does, rfl⟩ := writes
      by_cases binds : d.Binds u.scopes.size name
      · rcases alone.life.binds happens (does.effect write) binds with
          ⟨fuel, id, token, value, m, n, v, rfl, rfl, first, found, rfl⟩ |
          ⟨fuel, statement, m, rfl, among, head⟩
        · exact names _ ((alone.staged happens).assign_bound alone first found)
        · exact declared fuel statement m happens head name among
      · rw [Deed.contains_leaves write size fun here => absurd here binds] at bound
        exact names name bound
  · rw [Store.size_addScope]
    exact Nat.lt_succ_self _
  · intro name bound
    rw [Store.bindings_lastScope] at bound
    exact atFirst name bound

/-- The statement that runs right in a scope stands in its text. -/
theorem declares_in {fuel : Nat} {t : Stmt} {m : Machine}
    (happens : Happens [c] ⟨fuel, .stmt t, m⟩) (head : m.chain.head? = some k) (inner : 0 < k) :
    ∃ extent, Activation [c] extent k ∧ ∀ name ∈ t.declared, name ∈ extent.names := by
  obtain ⟨-, around, p, ss, stands, scene⟩ := alone.staged happens
  cases around with
  | nil =>
    have chained := scene.chained
    generalize m.chain = chain at head chained
    cases chained
    obtain rfl := Option.some.inj head
    exact absurd inner (Nat.lt_irrefl 0)
  | cons e outer =>
    obtain ⟨extent, k', rest, chain, isExtent, active⟩ := scene.chained.innermost
    rw [chain] at head
    obtain rfl := Option.some.inj head
    refine ⟨extent, active, fun name among => ?_⟩
    obtain ⟨before, ahead, frame, split, place, -⟩ := stands.direct c.program_formed
    cases place with
    | here =>
      rw [Enclosure.names_extent isExtent, split]
      exact List.mem_append_right _ (List.mem_flatMap.2
        ⟨t, List.mem_append_right _ List.mem_cons_self, among⟩)
    | branch _ _ inside =>
      rw [(inside t List.mem_cons_self).2] at among
      cases among

/-- An activation binds the names that its text declares. -/
theorem activation_names {extent : Extent} (active : Activation [c] extent k)
    (happens : Happens [c] step) (known : k < step.machine.store.scopes.size)
    (bound : (step.machine.store.bindings k).contains name = true) : name ∈ extent.names := by
  have declared : ∀ fuel t m, Happens [c] ⟨fuel + 1, .stmt t, m⟩ → m.chain.head? = some k →
      ∀ name ∈ t.declared, name ∈ extent.names := by
    intro fuel t m happens head name among
    obtain ⟨extent', active', names⟩ :=
      alone.declares_in happens head (active.not_global alone.life)
    rw [active.unique active' alone.life]
    exact names name among
  cases active with
  | block opened new =>
    subst new
    apply alone.bound_from opened Step.Effect.block.opens _ declared happens known bound
    intro name atFirst
    cases atFirst
  | @function _ _ vs closure _ _ entered new =>
    subst new
    apply alone.bound_from entered Step.Effect.body.opens _ declared happens known bound
    intro name atFirst
    rcases (Table.contains_insertAll _ _ _).1 atFirst with listed | before
    · obtain ⟨entry, among, rfl⟩ := List.mem_map.1 listed
      exact List.mem_append_left _ (List.of_mem_zip among).1
    · cases before

/-- A scope that is opened for `this` or `super` binds nothing else. -/
theorem keyword_names {keyword : String} {value : Value} {opening : Step}
    (isKeyword : keyword = "this" ∨ keyword = "super") (opened : Happens [c] opening)
    (opens : opening.Opens (Table.empty.insert keyword value) k) (happens : Happens [c] step)
    (known : k < step.machine.store.scopes.size)
    (bound : (step.machine.store.bindings k).contains name = true) : name = keyword := by
  have inner : 0 < k := by
    obtain ⟨u, does, rfl⟩ := opens
    exact Nat.lt_of_lt_of_le (alone.sound opened).global (opened.since_start does).size
  apply alone.bound_from (N := fun name => name = keyword) opened opens _ _ happens known bound
  · intro name atFirst
    rw [Table.contains_insert, Bool.or_eq_true, decide_eq_true_eq] at atFirst
    rcases atFirst with same | before
    · exact same.symm
    · cases before
  · intro fuel t m happens head
    obtain ⟨extent, active, -⟩ := alone.declares_in happens head inner
    have absent := active.not_keyword alone.life isKeyword opened opens
    rw [Table.get?_insert_self] at absent
    cases absent

end Chunk.Alone

end

/-! ### Scopes passed on the way -/

theorem Expr.variable_use {P : Token → Prop} {e : Expr} {id : ExprId} {token : Token}
    (isVariable : e.variable? = some (id, token)) (formed : e.Formed P) :
    e.use? = some (id, token) ∧ token.IsName P := by
  cases e with
  | assign =>
    cases isVariable
    exact ⟨rfl, formed.1⟩
  | var =>
    cases isVariable
    exact ⟨rfl, formed⟩
  | _ => cases isVariable

/-- The frames of scopes nearer than the one that a use belongs to do not have the name. -/
theorem Scoping.absent_nearer {frames : List Frame} {name : String} {frame : Frame} {i : Nat}
    (nearer : ∀ d, distance? frames name = some d → i < d) (at_ : frames[i]? = some frame) :
    frame.contains name = false := by
  obtain ⟨within, rfl⟩ := List.getElem?_eq_some_iff.1 at_
  by_contra has
  rw [Bool.not_eq_false] at has
  have among := List.getElem_mem within
  have found := List.findIdx_lt_length_of_exists (p := fun frame : Frame => frame.contains name)
    ⟨_, among, has⟩
  have further := nearer _ (List.findIdx?_eq_some_iff_findIdx_eq.2 ⟨found, rfl⟩)
  rw [List.not_of_lt_findIdx further] at has
  cases has

theorem Stmt.during_extends (t : Stmt) (p : Place) : (t.during p).Extends p := by
  cases t with
  | varDecl name e => exact p.hold_extends name.lexeme false
  | _ => exact .refl p

section

variable {c : Chunk} {s : Session} {around inner outer : List Enclosure} {enclosure : Enclosure}
  {extent : Extent} {p : Place} {t : Stmt} {ss : List Stmt} {whole e : Expr} {fuel i : Nat}
  {id : ExprId} {token : Token} {m : Machine} {k : ScopeId}

/-- The distances that are recorded for the program. -/
def Chunk.distance (c : Chunk) (id : ExprId) : Option Nat :=
  (c.session.bound c.source).machine.distances[id]?

namespace Chunk.Alone

variable (alone : c.Alone s)
include alone

/-- A function finds no variable in a scope that it passes, if this one spares it. -/
theorem function_passes (spare : ScopesSpare c.distance c.program)
    (happens : Happens [c] ⟨fuel, .expr e, m⟩)
    (stands : Stands c.program (inner ++ enclosure :: outer) p (t :: ss))
    (isExtent : enclosure.extent? = some extent) (inFunction : functionOf inner ≠ .outside)
    (among : whole ∈ t.exprs) (inside : e ∈ whole.parts)
    (isVariable : e.variable? = some (id, token))
    (nearer : ∀ d, distance? (t.during p).frames token.lexeme = some d → depth inner < d)
    (recorded : c.distance id = distance? (t.during p).frames token.lexeme)
    (active : Activation [c] extent k) (known : k < m.store.scopes.size) :
    (m.store.bindings k).contains token.lexeme = false := by
  by_contra bound
  rw [Bool.not_eq_false] at bound
  have nonempty : inner ≠ [] := by
    rintro rfl
    exact inFunction rfl
  have isScope : enclosure.extent? ≠ none := by
    rw [isExtent]
    exact Option.some_ne_none _
  obtain ⟨before, u, after, frame, split, occurs, at_, has⟩ :=
    stands.lies isScope c.program_formed nonempty t List.mem_cons_self
  have declared := alone.activation_names active happens known bound
  rw [Enclosure.names_extent isExtent, split, ← List.singleton_append, ← List.append_assoc,
    List.flatMap_append, ← List.append_assoc] at declared
  rcases List.mem_append.1 declared with earlier | later
  · -- The frame has it already.
    obtain ⟨frame', at', grown⟩ := t.during_extends p _ frame at_
    have absent := Scoping.absent_nearer nearer at'
    rw [grown token.lexeme (has token.lexeme earlier)] at absent
    cases absent
  · obtain ⟨u', among', declares⟩ := List.mem_flatMap.1 later
    have stays : u ∈ enclosure.stmts := by
      rw [split]
      exact List.mem_append_right _ List.mem_cons_self
    have captures : u.Captures c.distance token.lexeme := by
      refine ⟨inner, t, whole, e, id, token, occurs, inFunction, among, inside, isVariable, rfl, ?_⟩
      intro d found
      exact nearer d (recorded.symm.trans found)
    exact spare enclosure outer before u after (stands.occurs_scope u stays) split _ captures u'
      among' declares

/-- A scope nearer than the one that a variable or `this` belongs to does not bind the name. -/
theorem unbound (spare : ScopesSpare c.distance c.program)
    (happens : Happens [c] ⟨fuel, .expr e, m⟩)
    (accessed : e.variable? = some (id, token) ∨ e = .this id token)
    (at_ : m.chain[i]? = some k) (inScope : 0 < k)
    (nearer : ∀ d, m.distances[id]? = some d → i < d) :
    (m.store.bindings k).contains token.lexeme = false := by
  obtain ⟨-, around, p, t, ss, whole, stands, among, inside, scene⟩ := alone.staged happens
  have formed := (stands.formed c.program_formed).1
  have static := (((alone.resolved stands).1.during formed) whole among).part inside
  obtain ⟨q, ready, -, formedHere⟩ := alone.sound happens
  have uses : e.use? = some (id, token) := by
    rcases accessed with isVariable | rfl
    · exact (Expr.variable_use isVariable formedHere).1
    · rfl
  have recorded := (static.use uses).2
  have nearer (d : Nat) (found : distance? (t.during p).frames token.lexeme = some d) : i < d := by
    apply nearer d
    rw [ready.sound.distances id _ (static.use uses)]
    exact found
  have known := alone.life.chain_known happens k (List.mem_of_getElem? at_)
  by_contra bound
  rw [Bool.not_eq_false] at bound
  cases scene.chained.scope_at at_ with
  | global => exact absurd inScope (Nat.lt_irrefl 0)
  | @activation inner outer _ extent _ split isExtent active =>
    subst split
    by_cases direct : functionOf inner = .outside
    · -- The scope binds what the frame has.
      obtain ⟨frame, found, holds⟩ := scene.fits inner _ outer k rfl direct at_
      have absent := Scoping.absent_nearer nearer found
      rw [Table.contains_iff.2 ⟨true, (holds token.lexeme).1 bound⟩] at absent
      cases absent
    · rcases accessed with isVariable | rfl
      · have absent := alone.function_passes spare happens stands isExtent direct among inside
          isVariable nearer recorded active known
        rw [bound] at absent
        cases absent
      · obtain ⟨opening, bindings, opened, opens, absent⟩ := active.opening alone.life (.inl rfl)
        have still := alone.life.opened_with opened opens (.inl rfl) happens known
        have spelled : token.lexeme = "this" := formedHere.1.keyword formedHere.2
        obtain ⟨v, found⟩ := Table.contains_iff.1 bound
        rw [spelled] at found
        cases found.symm.trans (still.trans absent)
  | @this inner outer superclass _ _ _ split opened opens =>
    subst split
    have same := alone.keyword_names (.inl rfl) opened opens happens known bound
    rcases accessed with isVariable | rfl
    · exact (Expr.variable_use isVariable formedHere).2.ne_this same
    · obtain ⟨frame, found, has⟩ := stands.has_this c.program_formed
      obtain ⟨frame', found', grown⟩ := t.during_extends p _ frame found
      have absent := Scoping.absent_nearer nearer found'
      rw [same, grown "this" has] at absent
      cases absent
  | super opened opens =>
    have same := alone.keyword_names (.inr rfl) opened opens happens known bound
    rcases accessed with isVariable | rfl
    · exact (Expr.variable_use isVariable formedHere).2.ne_super same
    · rw [formedHere.1.keyword formedHere.2] at same
      exact absurd same (by decide)

end Chunk.Alone

end

end Lox
