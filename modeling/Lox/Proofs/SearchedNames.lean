import Mathlib
import Lox.Proofs.ChainNames
import Lox.Proofs.NameAccess

/-!
A search of the chain by name finds the scope that the recorded distance leads to, or the global one
if there is none: what is passed on the way does not bind the name, and the scope at the end does.
So a run may do either.
-/

namespace Lox

open Enclosure (depth functionOf)
open Session (Happens Life happens_closed)

/-! ### Searching -/

namespace Store

variable {u : Store} {first rest chain : Chain} {k : ScopeId} {name : String} {v : Value}

theorem get_append (lacks : ∀ k ∈ first, (u.bindings k).contains name = false) :
    u.get (first ++ rest) name = u.get rest name := by
  have none : (first.findSome? fun scope => (u.bindings scope).get? name) = none := by
    apply List.findSome?_eq_none_iff.2
    intro k among
    exact Option.isSome_eq_false_iff.1 (lacks k among) |> Option.isNone_iff_eq_none.1
  unfold get
  rw [List.findSome?_append, none, Option.none_or]

theorem holder_append (lacks : ∀ k ∈ first, (u.bindings k).contains name = false) :
    u.holder (first ++ rest) name = u.holder rest name := by
  have none : (first.find? fun scope => (u.bindings scope).contains name) = none := by
    apply List.find?_eq_none.2
    intro k among
    rw [lacks k among]
    exact Bool.false_ne_true
  unfold holder holder?
  rw [List.find?_append, none, Option.none_or]

theorem get_cons (bound : (u.bindings k).get? name = some v) : u.get (k :: rest) name = .ok v := by
  simp only [get, List.findSome?_cons, bound]

theorem holder_cons (bound : (u.bindings k).contains name = true) :
    u.holder (k :: rest) name = .ok k := by
  simp only [holder, holder?, List.find?_cons, bound]

/-- The global scope is at the end of a chain, and no other scope is it. -/
theorem Matches.ends {frames : List Frame} (matches_ : u.Matches chain frames) :
    ∃ first, chain = first ++ globalChain ∧ ∀ k ∈ first, 0 < k := by
  induction frames generalizing chain with
  | nil => exact ⟨[], matches_, fun _ among => nomatch among⟩
  | cons frame frames ih =>
    obtain ⟨k, outer, rfl, ⟨inner, -⟩, -, rest⟩ := matches_
    obtain ⟨first, rfl, inners⟩ := ih rest
    refine ⟨k :: first, rfl, fun j among => ?_⟩
    rcases List.mem_cons.1 among with rfl | among
    · exact inner
    · exact inners j among

end Store

/-- The scope at a distance, with those that are passed. -/
theorem Chain.split_at {chain : Chain} {d : Nat} {k : ScopeId} (at_ : chain[d]? = some k) :
    ∃ first outer, chain = first ++ k :: outer ∧ first.length = d := by
  obtain ⟨within, rfl⟩ := List.getElem?_eq_some_iff.1 at_
  refine ⟨chain.take d, chain.drop (d + 1), ?_, List.length_take_of_le (Nat.le_of_lt within)⟩
  rw [← List.drop_eq_getElem_cons within, List.take_append_drop]

theorem Run.ask_same {α : Type} {line : Nat} {f g : Machine → Except RuntimeCause α} {m : Machine}
    (same : f m = g m) : ask line f m = ask line g m := by
  apply bind_first
  unfold observe
  rw [same]

/-! ### What a search finds -/

section

variable {c : Chunk} {s : Session} {fuel : Nat} {e : Expr} {id : ExprId} {token : Token}
  {m n : Machine} {first rest : Chain}

namespace Chunk.Alone

variable (alone : c.Alone s)
include alone

/-- The value of an assignment binds no further names in the scopes in force. -/
theorem lacks_after {value : Expr} {v : Value} {k : ScopeId} {name : String}
    (happens : Happens [c] ⟨fuel + 1, .expr (.assign id token value), m⟩)
    (run : Run.evaluate fuel value m = .ok v n) (inChain : k ∈ m.chain)
    (lacks : (m.store.bindings k).contains name = false) :
    (n.store.bindings k).contains name = false := by
  have before := happens_closed [c] _ _ happens .assigned
  have adds := (alone.staged before).adds alone k (alone.life.chain_known before k inChain) name
  simp only [Step.finish, run, stateOf] at adds
  by_contra bound
  rw [Bool.not_eq_false] at bound
  rcases adds bound with held | ⟨declared, -⟩
  · rw [held] at lacks
    cases lacks
  · cases declared

variable (spare : ScopesSpare c.distance c.program)
include spare

/-- Nothing that is passed binds the name. -/
theorem lacks (happens : Happens [c] ⟨fuel, .expr e, m⟩)
    (accessed : e.variable? = some (id, token) ∨ e = .this id token)
    (split : m.chain = first ++ rest) (further : rest ≠ [])
    (nearer : ∀ d, m.distances[id]? = some d → first.length ≤ d) :
    ∀ k ∈ first, (m.store.bindings k).contains token.lexeme = false := by
  intro k among
  obtain ⟨i, at_⟩ := List.mem_iff_getElem?.1 among
  obtain ⟨within, -⟩ := List.getElem?_eq_some_iff.1 at_
  obtain ⟨q, ready, -⟩ := alone.sound happens
  obtain ⟨inners, ends, inner⟩ := ready.chain.ends
  have inChain : m.chain[i]? = some k := by
    rw [split, List.getElem?_append_left within]
    exact at_
  have inScope : 0 < k := by
    -- The global scope is the last one, and there is another one after `first`.
    apply inner
    have length := congrArg List.length (split.symm.trans ends)
    rw [List.length_append, List.length_append] at length
    have others := List.length_pos_iff.2 further
    have one : globalChain.length = 1 := rfl
    rw [ends, List.getElem?_append_left (by omega)] at inChain
    exact List.mem_of_getElem? inChain
  apply alone.unbound spare happens accessed inChain inScope
  intro d found
  exact Nat.lt_of_lt_of_le within (nearer d found)

/-- Scopes that do not bind the name, and then the one that it belongs to. -/
theorem passes (happens : Happens [c] ⟨fuel, .expr e, m⟩)
    (accessed : e.variable? = some (id, token) ∨ e = .this id token)
    (inside : ∀ d, m.distances[id]? = some d → ∃ k, m.chain[d]? = some k) :
    ∃ first rest, m.chain = first ++ rest ∧
      (∀ k ∈ first, (m.store.bindings k).contains token.lexeme = false) ∧
        (m.distances[id]? = none ∧ rest = globalChain ∨
          ∃ d k outer, m.distances[id]? = some d ∧ m.chain[d]? = some k ∧ rest = k :: outer) := by
  cases recorded : m.distances[id]? with
  | none =>
    obtain ⟨q, ready, -⟩ := alone.sound happens
    obtain ⟨first, ends, -⟩ := ready.chain.ends
    refine ⟨first, globalChain, ends, ?_, .inl ⟨rfl, rfl⟩⟩
    apply alone.lacks spare happens accessed ends (List.cons_ne_nil _ _)
    intro d known
    cases recorded.symm.trans known
  | some d =>
    obtain ⟨k, at_⟩ := inside d recorded
    obtain ⟨first, outer, split, length⟩ := Chain.split_at at_
    refine ⟨first, k :: outer, split, ?_, .inr ⟨d, k, outer, rfl, at_, rfl⟩⟩
    apply alone.lacks spare happens accessed split (List.cons_ne_nil _ _)
    intro d' known
    cases recorded.symm.trans known
    exact Nat.le_of_eq length

/-- A name is read from the same scope. -/
theorem lookUp_same (happens : Happens [c] ⟨fuel, .expr e, m⟩)
    (accessed : e.variable? = some (id, token) ∨ e = .this id token)
    (found : ∀ d, m.distances[id]? = some d → ∃ v, m.store.getAt m.chain d token.lexeme = .ok v) :
    Access.searched.lookUp id token m = Run.lookUp id token m := by
  have inside (d : Nat) (recorded : m.distances[id]? = some d) : ∃ k, m.chain[d]? = some k := by
    obtain ⟨v, read⟩ := found d recorded
    obtain ⟨k, at_, -⟩ := Store.getAt_ok read
    exact ⟨k, at_⟩
  obtain ⟨first, rest, split, lacks, end_⟩ := alone.passes spare happens accessed inside
  apply Run.ask_same
  rcases end_ with ⟨none, rfl⟩ | ⟨d, k, outer, recorded, at_, rfl⟩
  · rw [none, split]
    exact Store.get_append lacks
  · obtain ⟨v, read⟩ := found d recorded
    obtain ⟨k', at', bound⟩ := Store.getAt_ok read
    obtain rfl := Option.some.inj (at_.symm.trans at')
    rw [recorded]
    calc m.store.get m.chain token.lexeme
        = m.store.get (k :: outer) token.lexeme := by rw [split, Store.get_append lacks]
      _ = .ok v := Store.get_cons bound
      _ = m.store.getAt m.chain d token.lexeme := read.symm

/-- A name is overwritten in the same scope. -/
theorem assign_same {value : Expr} {v : Value}
    (happens : Happens [c] ⟨fuel + 1, .expr (.assign id token value), m⟩)
    (run : Run.evaluate fuel value m = .ok v n) :
    Access.searched.assign id token v n = Run.assign id token v n := by
  obtain ⟨held, kept⟩ := (alone.sound happens).answered
  obtain ⟨chain, distances⟩ := kept v n run
  have inside (d : Nat) (recorded : m.distances[id]? = some d) : ∃ k, m.chain[d]? = some k := by
    obtain ⟨k, target⟩ := held d recorded
    exact ⟨k, Store.ancestor_ok_iff.1 target⟩
  obtain ⟨first, rest, split, lacks, end_⟩ := alone.passes spare happens (.inl rfl) inside
  have lack : ∀ k ∈ first, (n.store.bindings k).contains token.lexeme = false := by
    intro k among
    apply alone.lacks_after happens run _ (lacks k among)
    rw [split]
    exact List.mem_append_left _ among
  apply bind_first
  apply Run.ask_same
  rw [distances, chain]
  rcases end_ with ⟨none, rfl⟩ | ⟨d, k, outer, recorded, at_, rfl⟩
  · rw [none, split]
    exact Store.holder_append lack
  · have target : Store.ancestor m.chain d token.lexeme = .ok k := Store.ancestor_ok_iff.2 at_
    have bound : (n.store.bindings k).contains token.lexeme = true := by
      apply (alone.staged happens).assign_bound alone run
      simp only [Step.target, distances, recorded, chain]
      exact target
    rw [recorded]
    calc n.store.holder m.chain token.lexeme
        = n.store.holder (k :: outer) token.lexeme := by rw [split, Store.holder_append lack]
      _ = .ok k := Store.holder_cons bound
      _ = Store.ancestor m.chain d token.lexeme := target.symm

/-- At every step of the run a search comes to the same as the recorded distance. -/
theorem agrees {step : Step} (happens : Happens [c] step) : step.AgreesWith .searched := by
  obtain ⟨fuel, task, m⟩ := step
  have answered := (alone.sound happens).answered
  cases task with
  | expr e =>
    cases e with
    | var id name =>
      apply alone.lookUp_same spare happens (.inl rfl)
      intro d recorded
      obtain ⟨-, v, -, read⟩ := answered d recorded
      exact ⟨v, read⟩
    | this id keyword =>
      apply alone.lookUp_same spare happens (.inr rfl)
      intro d recorded
      obtain ⟨d', -, v, recorded', -, read⟩ := answered
      cases recorded.symm.trans recorded'
      exact ⟨v, read⟩
    | assign id name value =>
      cases fuel with
      | zero => trivial
      | succ fuel =>
        intro v n run
        exact alone.assign_same spare happens run
    | _ => trivial
  | _ => trivial

end Chunk.Alone

end

/-! ### Deciding what is spared -/

/-- What stands directly in the statement, inside of these. -/
def Stmt.children (around : List Enclosure) : Stmt → List (List Enclosure × Stmt)
  | .block body => body.map (.block body :: around, ·)
  | .ifThen _ yes => [(around, yes)]
  | .ifElse _ yes no => [(around, yes), (around, no)]
  | .whileLoop _ body => [(around, body)]
  | .funDecl f => f.body.map (.function f :: around, ·)
  | .classDecl _ superclass methods =>
      methods.flatMap fun f => f.body.map (.method f :: .class_ superclass :: around, ·)
  | _ => []

/-- The statements of a program that so many others lie around of. -/
def Stmt.level (program : List Stmt) : Nat → List (List Enclosure × Stmt)
  | 0 => program.map ([], ·)
  | n + 1 => (Stmt.level program n).flatMap fun place => place.2.children place.1

theorem Occurs.level {program : List Stmt} {around : List Enclosure} {s : Stmt}
    (occurs : Occurs program around s) : ∃ n, (around, s) ∈ Stmt.level program n := by
  have next {around around' : List Enclosure} {s t : Stmt}
      (outer : ∃ n, (around, s) ∈ Stmt.level program n) (child : (around', t) ∈ s.children around) :
      ∃ n, (around', t) ∈ Stmt.level program n := by
    obtain ⟨n, at_⟩ := outer
    exact ⟨n + 1, List.mem_flatMap.2 ⟨_, at_, child⟩⟩
  induction occurs with
  | top among => exact ⟨0, List.mem_map_of_mem among⟩
  | block _ among ih => exact next ih (List.mem_map_of_mem among)
  | function _ among ih => exact next ih (List.mem_map_of_mem among)
  | ifThen _ ih => exact next ih List.mem_cons_self
  | ifElseYes _ ih => exact next ih List.mem_cons_self
  | ifElseNo _ ih => exact next ih (List.mem_cons_of_mem _ List.mem_cons_self)
  | whileLoop _ ih => exact next ih List.mem_cons_self
  | method _ isMethod among ih =>
    exact next ih (List.mem_flatMap.2 ⟨_, isMethod, List.mem_map_of_mem among⟩)

theorem Stmt.level_empty {program : List Stmt} {n : Nat} (deepest : Stmt.level program n = [])
    (k : Nat) : Stmt.level program (n + k) = [] := by
  induction k with
  | zero => exact deepest
  | succ k ih =>
    rw [← Nat.add_assoc, level, ih]
    rfl

/-- All statements of a program that has no more than so many levels. -/
def Stmt.places (program : List Stmt) (n : Nat) : List (List Enclosure × Stmt) :=
  (List.range n).flatMap (Stmt.level program)

theorem Occurs.place {program : List Stmt} {around : List Enclosure} {s : Stmt} {n : Nat}
    (occurs : Occurs program around s) (deepest : Stmt.level program n = []) :
    (around, s) ∈ Stmt.places program n := by
  obtain ⟨k, at_⟩ := occurs.level
  have within : k < n := by
    by_contra beyond
    obtain ⟨j, rfl⟩ := Nat.exists_eq_add_of_le (Nat.le_of_not_lt beyond)
    rw [Stmt.level_empty deepest] at at_
    cases at_
  exact List.mem_flatMap.2 ⟨k, List.mem_range.2 within, at_⟩

theorem InitializersSpare.of_places {program : List Stmt} {n : Nat}
    (deepest : Stmt.level program n = [])
    (each : ∀ place ∈ Stmt.places program n, place.1.isEmpty = true ∨
      ∀ name ∈ place.2.declared, ∀ whole ∈ place.2.exprs, ∀ e ∈ whole.parts,
        ∀ use ∈ e.variable?.toList, use.2.lexeme ≠ name) : InitializersSpare program := by
  intro around name e occurs inScope id token value inside
  rcases each _ (occurs.place deepest) with outermost | spared
  · exact absurd (List.isEmpty_iff.1 outermost) inScope
  · exact spared name.lexeme List.mem_cons_self e List.mem_cons_self _ inside (id, token)
      List.mem_cons_self


/-- The others do not declare what the statement captures. -/
def Stmt.SparedBy (distance : ExprId → Option Nat) (n : Nat) (others : List Stmt) (t : Stmt) :
    Prop :=
  Stmt.level [t] n = [] ∧ ∀ place ∈ Stmt.places [t] n, functionOf place.1 = .outside ∨
    ∀ whole ∈ place.2.exprs, ∀ e ∈ whole.parts, ∀ use ∈ e.variable?.toList,
      (∃ d ∈ (distance use.1).toList, d ≤ depth place.1) ∨
        ∀ other ∈ others, use.2.lexeme ∉ other.declared

instance (distance : ExprId → Option Nat) (n : Nat) (others : List Stmt) (t : Stmt) :
    Decidable (t.SparedBy distance n others) :=
  inferInstanceAs (Decidable (_ ∧ ∀ place ∈ Stmt.places [t] n, _ ∨ ∀ whole ∈ _, ∀ e ∈ _, _))

theorem ScopesSpare.of_places {distance : ExprId → Option Nat} {program : List Stmt} {n : Nat}
    (deepest : Stmt.level program n = [])
    (each : ∀ place ∈ Stmt.places program n, ∀ e ∈ place.1.head?.toList, ∀ rest ∈ e.stmts.tails,
      ∀ t ∈ rest.head?.toList, t.SparedBy distance n rest.tail) : ScopesSpare distance program := by
  rintro e outer before t after occurs split name
    ⟨inner, u, whole, part, id, token, occurs', inFunction, among, inside, isVariable, rfl, outside⟩
  have suffix : t :: after ∈ e.stmts.tails := by
    rw [List.mem_tails, split]
    exact List.suffix_append before _
  obtain ⟨shallow, spared⟩ := each _ (occurs.place deepest) e List.mem_cons_self _ suffix t
    List.mem_cons_self
  rcases spared _ (occurs'.place shallow) with direct | spared
  · exact absurd direct inFunction
  · have use : (id, token) ∈ part.variable?.toList := Option.mem_toList.2 isVariable
    rcases spared whole among part inside (id, token) use with ⟨d, known, near⟩ | apart
    · exact absurd (outside d (Option.mem_toList.1 known)) (Nat.not_lt.2 near)
    · exact apart

/-! ### Runs that search -/

/-- A local `a` beside a method that uses the global one. -/
def shadowedGlobal : String :=
  "var a = 1; \x7b class C \x7b m() \x7b this.n = a; return this; \x7d \x7d " ++
    "var b = C(); \x7b var a = b.m(); b = a.n; \x7d \x7d"

/-- With a name that is declared after the function a search finds another value. -/
example :
    let late := "var a = 1; \x7b fun f() \x7b print a; \x7d var a = 2; f(); \x7d"
    let s := Session.initial .unlimited 0
    (s.runBy .searched 50 late).2.machine.sink.bytes = "2\n".toUTF8.data ∧
      (s.run 50 late).2.machine.sink.bytes = "1\n".toUTF8.data := by
  decide +kernel

end Lox
