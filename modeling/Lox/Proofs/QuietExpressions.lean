import Mathlib
import Lox.Proofs.AlignedOperations
import Lox.Proofs.Effects
import Lox.Proofs.FullSinks

/-!
Expressions that print nothing. Only statements print, and an expression executes statements only
where it calls a function or a class. As long as no name is bound to one, evaluation leaves the sink
as it is and binds nothing but plain values.
-/

namespace Lox

/-- No name is bound to a function, a class or an object. -/
def Store.Plain (s : Store) : Prop :=
  ∀ scope name v, (s.bindings scope).get? name = some v → v.isPlain = true

namespace Store.Plain

variable {s : Store} {chain : Chain} {name : String} {v : Value}

theorem bind (plain : s.Plain) (scope : ScopeId) (name : String) (value : v.isPlain = true) :
    (s.bind scope name v).Plain := by
  intro other key w found
  rcases get?_bind_cases s found with rfl | before
  · exact value
  · exact plain other key w before

theorem getAt (plain : s.Plain) {distance : Nat} (read : s.getAt chain distance name = .ok v) :
    v.isPlain = true := by
  obtain ⟨scope, -, bound⟩ := Store.getAt_ok read
  exact plain scope name v bound

theorem get (plain : s.Plain) (read : s.get chain name = .ok v) : v.isPlain = true := by
  obtain ⟨scope, -, bound⟩ := Store.get_ok read
  exact plain scope name v bound

end Store.Plain

namespace Run

variable {α β : Type} {fits : α → Prop} {gives : β → Prop} {x : Run α} {f : α → Run β}

/-- Begun where only plain values are bound, the computation prints nothing; and if it succeeds, only
plain values are bound afterwards, and what it gives fits. -/
def Quiet (fits : α → Prop) (x : Run α) : Prop :=
  ∀ m, m.store.Plain → (stateOf (x m)).sink = m.sink ∧
    ∀ a n, x m = .ok a n → n.store.Plain ∧ fits a

/-- A quiet computation that gives a plain value. -/
abbrev QuietValue (x : Run Value) : Prop := Quiet (fun v => v.isPlain = true) x

namespace Quiet

theorem pure {a : α} (good : fits a) : Quiet fits (Pure.pure a) := by
  rintro m plain
  refine ⟨rfl, fun b n run => ?_⟩
  cases run
  exact ⟨plain, good⟩

theorem raise (line : Nat) (cause : RuntimeCause) : Quiet fits (Run.raise line cause) :=
  fun _ _ => ⟨rfl, fun _ _ run => nomatch run⟩

theorem outOfFuel : Quiet fits Run.outOfFuel := fun _ _ => ⟨rfl, fun _ _ run => nomatch run⟩

theorem bind (first : Quiet fits x) (second : ∀ a, fits a → Quiet gives (f a)) :
    Quiet gives (x >>= f) := by
  intro m plain
  obtain ⟨sink, given⟩ := first m plain
  cases run : x m with
  | error h n =>
    rw [run] at sink
    rw [bind_of_error run]
    exact ⟨sink, fun _ _ run => nomatch run⟩
  | ok a n =>
    rw [run] at sink
    obtain ⟨plain', good⟩ := given a n run
    obtain ⟨sink', given'⟩ := second a good n plain'
    rw [bind_of_ok run]
    exact ⟨sink'.trans sink, given'⟩

theorem ask {line : Nat} {g : Machine → Except RuntimeCause α}
    (answers : ∀ m a, m.store.Plain → g m = .ok a → fits a) : Quiet fits (Run.ask line g) := by
  intro m plain
  cases answer : g m with
  | ok a =>
    rw [ask_ok answer]
    refine ⟨rfl, fun b n run => ?_⟩
    cases run
    exact ⟨plain, answers m a plain answer⟩
  | error cause =>
    rw [ask_error answer]
    exact ⟨rfl, fun _ _ run => nomatch run⟩

theorem observe (g : Machine → α) : Quiet (fun _ => True) (Run.observe g) := by
  intro m plain
  refine ⟨rfl, fun a n run => ?_⟩
  cases run
  exact ⟨plain, trivial⟩

theorem of_fixed {x : Run Value} (fixed : Fixed x) : QuietValue x := by
  intro m plain
  rcases fixed with ⟨r, good, run⟩ | ⟨h, run⟩ <;> rw [run]
  · refine ⟨rfl, fun a n same => ?_⟩
    cases same
    exact ⟨plain, good⟩
  · exact ⟨rfl, fun _ _ same => nomatch same⟩

end Quiet

/-! ### Operations -/

theorem lookUp_quiet (id : ExprId) (name : Token) : QuietValue (lookUp id name) := by
  apply Quiet.ask
  intro m v plain read
  split at read
  · exact plain.getAt read
  · exact plain.get read

theorem assign_quiet (id : ExprId) (name : Token) {v : Value} (good : v.isPlain = true) :
    Quiet (fun _ => True) (assign id name v) := by
  apply Quiet.bind (Quiet.ask fun _ _ _ _ => trivial)
  intro scope _ m plain
  refine ⟨rfl, fun _ n run => ?_⟩
  cases run
  exact ⟨plain.bind scope name.lexeme good, trivial⟩

/-- There is no class that a superclass could be. -/
theorem superMethod_quiet (id : ExprId) (keyword method : Token) :
    QuietValue (superMethod id keyword method) := by
  apply (Quiet.observe fun m => m.distances[id]?).bind
  intro recorded _
  cases recorded with
  | none => exact .raise _ _
  | some distance =>
    apply Quiet.bind (Quiet.ask fun m v plain read => plain.getAt read)
    intro parent good
    cases parent with
    | class_ c => cases good
    | _ => exact .raise _ _

theorem readClock_quiet : QuietValue readClock := by
  intro m plain
  refine ⟨rfl, fun v n run => ?_⟩
  cases run
  exact ⟨plain, rfl⟩

theorem callNative_quiet (native : Native) (line : Nat) (vs : List Value) :
    QuietValue (callNative native line vs) := by
  unfold callNative
  repeat' split
  all_goals first | exact readClock_quiet | exact .pure rfl | exact .raise _ _

/-! ### Expressions -/

theorem arguments_quiet {evaluate : Expr → Run Value} (quiet : ∀ e, QuietValue (evaluate e))
    (es : List Expr) : Quiet (fun _ => True) (arguments evaluate es) := by
  induction es with
  | nil => exact .pure trivial
  | cons e es ih => exact (quiet e).bind fun v _ => ih.bind fun vs _ => .pure trivial

/-- An expression prints nothing while only plain values are bound. -/
theorem evaluate_quiet (fuel : Nat) (e : Expr) : QuietValue (evaluate fuel e) := by
  induction fuel generalizing e with
  | zero => exact .outOfFuel
  | succ fuel ih =>
    cases e with
    | literal _ v =>
      cases v <;> exact .pure rfl
    | grouping _ inner => exact ih inner
    | unary _ operator operand =>
      exact (ih operand).bind fun v _ => .of_fixed (unary_fixed operator v)
    | binary _ left operator right =>
      exact (ih left).bind fun a _ => (ih right).bind fun b _ => .of_fixed (binary_fixed operator a b)
    | logical _ left operator right =>
      rw [evaluate]
      apply (ih left).bind
      intro a good
      split
      · exact .pure good
      · exact ih right
    | assign id name value =>
      exact (ih value).bind fun v good => (assign_quiet id name good).bind fun _ _ => .pure good
    | var id name => exact lookUp_quiet id name
    | call _ callee paren args =>
      rw [evaluate]
      apply (ih callee).bind
      intro f good
      cases f.arity? with
      | none => exact .raise _ _
      | some arity =>
        apply (arguments_quiet ih args).bind
        intro vs _
        split
        · exact .raise _ _
        · cases f with
          | native _ native => exact callNative_quiet native paren.line vs
          | function | class_ | object => cases good
          | _ => exact .raise _ _
    | get _ object name =>
      rw [evaluate]
      apply (ih object).bind
      intro f good
      cases f with
      | object => cases good
      | _ => exact .raise _ _
    | set _ object name value =>
      rw [evaluate]
      apply (ih object).bind
      intro f good
      cases f with
      | object => cases good
      | _ => exact .raise _ _
    | this id keyword => exact lookUp_quiet id keyword
    | super id keyword method => exact superMethod_quiet id keyword method
    | comma _ left right => exact (ih left).bind fun _ _ => ih right
    | ternary _ condition yes no =>
      rw [evaluate]
      apply (ih condition).bind
      intro v _
      split
      · exact ih yes
      · exact ih no

end Run

/-- At the beginning the natives alone are bound. -/
theorem Machine.initial_plain (sink : Sink) (clock : Nat) :
    (Machine.initial sink clock).store.Plain := by
  have empty : (Store.empty.addScope Table.empty).Plain := by
    intro scope name v found
    rw [Store.bindings_addScope] at found
    split at found <;> cases found
  have clock_ := empty.bind 0 "clock" (v := .native 0 ⟨"clock", .clock⟩) rfl
  exact clock_.bind 0 "assert_equal" (v := .native 1 ⟨"assert_equal", .assertEqual⟩) rfl

end Lox
