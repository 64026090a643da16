import Lox.Evaluation
import Lox.Proofs.AlignedStates
import Lox.Proofs.ClassSteps
import Lox.Proofs.LikeOperations

/-!
One computation tracks another if, begun on aligned machines, both end in the same way on aligned
machines. The operations that evaluation is made of do so. Of two runs with different fuel one may
run out of it before the other ends: `slack` says which one, and it is `both` if none may.
-/

namespace Lox

/-- The runs come back to the chains they began with, and what was linked still is. -/
structure Machine.Aligned.Kept (D : TwoDistances) (w : Links) (a : Alignment) (m m' : Machine)
    (v : Links) (n n' : Machine) : Prop where
  within : w.Within v
  aligned : n.Aligned D v a n'
  left : n.chain = m.chain
  right : n'.chain = m'.chain

/-- Where both computations end, what they give is related by `A`; where they fail, they fail with
the same halt. -/
def Tracks {α : Type} (slack : Level) (D : TwoDistances) (A : Links → α → α → Prop) (w : Links)
    (a : Alignment) (m m' : Machine) (x x' : Run α) : Prop :=
  (∃ r r' n n' v, x m = .ok r n ∧ x' m' = .ok r' n' ∧ Machine.Aligned.Kept D w a m m' v n n' ∧
      A v r r') ∨
    (∃ h n n' v, x m = .error h n ∧ x' m' = .error h n' ∧ Machine.Aligned.Kept D w a m m' v n n') ∨
    (slack = .left ∧ ∃ n, x m = .error .outOfFuel n) ∨
    slack = .right ∧ ∃ n', x' m' = .error .outOfFuel n'

variable {α β : Type} {slack : Level} {D : TwoDistances} {w v u : Links} {a b : Alignment}
  {A : Links → α → α → Prop} {B : Links → β → β → Prop} {m m' n n' o o' : Machine}
  {x x' : Run α} {g g' : α → Run β}

namespace Machine.Aligned.Kept

theorem refl (aligned : m.Aligned D w a m') : Kept D w a m m' w m m' :=
  ⟨.refl w, aligned, rfl, rfl⟩

theorem trans (first : Kept D w a m m' v n n') (second : Kept D v a n n' u o o') :
    Kept D w a m m' u o o' :=
  ⟨first.within.trans second.within, second.aligned, second.left.trans first.left,
    second.right.trans first.right⟩

end Machine.Aligned.Kept

open Machine.Aligned (Kept)

namespace Tracks

theorem of_ok {r r' : α} (run : x m = .ok r n) (run' : x' m' = .ok r' n')
    (kept : Kept D w a m m' v n n') (given : A v r r') : Tracks slack D A w a m m' x x' :=
  .inl ⟨r, r', n, n', v, run, run', kept, given⟩

theorem of_error {h : Halt} (run : x m = .error h n) (run' : x' m' = .error h n')
    (kept : Kept D w a m m' v n n') : Tracks slack D A w a m m' x x' :=
  .inr (.inl ⟨h, n, n', v, run, run', kept⟩)

theorem of_spent (run : x m = .error .outOfFuel n) : Tracks .left D A w a m m' x x' :=
  .inr (.inr (.inl ⟨rfl, n, run⟩))

theorem of_spent' (run' : x' m' = .error .outOfFuel n') : Tracks .right D A w a m m' x x' :=
  .inr (.inr (.inr ⟨rfl, n', run'⟩))

theorem bind (first : Tracks slack D A w a m m' x x')
    (second : ∀ r r' n n' v, x m = .ok r n → x' m' = .ok r' n' → Kept D w a m m' v n n' →
      A v r r' → Tracks slack D B v a n n' (g r) (g' r')) :
    Tracks slack D B w a m m' (x >>= g) (x' >>= g') := by
  rcases first with ⟨r, r', n, n', v, run, run', kept, given⟩ |
    ⟨h, n, n', v, run, run', kept⟩ | ⟨rfl, n, spent⟩ | ⟨rfl, n', spent⟩
  · rcases second r r' n n' v run run' kept given with
      ⟨q, q', o, o', u, next, next', kept', given'⟩ | ⟨h, o, o', u, next, next', kept'⟩ |
        ⟨rfl, o, spent⟩ | ⟨rfl, o', spent⟩
    · exact of_ok ((bind_of_ok run).trans next) ((bind_of_ok run').trans next')
        (kept.trans kept') given'
    · exact of_error ((bind_of_ok run).trans next) ((bind_of_ok run').trans next')
        (kept.trans kept')
    · exact of_spent ((bind_of_ok run).trans spent)
    · exact of_spent' ((bind_of_ok run').trans spent)
  · exact of_error (bind_of_error run) (bind_of_error run') kept
  · exact of_spent (bind_of_error spent)
  · exact of_spent' (bind_of_error spent)

theorem pure {r r' : α} (aligned : m.Aligned D w a m') (given : A w r r') :
    Tracks slack D A w a m m' (Pure.pure r) (Pure.pure r') :=
  of_ok rfl rfl (.refl aligned) given

theorem raise {line : Nat} {cause : RuntimeCause} (aligned : m.Aligned D w a m') :
    Tracks slack D A w a m m' (Run.raise line cause) (Run.raise line cause) :=
  of_error rfl rfl (.refl aligned)

theorem outOfFuel (aligned : m.Aligned D w a m') :
    Tracks slack D A w a m m' Run.outOfFuel Run.outOfFuel :=
  of_error rfl rfl (.refl aligned)

theorem observe {p p' : Machine → α} (aligned : m.Aligned D w a m') (given : A w (p m) (p' m')) :
    Tracks slack D A w a m m' (Run.observe p) (Run.observe p') :=
  of_ok rfl rfl (.refl aligned) given

/-- The two stores give related answers, or the same error. -/
theorem ask {line : Nat} {p p' : Machine → Except RuntimeCause α} (aligned : m.Aligned D w a m')
    (answers : (∃ r r', p m = .ok r ∧ p' m' = .ok r' ∧ A w r r') ∨
      ∃ cause, p m = .error cause ∧ p' m' = .error cause) :
    Tracks slack D A w a m m' (Run.ask line p) (Run.ask line p') := by
  rcases answers with ⟨r, r', answer, answer', given⟩ | ⟨cause, answer, answer'⟩
  · exact of_ok (Run.ask_ok answer) (Run.ask_ok answer') (.refl aligned) given
  · exact of_error (Run.ask_error answer) (Run.ask_error answer') (.refl aligned)

/-- Bodies that run in other chains. -/
theorem inChain {c c' : Chain} (aligned : m.Aligned D w a m')
    (inside : Tracks slack D A w b { m with chain := c } { m' with chain := c' } x x') :
    Tracks slack D A w a m m' (Run.inChain c x) (Run.inChain c' x') := by
  have back {n n' : Machine} {v : Links}
      (kept : Kept D w b { m with chain := c } { m' with chain := c' } v n n') :
      Kept D w a m m' v { n with chain := m.chain } { n' with chain := m'.chain } :=
    ⟨kept.within, { kept.aligned with chain := aligned.chain.later kept.within }, rfl, rfl⟩
  rcases inside with ⟨r, r', n, n', v, run, run', kept, given⟩ |
    ⟨h, n, n', v, run, run', kept⟩ | ⟨rfl, n, spent⟩ | ⟨rfl, n', spent⟩
  · exact of_ok (Run.inChain_ok run) (Run.inChain_ok run') (back kept) given
  · exact of_error (Run.inChain_error run) (Run.inChain_error run') (back kept)
  · exact of_spent (Run.inChain_error spent)
  · exact of_spent' (Run.inChain_error spent)

end Tracks

namespace Run

variable {e e' f f' : Value} {vs vs' : List Value}

/-! ### Operators and natives -/

/-- Whatever the machine, the computation gives this plain value, or it fails in this way. -/
def Fixed (x : Run Value) : Prop :=
  (∃ r, r.isPlain = true ∧ ∀ m, x m = .ok r m) ∨ ∃ h, ∀ m, x m = .error h m

theorem Fixed.tracks {x : Run Value} (fixed : x.Fixed) (aligned : m.Aligned D w a m') :
    Tracks slack D (Value.Aligned D) w a m m' x x := by
  rcases fixed with ⟨r, plain, run⟩ | ⟨h, run⟩
  · exact .of_ok (run m) (run m') (.refl aligned) (.of_plain plain)
  · exact .of_error (run m) (run m') (.refl aligned)

theorem Fixed.pure {r : Value} (plain : r.isPlain = true) : Fixed (Pure.pure r) :=
  .inl ⟨r, plain, fun _ => rfl⟩

theorem Fixed.raise (line : Nat) (cause : RuntimeCause) : Fixed (Run.raise line cause) :=
  .inr ⟨_, fun _ => rfl⟩

theorem unary_fixed (operator : Token) (e : Value) : Fixed (unary operator e) := by
  unfold unary negate
  repeat' split
  all_goals first | exact .pure rfl | exact .raise _ _

theorem binary_fixed (operator : Token) (e f : Value) : Fixed (binary operator e f) := by
  unfold binary add onNumbers arithmetic
  repeat' split
  all_goals first | exact .pure rfl | exact .raise _ _

theorem negate_same (operator : Token) (operand : e.Aligned D w e') :
    negate operator e' = negate operator e := by
  rcases operand.plain with rfl | ⟨plain, plain'⟩
  · rfl
  · rw [negate_compound plain, negate_compound plain']

theorem unary_same (operator : Token) (operand : e.Aligned D w e') :
    unary operator e' = unary operator e := by
  unfold unary
  rw [negate_same operator operand, operand.isTruthy]

/-- What is the same for all pairs with a compound value is the same for aligned pairs. -/
theorem pairs_same {op : Value → Value → Run Value} {y : Run Value}
    (compound : ∀ u v, u.isPlain = false ∨ v.isPlain = false → op u v = y)
    (left : e.Aligned D w e') (right : f.Aligned D w f') : op e' f' = op e f := by
  rcases left.plain with rfl | ⟨plain, plain'⟩
  · rcases right.plain with rfl | ⟨plain, plain'⟩
    · rfl
    · rw [compound _ _ (.inr plain), compound _ _ (.inr plain')]
  · rw [compound _ _ (.inl plain), compound _ _ (.inl plain')]

theorem add_same (operator : Token) (left : e.Aligned D w e') (right : f.Aligned D w f') :
    add operator e' f' = add operator e f :=
  pairs_same (fun _ _ => add_compound) left right

theorem onNumbers_same (operator : Token) (left : e.Aligned D w e') (right : f.Aligned D w f') :
    onNumbers operator e' f' = onNumbers operator e f :=
  pairs_same (fun _ _ => onNumbers_compound) left right

theorem binary_same (operator : Token) (left : e.Aligned D w e') (right : f.Aligned D w f') :
    binary operator e' f' = binary operator e f := by
  unfold binary
  rw [add_same operator left right, onNumbers_same operator left right, left.isEqual right]

theorem unary_tracks (operator : Token) (aligned : m.Aligned D w a m')
    (operand : e.Aligned D w e') :
    Tracks slack D (Value.Aligned D) w a m m' (unary operator e) (unary operator e') := by
  rw [unary_same operator operand]
  exact (unary_fixed operator e).tracks aligned

theorem binary_tracks (operator : Token) (aligned : m.Aligned D w a m')
    (left : e.Aligned D w e') (right : f.Aligned D w f') :
    Tracks slack D (Value.Aligned D) w a m m' (binary operator e f) (binary operator e' f') := by
  rw [binary_same operator left right]
  exact (binary_fixed operator e f).tracks aligned

def ValuesAligned (D : TwoDistances) (w : Links) : List Value → List Value → Prop :=
  List.Forall₂ (Value.Aligned D w)

theorem ValuesAligned.later (values : ValuesAligned D w vs vs') (within : w.Within v) :
    ValuesAligned D v vs vs' :=
  List.Forall₂.imp (fun _ _ value => value.later within) values

theorem readClock_tracks (aligned : m.Aligned D w a m') :
    Tracks slack D (Value.Aligned D) w a m m' readClock readClock := by
  refine .of_ok rfl rfl ⟨.refl w, { aligned with clock := ?_ }, rfl, rfl⟩ ?_
  · simp only [aligned.clock]
  · simp only [aligned.clock]
    exact rfl

theorem assertEqual_tracks {native : Native} (action : native.action = .assertEqual) (line : Nat)
    (aligned : m.Aligned D w a m') (values : ValuesAligned D w vs vs') :
    Tracks slack D (Value.Aligned D) w a m m' (callNative native line vs)
      (callNative native line vs') := by
  unfold callNative
  rw [action]
  match vs, vs', values with
  | [], [], _ | [_], [_], _ => exact .raise aligned
  | [u, v], [u', v'], .cons alignedU (.cons alignedV .nil) =>
    dsimp only
    rw [alignedU.isEqual alignedV, alignedU.text, alignedV.text]
    split
    · exact .pure aligned rfl
    · exact .raise aligned
  | _ :: _ :: _ :: _, _ :: _ :: _ :: _, values =>
    dsimp only
    rw [List.Forall₂.length_eq values]
    exact .raise aligned

theorem onNumber_tracks {native : Native} {onNumber : Float → Float}
    (action : native.action = .onNumber onNumber) (line : Nat) (aligned : m.Aligned D w a m')
    (values : ValuesAligned D w vs vs') :
    Tracks slack D (Value.Aligned D) w a m m' (callNative native line vs)
      (callNative native line vs') := by
  have one (r : Float) : callNative native line [.number r] = Pure.pure (.number (onNumber r)) := by
    unfold callNative
    rw [action]
  have other (us : List Value) (differ : ∀ r, us ≠ [.number r]) :
      callNative native line us = raise line (.argumentNotNumber native.name) := by
    unfold callNative
    rw [action]
    split <;> simp_all
  by_cases fits : ∃ r, vs = [.number r]
  · obtain ⟨r, rfl⟩ := fits
    match vs', values with
    | [v'], .cons value .nil =>
      obtain rfl : v' = .number r := value
      rw [one]
      exact .pure aligned rfl
  · have differ' (r : Float) : vs' ≠ [.number r] := by
      rintro rfl
      match vs, values with
      | [u], .cons value .nil =>
        rcases value.plain with rfl | ⟨-, plain⟩
        · exact fits ⟨r, rfl⟩
        · cases plain
    rw [other vs fun r same => fits ⟨r, same⟩, other vs' differ']
    exact .raise aligned

theorem callNative_tracks (native : Native) (line : Nat) (aligned : m.Aligned D w a m')
    (values : ValuesAligned D w vs vs') :
    Tracks slack D (Value.Aligned D) w a m m' (callNative native line vs)
      (callNative native line vs') := by
  cases action : native.action with
  | clock =>
    unfold callNative
    rw [action]
    exact readClock_tracks aligned
  | assertEqual => exact assertEqual_tracks action line aligned values
  | onNumber onNumber => exact onNumber_tracks action line aligned values

/-! ### Scopes, instances and methods -/

/-- A scope that both runs make is linked. -/
theorem newScope_tracks {table table' : Table Value} (aligned : m.Aligned D w a m')
    (bound : table.Like (Value.Aligned D w) Renaming.same table') :
    Tracks slack D (fun v k k' => v k k') w a m m' (newScope table) (newScope table') := by
  have within := w.within_add m.store.scopes.size m'.store.scopes.size
  refine .of_ok (v := w.add _ _) rfl rfl ⟨within, { aligned with
    store := aligned.store.addScope bound, chain := aligned.chain.later within }, rfl, rfl⟩ ?_
  rw [Store.lastScope_addScope, Store.lastScope_addScope]
  exact w.add_new _ _

theorem newInstance_tracks {c c' : Class} (aligned : m.Aligned D w a m')
    (classes : c.Aligned D w c') :
    Tracks slack D (Value.Aligned D) w a m m' (newInstance c) (newInstance c') := by
  refine .of_ok rfl rfl ⟨.refl w, { aligned with store := aligned.store.addInstance }, rfl, rfl⟩ ?_
  rw [aligned.store.addInstance.lastInstance]
  exact classes.object _

theorem functionValue_tracks {y y' : Closure} (aligned : m.Aligned D w a m')
    (closure : y.Aligned D w [] y') :
    Tracks slack D (Value.Aligned D) w a m m' (functionValue y) (functionValue y') := by
  refine .of_ok rfl rfl ⟨.refl w, { aligned with identity := ?_ }, rfl, rfl⟩ ?_
  · simp only [aligned.identity]
  · exact ⟨y', by rw [aligned.identity], closure⟩

theorem bindMethod_tracks {y y' : Closure} (aligned : m.Aligned D w a m')
    (method : y.Aligned D w [.both] y') (receiver : e.Aligned D w e') :
    Tracks slack D (fun v => Closure.Aligned D v []) w a m m' (bindMethod y e)
      (bindMethod y' e') := by
  refine (newScope_tracks aligned (Table.Like.empty.insert receiver "this")).bind ?_
  intro k k' n n' v _ _ kept linked
  obtain ⟨f, b, as⟩ := method
  refine .pure kept.aligned ⟨f, .both :: b, as.function, as.body, ?_, as.isInitializer,
    fun _ => ⟨b, rfl⟩⟩
  exact .both linked (as.chain.later kept.within)

theorem method_tracks {y y' : Closure} (aligned : m.Aligned D w a m')
    (method : y.Aligned D w [.both] y') (receiver : e.Aligned D w e') :
    Tracks slack D (Value.Aligned D) w a m m' (bindMethod y e >>= functionValue)
      (bindMethod y' e' >>= functionValue) := by
  refine (bindMethod_tracks aligned method receiver).bind ?_
  intro z z' n n' v _ _ kept closure
  exact functionValue_tracks kept.aligned closure

theorem property_tracks (object : InstanceId) {c c' : Class} (name : Token)
    (aligned : m.Aligned D w a m') (classes : c.Aligned D w c') :
    Tracks slack D (Value.Aligned D) w a m m' (property object c name)
      (property object c' name) := by
  have fields := (aligned.store.fields object).cases name.lexeme
  rw [Renaming.same_perm] at fields
  unfold property
  refine (Tracks.observe (A := fun v u u' => v = w ∧ u = (m.store.fields object).get? name.lexeme ∧
    u' = (m'.store.fields object).get? name.lexeme) aligned ⟨rfl, rfl, rfl⟩).bind ?_
  rintro u u' n n' v - - kept ⟨rfl, rfl, rfl⟩
  rcases fields with ⟨u, u', found, found', value⟩ | ⟨none, none'⟩
  · rw [found, found']
    exact .pure kept.aligned value
  · rw [none, none']
    dsimp only
    rcases classes.method? name.lexeme with ⟨y, y', found, found', method⟩ | ⟨none, none'⟩
    · rw [found, found']
      exact method_tracks kept.aligned method (classes.object object)
    · rw [none, none']
      exact .raise kept.aligned

/-! ### Names -/

theorem lookUp_tracks {i i' : ExprId} (name : Token) (aligned : m.Aligned D w a m')
    (uses : a.Corresponds D.left[i]? D.right[i']?) :
    Tracks slack D (Value.Aligned D) w a m m' (lookUp i name) (lookUp i' name) := by
  refine .ask aligned ?_
  rw [aligned.distances, aligned.distances']
  rcases uses.cases with ⟨left, right⟩ | ⟨d, d', left, right, meets⟩
  · rw [left, right]
    exact aligned.store.get_global name.lexeme
  · rw [left, right]
    exact aligned.store.getAt aligned.chain meets name.lexeme

theorem bind_tracks {k k' : ScopeId} (name : String) (aligned : m.Aligned D w a m')
    (linked : w k k') (value : e.Aligned D w e') :
    Tracks slack D (fun _ _ _ => True) w a m m' (bind k name e) (bind k' name e') :=
  .of_ok rfl rfl ⟨.refl w, { aligned with store := aligned.store.bind linked name value }, rfl, rfl⟩
    trivial

theorem assign_tracks {i i' : ExprId} (name : Token) (aligned : m.Aligned D w a m')
    (uses : a.Corresponds D.left[i]? D.right[i']?) (value : e.Aligned D w e') :
    Tracks slack D (fun _ _ _ => True) w a m m' (assign i name e) (assign i' name e') := by
  refine (Tracks.ask (A := fun v k k' => v k k') aligned ?_).bind ?_
  · rw [aligned.distances, aligned.distances']
    rcases uses.cases with ⟨left, right⟩ | ⟨d, d', left, right, meets⟩
    · rw [left, right]
      rcases aligned.store.holder_global name.lexeme with ⟨held, held'⟩ | missing
      · exact .inl ⟨0, 0, held, held', aligned.store.global⟩
      · exact .inr missing
    · rw [left, right]
      obtain ⟨k, k', there, there', linked⟩ := aligned.chain.meets meets
      exact .inl ⟨k, k', by simp only [Store.ancestor, there],
        by simp only [Store.ancestor, there'], linked⟩
  · intro k k' n n' v _ _ kept linked
    exact bind_tracks name.lexeme kept.aligned linked (value.later kept.within)

theorem define_tracks (name : String) (aligned : m.Aligned D w a m') (opens : a.Opens)
    (value : e.Aligned D w e') :
    Tracks slack D (fun _ _ _ => True) w a m m' (define name e) (define name e') :=
  .of_ok rfl rfl ⟨.refl w, { aligned with
    store := aligned.store.define aligned.chain opens name value }, rfl, rfl⟩ trivial

theorem setField_tracks (object : InstanceId) (name : String) (aligned : m.Aligned D w a m')
    (value : e.Aligned D w e') :
    Tracks slack D (fun _ _ _ => True) w a m m' (setField object name e)
      (setField object name e') :=
  .of_ok rfl rfl ⟨.refl w, { aligned with store := aligned.store.setField object name value },
    rfl, rfl⟩ trivial

theorem printLine_tracks (text : String) (aligned : m.Aligned D w a m') :
    Tracks slack D (fun _ _ _ => True) w a m m' (printLine text) (printLine text) := by
  have kept : Kept D w a m m' w { m with sink := m.sink.write (text ++ "\n") }
      { m' with sink := m'.sink.write (text ++ "\n") } :=
    ⟨.refl w, { aligned with sink := by rw [aligned.sink] }, rfl, rfl⟩
  cases fits : m.sink.fits (text ++ "\n") with
  | true =>
    have fits' : m'.sink.fits (text ++ "\n") = true := by rw [aligned.sink, fits]
    exact .of_ok (printLine_fits fits) (printLine_fits fits') kept trivial
  | false =>
    have full' : m'.sink.fits (text ++ "\n") = false := by rw [aligned.sink, fits]
    exact .of_error (printLine_full fits) (printLine_full full') kept

theorem superOn_tracks (keyword method : Token) {c c' : Class} {d d' : Nat}
    (aligned : m.Aligned D w a m') (classes : c.Aligned D w c') (meets : a.Meets d d') :
    Tracks slack D (Value.Aligned D) w a m m' (superOn keyword method d c)
      (superOn keyword method d' c') := by
  refine (Tracks.ask (A := Value.Aligned D) aligned
    (aligned.store.getAt aligned.chain meets "this")).bind ?_
  intro e e' n n' v _ _ kept value
  cases e with
  | object i own =>
    obtain ⟨own', rfl, alignedOwn⟩ := value
    dsimp only
    rcases classes.method? method.lexeme with ⟨y, y', found, found', aligned'⟩ | ⟨none, none'⟩
    · rw [found, found']
      exact method_tracks kept.aligned (aligned'.later kept.within) (alignedOwn.object i)
    · rw [none, none']
      exact .raise kept.aligned
  | function n f | class_ f =>
    obtain ⟨_, rfl, -⟩ := value
    exact .raise kept.aligned
  | _ =>
    obtain rfl : e' = _ := value
    exact .raise kept.aligned

theorem superMethod_tracks {i i' : ExprId} (keyword method : Token) {d d' : Nat}
    (aligned : m.Aligned D w a m') (recorded : D.left[i]? = some (d + 1))
    (recorded' : D.right[i']? = some (d' + 1)) (meets : a.Meets (d + 1) (d' + 1))
    (meetsThis : a.Meets d d') :
    Tracks slack D (Value.Aligned D) w a m m' (superMethod i keyword method)
      (superMethod i' keyword method) := by
  refine (Tracks.observe (A := fun _ o o' => o = some (d + 1) ∧ o' = some (d' + 1)) aligned
    ⟨by rw [aligned.distances, recorded], by rw [aligned.distances', recorded']⟩).bind ?_
  rintro _ _ n n' v - - kept ⟨rfl, rfl⟩
  refine (Tracks.ask (A := Value.Aligned D) kept.aligned
    (kept.aligned.store.getAt kept.aligned.chain meets keyword.lexeme)).bind ?_
  intro e e' o o' u _ _ kept' value
  cases e with
  | class_ c =>
    obtain ⟨c', rfl, classes⟩ := value
    exact superOn_tracks keyword method kept'.aligned classes meetsThis
  | function n f | object n f =>
    obtain ⟨_, rfl, -⟩ := value
    exact .raise kept'.aligned
  | _ =>
    obtain rfl : e' = _ := value
    exact .raise kept'.aligned

/-! ### A scope for a body -/

/-- Run in a new scope inside of those in force. -/
def inNewScope (body : Run α) : Run α := do
  let chain ← observe (·.chain)
  let scope ← newScope Table.empty
  inChain (scope :: chain) body

/-- A scope that both runs have. -/
theorem inNewScope_tracks (aligned : m.Aligned D w a m')
    (inside : ∀ v o o', Machine.Aligned D v (.both :: a) o o' →
      Tracks slack D A v (.both :: a) o o' x x') :
    Tracks slack D A w a m m' (inNewScope x) (inNewScope x') := by
  refine (Tracks.observe (A := fun v => a.Chains v) aligned aligned.chain).bind ?_
  intro c c' n n' v _ _ kept chains
  refine (newScope_tracks kept.aligned Table.Like.empty).bind ?_
  intro k k' o o' u _ _ kept' linked
  have entered : Machine.Aligned D u (.both :: a) { o with chain := k :: c }
      { o' with chain := k' :: c' } :=
    { kept'.aligned with chain := .both linked (chains.later kept'.within) }
  exact .inChain kept'.aligned (inside u _ _ entered)

/-! ### Classes -/

/-- The alignment of the chains that the methods of a class are declared in. -/
def methodAlignment (a : Alignment) : Option Class → Alignment
  | none => a
  | some _ => .both :: a

def SuperclassAligned (D : TwoDistances) (w : Links) : Option Class → Option Class → Prop
  | none, none => True
  | some c, some c' => c.Aligned D w c'
  | _, _ => False

theorem methodTable_aligned {f : ExprId → ExprId} {c c' : Chain} (chains : b.Chains v c c')
    (ds : List FunctionDecl) (methods : FunctionDecl.AlignedList D f (.both :: b) ds) :
    (methodTable c ds).Like (Closure.Aligned D v [.both]) Renaming.same
      (methodTable c' (FunctionDecl.renumberList f ds)) := by
  refine Table.Like.empty.insertAll ?_
  induction ds with
  | nil => exact .nil
  | cons d ds ih =>
    have name := (d.renumber_name f).1
    refine .cons ⟨by simp only [name, Renaming.same_perm], f, b, rfl, methods.1, chains, ?_,
      fun _ => ⟨b, rfl⟩⟩ (ih methods.2)
    simp only [name]

/-- A declaration always makes its class. -/
theorem declareClass_tracks {f : ExprId → ExprId} {c c' : Option Class} {ds : List FunctionDecl}
    (name : Token) (aligned : m.Aligned D w a m') (opens : a.Opens)
    (supers : SuperclassAligned D w c c')
    (methods : FunctionDecl.AlignedList D f (.both :: methodAlignment a c) ds) :
    Tracks slack D (fun _ _ _ => True) w a m m' (declareClass name c ds)
      (declareClass name c' (FunctionDecl.renumberList f ds)) := by
  obtain ⟨k, k', outer, outer', head, head', linked⟩ :=
    aligned.chain.opens aligned.store.global opens
  obtain ⟨known, known'⟩ := aligned.store.known k k' linked
  have run := declareClass_ok head known name c ds
  have run' := declareClass_ok head' known' name c' (FunctionDecl.renumberList f ds)
  have defined := aligned.store.define aligned.chain opens name.lexeme
    (Value.Aligned.of_plain (D := D) (w := w) (u := .nil) rfl)
  match c, c', supers with
  | none, none, _ =>
    have made : Class.Aligned D w (m.declared name none ds)
        (m'.declared name none (FunctionDecl.renumberList f ds)) := by
      simp only [Machine.declared, aligned.identity]
      exact .base (methodTable_aligned aligned.chain ds methods)
    have bound := defined.bind linked name.lexeme made.value
    refine .of_ok run run' ⟨.refl w, { aligned with store := ?_, identity := ?_ }, rfl, rfl⟩ trivial
    · exact bound
    · simp only [aligned.identity]
  | some c, some c', supers =>
    have super : Table.Like (Value.Aligned D w) Renaming.same
        (Table.empty.insert "super" (.class_ c)) (Table.empty.insert "super" (.class_ c')) :=
      Table.Like.empty.insert supers.value "super"
    obtain ⟨v, within, new, opened⟩ : ∃ v : Links, w.Within v ∧
        v (m.store.define m.chain name.lexeme .nil).scopes.size
          (m'.store.define m'.chain name.lexeme .nil).scopes.size ∧
        ((m.store.define m.chain name.lexeme .nil).forMethods (some c)).Aligned D v
          ((m'.store.define m'.chain name.lexeme .nil).forMethods (some c')) :=
      ⟨_, w.within_add _ _, w.add_new _ _, defined.addScope super⟩
    have chains := aligned.chain.later within
    have made : Class.Aligned D v (m.declared name (some c) ds)
        (m'.declared name (some c') (FunctionDecl.renumberList f ds)) := by
      simp only [Machine.declared, aligned.identity]
      exact .derived (supers.later within) (methodTable_aligned (.both new chains) ds methods)
    have bound := opened.bind (within _ _ linked) name.lexeme made.value
    refine .of_ok run run' ⟨within, { aligned with store := ?_, chain := chains, identity := ?_ },
      rfl, rfl⟩ trivial
    · exact bound
    · simp only [aligned.identity]

end Run

end Lox
