import Lox.Proofs.Blame
import Lox.Proofs.ClassSteps
import Lox.Proofs.LikeStates

/-!
Two computations agree that end in the same way from machines that are alike. The operations that
evaluation is made of agree where their operands are alike.
-/

namespace Lox

/-- A run adds scopes to the world, and leaves the scopes in force as they were. -/
structure Onward (w : World) (m : Machine) (v : World) (n : Machine) : Prop where
  grown : w <+: v
  chain : n.chain = m.chain

namespace Onward

variable {u v w : World} {m n o : Machine}

theorem refl (w : World) (m : Machine) : Onward w m w m := ⟨List.prefix_refl w, rfl⟩

theorem trans (first : Onward w m v n) (second : Onward v n u o) : Onward w m u o :=
  ⟨first.grown.trans second.grown, second.chain.trans first.chain⟩

/-- The names over the chain are renamed as before. -/
theorem along {c : Translation} {m' : Machine} (on : Onward w m v n) (like : m.Like c w m') :
    v.along n.chain = w.along m.chain := by
  rw [on.chain]
  exact World.along_later on.grown like.held

end Onward

/-- Begun on machines that are alike, the two computations end in the same way. What they give is
related by `A`, and where they fail the ends are related by `Q`. -/
def Agree {α : Type} (c : Translation) (Q : Halt → Halt → Prop) (A : World → α → α → Prop)
    (w : World) (m m' : Machine) (x x' : Run α) : Prop :=
  (∃ a a' n n' v, x m = .ok a n ∧ x' m' = .ok a' n' ∧ Onward w m v n ∧ n.Like c v n' ∧
      A v a a') ∨
    ∃ h h' n n' v, x m = .error h n ∧ x' m' = .error h' n' ∧ Onward w m v n ∧ n.Like c v n' ∧
      Q h h'

/-- The failure that an operation meets by itself, told for these lines. -/
def FailsAlike (line line' : Nat) (h h' : Halt) : Prop :=
  ∃ cause, h = .runtime ⟨line, cause⟩ ∧ h' = .runtime ⟨line', cause⟩ ∧
    ∀ name, cause ≠ .undefinedVariable name

/-- A failure that is told for the expression `id`. It comes of a name that should be found but is
`missing`, or it is the same in both runs; if it is about a name, then about a `global` one. -/
def FailsAt (c : Translation) (id : ExprId) (missing : Prop) (global : String → Prop)
    (h h' : Halt) : Prop :=
  ∃ e e', h = .runtime e ∧ h' = .runtime e' ∧
    (missing ∨ (e'.line = c.line id e.line ∧ e'.cause = e.cause ∧
      ∀ name, e.cause = .undefinedVariable name → global name))

/-- A failure that is about no name, told at the line that the other run has for this one. -/
theorem FailsAt.told {c : Translation} {id : ExprId} {missing : Prop} {global : String → Prop}
    {line line' : Nat} (same : line' = c.line id line) (cause : RuntimeCause)
    (other : ∀ name, cause ≠ .undefinedVariable name) :
    FailsAt c id missing global (.runtime ⟨line, cause⟩) (.runtime ⟨line', cause⟩) :=
  ⟨_, _, rfl, rfl, .inr ⟨same, rfl, fun name about => (other name about).elim⟩⟩

theorem FailsAlike.at_ {c : Translation} {id : ExprId} {line line' : Nat} {h h' : Halt}
    (fails : FailsAlike line line' h h') (same : line' = c.line id line) (missing : Prop)
    (global : String → Prop) : FailsAt c id missing global h h' := by
  obtain ⟨cause, rfl, rfl, other⟩ := fails
  exact .told same cause other

/-- The step itself is to blame for a failure that it meets when all it has started has ended. -/
theorem FailsAt.blames {c : Translation} {id : ExprId} {missing : Prop} {global : String → Prop}
    {h h' : Halt} (fails : FailsAt c id missing global h h') {step : Step}
    (ends : step.halt? = some h) (node : step.node? = some id) (known : c.known id)
    (itself : ∀ part, Step.Starts step part → part.halt? = none) (misses : missing → step.Misses)
    (uses : ∀ name, global name → step.UsesGlobal name) : step.Blames c h h' := by
  obtain ⟨e, e', rfl, rfl, told⟩ := fails
  refine Step.Blames.here ends itself ?_
  rcases told with missed | ⟨line, cause, about⟩
  · exact .inl (misses missed)
  · exact .inr ⟨id, node, known, line, cause, fun name same => uses name (about name same)⟩

/-- A failure that is about no name. -/
theorem FailsAt.accounts {c : Translation} {id : ExprId} {h h' : Halt}
    (fails : FailsAt c id False (fun _ => False) h h') {step : Step} (node : step.node? = some id)
    (known : c.known id) (itself : ∀ part, Step.Starts step part → part.halt? = none) :
    step.Accounts c h h' :=
  fun ends => fails.blames ends node known itself (fun never => never.elim)
    fun _ never => never.elim

variable {α β : Type} {c : Translation} {Q Q' : Halt → Halt → Prop} {w v : World}
  {A : World → α → α → Prop} {B : World → β → β → Prop} {m m' n n' : Machine}
  {x x' : Run α} {f f' : α → Run β}

namespace Agree

theorem of_ok {a a' : α} (run : x m = .ok a n) (run' : x' m' = .ok a' n') (on : Onward w m v n)
    (like : n.Like c v n') (given : A v a a') : Agree c Q A w m m' x x' :=
  .inl ⟨a, a', n, n', v, run, run', on, like, given⟩

theorem of_error {h h' : Halt} (run : x m = .error h n) (run' : x' m' = .error h' n')
    (on : Onward w m v n) (like : n.Like c v n') (ends : Q h h') : Agree c Q A w m m' x x' :=
  .inr ⟨h, h', n, n', v, run, run', on, like, ends⟩

theorem blame (agree : Agree c Q A w m m' x x')
    (weaker : ∀ h h' n, x m = .error h n → Q h h' → Q' h h') : Agree c Q' A w m m' x x' := by
  rcases agree with done | ⟨h, h', n, n', v, run, run', on, like, ends⟩
  · exact .inl done
  · exact of_error run run' on like (weaker h h' n run ends)

theorem bind (first : Agree c Q A w m m' x x')
    (second : ∀ a a' n n' v, x m = .ok a n → x' m' = .ok a' n' → Onward w m v n →
      n.Like c v n' → A v a a' → Agree c Q B v n n' (f a) (f' a')) :
    Agree c Q B w m m' (x >>= f) (x' >>= f') := by
  rcases first with ⟨a, a', n, n', v, run, run', on, like, given⟩ |
    ⟨h, h', n, n', v, run, run', on, like, ends⟩
  · rcases second a a' n n' v run run' on like given with
      ⟨b, b', o, o', u, then_, then', on', like', given'⟩ |
        ⟨h, h', o, o', u, then_, then', on', like', ends⟩
    · exact of_ok ((bind_of_ok run).trans then_) ((bind_of_ok run').trans then')
        (on.trans on') like' given'
    · exact of_error ((bind_of_ok run).trans then_) ((bind_of_ok run').trans then')
        (on.trans on') like' ends
  · exact of_error (bind_of_error run) (bind_of_error run') on like ends

theorem pure {a a' : α} (like : m.Like c w m') (given : A w a a') :
    Agree c Q A w m m' (Pure.pure a) (Pure.pure a') :=
  of_ok rfl rfl ⟨List.prefix_refl w, rfl⟩ like given

theorem raise {line line' : Nat} {cause : RuntimeCause} (like : m.Like c w m')
    (ends : Q (.runtime ⟨line, cause⟩) (.runtime ⟨line', cause⟩)) :
    Agree c Q A w m m' (Run.raise line cause) (Run.raise line' cause) :=
  of_error rfl rfl (.refl w m) like ends

theorem observe {g g' : Machine → α} (like : m.Like c w m') :
    Agree c Q (fun v a a' => v = w ∧ a = g m ∧ a' = g' m') w m m' (Run.observe g)
      (Run.observe g') :=
  of_ok rfl rfl ⟨List.prefix_refl w, rfl⟩ like ⟨rfl, rfl, rfl⟩

theorem ask_ok {line line' : Nat} {g g' : Machine → Except RuntimeCause α} {a a' : α}
    (answer : g m = .ok a) (answer' : g' m' = .ok a') (like : m.Like c w m') (given : A w a a') :
    Agree c Q A w m m' (Run.ask line g) (Run.ask line' g') :=
  of_ok (Run.ask_ok answer) (Run.ask_ok answer') (.refl w m) like given

theorem ask_error {line line' : Nat} {g g' : Machine → Except RuntimeCause α}
    (cause cause' : RuntimeCause) (answer : g m = .error cause) (answer' : g' m' = .error cause')
    (like : m.Like c w m') (ends : Q (.runtime ⟨line, cause⟩) (.runtime ⟨line', cause'⟩)) :
    Agree c Q A w m m' (Run.ask line g) (Run.ask line' g') :=
  of_error (Run.ask_error answer) (Run.ask_error answer') (.refl w m) like ends

/-- An operation that fails by itself. -/
theorem fail {line line' : Nat} {cause : RuntimeCause} (like : m.Like c w m')
    (known : ∀ name, cause ≠ .undefinedVariable name) :
    Agree c (FailsAlike line line') A w m m' (Run.raise line cause) (Run.raise line' cause) :=
  raise like ⟨cause, rfl, rfl, known⟩

theorem inChain {chain : Chain} (like : m.Like c w m')
    (inside : Agree c Q A w { m with chain := chain } { m' with chain := chain } x x') :
    Agree c Q A w m m' (Run.inChain chain x) (Run.inChain chain x') := by
  have back {n n' : Machine} {v : World} (grown : w <+: v) (like' : n.Like c v n') :
      Machine.Like c v { n with chain := m.chain } { n' with chain := m'.chain } := by
    refine { like' with chain := like.chain, front := like.front, held := fun scope among => ?_ }
    exact Nat.lt_of_lt_of_le (like.held scope among) grown.length_le
  rcases inside with ⟨a, a', n, n', v, run, run', on, like', given⟩ |
    ⟨h, h', n, n', v, run, run', on, like', ends⟩
  · exact of_ok (Run.inChain_ok run) (Run.inChain_ok run') ⟨on.grown, rfl⟩ (back on.grown like')
      given
  · exact of_error (Run.inChain_error run) (Run.inChain_error run') ⟨on.grown, rfl⟩
      (back on.grown like') ends

end Agree

namespace Run

/-! ### Operators and natives -/

variable {operator operator' : Token} {id : ExprId} {a a' b b' : Value}

theorem negate_compound (plain : a.isPlain = false) :
    negate operator a = raise operator.line .operandNotNumber := by
  cases a <;> first | rfl | cases plain

theorem add_compound (plain : a.isPlain = false ∨ b.isPlain = false) :
    add operator a b = raise operator.line .operandsNotAddable := by
  rcases plain with plain | plain
  · cases a <;> first | rfl | cases plain
  · cases b <;> first | (cases a <;> rfl) | cases plain

theorem onNumbers_compound (plain : a.isPlain = false ∨ b.isPlain = false) :
    onNumbers operator a b = raise operator.line .operandsNotNumbers := by
  rcases plain with plain | plain
  · cases a <;> first | rfl | cases plain
  · cases b <;> first | (cases a <;> rfl) | cases plain

theorem negate_agrees (like : m.Like c w m') (value : a.Like c w a') :
    Agree c (FailsAlike operator.line operator'.line) (Value.Like c) w m m' (negate operator a)
      (negate operator' a') := by
  rcases value.plain with rfl | ⟨plain, plain'⟩
  · cases a' with
    | number n => exact Agree.pure like rfl
    | _ => exact Agree.fail like nofun
  · rw [negate_compound plain, negate_compound plain']
    exact Agree.fail like nofun

theorem unary_agrees (like : m.Like c w m') (token : operator.LikeIn c id operator')
    (value : a.Like c w a') :
    Agree c (FailsAlike operator.line operator'.line) (Value.Like c) w m m' (unary operator a)
      (unary operator' a') := by
  unfold unary
  rw [token.kind, value.isTruthy]
  split
  · exact negate_agrees like value
  · exact Agree.pure like rfl
  · exact Agree.fail like nofun

theorem add_agrees (like : m.Like c w m') (left : a.Like c w a') (right : b.Like c w b') :
    Agree c (FailsAlike operator.line operator'.line) (Value.Like c) w m m' (add operator a b)
      (add operator' a' b') := by
  rcases left.plain with rfl | ⟨plain, plain'⟩
  · rcases right.plain with rfl | ⟨plain, plain'⟩
    · unfold add
      split
      · exact Agree.pure like rfl
      · exact Agree.pure like rfl
      · exact Agree.pure like rfl
      · exact Agree.pure like rfl
      · exact Agree.fail like nofun
    · rw [add_compound (.inr plain), add_compound (.inr plain')]
      exact Agree.fail like nofun
  · rw [add_compound (.inl plain), add_compound (.inl plain')]
    exact Agree.fail like nofun

theorem arithmetic_agrees (like : m.Like c w m') (kind : operator'.kind = operator.kind)
    (r s : Float) :
    Agree c (FailsAlike operator.line operator'.line) (Value.Like c) w m m'
      (arithmetic operator r s) (arithmetic operator' r s) := by
  unfold arithmetic
  rw [kind]
  split
  all_goals first | exact Agree.pure like rfl | exact Agree.fail like nofun

theorem onNumbers_agrees (like : m.Like c w m') (kind : operator'.kind = operator.kind)
    (left : a.Like c w a') (right : b.Like c w b') :
    Agree c (FailsAlike operator.line operator'.line) (Value.Like c) w m m'
      (onNumbers operator a b) (onNumbers operator' a' b') := by
  rcases left.plain with rfl | ⟨plain, plain'⟩
  · rcases right.plain with rfl | ⟨plain, plain'⟩
    · unfold onNumbers
      split
      · exact arithmetic_agrees like kind _ _
      · exact Agree.fail like nofun
    · rw [onNumbers_compound (.inr plain), onNumbers_compound (.inr plain')]
      exact Agree.fail like nofun
  · rw [onNumbers_compound (.inl plain), onNumbers_compound (.inl plain')]
    exact Agree.fail like nofun

theorem binary_agrees (like : m.Like c w m') (token : operator.LikeIn c id operator')
    (left : a.Like c w a') (right : b.Like c w b') :
    Agree c (FailsAlike operator.line operator'.line) (Value.Like c) w m m'
      (binary operator a b) (binary operator' a' b') := by
  unfold binary
  rw [token.kind, left.isEqual right]
  split
  · exact add_agrees like left right
  · exact Agree.pure like rfl
  · exact Agree.pure like rfl
  · exact onNumbers_agrees like token.kind left right

theorem stopsAt_same (token : operator.LikeIn c id operator') (left : a.Like c w a') :
    stopsAt operator' a' = stopsAt operator a := by
  rw [stopsAt, stopsAt, token.kind, left.isTruthy]

/-- The arguments of two calls that are alike. -/
def ValuesLike (c : Translation) (w : World) (vs vs' : List Value) : Prop :=
  List.Forall₂ (Value.Like c w) vs vs'

theorem readClock_agrees (like : m.Like c w m') :
    Agree c Q (Value.Like c) w m m' readClock readClock := by
  refine Agree.of_ok rfl rfl ⟨List.prefix_refl w, rfl⟩ { like with clock := ?_ } ?_
  · simp only [like.clock]
  · simp only [like.clock]
    exact rfl

theorem callNative_agrees {native : Native} {line line' : Nat} {vs vs' : List Value}
    (like : m.Like c w m') (values : ValuesLike c w vs vs') :
    Agree c (FailsAlike line line') (Value.Like c) w m m' (callNative native line vs)
      (callNative native line' vs') := by
  have length := values.length_eq
  cases action : native.action with
  | clock =>
    unfold callNative
    rw [action]
    exact readClock_agrees like
  | assertEqual =>
    unfold callNative
    rw [action]
    match vs, vs', values with
    | [], [], _ => exact Agree.fail like nofun
    | [_], [_], _ => exact Agree.fail like nofun
    | [u, v], [u', v'], .cons likeU (.cons likeV .nil) =>
      dsimp only
      rw [likeU.isEqual likeV, likeU.text, likeV.text]
      split
      · exact Agree.pure like rfl
      · exact Agree.fail like nofun
    | _ :: _ :: _ :: _, _ :: _ :: _ :: _, _ =>
      dsimp only
      rw [← length]
      exact Agree.fail like nofun
  | onNumber f =>
    have one (l : Nat) (r : Float) :
        callNative native l [.number r] = Pure.pure (.number (f r)) := by
      unfold callNative
      rw [action]
    have other (l : Nat) (us : List Value) (differ : ∀ r, us ≠ [.number r]) :
        callNative native l us = raise l (.argumentNotNumber native.name) := by
      unfold callNative
      rw [action]
      split <;> simp_all
    by_cases fits : ∃ r, vs = [.number r]
    · obtain ⟨r, rfl⟩ := fits
      match vs', values with
      | [v'], .cons likeV .nil =>
        obtain rfl : v' = .number r := likeV
        rw [one, one]
        exact Agree.pure like rfl
    · have differ' (r : Float) : vs' ≠ [.number r] := by
        rintro rfl
        match vs, values with
        | [v], .cons likeV .nil =>
          rcases likeV.plain with rfl | ⟨-, plain⟩
          · exact fits ⟨r, rfl⟩
          · cases plain
      rw [other line vs fun r same => fits ⟨r, same⟩, other line' vs' differ']
      exact Agree.fail like nofun

/-! ### Scopes, instances and methods -/

theorem newScope_agrees {π : Renaming} {table table' : Table Value} (like : m.Like c w m')
    (bound : table.Like (Value.Like c w) π table') :
    Agree c Q (fun v scope scope' => v = w ++ [π] ∧ scope = w.length ∧ scope' = w.length) w m m'
      (newScope table) (newScope table') := by
  refine Agree.of_ok rfl rfl ⟨List.prefix_append w [π], rfl⟩ ?_ ⟨rfl, ?_, ?_⟩
  · refine { like with store := like.store.addScope bound, held := fun scope among => ?_ }
    exact Nat.lt_of_lt_of_le (like.held scope among) (List.prefix_append w [π]).length_le
  · rw [Store.lastScope_addScope, like.store.world]
  · rw [Store.lastScope_addScope, like.store.world, like.store.scopes]

theorem newInstance_agrees {a a' : Class} (like : m.Like c w m') (likeClass : a.Like c w a') :
    Agree c Q (fun v o o' => ∃ i b b', o = .object i b ∧ o' = .object i b' ∧ b = a ∧ b' = a' ∧
      b.Like c v b') w m m' (newInstance a) (newInstance a') := by
  refine Agree.of_ok rfl rfl ⟨List.prefix_refl w, rfl⟩
    { like with store := like.store.addInstance } ⟨_, a, a', rfl, ?_, rfl, rfl, likeClass⟩
  rw [like.store.addInstance.lastInstance]

theorem functionValue_agrees {a a' : Closure} (like : m.Like c w m') (closure : a.Like c w [] a') :
    Agree c Q (Value.Like c) w m m' (functionValue a) (functionValue a') := by
  refine Agree.of_ok rfl rfl ⟨List.prefix_refl w, rfl⟩ { like with identity := ?_ } ?_
  · simp only [like.identity]
  · exact ⟨a', by rw [like.identity], closure⟩

theorem World.along_cons (w : World) (scope : ScopeId) (chain : Chain) :
    w.along (scope :: chain) = w.at_ scope :: w.along chain := rfl

/-- A binding of `this` that keeps its name. -/
theorem this_like {i : InstanceId} {a a' : Class} (like : a.Like c w a') :
    Table.Like (Value.Like c w) Renaming.same (Table.empty.insert "this" (.object i a))
      (Table.empty.insert "this" (.object i a')) :=
  Table.Like.empty.insert (like.object i) "this"

theorem bindMethod_agrees {i : InstanceId} {a a' : Closure} {own own' : Class}
    (like : m.Like c w m') (method : a.Like c w [Renaming.same] a') (receiver : own.Like c w own') :
    Agree c Q (fun v b b' => b.Like c v [] b' ∧ b.function = a.function) w m m'
      (bindMethod a (.object i own)) (bindMethod a' (.object i own')) := by
  refine (newScope_agrees like (this_like receiver)).bind ?_
  rintro scope scope' n n' v - - on like' ⟨rfl, rfl, rfl⟩
  refine Agree.pure like' ⟨⟨?_, method.known, ?_, ?_, method.isInitializer⟩, rfl⟩
  · have kept := World.along_later on.grown method.held
    simp only [List.nil_append, World.along_cons, World.at_last, kept]
    exact method.function
  · simp only [method.chain]
  · intro scope among
    rcases List.mem_cons.1 among with rfl | among
    · simp
    · exact Nat.lt_of_lt_of_le (method.held scope among) on.grown.length_le

/-- A method of the class as a value, bound to the object. -/
theorem method_agrees {i : InstanceId} {a a' : Closure} {own own' : Class} (like : m.Like c w m')
    (method : a.Like c w [Renaming.same] a') (receiver : own.Like c w own') :
    Agree c Q (Value.Like c) w m m' (bindMethod a (.object i own) >>= functionValue)
      (bindMethod a' (.object i own') >>= functionValue) := by
  refine (bindMethod_agrees like method receiver).bind ?_
  rintro b b' n n' v - - - like' ⟨closure, -⟩
  exact functionValue_agrees like' closure

theorem property_agrees {object : InstanceId} {a a' : Class} {id : ExprId} {name name' : Token}
    (like : m.Like c w m') (likeClass : a.Like c w a') (token : name.LikeIn c id name') :
    Agree c (FailsAlike name.line name'.line) (Value.Like c) w m m' (property object a name)
      (property object a' name') := by
  have fields := (like.store.fields object).cases name.lexeme
  rw [Renaming.same_perm] at fields
  unfold property
  rw [token.lexeme]
  refine (Agree.observe like).bind ?_
  rintro u u' n n' v - - - like' ⟨rfl, rfl, rfl⟩
  rcases fields with ⟨u, u', found, found', related⟩ | ⟨none, none'⟩
  · rw [found, found']
    exact Agree.pure like' related
  · rw [none, none']
    dsimp only
    obtain ⟨some, missing⟩ := likeClass.method? name.lexeme
    cases found : a.method? name.lexeme with
    | some method =>
      obtain ⟨method', found', likeMethod⟩ := some method found
      rw [found']
      exact method_agrees like' likeMethod likeClass
    | none =>
      rw [missing found]
      exact Agree.fail like' nofun

/-! ### Names -/

/-- A use of a name that no distance is recorded for. -/
def Unrecorded (m : Machine) (id : ExprId) (used : Token) (name : String) : Prop :=
  used.lexeme = name ∧ m.distances[id]? = none

theorem lookUp_agrees {id : ExprId} {name name' : Token} (like : m.Like c w m')
    (known : c.known id) (token : name.LikeUse c (w.along m.chain) id name') :
    Agree c (FailsAt c id (∃ d cause, m.distances[id]? = some d ∧
        m.store.getAt m.chain d name.lexeme = .error cause) (Unrecorded m id name))
      (Value.Like c) w m m' (lookUp id name) (lookUp (c.ids id) name') := by
  obtain ⟨recorded, recorded'⟩ := like.distances id known
  have lexeme := token.lexeme
  cases distance : c.recorded id with
  | some d =>
    rw [distance] at recorded recorded' lexeme
    rcases like.store.getAt m.chain d name.lexeme with
      ⟨v, v', read, read', related⟩ | ⟨cause, cause', read, read', -⟩
    · rw [← lexeme, ← like.chain] at read'
      exact Agree.ask_ok (by simp only [recorded, read]) (by simp only [recorded', read']) like
        related
    · rw [← lexeme, ← like.chain] at read'
      exact Agree.ask_error cause cause' (by simp only [recorded, read])
        (by simp only [recorded', read']) like ⟨_, _, rfl, rfl, .inl ⟨d, cause, recorded, read⟩⟩
  | none =>
    rw [distance] at recorded recorded' lexeme
    replace lexeme : name'.lexeme = name.lexeme := lexeme
    rcases like.store.get_global name.lexeme with ⟨v, v', read, read', related⟩ | ⟨read, read'⟩
    · exact Agree.ask_ok (by simp only [recorded, read])
        (by simp only [recorded', lexeme, read']) like related
    · refine Agree.ask_error _ (.undefinedVariable name.lexeme) (by simp only [recorded, read])
        (by simp only [recorded', lexeme, read']) like
        ⟨_, _, rfl, rfl, .inr ⟨token.line, rfl, fun other about => ?_⟩⟩
      cases about
      exact ⟨rfl, recorded⟩

theorem bind_agrees {scope : ScopeId} {name : String} {v v' : Value} (like : m.Like c w m')
    (value : v.Like c w v') :
    Agree c Q (fun _ _ _ => True) w m m' (bind scope name v)
      (bind scope ((w.at_ scope).perm name) v') :=
  Agree.of_ok rfl rfl ⟨List.prefix_refl w, rfl⟩
    { like with store := like.store.bind scope name value } trivial

theorem assign_agrees {id : ExprId} {name name' : Token} {v v' : Value} (like : m.Like c w m')
    (known : c.known id) (token : name.LikeUse c (w.along m.chain) id name')
    (value : v.Like c w v') :
    Agree c (FailsAt c id (∃ d, m.distances[id]? = some d ∧ m.chain[d]? = none)
        (Unrecorded m id name))
      (fun _ _ _ => True) w m m' (assign id name v) (assign (c.ids id) name' v') := by
  obtain ⟨recorded, recorded'⟩ := like.distances id known
  have lexeme := token.lexeme
  have write (scope : ScopeId) (renamed : name'.lexeme = (w.at_ scope).perm name.lexeme)
      {n n' : Machine} (like' : n.Like c w n') :
      Agree c (FailsAt c id (∃ d, m.distances[id]? = some d ∧ m.chain[d]? = none)
        (Unrecorded m id name)) (fun _ _ _ => True) w n n' (bind scope name.lexeme v)
        (bind scope name'.lexeme v') := by
    rw [renamed]
    exact bind_agrees like' value
  cases distance : c.recorded id with
  | some d =>
    rw [distance] at recorded recorded' lexeme
    cases there : m.chain[d]? with
    | some scope =>
      rw [World.use_along there] at lexeme
      refine (Agree.ask_ok (A := fun u o o' => u = w ∧ o = scope ∧ o' = scope)
        (by simp only [recorded, Store.ancestor, there])
        (by simp only [recorded', Store.ancestor, like.chain, there]) like ⟨rfl, rfl, rfl⟩).bind ?_
      rintro o o' n n' u - - - like' ⟨rfl, here, here'⟩
      rw [here, here']
      exact write scope lexeme like'
    | none =>
      refine (Agree.ask_error (A := fun _ _ _ => False) (.noScopeAt d name.lexeme)
        (.noScopeAt d name'.lexeme) (by simp only [recorded, Store.ancestor, there])
        (by simp only [recorded', Store.ancestor, like.chain, there]) like
        ⟨_, _, rfl, rfl, .inl ⟨d, recorded, there⟩⟩).bind ?_
      exact fun _ _ _ _ _ _ _ _ _ absurd_ => absurd_.elim
  | none =>
    rw [distance] at recorded recorded' lexeme
    replace lexeme : name'.lexeme = name.lexeme := lexeme
    rcases like.store.holder_global name.lexeme with ⟨held, held'⟩ | ⟨missing, missing'⟩
    · refine (Agree.ask_ok (A := fun u o o' => u = w ∧ o = 0 ∧ o' = 0)
        (by simp only [recorded, held]) (by simp only [recorded', lexeme, held']) like
        ⟨rfl, rfl, rfl⟩).bind ?_
      rintro o o' n n' u - - - like' ⟨rfl, rfl, rfl⟩
      exact write 0 (by rw [like.store.at_global, Renaming.same_perm, lexeme]) like'
    · have fails : FailsAt c id (∃ d, m.distances[id]? = some d ∧ m.chain[d]? = none)
          (Unrecorded m id name) (.runtime ⟨name.line, .undefinedVariable name.lexeme⟩)
          (.runtime ⟨name'.line, .undefinedVariable name.lexeme⟩) := by
        refine ⟨_, _, rfl, rfl, .inr ⟨token.line, rfl, fun other about => ?_⟩⟩
        cases about
        exact ⟨rfl, recorded⟩
      refine (Agree.ask_error (A := fun _ _ _ => False) _ _ (by simp only [recorded, missing])
        (by simp only [recorded', lexeme, missing']) like fails).bind ?_
      exact fun _ _ _ _ _ _ _ _ _ absurd_ => absurd_.elim

theorem define_agrees (name : String) {v v' : Value} (like : m.Like c w m') (value : v.Like c w v') :
    Agree c Q (fun _ _ _ => True) w m m' (define name v)
      (define (Renaming.declare (w.along m.chain) name) v') := by
  refine Agree.of_ok rfl rfl ⟨List.prefix_refl w, rfl⟩ { like with store := ?_ } trivial
  rw [like.chain]
  exact like.store.define m.chain name value

theorem setField_agrees {object : InstanceId} {name : String} {v v' : Value} (like : m.Like c w m')
    (value : v.Like c w v') :
    Agree c Q (fun _ _ _ => True) w m m' (setField object name v) (setField object name v') :=
  Agree.of_ok rfl rfl ⟨List.prefix_refl w, rfl⟩
    { like with store := like.store.setField object name value } trivial

theorem printLine_agrees (like : m.Like c w m') (text : String) (full : Q .sinkFull .sinkFull) :
    Agree c Q (fun _ _ _ => True) w m m' (printLine text) (printLine text) := by
  have written : Machine.Like c w { m with sink := m.sink.write (text ++ "\n") }
      { m' with sink := m'.sink.write (text ++ "\n") } :=
    { like with sink := by rw [like.sink] }
  cases fits : m.sink.fits (text ++ "\n") with
  | true =>
    have fits' : m'.sink.fits (text ++ "\n") = true := by rw [like.sink, fits]
    exact Agree.of_ok (printLine_fits fits) (printLine_fits fits') ⟨List.prefix_refl w, rfl⟩
      written trivial
  | false =>
    have full' : m'.sink.fits (text ++ "\n") = false := by rw [like.sink, fits]
    exact Agree.of_error (printLine_full fits) (printLine_full full') ⟨List.prefix_refl w, rfl⟩
      written full

/-- The reads that `super` makes of names that the language binds by itself. -/
def SuperMisses (m : Machine) (id : ExprId) (keyword : Token) : Prop :=
  ∃ d cause, m.distances[id]? = some d ∧
    (m.store.getAt m.chain d keyword.lexeme = .error cause ∨
      ∃ inner, d = inner + 1 ∧ m.store.getAt m.chain inner "this" = .error cause)

/-- What `super` does when its class is known: `this` is bound `inner` scopes away. -/
def superOn (keyword method : Token) (inner : Nat) (c : Class) : Run Value := do
  match ← ask keyword.line fun m => m.store.getAt m.chain inner "this" with
  | .object object own =>
      match c.method? method.lexeme with
      | some found => do
          let bound ← bindMethod found (.object object own)
          functionValue bound
      | none => raise method.line (.undefinedProperty method.lexeme)
  | _ => raise keyword.line .thisNotInstance

theorem superOn_agrees {id : ExprId} {keyword keyword' method method' : Token} {a a' : Class}
    {inner : Nat} (like : m.Like c w m') (recorded : m.distances[id]? = some (inner + 1))
    (line : keyword'.line = c.line id keyword.line) (named : method.LikeIn c id method')
    (likeClass : a.Like c w a') :
    Agree c (FailsAt c id (SuperMisses m id keyword) fun _ => False) (Value.Like c) w m m'
      (superOn keyword method inner a) (superOn keyword' method' inner a') := by
  have kept := Renaming.use_this (w.along m.chain) (some inner)
  rcases like.store.getAt m.chain inner "this" with
    ⟨this, this', read, read', related⟩ | ⟨cause, cause', read, read', -⟩
  · rw [kept, ← like.chain] at read'
    refine (Agree.ask_ok (A := fun u o o' => u = w ∧ o = this ∧ o' = this') read read' like
      ⟨rfl, rfl, rfl⟩).bind ?_
    rintro o o' n n' u - - - like' ⟨rfl, here, here'⟩
    rw [← here, ← here'] at related
    cases o with
    | object i own =>
      obtain ⟨own', rfl, likeOwn⟩ := related
      obtain ⟨some, missing⟩ := likeClass.method? method.lexeme
      dsimp only
      rw [named.lexeme]
      cases found : a.method? method.lexeme with
      | some bindable =>
        obtain ⟨bindable', found', likeMethod⟩ := some bindable found
        rw [found']
        exact method_agrees like' likeMethod likeOwn
      | none =>
        rw [missing found]
        exact Agree.raise like' (.told named.line _ nofun)
    | function n f | class_ f =>
      obtain ⟨_, rfl, -⟩ := related
      exact Agree.raise like' (.told line _ nofun)
    | _ =>
      obtain rfl : o' = _ := related
      exact Agree.raise like' (.told line _ nofun)
  · rw [kept, ← like.chain] at read'
    refine (Agree.ask_error (A := fun _ _ _ => False) cause cause' read read' like
      ⟨_, _, rfl, rfl, .inl ⟨_, cause, recorded, .inr ⟨inner, rfl, read⟩⟩⟩).bind ?_
    exact fun _ _ _ _ _ _ _ _ _ absurd_ => absurd_.elim

theorem superMethod_agrees {id : ExprId} {keyword keyword' method method' : Token}
    (like : m.Like c w m') (known : c.known id)
    (token : keyword.LikeUse c (w.along m.chain) id keyword') (named : method.LikeIn c id method') :
    Agree c (FailsAt c id (SuperMisses m id keyword) fun _ => False) (Value.Like c) w m m'
      (superMethod id keyword method) (superMethod (c.ids id) keyword' method') := by
  obtain ⟨recorded, recorded'⟩ := like.distances id known
  have lexeme := token.lexeme
  refine (Agree.observe like).bind ?_
  rintro d? d?' n n' v run run' - like' ⟨rfl, rfl, rfl⟩
  cases run
  cases run'
  rw [recorded, recorded']
  cases distance : c.recorded id with
  | none => exact Agree.raise like' (.told token.line _ nofun)
  | some d =>
    rw [distance] at recorded recorded' lexeme
    rcases like.store.getAt m.chain d keyword.lexeme with
      ⟨super, super', read, read', related⟩ | ⟨cause, cause', read, read', -⟩
    · rw [← lexeme, ← like.chain] at read'
      refine (Agree.ask_ok (A := fun u o o' => u = v ∧ o = super ∧ o' = super') read read' like'
        ⟨rfl, rfl, rfl⟩).bind ?_
      rintro o o' n n' u run run' - - ⟨rfl, here, here'⟩
      cases run.symm.trans (ask_ok read)
      cases run'.symm.trans (ask_ok read')
      cases super with
      | class_ a =>
        obtain ⟨a', rfl, likeClass⟩ := related
        cases d with
        | zero => exact Agree.raise like (.told token.line _ nofun)
        | succ inner => exact superOn_agrees like recorded token.line named likeClass
      | function n f | object n f =>
        obtain ⟨_, rfl, -⟩ := related
        exact Agree.raise like (.told token.line _ nofun)
      | _ =>
        obtain rfl : super' = _ := related
        exact Agree.raise like (.told token.line _ nofun)
    · rw [← lexeme, ← like.chain] at read'
      refine (Agree.ask_error (A := fun _ _ _ => False) cause cause' read read' like'
        ⟨_, _, rfl, rfl, .inl ⟨d, cause, recorded, .inl read⟩⟩).bind ?_
      exact fun _ _ _ _ _ _ _ _ _ absurd_ => absurd_.elim

/-! ### Classes -/

/-- The renamings over the chain that the methods of a class are declared in. -/
def methodScopes (scopes : List Renaming) : Option Class → List Renaming
  | none => scopes
  | some _ => Renaming.same :: scopes

/-- Two declarations have superclasses that are alike, or both have none. -/
def SuperclassLike (c : Translation) (w : World) : Option Class → Option Class → Prop
  | none, none => True
  | some a, some b => a.Like c w b
  | _, _ => False

theorem methodTable_like {chain : Chain} {scopes : List Renaming} (renamed : v.along chain = scopes)
    (held : ∀ scope ∈ chain, scope < v.length) {fs fs' : List FunctionDecl}
    (likeFs : FunctionDecl.LikeList c (Renaming.same :: scopes) fs fs')
    (known : ∀ id ∈ FunctionDecl.idsList fs, c.known id) :
    (methodTable chain fs).Like (Closure.Like c v [Renaming.same]) Renaming.same
      (methodTable chain fs') := by
  refine Table.Like.empty.insertAll ?_
  induction fs generalizing fs' with
  | nil =>
    obtain rfl : fs' = [] := likeFs
    exact .nil
  | cons f fs ih =>
    obtain ⟨f', gs', rfl, likeF, likeGs⟩ := likeFs
    simp only [FunctionDecl.idsList, List.mem_append] at known
    have name := likeF.same.1
    refine .cons ⟨name, ?_, fun id among => known id (.inl among), rfl, held, ?_⟩
      (ih likeGs fun id among => known id (.inr among))
    · rw [renamed]
      exact likeF
    · simp only [name]

/-- A declaration always makes its class. -/
theorem declareClass_agrees {name name' : Token} (super super' : Option Class)
    {fs fs' : List FunctionDecl} (like : m.Like c w m')
    (token : name.LikeName c (w.along m.chain) name') (likeSuper : SuperclassLike c w super super')
    (likeFs : FunctionDecl.LikeList c (Renaming.same :: methodScopes (w.along m.chain) super) fs fs')
    (known : ∀ id ∈ FunctionDecl.idsList fs, c.known id) :
    Agree c Q (fun _ _ _ => True) w m m' (declareClass name super fs)
      (declareClass name' super' fs') := by
  have front := like.front
  obtain ⟨scope, outer, chain⟩ := List.exists_cons_of_ne_nil front
  have inside : scope < w.length := like.held scope (by simp [chain])
  have run := declareClass_ok chain (like.store.world ▸ inside) name super fs
  have run' := declareClass_ok (like.chain.trans chain)
    (by rw [like.store.scopes, ← like.store.world]; exact inside) name' super' fs'
  have kept : (w.at_ scope).perm name.lexeme = name.lexeme := by
    have kept := token.kept
    rwa [chain] at kept
  have defined := like.store.define m.chain name.lexeme (Value.Like.nil c w)
  rw [token.kept] at defined
  cases super with
  | none =>
    cases super' with
    | some b => exact likeSuper.elim
    | none =>
      have declared : Class.Like c w (m.declared name none fs) (m'.declared name' none fs') := by
        simp only [Machine.declared, token.lexeme, like.identity, like.chain, Store.methodChain]
        exact .base (methodTable_like rfl like.held likeFs known)
      have bound := defined.bind scope name.lexeme declared.value
      rw [kept] at bound
      refine Agree.of_ok run run' ⟨List.prefix_refl w, rfl⟩
        { like with store := ?_, identity := ?_ } trivial
      · simp only [Store.forMethods, token.lexeme, like.chain]
        exact bound
      · simp only [like.identity]
  | some a =>
    cases super' with
    | none => exact likeSuper.elim
    | some b =>
      have grown : w <+: w ++ [Renaming.same] := List.prefix_append w _
      have extends_ := Translation.Extends.refl c
      have size : (m.store.define m.chain name.lexeme .nil).scopes.size = w.length := by
        rw [defined.world]
      have opened : Store.Like c (w ++ [Renaming.same]) _ _ := defined.addScope
        (Table.Like.empty.insert
          (Class.Like.value likeSuper) "super")
      have declared : Class.Like c (w ++ [Renaming.same]) (m.declared name (some a) fs)
          (m'.declared name' (some b) fs') := by
        simp only [Machine.declared, token.lexeme, like.identity, like.chain, Store.methodChain,
          defined.scopes, size]
        refine .derived (likeSuper.later extends_ grown) (methodTable_like ?_ ?_ likeFs known)
        · rw [World.along_cons, World.at_last, World.along_later grown like.held]
          rfl
        · intro scope among
          rcases List.mem_cons.1 among with rfl | among
          · simp
          · exact Nat.lt_of_lt_of_le (like.held scope among) grown.length_le
      have bound := opened.bind scope name.lexeme declared.value
      rw [World.at_later grown inside, kept] at bound
      refine Agree.of_ok run run' ⟨grown, rfl⟩
        { like with store := ?_, identity := ?_, held := fun scope among => ?_ } trivial
      · simp only [Store.forMethods, token.lexeme, like.chain]
        exact bound
      · exact Nat.lt_of_lt_of_le (like.held scope among) grown.length_le
      · simp only [like.identity]

end Run

end Lox
