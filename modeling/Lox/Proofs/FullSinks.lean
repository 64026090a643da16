import Mathlib
import Lox.Proofs.Unwinding

/-!
A limited sink cuts a run where it overflows. A run with room for so many bytes is compared with the
run of the same task on an unlimited sink: as long as what is written fits, they do the same, and the
first text that does not fit ends the limited run, from whatever depth it was printed.
-/

namespace Lox

/-- The same result, with something done to the state it leaves. -/
def atEnd {ε σ α : Type} (g : σ → σ) : EStateM.Result ε σ α → EStateM.Result ε σ α
  | .ok a s => .ok a (g s)
  | .error e s => .error e (g s)

theorem take_append {α : Type} (a b : Array α) (n : Nat) :
    (a ++ b).take n = a.take n ++ b.take (n - a.size) := by
  simp only [Array.take_eq_extract, Array.extract_append, Nat.zero_sub]

theorem stateOf_atEnd {ε σ α : Type} (g : σ → σ) (r : EStateM.Result ε σ α) :
    stateOf (atEnd g r) = g (stateOf r) := by
  cases r <;> rfl

namespace Machine

def onSink (m : Machine) (sink : Sink) : Machine := { m with sink := sink }

/-- The machine with room for so many bytes in all, those already written among them. -/
def within (m : Machine) (limit : Nat) : Machine :=
  m.onSink ⟨some (limit - m.sink.bytes.size), m.sink.bytes⟩

end Machine

namespace Run

variable {α β : Type} {x : Run α} {f : α → Run β}

/-! ### Computations that do not look at the sink -/

/-- The computation does the same on any sink, and leaves it as it is. -/
def Blind {α : Type} (x : Run α) : Prop :=
  ∀ (m : Machine) (sink : Sink), x (m.onSink sink) = atEnd (·.onSink sink) (x m)

namespace Blind

theorem sink (blind : Blind x) (m : Machine) : (stateOf (x m)).sink = m.sink := by
  have same := congrArg stateOf (blind m m.sink)
  rw [stateOf_atEnd] at same
  change stateOf (x m) = _ at same
  rw [same]
  rfl

theorem pure (a : α) : Blind (Pure.pure a) := fun _ _ => rfl

theorem raise (line : Nat) (cause : RuntimeCause) : Blind (Run.raise line cause : Run α) :=
  fun _ _ => rfl

theorem outOfFuel : Blind (Run.outOfFuel : Run α) := fun _ _ => rfl

theorem observe {g : Machine → α} (same : ∀ m sink, g (m.onSink sink) = g m) :
    Blind (Run.observe g) := by
  intro m sink
  simp only [Run.observe, same, atEnd]

theorem bind (first : Blind x) (second : ∀ a, Blind (f a)) : Blind (x >>= f) := by
  intro m sink
  have same := first m sink
  cases run : x m with
  | error h n =>
    rw [run] at same
    rw [bind_of_error run, bind_of_error same]
    rfl
  | ok a n =>
    rw [run] at same
    rw [bind_of_ok run, bind_of_ok same]
    exact second a n sink

end Blind

theorem newInstance_blind (c : Class) : Blind (newInstance c) := fun _ _ => rfl

theorem setField_blind (object : InstanceId) (name : String) (v : Value) :
    Blind (setField object name v) :=
  fun _ _ => rfl

theorem blind_modular : Modular fun _ => Blind where
  pure := .pure
  raise := .raise
  observe := .observe
  next := .bind
  identity _ _ := rfl
  readClock _ _ := rfl
  newScope _ _ _ := rfl
  define _ _ _ _ := rfl
  bind _ _ _ _ _ := rfl

/-! ### Cutting a run -/

/-- The text is the first that does not fit, in a run that begins with these bytes and would end
with those: it is written with the machine in this state. -/
structure Overflows (limit : Nat) (before : Array UInt8) (n : Machine) (text : String)
    (after : Array UInt8) : Prop where
  room : n.sink.room = none
  began : ∃ bytes, n.sink.bytes = before ++ bytes
  fits : n.sink.bytes.size ≤ limit
  exceeds : limit < n.sink.bytes.size + text.utf8ByteSize
  goesOn : ∃ bytes, after = n.sink.bytes ++ text.toUTF8.data ++ bytes

/-- How a machine is left that has written what fits of a text, and gone back to other scopes. -/
def cutAt (limit : Nat) (m : Machine) (text : String) (chain : Chain) : Machine :=
  { m with chain := chain, sink := (m.within limit).sink.write text }

/-- What a limit does to a computation that is begun on a machine with an unlimited sink. -/
structure Cut (limit : Nat) (prints : Machine → String → Prop) (x : Run α) (m : Machine) : Prop where
  grows : ∃ bytes, (stateOf (x m)).sink = ⟨none, m.sink.bytes ++ bytes⟩
  fits : (stateOf (x m)).sink.bytes.size ≤ limit →
    x (m.within limit) = atEnd (·.within limit) (x m)
  exceeds : m.sink.bytes.size ≤ limit → limit < (stateOf (x m)).sink.bytes.size →
    ∃ n text chain, prints n text ∧
      Overflows limit m.sink.bytes n text (stateOf (x m)).sink.bytes ∧
      x (m.within limit) = .error .sinkFull (cutAt limit n text chain)

section Laws

variable {limit : Nat} {before middle after : Array UInt8} {m n : Machine} {text : String}
  {prints : Machine → String → Prop}

theorem Overflows.later (overflow : Overflows limit before n text middle) (bytes : Array UInt8) :
    Overflows limit before n text (middle ++ bytes) := by
  obtain ⟨rest, ended⟩ := overflow.goesOn
  refine { overflow with goesOn := ⟨rest ++ bytes, ?_⟩ }
  rw [ended, Array.append_assoc]

theorem Overflows.earlier {bytes : Array UInt8} (overflow : Overflows limit (before ++ bytes) n text after) :
    Overflows limit before n text after := by
  obtain ⟨rest, began⟩ := overflow.began
  refine { overflow with began := ⟨bytes ++ rest, ?_⟩ }
  rw [began, Array.append_assoc]

theorem write_within_eq (limit : Nat) (m : Machine) (text : String) :
    (m.within limit).sink.write text =
      ⟨some (limit - m.sink.bytes.size - text.toUTF8.data.size),
        m.sink.bytes ++ text.toUTF8.data.take (limit - m.sink.bytes.size)⟩ :=
  rfl

/-- What has been written then is what fits of all that would be. -/
theorem Overflows.sink (overflow : Overflows limit before n text after) :
    (n.within limit).sink.write text = ⟨some 0, after.take limit⟩ := by
  obtain ⟨-, -, fits, exceeds, bytes, rfl⟩ := overflow
  have filled : limit - n.sink.bytes.size - text.toUTF8.data.size = 0 := by
    change limit - n.sink.bytes.size - text.utf8ByteSize = 0
    omega
  have cut : (n.sink.bytes ++ text.toUTF8.data ++ bytes).take limit =
      n.sink.bytes ++ text.toUTF8.data.take (limit - n.sink.bytes.size) := by
    have nothing : bytes.take (limit - (n.sink.bytes ++ text.toUTF8.data).size) = #[] := by
      rw [Array.size_append, Nat.sub_add_eq, filled]
      exact Array.extract_zero
    rw [take_append, nothing, Array.append_empty, take_append]
    exact congrArg (· ++ _) (Array.extract_eq_self_of_le fits)
  rw [cut, write_within_eq, filled]

/-- A text that fits is written in the same way under the limit. -/
theorem write_within (text : String) (unlimited : m.sink.room = none)
    (fits : m.sink.bytes.size + text.utf8ByteSize ≤ limit) :
    (m.within limit).sink.fits text = true ∧
      (m.within limit).onSink ((m.within limit).sink.write text) =
        (m.onSink (m.sink.write text)).within limit := by
  obtain ⟨store, chain, distances, ⟨room, bytes⟩, next, clock⟩ := m
  cases unlimited
  constructor
  · exact decide_eq_true (Nat.le_sub_of_add_le' fits)
  · have whole : text.toUTF8.data.take (limit - bytes.size) = text.toUTF8.data :=
      Array.extract_eq_self_of_le (Nat.le_sub_of_add_le' fits)
    simp only [Machine.within, Machine.onSink, Sink.write, whole, Array.size_append, Nat.sub_sub]

/-- One that does not fit is written as far as it does, and is an error. -/
theorem write_beyond (exceeds : limit < m.sink.bytes.size + text.utf8ByteSize)
    (fits : m.sink.bytes.size ≤ limit) : (m.within limit).sink.fits text = false := by
  have more : ¬ text.utf8ByteSize ≤ limit - m.sink.bytes.size := by omega
  exact decide_eq_false more

namespace Cut

/-- What a computation does that leaves the sink alone does not depend on the limit. -/
theorem of_blind (blind : Blind x) (unlimited : m.sink.room = none) : Cut limit prints x m := by
  have kept := blind.sink m
  constructor
  · refine ⟨#[], ?_⟩
    rw [kept, Array.append_empty, ← unlimited]
  · intro _
    refine (blind m _).trans ?_
    cases run : x m with
    | ok a n | error h n =>
      rw [run] at kept
      change n.sink = m.sink at kept
      simp only [atEnd, Machine.within, kept]
  · intro fits exceeds
    rw [kept] at exceeds
    exact absurd fits (Nat.not_le.2 exceeds)

theorem of_prints {other : Machine → String → Prop} (cut : Cut limit prints x m)
    (imp : ∀ n text, prints n text → other n text) : Cut limit other x m := by
  refine { cut with exceeds := fun fits exceeds => ?_ }
  obtain ⟨n, text, chain, printed, rest⟩ := cut.exceeds fits exceeds
  exact ⟨n, text, chain, imp n text printed, rest⟩

theorem room (cut : Cut limit prints x m) : (stateOf (x m)).sink.room = none := by
  obtain ⟨bytes, grown⟩ := cut.grows
  rw [grown]

/-- What ends in order has ended so under the limit too, if what was written fits. -/
theorem ok {a : α} (cut : Cut limit prints x m) (run : x m = .ok a n) :
    n.sink.room = none ∧ m.sink.bytes.size ≤ n.sink.bytes.size ∧
      (n.sink.bytes.size ≤ limit → x (m.within limit) = .ok a (n.within limit)) := by
  have room := cut.room
  obtain ⟨⟨bytes, grown⟩, fits, -⟩ := cut
  rw [run] at room grown fits
  refine ⟨room, ?_, fits⟩
  change n.sink = _ at grown
  rw [grown, Array.size_append]
  exact Nat.le_add_right _ _

/-- Nothing ends in order under the limit that does not without it. -/
theorem ok_within {a : α} {o : Machine} (cut : Cut limit prints x m)
    (inside : m.sink.bytes.size ≤ limit) (run : x (m.within limit) = .ok a o) :
    ∃ n, x m = .ok a n ∧ n.sink.room = none ∧ n.sink.bytes.size ≤ limit ∧ o = n.within limit := by
  by_cases fits : (stateOf (x m)).sink.bytes.size ≤ limit
  · have same := cut.fits fits
    rw [run] at same
    cases ended : x m with
    | ok b n =>
      rw [ended] at same fits
      obtain ⟨rfl, rfl⟩ := EStateM.Result.ok.inj same
      exact ⟨n, rfl, (cut.ok ended).1, fits, rfl⟩
    | error h n =>
      rw [ended] at same
      cases same
  · obtain ⟨_, _, _, -, -, full⟩ := cut.exceeds inside (Nat.not_le.1 fits)
    rw [run] at full
    cases full

theorem bind (first : Cut limit prints x m)
    (second : ∀ a n, x m = .ok a n → n.sink.room = none → Cut limit prints (f a) n) :
    Cut limit prints (x >>= f) m := by
  cases run : x m with
  | error h n =>
    have ended := bind_of_error (f := f) run
    obtain ⟨grows, fits, exceeds⟩ := first
    rw [run] at grows fits exceeds
    refine ⟨by rwa [ended], fun enough => ?_, fun began beyond => ?_⟩
    · rw [ended] at enough ⊢
      exact bind_of_error (fits enough)
    · rw [ended] at beyond ⊢
      obtain ⟨o, text, chain, printed, overflow, limited⟩ := exceeds began beyond
      exact ⟨o, text, chain, printed, overflow, bind_of_error limited⟩
  | ok a n =>
    have next := bind_of_ok (f := f) run
    obtain ⟨bytes, grown⟩ := first.grows
    have unlimited := first.room
    rw [run] at unlimited
    have continued := second a n run unlimited
    obtain ⟨more, ended⟩ := continued.grows
    rw [run] at grown
    change n.sink = _ at grown
    have written : n.sink.bytes = m.sink.bytes ++ bytes := by rw [grown]
    have longer : (stateOf (f a n)).sink.bytes = n.sink.bytes ++ more := by rw [ended]
    have least := congrArg Array.size longer
    rw [Array.size_append] at least
    refine ⟨?_, fun enough => ?_, fun began beyond => ?_⟩
    · refine ⟨bytes ++ more, ?_⟩
      rw [next, ended, written, Array.append_assoc]
    · rw [next] at enough ⊢
      have limited := first.fits (by rw [run]; change n.sink.bytes.size ≤ limit; omega)
      rw [run] at limited
      exact (bind_of_ok limited).trans (continued.fits enough)
    · rw [next] at beyond ⊢
      by_cases inside : n.sink.bytes.size ≤ limit
      · have limited := first.fits (by rwa [run])
        rw [run] at limited
        obtain ⟨o, text, chain, printed, overflow, cut⟩ := continued.exceeds inside beyond
        rw [written] at overflow
        exact ⟨o, text, chain, printed, overflow.earlier, (bind_of_ok limited).trans cut⟩
      · obtain ⟨o, text, chain, printed, overflow, cut⟩ :=
          first.exceeds began (by rw [run]; exact Nat.not_le.1 inside)
        rw [run] at overflow
        rw [longer]
        exact ⟨o, text, chain, printed, overflow.later more, bind_of_error cut⟩

theorem inChain {chain : Chain} (inside : Cut limit prints x { m with chain := chain }) :
    Cut limit prints (Run.inChain chain x) m := by
  obtain ⟨grows, fits, exceeds⟩ := inside
  have leaves : ∀ o : Machine, stateOf (Run.inChain chain x o) =
      { stateOf (x { o with chain := chain }) with chain := o.chain } := by
    intro o
    unfold Run.inChain
    dsimp only
    split <;> (rename_i run; rw [run]; rfl)
  refine ⟨by rwa [leaves], fun enough => ?_, fun began beyond => ?_⟩
  · rw [leaves] at enough
    have limited := fits enough
    cases run : x { m with chain := chain } with
    | ok a n =>
      rw [run] at limited
      rw [inChain_ok run]
      exact inChain_ok (m := m.within limit) limited
    | error h n =>
      rw [run] at limited
      rw [inChain_error run]
      exact inChain_error (m := m.within limit) limited
  · rw [leaves] at beyond ⊢
    obtain ⟨o, text, _, printed, overflow, cut⟩ := exceeds began beyond
    exact ⟨o, text, m.chain, printed, overflow, inChain_error (m := m.within limit) cut⟩

theorem printLine {text : String} (unlimited : m.sink.room = none) (printed : prints m (text ++ "\n")) :
    Cut limit prints (Run.printLine text) m := by
  have run : Run.printLine text m = .ok () (m.onSink (m.sink.write (text ++ "\n"))) :=
    printLine_fits (by rw [Sink.fits, unlimited])
  have written : m.sink.write (text ++ "\n") = ⟨none, m.sink.bytes ++ (text ++ "\n").toUTF8.data⟩ := by
    rw [Sink.write, unlimited]
  have size : (m.sink.write (text ++ "\n")).bytes.size =
      m.sink.bytes.size + (text ++ "\n").utf8ByteSize := by
    rw [written]
    exact Array.size_append
  refine ⟨?_, fun enough => ?_, fun began beyond => ?_⟩
  · rw [run]
    exact ⟨_, written⟩
  · rw [run] at enough ⊢
    obtain ⟨fits, same⟩ := write_within (text ++ "\n") unlimited (size.symm.trans_le enough)
    rw [atEnd, ← same]
    exact printLine_fits fits
  · rw [run] at beyond ⊢
    have exceeds := beyond.trans_eq size
    refine ⟨m, text ++ "\n", m.chain, printed, ?_, printLine_full (write_beyond exceeds began)⟩
    refine ⟨unlimited, ⟨#[], Array.append_empty.symm⟩, began, exceeds, ⟨#[], ?_⟩⟩
    rw [Array.append_empty]
    exact congrArg Sink.bytes written

end Cut

end Laws

end Run

end Lox
