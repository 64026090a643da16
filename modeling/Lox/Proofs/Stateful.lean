import Lox.Machine

/-!
Computations that keep their state on error: the readers of the grammar, the walk over scopes and
the runs of programs are all of this kind. What a sequence of two does is told by what each does.
-/

namespace Lox

variable {ε σ α β : Type} {x : EStateM ε σ α} {f : α → EStateM ε σ β} {s t u : σ}

theorem bind_of_ok {a : α} (first : x s = .ok a u) : (x >>= f) s = f a u := by
  simp only [bind, EStateM.bind, first]

theorem bind_of_error {e : ε} (first : x s = .error e u) : (x >>= f) s = .error e u := by
  simp only [bind, EStateM.bind, first]

theorem bind_ok_iff {b : β} :
    (x >>= f) s = .ok b t ↔ ∃ a u, x s = .ok a u ∧ f a u = .ok b t := by
  simp only [bind, EStateM.bind]
  cases x s <;> grind

theorem bind_error_iff {e : ε} :
    (x >>= f) s = .error e t ↔
      x s = .error e t ∨ ∃ a u, x s = .ok a u ∧ f a u = .error e t := by
  simp only [bind, EStateM.bind]
  cases x s <;> grind

namespace Run

variable {chain : Chain} {body : Run α} {m n : Machine}

theorem inChain_ok {a : α} (inside : body { m with chain := chain } = .ok a n) :
    inChain chain body m = .ok a { n with chain := m.chain } := by
  simp only [inChain, inside]

/-- What ran in other scopes ran to its end if the whole did. -/
theorem inChain_ok_inside {a : α} (run : inChain chain body m = .ok a n) :
    ∃ o, body { m with chain := chain } = .ok a o ∧ n = { o with chain := m.chain } := by
  unfold inChain at run
  dsimp only at run
  split at run
  · rename_i inside
    cases run
    exact ⟨_, inside, rfl⟩
  · cases run

theorem inChain_error {h : Halt} (inside : body { m with chain := chain } = .error h n) :
    inChain chain body m = .error h { n with chain := m.chain } := by
  simp only [inChain, inside]

theorem printLine_fits {text : String} (fits : m.sink.fits (text ++ "\n") = true) :
    printLine text m = .ok () { m with sink := m.sink.write (text ++ "\n") } := by
  simp only [printLine, fits, if_true]

theorem printLine_full {text : String} (full : m.sink.fits (text ++ "\n") = false) :
    printLine text m = .error .sinkFull { m with sink := m.sink.write (text ++ "\n") } := by
  simp [printLine, full]

end Run

end Lox
