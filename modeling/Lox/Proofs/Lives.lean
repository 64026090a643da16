import Mathlib
import Lox.Proofs.SoundSessions

/-!
The life of a session: the chunks that have been given to it, each with the session as it was then.
-/

namespace Lox

/-- A text given to a session. -/
structure Chunk where
  session : Session
  fuel : Nat
  source : String

namespace Chunk

/-- The trees that are parsed, with errors between them or without. A text that cannot be scanned is
not parsed. -/
def trees (c : Chunk) : List Stmt :=
  if Scan.errors (Scan.items c.source) = [] then c.session.program c.source else []

/-- The session that the chunk leaves, whatever it ends with. -/
def after (c : Chunk) : Session := (c.session.run c.fuel c.source).2

end Chunk

namespace Session

/-- These are the chunks that the session has been given, the last one first. In between the host
can bind global names, make natives, look elsewhere for what is printed, and time passes. -/
inductive Life : List Chunk → Session → Prop
  | initial (sink : Sink) (clock : Nat) : Life [] (Session.initial sink clock)
  | run {chunks : List Chunk} {s : Session} (before : Life chunks s) (fuel : Nat)
      (source : String) : Life (⟨s, fuel, source⟩ :: chunks) (s.run fuel source).2
  | defineGlobal {chunks : List Chunk} {s : Session} (before : Life chunks s) (name : String)
      {value : Value} (offered : s.machine.store.Offers value) :
      Life chunks (s.defineGlobal name value)
  | makeNative {chunks : List Chunk} {s : Session} (before : Life chunks s) (native : Native) :
      Life chunks { s with machine := (s.machine.makeNative native).2 }
  | resume {chunks : List Chunk} {s : Session} (before : Life chunks s) (sink : Sink)
      (clock : Nat) :
      Life chunks { s with machine := { s.machine with sink := sink, clock := clock } }

variable {chunks : List Chunk} {s : Session}

theorem Life.reachable (life : Life chunks s) : s.Reachable := by
  induction life with
  | initial sink clock => exact .initial sink clock
  | run _ fuel source ih => exact .run ih fuel source
  | defineGlobal _ name offered ih => exact .defineGlobal ih name offered
  | makeNative _ native ih => exact .makeNative ih native
  | resume _ sink clock ih => exact .resume ih sink clock

theorem Reachable.life (reachable : s.Reachable) : ∃ chunks, Life chunks s := by
  induction reachable with
  | initial sink clock => exact ⟨[], .initial sink clock⟩
  | run _ fuel source ih =>
    obtain ⟨chunks, life⟩ := ih
    exact ⟨_, .run life fuel source⟩
  | defineGlobal _ name offered ih =>
    obtain ⟨chunks, life⟩ := ih
    exact ⟨chunks, .defineGlobal life name offered⟩
  | makeNative _ native ih =>
    obtain ⟨chunks, life⟩ := ih
    exact ⟨chunks, .makeNative life native⟩
  | resume _ sink clock ih =>
    obtain ⟨chunks, life⟩ := ih
    exact ⟨chunks, .resume life sink clock⟩

end Session

end Lox
