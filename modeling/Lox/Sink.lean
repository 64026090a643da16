/-!
Where printed text goes: the bytes so far, and the room that is left if it is limited. A text that
does not fit is written as far as it fits.
-/

namespace Lox

structure Sink where
  room : Option Nat
  bytes : Array UInt8

namespace Sink

def unlimited : Sink := ⟨none, #[]⟩

/-- The sink after a write. -/
def write (s : Sink) (text : String) : Sink :=
  let data := text.toUTF8.data
  match s.room with
  | none => { s with bytes := s.bytes ++ data }
  | some room => ⟨some (room - data.size), s.bytes ++ data.take room⟩

def fits (s : Sink) (text : String) : Bool :=
  match s.room with
  | none => true
  | some room => text.utf8ByteSize ≤ room

end Sink

end Lox
