/-!
Bytes as text: where a byte sequence stops being well-formed, and reading with replacement.
-/

namespace Lox.Text

/-- The start of an ill-formed piece, and its length unless the bytes end inside of it. -/
structure IllFormed where
  index : Nat
  length : Option Nat
  deriving DecidableEq, Repr

def isContinuation (b : UInt8) : Bool := 0x80 ≤ b ∧ b ≤ 0xBF

/-- The bytes that may follow a lead byte directly: overlong forms, surrogates and numbers that
are too large are excluded here. -/
def fitsLead (lead second : UInt8) : Bool :=
  if lead = 0xE0 then 0xA0 ≤ second ∧ second ≤ 0xBF
  else if lead = 0xED then 0x80 ≤ second ∧ second ≤ 0x9F
  else if lead = 0xF0 then 0x90 ≤ second ∧ second ≤ 0xBF
  else if lead = 0xF4 then 0x80 ≤ second ∧ second ≤ 0x8F
  else isContinuation second

/-- The number of bytes that a lead byte announces. -/
def width (lead : UInt8) : Option Nat :=
  if lead < 0x80 then some 1
  else if 0xC2 ≤ lead ∧ lead ≤ 0xDF then some 2
  else if 0xE0 ≤ lead ∧ lead ≤ 0xEF then some 3
  else if 0xF0 ≤ lead ∧ lead ≤ 0xF4 then some 4
  else none

/-- The length of the longest beginning of `rest` that can follow `lead`, at most `wanted`. -/
def following (lead : UInt8) (wanted : Nat) (rest : List UInt8) : Nat :=
  match wanted, rest with
  | wanted + 1, second :: more =>
      if fitsLead lead second then 1 + ((more.take wanted).takeWhile isContinuation).length else 0
  | _, _ => 0

/-- The first ill-formed piece; `index` is where the bytes start, `skip` how many of them belong to
a character that has been checked. -/
def illFormedFrom (index : Nat) (skip : Nat) : List UInt8 → Option IllFormed
  | [] => none
  | lead :: rest =>
      match skip with
      | skip + 1 => illFormedFrom (index + 1) skip rest
      | 0 =>
          match width lead with
          | none => some ⟨index, some 1⟩
          | some n =>
              let found := following lead (n - 1) rest
              if found = n - 1 then illFormedFrom (index + 1) (n - 1) rest
              else if found = rest.length then some ⟨index, none⟩
              else some ⟨index, some (1 + found)⟩

def illFormed? (bytes : List UInt8) : Option IllFormed := illFormedFrom 0 0 bytes

def IllFormed.message (e : IllFormed) : String :=
  match e.length with
  | some n =>
      "invalid utf-8 sequence of " ++ toString n ++ " bytes from index " ++ toString e.index
  | none => "incomplete utf-8 byte sequence from index " ++ toString e.index

/-- The text of the bytes; from an ill-formed piece on, one replacement character. -/
def decodeCut (bytes : ByteArray) : String :=
  match String.fromUTF8? bytes with
  | some s => s
  | none =>
      match illFormed? bytes.toList with
      | some e => (String.fromUTF8? (bytes.extract 0 e.index)).getD "" ++ "\ufffd"
      | none => ""

end Lox.Text
