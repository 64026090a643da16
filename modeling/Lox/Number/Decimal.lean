import Lox.Number.Magnitude

/-!
Decimals and the magnitudes they stand for: reading rounds to the nearest magnitude, and
`shortest` chooses, among the decimals with the fewest digits that read back, the nearest one.
-/

namespace Lox.Number

/-- The number `digits * 10 ^ exponent`. -/
structure Decimal where
  digits : Nat
  exponent : Int
  deriving DecidableEq, Repr

/-- Which of two equally near decimals is taken. -/
inductive Tie where
  | up | toEven
  deriving DecidableEq, Repr

namespace Decimal

/-- The magnitude that the decimal is read as. -/
def magnitude (d : Decimal) : Nat :=
  if 0 ≤ d.exponent then nearest (d.digits * Nat.pow 10 d.exponent.toNat) 1
  else nearest d.digits (Nat.pow 10 (-d.exponent).toNat)

def toPattern (d : Decimal) : Pattern := ofMagnitude d.magnitude

/-- The same decimal without trailing zeros. -/
def strip (d : Decimal) : Decimal :=
  if d.digits = 0 ∨ d.digits % 10 ≠ 0 then d else strip ⟨d.digits / 10, d.exponent + 1⟩
termination_by d.digits
decreasing_by
  show d.digits / 10 < d.digits
  omega

/-- The whole value of a finite magnitude, digit for digit. -/
def exact (bits : Nat) : Decimal := ⟨units bits * Nat.pow 5 1074, -1074⟩

/-- The nearer of the two neighbours of a magnitude that end at `10 ^ exponent`, of those that
read back. -/
def neighbour? (tie : Tie) (bits : Nat) (exponent : Int) : Option Decimal :=
  let dividend := if 0 ≤ exponent then units bits else units bits * Nat.pow 10 (-exponent).toNat
  let divisor := if 0 ≤ exponent then one * Nat.pow 10 exponent.toNat else one
  let low : Decimal := ⟨dividend / divisor, exponent⟩
  let high : Decimal := ⟨dividend / divisor + 1, exponent⟩
  let twice := 2 * (dividend % divisor)
  if low.magnitude = bits then
    if high.magnitude = bits
        ∧ (divisor < twice ∨ divisor = twice ∧ (tie = .up ∨ low.digits % 2 = 1)) then some high
    else some low
  else if high.magnitude = bits then some high
  else none

/-- The least `k` with the magnitude below `10 ^ k`. Every positive magnitude reaches `10 ^ -330`. -/
def scale (bits : Nat) : Int :=
  (Nat.toDigits 10 (units bits * Nat.pow 10 330 / one)).length - 330

/-- The decimal of fewest digits that is read as the finite magnitude `bits`; seventeen digits are
tried before the exact value is given in full. -/
def shortest (tie : Tie) (bits : Nat) : Decimal :=
  let found := (List.range 17).findSome? fun (digit : Nat) =>
    neighbour? tie bits (scale bits - 1 - digit)
  (found.getD (exact bits)).strip

/-- Positional digits: the point stands inside, before or, left out, after them. -/
def positional (d : Decimal) : List Char :=
  let digits := Nat.toDigits 10 d.digits
  let places := (-d.exponent).toNat
  if 0 ≤ d.exponent then digits ++ List.replicate d.exponent.toNat '0'
  else if digits.length ≤ places then
    '0' :: '.' :: List.replicate (places - digits.length) '0' ++ digits
  else digits.take (digits.length - places) ++ '.' :: digits.drop (digits.length - places)

/-- One digit, the others after a point, and a signed exponent. -/
def scientific (d : Decimal) : List Char :=
  let digits := Nat.toDigits 10 d.digits
  let lead := d.exponent + (digits.length - 1 : Nat)
  let fraction := if digits.length ≤ 1 then [] else '.' :: digits.drop 1
  digits.take 1 ++ fraction ++ 'e' :: (if lead < 0 then '-' else '+') :: Nat.toDigits 10 lead.natAbs

end Decimal

end Lox.Number
