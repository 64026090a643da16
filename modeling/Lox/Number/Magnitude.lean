/-!
Floating-point magnitudes as exact whole numbers. The magnitude of a number is its bit pattern
without the sign; every finite magnitude is a whole multiple of `2 ^ -1074`, so all comparisons
and roundings of this library are made on `Nat`.
-/

namespace Lox.Number

/-- A number by its 64 bits: sign, exponent and fraction. The patterns that are no number, which
`Float` makes one of, stay apart. -/
abbrev Pattern := UInt64

/-- The number of units in one, a unit being `2 ^ -1074`. -/
def one : Nat := Nat.pow 2 1074

def signBit : Nat := Nat.pow 2 63

/-- The number of fractional patterns of one exponent. -/
def fractions : Nat := Nat.pow 2 52

/-- The bit pattern of infinity: finite magnitudes lie below it, those that are no number above. -/
def infinite : Nat := 2047 * fractions

def magnitude (n : Pattern) : Nat := n.toNat % signBit

def isNegative (n : Pattern) : Bool := signBit ≤ n.toNat

/-- The non-negative number of a magnitude. -/
def ofMagnitude (bits : Nat) : Pattern := UInt64.ofNat bits

/-- A finite magnitude in units. The exponents 0 and 1 share their spacing. -/
def units (bits : Nat) : Nat :=
  if bits / fractions = 0 then bits
  else (fractions + bits % fractions) * Nat.pow 2 (bits / fractions - 1)

/-- A quotient rounded to the nearest whole number, a half to the even neighbour. -/
def roundedQuotient (dividend divisor : Nat) : Nat :=
  let low := dividend / divisor
  let twice := 2 * (dividend % divisor)
  if twice < divisor then low
  else if divisor < twice then low + 1
  else low + low % 2

/-- The magnitude nearest to `dividend / divisor`. A mantissa of 53 bits starts where the shift
does; a rounding that carries into bit 53 lands on the next exponent by itself. -/
def nearest (dividend divisor : Nat) : Nat :=
  let scaled := dividend * one
  let shift := (scaled / divisor).log2 - 52
  min infinite (shift * fractions + roundedQuotient scaled (divisor * Nat.pow 2 shift))

end Lox.Number
