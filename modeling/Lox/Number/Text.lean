import Lox.Number.Decimal

/-!
The texts of a number: as a program prints it, as a token shows it, as a tree shows it and as a
data file holds it. All four agree on the digits of a fraction and differ in how a whole number is
written.
-/

namespace Lox.Number

def isWhole (n : Pattern) : Bool := magnitude n < infinite ∧ units (magnitude n) % one = 0

/-- Whole numbers below this bound are printed digit by digit. -/
def wholeBound : Nat := Nat.pow 10 15

def wholePart (n : Pattern) : Nat := units (magnitude n) / one

def wholeDigits (n : Pattern) : List Char := Nat.toDigits 10 (wholePart n)

def isShortWhole (n : Pattern) : Bool := isWhole n ∧ wholePart n < wholeBound

def sign (n : Pattern) : List Char := if isNegative n then ['-'] else []

/-- The fewest digits that identify the number, never with an exponent. -/
def shortestText (n : Pattern) : List Char :=
  if infinite < magnitude n then "NaN".toList
  else if magnitude n = infinite then sign n ++ "inf".toList
  else sign n ++ (Decimal.shortest .up (magnitude n)).positional

/-- What a program prints: whole numbers without a fraction, and the sign of zero kept. -/
def text (n : Pattern) : String :=
  String.ofList (if isShortWhole n then sign n ++ wholeDigits n else shortestText n)

/-- What a token shows: short whole numbers get a fraction, and zero has no sign. -/
def tokenText (n : Pattern) : String :=
  String.ofList
    (if isShortWhole n then
      (if wholePart n = 0 then [] else sign n) ++ wholeDigits n ++ ".0".toList
    else shortestText n)

/-- What a tree shows: every whole number in full, with a fraction. -/
def treeText (n : Pattern) : String :=
  String.ofList
    (if isWhole n then sign n ++ wholeDigits n ++ ".0".toList else shortestText n)

/-- What a data file holds: a fraction or an exponent always, the exponent outside of
`10 ^ -5 ≤ n < 10 ^ 16`, and `null` for what is no finite number. A tie goes to the even digit. -/
def dataText (n : Pattern) : String :=
  if infinite ≤ magnitude n then "null"
  else
    let d := Decimal.shortest .toEven (magnitude n)
    let lead := d.exponent + ((Nat.toDigits 10 d.digits).length - 1 : Nat)
    String.ofList (sign n ++
      if magnitude n = 0 then "0.0".toList
      else if lead < -5 ∨ 16 ≤ lead then d.scientific
      else if 0 ≤ d.exponent then d.positional ++ ".0".toList
      else d.positional)

end Lox.Number
