/-!
White space in all scripts.
-/

namespace Lox.Text

/-- The characters with the property of white space. -/
def isSpace (c : Char) : Bool :=
  let n := c.toNat
  (9 ≤ n ∧ n ≤ 13) ∨ n = 0x20 ∨ n = 0x85 ∨ n = 0xA0 ∨ n = 0x1680 ∨ (0x2000 ≤ n ∧ n ≤ 0x200A)
    ∨ n = 0x2028 ∨ n = 0x2029 ∨ n = 0x202F ∨ n = 0x205F ∨ n = 0x3000

/-- A text without the white space at its ends. -/
def trim (s : String) : String :=
  let front := s.toList.dropWhile isSpace
  String.ofList (front.reverse.dropWhile isSpace).reverse

end Lox.Text
