/-!
# Blank characters

The characters that separate lexemes: exactly those with the `White_Space` property.  The table is
a list of closed ranges of code points in ascending order; the zero-width space and the byte-order
mark are not blank.
-/

namespace FrontEnd.Text

/-- The code points with the `White_Space` property, as closed ranges in ascending order. -/
def blankRanges : List (Nat × Nat) :=
  [(0x09, 0x0D), (0x20, 0x20), (0x85, 0x85), (0xA0, 0xA0), (0x1680, 0x1680), (0x2000, 0x200A),
   (0x2028, 0x2029), (0x202F, 0x202F), (0x205F, 0x205F), (0x3000, 0x3000)]

/-- Whether a character is blank. -/
def isBlank (c : Char) : Bool :=
  blankRanges.any fun range => range.1 ≤ c.toNat && c.toNat ≤ range.2

/-- There are twenty-five blank characters. -/
example : (blankRanges.map fun range => range.2 - range.1 + 1).sum = 25 := by decide

end FrontEnd.Text
