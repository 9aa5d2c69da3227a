import Conform.Text.Ranges

/-!
# Blank characters

A character is blank if it separates words or lines: the spaces, the line
and paragraph separators, and the control characters that move the
position. The zero-width space and the byte order mark are not blank.
-/

namespace Conform.Text

/-- The code points of the blank characters. -/
def blankRanges : List (Nat × Nat) :=
  [(0x9, 0xd), (0x1c, 0x20), (0x85, 0x85), (0xa0, 0xa0), (0x1680, 0x1680),
   (0x2000, 0x200a), (0x2028, 0x2029), (0x202f, 0x202f), (0x205f, 0x205f),
   (0x3000, 0x3000)]

/-- Whether a character is blank. -/
def isBlank (c : Char) : Bool := inRanges blankRanges c.toNat

/-- Removes the blank characters at both ends. -/
def trim (s : String) : String :=
  String.ofList (((s.toList.dropWhile isBlank).reverse.dropWhile isBlank).reverse)

end Conform.Text
