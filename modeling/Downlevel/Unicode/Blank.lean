import Downlevel.Unicode.Range

/-!
# Blank characters
-/

namespace Downlevel.Unicode

/-- The ranges of the property `White_Space`, in order. -/
def blankRanges : List Range :=
  [(0x9, 0xD), (0x20, 0x20), (0x85, 0x85), (0xA0, 0xA0), (0x1680, 0x1680), (0x2000, 0x200A),
    (0x2028, 0x2029), (0x202F, 0x202F), (0x205F, 0x205F), (0x3000, 0x3000)]

/-- Characters that show as white space. -/
def isBlank (c : Char) : Bool :=
  blankRanges.any (Range.contains c)

/-- The text without the blank characters in front of it. -/
def trimLeft (t : List Char) : List Char :=
  t.dropWhile isBlank

/-- The text without the blank characters around it. -/
def trim (t : List Char) : List Char :=
  ((trimLeft t).reverse.dropWhile isBlank).reverse

end Downlevel.Unicode
