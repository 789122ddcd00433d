import Downlevel.Unicode.Alphabetic
import Downlevel.Unicode.Digit
import Downlevel.Unicode.Mark
import Downlevel.Unicode.Recent

/-!
# Word characters

The word characters are those of version 16.0.  The tables of letters, marks and
digits are those of version 17.0, so what that version added is taken out again.
-/

namespace Downlevel.Unicode

/-- The ranges of the category `Pc`, the characters that join words. -/
def connectorRanges : List Range :=
  [(0x5F, 0x5F), (0x203F, 0x2040), (0x2054, 0x2054), (0xFE33, 0xFE34), (0xFE4D, 0xFE4F),
    (0xFF3F, 0xFF3F)]

/-- The range of the property `Join_Control`. -/
def joinControl : Range :=
  (0x200C, 0x200D)

/-- Characters a word is made of: alphabetic characters, marks, decimal digits,
connectors and joiners. -/
def isWord (c : Char) : Bool :=
  ((isAlphabetic c || isMark c || isDigit c) && !isRecent c)
    || connectorRanges.any (Range.contains c) || joinControl.contains c

end Downlevel.Unicode
