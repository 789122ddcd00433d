import Downlevel.Unicode.Extender
import Downlevel.Unicode.SpacingMark

/-!
# Combining marks
-/

namespace Downlevel.Unicode

/-- The ranges of marks that are no extenders and no spacing marks of a cluster, in order. -/
def otherMarkRanges : List Range :=
  [(0x102B, 0x102C), (0x1038, 0x1038), (0x1062, 0x1064), (0x1067, 0x106D), (0x1083, 0x1083),
    (0x1087, 0x108C), (0x108F, 0x108F), (0x109A, 0x109C), (0x1A61, 0x1A61), (0x1A63, 0x1A64),
    (0xAA7B, 0xAA7B), (0xAA7D, 0xAA7D), (0x11720, 0x11721)]

/-- The ranges of extenders and spacing marks outside the categories `Mn`, `Mc` and `Me`, in
order. -/
def noMarkRanges : List Range :=
  [(0xE33, 0xE33), (0xEB3, 0xEB3), (0x200C, 0x200C), (0xFF9E, 0xFF9F), (0x1F3FB, 0x1F3FF),
    (0xE0020, 0xE007F)]

/-- Marks that combine with the character before them: those of the categories `Mn`, `Mc` and
`Me`. -/
def isMark (c : Char) : Bool :=
  (isExtender c || isSpacingMark c || otherMarkRanges.any (Range.contains c))
    && !noMarkRanges.any (Range.contains c)

end Downlevel.Unicode
