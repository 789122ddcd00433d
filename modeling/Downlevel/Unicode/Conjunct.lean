import Downlevel.Unicode.Range

/-!
# Conjuncts

A conjunct is two or more consonants that are written as one.
-/

namespace Downlevel.Unicode

/-- The runs with the value `Consonant` of the property `Indic_Conjunct_Break`. -/
def consonantRuns : List Nat :=
  [2325, 37, 30, 8, 24, 8, 21, 20, 1, 7, 1, 1, 3, 4, 34, 2, 1, 1, 16, 2, 163, 20, 1, 7, 1, 2, 1, 5,
    63, 1, 27, 20, 1, 7, 1, 2, 1, 5, 34, 2, 1, 1, 17, 1, 163, 20, 1, 16, 30, 3, 186, 38, 709, 43,
    20, 1, 16, 6, 4, 4, 3, 1, 3, 2, 7, 3, 4, 13, 12, 1, 1777, 52, 620, 53, 182, 2, 6, 33, 17, 8, 54,
    30, 13, 2, 11, 3, 36299, 3, 3, 36, 45, 5, 2, 9, 10, 5, 97, 16, 1, 3, 6, 1, 3, 2, 96, 11, 213,
    27, 24101, 1, 15, 4, 1, 3, 1, 29, 1741, 36, 29, 1, 2, 1, 568, 10, 1, 1, 2, 1, 1, 38, 1354, 7, 2,
    1, 2, 8, 1, 2, 1, 24, 208, 1, 10, 40, 29, 1, 11, 40, 1152, 13, 1, 34]

/-- Consonants that can be part of a conjunct. -/
def isConsonant (c : Char) : Bool :=
  inRuns false consonantRuns c.toNat

/-- The ranges with the value `Linker` of the property `Indic_Conjunct_Break`, in order. -/
def linkerRanges : List Range :=
  [(0x94D, 0x94D), (0x9CD, 0x9CD), (0xACD, 0xACD), (0xB4D, 0xB4D), (0xC4D, 0xC4D), (0xD4D, 0xD4D),
    (0x1039, 0x1039), (0x17D2, 0x17D2), (0x1A60, 0x1A60), (0x1B44, 0x1B44), (0x1BAB, 0x1BAB),
    (0xA9C0, 0xA9C0), (0xAAF6, 0xAAF6), (0x10A3F, 0x10A3F), (0x11133, 0x11133),
    (0x113D0, 0x113D0), (0x1193E, 0x1193E), (0x11A47, 0x11A47), (0x11A99, 0x11A99),
    (0x11F42, 0x11F42)]

/-- Signs that put two consonants together. -/
def isLinker (c : Char) : Bool :=
  linkerRanges.any (Range.contains c)

end Downlevel.Unicode
