import Downlevel.Unicode.Range

/-!
# Hangul

A Hangul syllable is a lead, a vowel and a tail, the tail being optional.  Its
parts can be characters of their own, and a character can be a whole syllable.
-/

namespace Downlevel.Unicode

/-- What a Hangul character holds of a syllable. -/
inductive Syllable where
  | lead
  | vowel
  | tail
  | leadVowel
  | leadVowelTail
  deriving Repr, DecidableEq, Inhabited

namespace Syllable

/-- The ranges of leads. -/
def leadRanges : List Range :=
  [(0x1100, 0x115F), (0xA960, 0xA97C)]

/-- The ranges of vowels, with those of the script Kirat Rai, which combine alike. -/
def vowelRanges : List Range :=
  [(0x1160, 0x11A7), (0xD7B0, 0xD7C6), (0x16D63, 0x16D63), (0x16D67, 0x16D6A)]

/-- The ranges of tails. -/
def tailRanges : List Range :=
  [(0x11A8, 0x11FF), (0xD7CB, 0xD7FB)]

/-- The range of whole syllables. -/
def wholeRange : Range :=
  (0xAC00, 0xD7A3)

/-- The number of whole syllables with the same lead and vowel: one without a tail,
which is the first of them, and one for each tail. -/
def tailCount : Nat := 28

/-- What a character holds of a syllable, if it is a Hangul character. -/
def ofChar? (c : Char) : Option Syllable :=
  if leadRanges.any (Range.contains c) then some .lead
  else if vowelRanges.any (Range.contains c) then some .vowel
  else if tailRanges.any (Range.contains c) then some .tail
  else if wholeRange.contains c then
    if (c.toNat - wholeRange.1) % tailCount = 0 then some .leadVowel else some .leadVowelTail
  else none

/-- Can the second part go on with the syllable of the first? -/
def joins : Syllable → Syllable → Bool
  | .lead, .lead | .lead, .vowel | .lead, .leadVowel | .lead, .leadVowelTail => true
  | .leadVowel, .vowel | .leadVowel, .tail | .vowel, .vowel | .vowel, .tail => true
  | .leadVowelTail, .tail | .tail, .tail => true
  | _, _ => false

end Syllable

end Downlevel.Unicode
