import Downlevel.Unicode.Extender
import Downlevel.Unicode.Hangul
import Downlevel.Unicode.Pictograph
import Downlevel.Unicode.SpacingMark

/-!
# Classes of characters in a cluster
-/

namespace Downlevel.Unicode

/-- What decides whether a character goes on with the cluster before it. -/
inductive ClusterClass where
  | carriageReturn
  | lineFeed
  | control
  /-- A character that belongs to the one before it. -/
  | extender
  /-- The zero width joiner. -/
  | joiner
  | spacingMark
  /-- A character that belongs to the one after it. -/
  | prepended
  /-- One of the two letters of a flag. -/
  | regional
  | pictograph
  | hangul (part : Syllable)
  | other
  deriving Repr, DecidableEq, Inhabited

namespace ClusterClass

/-- The ranges of control and format characters, carriage return and line feed
among them. -/
def controlRanges : List Range :=
  [(0x0, 0x1F), (0x7F, 0x9F), (0xAD, 0xAD), (0x61C, 0x61C), (0x180E, 0x180E), (0x200B, 0x200B),
    (0x200E, 0x200F), (0x2028, 0x202E), (0x2060, 0x206F), (0xFEFF, 0xFEFF), (0xFFF0, 0xFFFB),
    (0x13430, 0x1343F), (0x1BCA0, 0x1BCA3), (0x1D173, 0x1D17A), (0xE0000, 0xE001F),
    (0xE0080, 0xE00FF), (0xE01F0, 0xE0FFF)]

/-- The ranges with the value `Prepend` of the property `Grapheme_Cluster_Break`. -/
def prependedRanges : List Range :=
  [(0x600, 0x605), (0x6DD, 0x6DD), (0x70F, 0x70F), (0x890, 0x891), (0x8E2, 0x8E2), (0xD4E, 0xD4E),
    (0x110BD, 0x110BD), (0x110CD, 0x110CD), (0x111C2, 0x111C3), (0x113D1, 0x113D1),
    (0x1193F, 0x1193F), (0x11941, 0x11941), (0x11A84, 0x11A89), (0x11D46, 0x11D46),
    (0x11F02, 0x11F02)]

/-- The range of the letters of flags. -/
def regionalRange : Range :=
  (0x1F1E6, 0x1F1FF)

/-- The class of a character. -/
def ofChar (c : Char) : ClusterClass :=
  if c = '\r' then .carriageReturn
  else if c = '\n' then .lineFeed
  else if c = '\u200D' then .joiner
  else if controlRanges.any (Range.contains c) then .control
  else if isExtender c then .extender
  else if isSpacingMark c then .spacingMark
  else if prependedRanges.any (Range.contains c) then .prepended
  else if regionalRange.contains c then .regional
  else if isPictograph c then .pictograph
  else
    match Syllable.ofChar? c with
    | some part => .hangul part
    | none => .other

/-- Does a character of this class stand alone, whatever is beside it? -/
def isAlone : ClusterClass → Bool
  | .carriageReturn | .lineFeed | .control => true
  | _ => false

end ClusterClass

end Downlevel.Unicode
