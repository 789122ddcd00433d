import Downlevel.Character
import Downlevel.Lexer.Basic

/-!
# Gaps between tokens

A gap is a sequence of white space and comments.
-/

namespace Downlevel.Lexer

open Character

/-- Where in a gap the scan stands. -/
inductive GapPart where
  | space
  | lineComment
  /-- Inside the block comment that starts at the given offset. -/
  | blockComment (start : Nat)
  deriving Repr, DecidableEq, Inhabited

/-- Scans to the end of a gap.  The result says whether the gap holds a line
terminator, and what text comes after it. -/
def skipGap : GapPart → Bool → Nat → Text → Outcome (Bool × Text)
  | .space, nl, pos, '/' :: '/' :: cs => skipGap .lineComment nl (pos + 2) cs
  | .space, nl, pos, '/' :: '*' :: cs => skipGap (.blockComment pos) nl (pos + 2) cs
  | .space, nl, pos, c :: cs =>
      if isWhitespace c then skipGap .space (nl || isLineTerminator c) (pos + c.utf8Size) cs
      else .ok (nl, c :: cs) pos
  | .lineComment, nl, pos, c :: cs =>
      if isLineTerminator c then skipGap .space true (pos + c.utf8Size) cs
      else skipGap .lineComment nl (pos + c.utf8Size) cs
  | .blockComment _, nl, pos, '*' :: '/' :: cs => skipGap .space nl (pos + 2) cs
  | .blockComment start, nl, pos, c :: cs =>
      skipGap (.blockComment start) (nl || isLineTerminator c) (pos + c.utf8Size) cs
  | .blockComment start, _, _, [] => fail .unterminatedComment start (start + 2)
  | .space, nl, pos, [] => .ok (nl, []) pos
  | .lineComment, nl, pos, [] => .ok (nl, []) pos

end Downlevel.Lexer
