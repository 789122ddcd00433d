import Downlevel.Character
import Downlevel.Lexer.Basic

/-!
# Words

Identifiers and reserved words.  A character of a word may be written as a
Unicode escape, and a word with an escape in it is never reserved.
-/

namespace Downlevel.Lexer

open Character

/-- Where in a word the scan stands. -/
inductive WordPart where
  /-- Between characters; `first` says that none was read yet. -/
  | plain (first : Bool)
  /-- In an escape that starts at `start`, with `left` digits to come. -/
  | digits (start left : Nat)
  /-- Between the braces of an escape that starts at `start`. -/
  | braces (start : Nat)
  deriving Repr, DecidableEq, Inhabited

/-- Scans to the end of a word.  The result says whether the word has an escape. -/
def skipWord : WordPart → Bool → Nat → Text → Outcome Bool
  | .plain _, escaped, pos, '\\' :: 'u' :: '{' :: cs =>
      skipWord (.braces pos) escaped (pos + 3) cs
  | .plain _, escaped, pos, '\\' :: 'u' :: cs => skipWord (.digits pos 4) escaped (pos + 2) cs
  | .plain _, _, pos, '\\' :: _ => fail .missingUnicodeEscape pos pos
  | .plain first, escaped, pos, c :: cs =>
      if (if first then isIdStart c else isIdContinue c) then
        skipWord (.plain false) escaped (pos + c.utf8Size) cs
      else .ok escaped pos
  | .plain _, escaped, pos, [] => .ok escaped pos
  | .digits start left, escaped, pos, c :: cs =>
      if isHexDigit c then
        if left ≤ 1 then skipWord (.plain false) true (pos + 1) cs
        else skipWord (.digits start (left - 1)) escaped (pos + 1) cs
      else fail .badUnicodeEscape start pos
  | .digits start _, _, pos, [] => fail .badUnicodeEscape start pos
  | .braces _, _, pos, '}' :: cs => skipWord (.plain false) true (pos + 1) cs
  | .braces start, escaped, pos, c :: cs =>
      skipWord (.braces start) escaped (pos + c.utf8Size) cs
  | .braces start, _, _, [] => fail .badUnicodeEscape start (start + 2)

/-- Reads an identifier or reserved word that starts at `pos`. -/
def word (pos : Nat) (cs : Text) : Outcome Kind :=
  match skipWord (.plain true) false pos cs with
  | .error failure reached => .error failure reached
  | .ok escaped stop =>
      if stop = pos then fail .unreadableCharacter pos pos
      else if escaped then .ok .name stop
      else .ok ((Kind.keyword? (Text.takeBytes cs (stop - pos))).getD .name) stop

/-- Reads the name after the `#` at `pos`. -/
def privateName (pos : Nat) (cs : Text) : Outcome Kind :=
  if cs.head?.any isIdStart then
    match skipWord (.plain true) false (pos + 1) cs with
    | .error failure reached => .error failure reached
    | .ok _ stop => .ok .privateName stop
  else fail (.unexpectedCharacter '#') pos (pos + 1)

end Downlevel.Lexer
