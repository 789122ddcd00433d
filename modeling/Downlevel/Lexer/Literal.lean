import Downlevel.Character
import Downlevel.Lexer.Basic

/-!
# String, regular expression and template literals
-/

namespace Downlevel.Lexer

open Character

/-- Scans past the closing quote of the string literal that starts at `start`.
Line breaks are allowed after a backslash only. -/
def skipString (quote : Char) (start : Nat) : Nat → Text → Outcome Unit
  | pos, '\\' :: '\r' :: '\n' :: cs => skipString quote start (pos + 3) cs
  | pos, '\\' :: c :: cs => skipString quote start (pos + 1 + c.utf8Size) cs
  | pos, ['\\'] => fail .unterminatedString start (pos + 1)
  | pos, c :: cs =>
      if c == '\n' || c == '\r' then fail .unterminatedString start pos
      else if c == quote then .ok () (pos + 1)
      else skipString quote start (pos + c.utf8Size) cs
  | pos, [] => fail .unterminatedString start pos

/-- Scans past the flags of the regular expression that starts at `start`.
Between square brackets a slash does not end it. -/
def skipRegex (start : Nat) (inClass : Bool) : Nat → Text → Outcome Unit
  | pos, '\\' :: c :: cs => skipRegex start inClass (pos + 1 + c.utf8Size) cs
  | pos, ['\\'] => fail .unterminatedRegex start (pos + 1)
  | pos, c :: cs =>
      if isLineTerminator c then fail .unterminatedRegex start (pos + c.utf8Size)
      else if c == '/' && !inClass then
        .ok () (pos + 1 + Text.size (cs.takeWhile isIdContinue))
      else
        skipRegex start (if c == '[' then true else if c == ']' then false else inClass)
          (pos + c.utf8Size) cs
  | pos, [] => fail .unterminatedRegex start pos

/-- Scans to the backquote or `${` that ends the template chunk that starts at `start`. -/
def skipTemplate (start : Nat) : Nat → Text → Outcome Unit
  | pos, '\x60' :: _ => .ok () pos
  | pos, '$' :: '{' :: _ => .ok () pos
  | pos, '\\' :: c :: cs => skipTemplate start (pos + 1 + c.utf8Size) cs
  | pos, ['\\'] => fail .unterminatedTemplate start (pos + 1)
  | pos, c :: cs => skipTemplate start (pos + c.utf8Size) cs
  | pos, [] => fail .unterminatedTemplate start pos

end Downlevel.Lexer
