import Downlevel.Text.Basic

/-!
# String literals

A literal stands between double quotes.  Inside it the quote, the backslash
and the characters below the space are escaped, and all others stand for
themselves.
-/

namespace Downlevel.Text

/-- The digit of value `n`, in lower case above nine. -/
def hexDigit (n : Nat) : Char :=
  if n < 10 then Char.ofNat (48 + n) else Char.ofNat (87 + n)

/-- How a literal writes one character. -/
def escapeChar (c : Char) : Text :=
  if c = '\x22' then "\\\"".toList
  else if c = '\\' then "\\\\".toList
  else if c = '\x08' then "\\b".toList
  else if c = '\x0c' then "\\f".toList
  else if c = '\n' then "\\n".toList
  else if c = '\r' then "\\r".toList
  else if c = '\t' then "\\t".toList
  else if c.toNat < 32 then
    "\\u00".toList ++ [hexDigit (c.toNat / 16), hexDigit (c.toNat % 16)]
  else [c]

/-- The string literal of a text. -/
def quote (t : Text) : Text :=
  '\x22' :: t.flatMap escapeChar ++ ['\x22']

end Downlevel.Text
