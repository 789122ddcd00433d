import Downlevel.Character
import Downlevel.Lexer.Basic

/-!
# Number literals

Digits may be separated by underscores anywhere, and no digit is required
after a base mark, a point or an exponent mark.
-/

namespace Downlevel.Lexer

open Character

/-- Digits of base eight. -/
def isOctalDigit (c : Char) : Bool :=
  '0' ≤ c && c ≤ '7'

/-- Digits of base two. -/
def isBinaryDigit (c : Char) : Bool :=
  c == '0' || c == '1'

/-- The text after a run of digits and separators. -/
def dropDigits (isDigit : Char → Bool) (cs : Text) : Text :=
  cs.dropWhile fun c => isDigit c || c == '_'

/-- The text after a fraction, if there is one. -/
def dropFraction : Text → Text
  | '.' :: cs => dropDigits isDigit cs
  | cs => cs

/-- The text after a sign, if there is one. -/
def dropSign : Text → Text
  | '+' :: cs => cs
  | '-' :: cs => cs
  | cs => cs

/-- The text after an exponent, if there is one. -/
def dropExponent : Text → Text
  | 'e' :: cs => dropDigits isDigit (dropSign cs)
  | 'E' :: cs => dropDigits isDigit (dropSign cs)
  | cs => cs

/-- The text after the digits of a decimal literal. -/
def dropDecimal (cs : Text) : Text :=
  dropExponent (dropFraction (dropDigits isDigit cs))

/-- The text after the digits of a literal of any base. -/
def dropNumber : Text → Text
  | '0' :: mark :: cs =>
      if mark == 'x' || mark == 'X' then dropDigits isHexDigit cs
      else if mark == 'o' || mark == 'O' then dropDigits isOctalDigit cs
      else if mark == 'b' || mark == 'B' then dropDigits isBinaryDigit cs
      else dropDecimal ('0' :: mark :: cs)
  | cs => dropDecimal cs

/-- The kind of a literal by the text after its digits, and the text after it. -/
def numberSuffix : Text → Kind × Text
  | 'n' :: cs => (.bigInt, cs)
  | cs => (.num, cs)

/-- Reads a number literal that starts at `pos`. -/
def number (pos : Nat) (cs : Text) : Outcome Kind :=
  let (kind, rest) := numberSuffix (dropNumber cs)
  let stop := past pos cs rest
  if rest.head?.any isIdStart then fail .identifierAfterNumber stop stop
  else .ok kind stop

end Downlevel.Lexer
