import Downlevel.Unicode.Alphabetic
import Downlevel.Unicode.Number

/-!
# Character classes of source code

Below U+0080 the classes are spelled out; above it they follow the Unicode
properties.
-/

namespace Downlevel.Character

/-- Characters that end a line of source code. -/
def isLineTerminator (c : Char) : Bool :=
  c == '\n' || c == '\r' || c == '\u2028' || c == '\u2029'

/-- Spaces above U+00A0. -/
def isUnicodeSpace (c : Char) : Bool :=
  c == '\u1680' || ('\u2000' ≤ c && c ≤ '\u200a') || c == '\u202f' || c == '\u205f'
    || c == '\u3000'

/-- Characters that separate tokens. -/
def isWhitespace (c : Char) : Bool :=
  c == '\t' || c == '\x0b' || c == '\x0c' || c == ' ' || c == '\u00a0' || c == '\ufeff'
    || isLineTerminator c || isUnicodeSpace c

/-- Is the character outside ASCII? -/
def isWide (c : Char) : Bool :=
  128 ≤ c.toNat

/-- Lower-case letters of ASCII. -/
def isLower (c : Char) : Bool :=
  'a' ≤ c && c ≤ 'z'

/-- Letters of ASCII. -/
def isLetter (c : Char) : Bool :=
  isLower c || ('A' ≤ c && c ≤ 'Z')

/-- Decimal digits of ASCII. -/
def isDigit (c : Char) : Bool :=
  '0' ≤ c && c ≤ '9'

/-- Characters an identifier can start with. -/
def isIdStart (c : Char) : Bool :=
  isLetter c || c == '_' || c == '$' || (isWide c && Unicode.isAlphabetic c)

/-- Characters an identifier can go on with. -/
def isIdContinue (c : Char) : Bool :=
  isLetter c || isDigit c || c == '_' || c == '$'
    || (isWide c
      && (Unicode.isAlphabetic c || Unicode.isNumber c || c == '\u200c' || c == '\u200d'))

/-- The value of a hexadecimal digit of either case. -/
def hexValue? (c : Char) : Option Nat :=
  if isDigit c then some (c.toNat - 48)
  else if 'a' ≤ c && c ≤ 'f' then some (c.toNat - 87)
  else if 'A' ≤ c && c ≤ 'F' then some (c.toNat - 55)
  else none

/-- Hexadecimal digits of either case. -/
def isHexDigit (c : Char) : Bool :=
  (hexValue? c).isSome

/-- The first byte of the UTF-8 encoding. -/
def leadByte (c : Char) : Nat :=
  let n := c.toNat
  if n < 0x80 then n
  else if n < 0x800 then 0xC0 + n / 0x40
  else if n < 0x10000 then 0xE0 + n / 0x1000
  else 0xF0 + n / 0x40000

/-- The character of a code point, if it is a Unicode scalar value. -/
def ofCodePoint? (n : Nat) : Option Char :=
  if h : n.isValidChar then some (Char.ofNatAux n h) else none

end Downlevel.Character
