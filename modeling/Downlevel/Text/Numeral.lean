import Downlevel.Character
import Downlevel.Text.Basic

/-!
# Numerals
-/

namespace Downlevel.Text

/-- The value of a row of hexadecimal digits in a base, the first digit the
highest.  Other characters count as zero. -/
def valueOfDigits (base : Nat) (digits : Text) : Nat :=
  digits.foldl (fun value c => value * base + (Character.hexValue? c).getD 0) 0

/-- The number a text writes in hexadecimal digits, after an optional plus sign. -/
def hexNumber? (t : Text) : Option Nat :=
  let digits :=
    match t with
    | '+' :: cs => cs
    | cs => cs
  if !digits.isEmpty && digits.all Character.isHexDigit then some (valueOfDigits 16 digits)
  else none

end Downlevel.Text
