import Downlevel.Markup.Entity
import Downlevel.Text.Numeral

/-!
# Character references

A reference starts with `&`, ends with `;`, and stands for one character.
-/

namespace Downlevel.Markup

/-- The longest name, in bytes, that is looked for. -/
def longestName : Nat := 9

/-- A numeric reference in a base: the character and the length with the semicolon. -/
def numericReference? (base : Nat) (isDigit : Char → Bool) (t : Text) : Option (Char × Nat) :=
  let digits := t.takeWhile isDigit
  match t.dropWhile isDigit with
  | ';' :: _ =>
      if digits.isEmpty then none
      else
        (Character.ofCodePoint? (Text.valueOfDigits base digits)).map
          fun c => (c, digits.length + 1)
  | _ => none

/-- A named reference: the character and the length with the semicolon. -/
def namedReference? (t : Text) : Option (Char × Nat) :=
  match Text.cut ';' t with
  | (name, some _) =>
      if Text.size name ≤ longestName then (entity? name).map fun c => (c, name.length + 1)
      else none
  | (_, none) => none

/-- The reference that a text after `&` starts with: the character it stands
for, and how many characters of the text it takes. -/
def reference? : Text → Option (Char × Nat)
  | '#' :: 'x' :: cs =>
      (numericReference? 16 Character.isHexDigit cs).map fun (c, n) => (c, n + 2)
  | '#' :: cs => (numericReference? 10 Character.isDigit cs).map fun (c, n) => (c, n + 1)
  | cs => namedReference? cs

end Downlevel.Markup
