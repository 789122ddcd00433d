import Downlevel.Text.Numeral

/-!
# Identifiers

The characters of an identifier may be written as escapes, and two spellings
of the same characters are the same name.
-/

namespace Downlevel.Identifier

/-- The digits of the escape that a text after `\u` starts with, and the length
of the escape.  Braces that are never closed make no escape. -/
def escapeDigits? : Text → Option (Text × Nat)
  | '{' :: cs =>
      match Text.cut '}' cs with
      | (digits, some _) => some (digits, digits.length + 2)
      | (_, none) => none
  | cs =>
      let digits := Text.takeBytes cs 4
      some (digits, digits.length)

/-- Is the text after `\u` inside a character four bytes on?  An escape without
braces is cut off there, which is not possible then. -/
def isSplit : Text → Bool
  | '{' :: _ => false
  | cs => (Text.dropBytes? cs 4).isNone

/-- What an escape stands for.  One that stands for no character loses its `\u`
and keeps the rest. -/
def unescape (digits written : Text) : Text :=
  match (Text.hexNumber? digits).bind Character.ofCodePoint? with
  | some c => [c]
  | none => written

/-- The name a text spells, if its escapes can be cut off.  The first `skip`
characters are passed over. -/
def decodeFrom? : Nat → Text → Option Text
  | _, [] => some []
  | skip + 1, _ :: cs => decodeFrom? skip cs
  | 0, '\\' :: 'u' :: cs =>
      if isSplit cs then none
      else
        match escapeDigits? cs with
        | none => some cs
        | some (digits, length) =>
            (decodeFrom? length cs).map (unescape digits (cs.take length) ++ ·)
  | 0, c :: cs => (decodeFrom? 0 cs).map (c :: ·)

/-- The name a text spells, if its escapes can be cut off. -/
def decode? (t : Text) : Option Text :=
  decodeFrom? 0 t

/-- The name a text spells, or the text itself if it spells none. -/
def decode (t : Text) : Text :=
  (decode? t).getD t

end Downlevel.Identifier
