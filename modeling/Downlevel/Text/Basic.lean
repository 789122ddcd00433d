/-!
# Text addressed by byte offset

A source text is a list of characters.  Every offset into it counts bytes of
its UTF-8 encoding, because that is how positions are reported.  An offset may
fall inside a character or past the end; the operations here say what they do
in both cases.
-/

namespace Downlevel

/-- A run of characters. -/
abbrev Text := List Char

namespace Text

/-- The number of bytes of the UTF-8 encoding. -/
def size : Text → Nat
  | [] => 0
  | c :: cs => c.utf8Size + size cs

/-- The text from byte offset `n` on.  It is empty past the end, and there is
none inside a character. -/
def dropBytes? : Text → Nat → Option Text
  | cs, 0 => some cs
  | [], _ + 1 => some []
  | c :: cs, n + 1 =>
      if c.utf8Size ≤ n + 1 then dropBytes? cs (n + 1 - c.utf8Size) else none

/-- The text from byte offset `n` on, empty where there is none. -/
def dropBytes (t : Text) (n : Nat) : Text :=
  (dropBytes? t n).getD []

/-- The characters that start before byte offset `n`. -/
def takeBytes : Text → Nat → Text
  | _, 0 => []
  | [], _ + 1 => []
  | c :: cs, n + 1 => c :: takeBytes cs (n + 1 - c.utf8Size)

/-- The text between two byte offsets. -/
def slice (t : Text) (start stop : Nat) : Text :=
  takeBytes (dropBytes t start) (stop - start)

/-- The part before the first `c`, and the part after it if there is one. -/
def cut (c : Char) : Text → Text × Option Text
  | [] => ([], none)
  | d :: ds =>
      if d = c then ([], some ds)
      else
        let (before, after) := cut c ds
        (d :: before, after)

/-- The parts between the occurrences of `c`, one more than there are occurrences. -/
def split (c : Char) : Text → List Text
  | [] => [[]]
  | d :: ds =>
      if d = c then [] :: split c ds
      else
        match split c ds with
        | [] => [[d]]
        | part :: parts => (d :: part) :: parts

/-- The parts with `separator` between any two of them. -/
def join (separator : Text) : List Text → Text
  | [] => []
  | [part] => part
  | part :: parts => part ++ separator ++ join separator parts

/-- The decimal numeral of `n`. -/
def ofNat (n : Nat) : Text :=
  Nat.toDigits 10 n

end Text

end Downlevel
