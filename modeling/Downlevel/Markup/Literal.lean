import Downlevel.Markup.Reference
import Downlevel.Text.Line
import Downlevel.Text.Quoted
import Downlevel.Unicode.Blank

/-!
# Text of elements as string literals

The text between tags and the value of an attribute become string literals.
What a literal loses in line breaks is put back after it, so that later code
stays on its line.
-/

namespace Downlevel.Markup

/-- Spaces between tags that may be dropped. -/
def isIndent (c : Char) : Bool :=
  c == ' ' || c == '\t' || c == '\r'

/-- The text between tags without its layout: white space that holds a line
break is dropped, but separates two parts of the text by one space.

`skip` characters are passed over first.  `pending` is the white space read
since the last part, `atLineStart` says that nothing else was read on this
line, and `started` that there was a part before. -/
def unindent : Nat → Text → Bool → Bool → Text → Text
  | skip + 1, pending, atLineStart, started, _ :: cs =>
      unindent skip pending atLineStart started cs
  | 0, pending, atLineStart, started, c :: cs =>
      if isIndent c then
        unindent 0 (if atLineStart then pending else pending ++ [c]) atLineStart started cs
      else if c = '\n' then unindent 0 [] true started cs
      else
        let before := (if started && atLineStart then [' '] else []) ++ pending
        if c = '&' then
          match reference? cs with
          | some (d, length) => before ++ d :: unindent length [] false true cs
          | none => before ++ c :: unindent 0 [] false true cs
        else before ++ c :: unindent 0 [] false true cs
  | _, pending, atLineStart, _, [] => if atLineStart then [] else pending

/-- The string literal of the text between tags. -/
def textLiteral (t : Text) : Text :=
  Text.quote (unindent 0 [] false false t)

/-- The value of an attribute: a line break and the blanks after it become one
space.  `skip` characters are passed over first. -/
def unwrap : Nat → Text → Text
  | _, [] => []
  | skip + 1, _ :: cs => unwrap skip cs
  | 0, c :: cs =>
      if c = '\n' then
        let blanks := cs.takeWhile Unicode.isBlank
        if blanks.isEmpty then c :: unwrap 0 cs else ' ' :: unwrap blanks.length cs
      else if c = '&' then
        match reference? cs with
        | some (d, length) => d :: unwrap length cs
        | none => c :: unwrap 0 cs
      else c :: unwrap 0 cs

/-- The string literal of an attribute value. -/
def attributeLiteral (t : Text) : Text :=
  Text.quote (unwrap 0 t)

/-- The line breaks of a text, and the spaces of its last line. -/
def layout (t : Text) : Text :=
  Text.newlines t
    ++ List.replicate ((t.reverse.takeWhile (· != '\n')).count ' ') ' '

end Downlevel.Markup
