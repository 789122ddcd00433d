import Downlevel.Text.Basic

/-!
# Lines of a text

Lines end at a line feed and nothing else.  They are counted from one, and so
are columns, which count bytes.
-/

namespace Downlevel

/-- A byte offset together with the line and column it falls on. -/
structure Location where
  offset : Nat
  line : Nat
  column : Nat
  deriving Repr, DecidableEq, Inhabited

namespace Text

/-- The number of line feeds before byte offset `n`. -/
def newlinesBefore (t : Text) (n : Nat) : Nat :=
  (takeBytes t n).count '\n'

/-- The number of line feeds from byte offset `start` up to `stop`. -/
def newlinesBetween (t : Text) (start stop : Nat) : Nat :=
  newlinesBefore t stop - newlinesBefore t start

/-- The line feeds of a text and nothing else. -/
def newlines (t : Text) : Text :=
  t.filter (· == '\n')

/-- The byte offset at which the line of offset `n` starts. -/
def lineStart (t : Text) (n : Nat) : Nat :=
  let before := takeBytes t n
  size before - size (before.reverse.takeWhile (· != '\n'))

/-- Line and column of byte offset `n`; an offset past the end counts as the end. -/
def lineAndColumn (t : Text) (n : Nat) : Nat × Nat :=
  (newlinesBefore t n + 1, min n (size t) - lineStart t n + 1)

/-- The location of byte offset `n`. -/
def locate (t : Text) (n : Nat) : Location :=
  let (line, column) := lineAndColumn t n
  { offset := n, line, column }

/-- The length in bytes of a leading `#!` line with its line feed, or zero. -/
def shebangSize (t : Text) : Nat :=
  if "#!".toList.isPrefixOf t then
    match cut '\n' t with
    | (line, some _) => size line + 1
    | (line, none) => size line
  else 0

end Text

end Downlevel
