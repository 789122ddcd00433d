import Downlevel.Edit.Program
import Downlevel.Error

/-!
# Drafts

A draft is the output so far of going through a program token by token.  Each
operation that passes a token writes the gap before it, or only the line breaks
of the gap, and what the token becomes.
-/

namespace Downlevel

/-- The output so far, and how far the program is worked off. -/
structure Draft where
  /-- The index of the next token. -/
  index : Nat := 0
  /-- What is written. -/
  out : Text := []
  /-- The offset of the last line that was asked for. -/
  lineOffset : Nat := 0
  /-- The line of that offset. -/
  line : Nat := 1
  deriving Repr, DecidableEq, Inhabited

namespace Draft

/-- What is kept of a draft in order to come back to it.  Of the output this is
only the length, since a draft grows at the end. -/
structure Snapshot where
  index : Nat
  outSize : Nat
  lineOffset : Nat
  line : Nat
  deriving Repr, DecidableEq, Inhabited

/-- What is needed to come back to this draft. -/
def snapshot (d : Draft) : Snapshot :=
  { index := d.index, outSize := Text.size d.out, lineOffset := d.lineOffset, line := d.line }

/-- The draft a snapshot was taken of, as far as its output is still there. -/
def restore (d : Draft) (s : Snapshot) : Draft :=
  { index := s.index, out := Text.takeBytes d.out s.outSize, lineOffset := s.lineOffset,
    line := s.line }

end Draft

/-- A step in editing a program. -/
abbrev Edit := ReaderT Program (EStateM Error Draft)

namespace Edit

/-! ## Where the draft stands -/

/-- The index of the next token. -/
def index : Edit Nat :=
  return (← get).index

/-- Are all tokens passed? -/
def atEnd : Edit Bool :=
  return (← read).count ≤ (← get).index

/-- The next token. -/
def cur : Edit Token :=
  return (← read).tokenAt (← get).index

/-- The text of the next token. -/
def curText : Edit Text :=
  return (← read).textAt (← get).index

/-- The gap before the next token. -/
def gap : Edit Text :=
  return (← read).gapBefore (← get).index

/-- The line of an offset, counted on or back from the line asked for last. -/
def lineAt (offset : Nat) : Edit Nat := do
  let source := (← read).source
  let offset := min offset (Text.size source)
  let d ← get
  let line :=
    if d.lineOffset ≤ offset then d.line + Text.newlinesBetween source d.lineOffset offset
    else d.line - Text.newlinesBetween source offset d.lineOffset
  set { d with lineOffset := offset, line }
  return line

/-! ## Writing -/

/-- Writes a text. -/
def append (t : Text) : Edit Unit :=
  modify fun d => { d with out := d.out ++ t }

/-- Passes the next token and writes nothing. -/
def skip : Edit Unit := do
  if ← atEnd then throw (.invariant .endOfInput)
  else modify fun d => { d with index := d.index + 1 }

/-- Passes the next token and writes a text for it. -/
def replace (t : Text) : Edit Unit := do
  append (← gap)
  append t
  skip

/-- Passes the next token and writes it as it stands. -/
def copy : Edit Unit := do
  replace (← curText)

/-- Copies the next token, which must be of this kind. -/
def copyExpected (kind : Kind) : Edit Unit := do
  let found := (← cur).kind
  if found = kind then copy else throw (.invariant (.wrongToken kind found))

/-- Passes the next token and writes a text for it, of the gap only the line breaks. -/
def replaceTrimmed (t : Text) : Edit Unit := do
  append (Text.newlines (← gap))
  append t
  skip

/-- Drops the next token and what separates it from the token before. -/
def remove : Edit Unit :=
  replaceTrimmed []

/-- Drops the next token and keeps the gap before it. -/
def removeInitial : Edit Unit :=
  replace []

/-- Everything that is written, and what follows the last token. -/
def finish : Edit Text := do
  if ← atEnd then return (← get).out ++ (← gap)
  else throw (.invariant .unfinished)

end Edit

end Downlevel
