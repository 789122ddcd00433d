import Downlevel.Lexer.Element
import Downlevel.Lexer.Gap
import Downlevel.Lexer.Literal
import Downlevel.Lexer.Number
import Downlevel.Lexer.Punctuator
import Downlevel.Lexer.Word

/-!
# Reading tokens

One token is read at a time, in the mode the grammar asks for.
-/

namespace Downlevel.Lexer

open Character

/-- Reads the token of ordinary code that starts at `pos`. -/
def codeToken (inType : Bool) (pos : Nat) : Text → Outcome Kind
  | [] => .ok .eof pos
  | c :: cs =>
      if c == '\\' || isWide c || isIdStart c then word pos (c :: cs)
      else if isDigit c || (c == '.' && cs.head?.any isDigit) then number pos (c :: cs)
      else if c == '\x22' || c == '\x27' then
        match skipString c pos (pos + 1) cs with
        | .ok _ stop => .ok .string stop
        | .error failure reached => .error failure reached
      else if c == '#' then privateName pos cs
      else
        match punctuator? inType (c :: cs) with
        | some (kind, length) => .ok kind (pos + length)
        | none => fail (.unexpectedCharacter c) pos pos

/-- The mark that ends a template chunk at `pos`. -/
def templateMark (pos : Nat) : Text → Outcome Kind
  | '\x60' :: _ => .ok .backQuote (pos + 1)
  | '$' :: '{' :: _ => .ok .dollarBraceL (pos + 2)
  | _ => fail .unterminatedTemplate pos pos

/-- Skips the gap at the current offset and reads what comes after it with
`read`.  At an offset inside a character it fails with `inside`. -/
def afterGap (inside : Fault) (read : Nat → Text → Outcome Kind) : Scan Token :=
  fun source pos =>
    match Text.dropBytes? source pos with
    | none => fail inside pos pos
    | some cs =>
        match skipGap .space false pos cs with
        | .error failure reached => .error failure reached
        | .ok (newline, rest) start =>
            match read start rest with
            | .error failure reached => .error failure reached
            | .ok kind stop => .ok { kind, start, stop, newlineBefore := newline } stop

/-- Reads what stands at the current offset with `read`. -/
def atOffset (inside : Fault) (read : Nat → Text → Outcome Kind) : Scan Token :=
  fun source pos =>
    match Text.dropBytes? source pos with
    | none => fail inside pos pos
    | some cs =>
        match read pos cs with
        | .error failure reached => .error failure reached
        | .ok kind stop => .ok { kind, start := pos, stop } stop

/-- Reads the next token of ordinary code. -/
def next (inType : Bool) : Scan Token :=
  afterGap .unreadableCharacter (codeToken inType)

/-- Reads the next token of a tag.  The end of the source follows no line break. -/
def nextTag : Scan Token := do
  let token ← afterGap (.unexpectedTagCharacter '?') tagToken
  if token.kind = .eof then return { token with newlineBefore := false } else return token

/-- Reads a template chunk, which may be empty. -/
def templateChunk (pos : Nat) (cs : Text) : Outcome Kind :=
  match skipTemplate pos pos cs with
  | .error failure reached => .error failure reached
  | .ok _ stop => .ok .template stop

/-- Reads the next token in a mode. -/
def read (mode : Mode) (inType : Bool) : Scan Token :=
  match mode with
  | .normal => next inType
  | .templateChunk => atOffset .unterminatedTemplate templateChunk
  | .templateEnd => atOffset .unterminatedTemplate templateMark
  | .tag => nextTag
  | .child => atOffset .unreadableCharacter childToken

/-- Reads the regular expression that starts at `start`, wherever the scan stood. -/
def regex (start : Nat) : Scan Token :=
  fun source _ =>
    match Text.dropBytes? source (start + 1) with
    | none => fail .unterminatedRegex start (start + 1)
    | some cs =>
        match skipRegex start false (start + 1) cs with
        | .error failure reached => .error failure reached
        | .ok _ stop => .ok { kind := .regex, start, stop } stop

/-- Is this the first byte after the gap at the current offset?  The offset stays
where it is. -/
def nextByteIs (byte : Nat) : Scan Bool :=
  fun source pos =>
    match Text.dropBytes? source pos with
    | none => .ok false pos
    | some cs =>
        match skipGap .space false pos cs with
        | .error failure reached => .error failure reached
        | .ok (_, rest) _ => .ok (rest.head?.any fun c => leadByte c == byte) pos

/-- The offset at which scanning a source starts. -/
def startOffset (source : Text) : Nat :=
  Text.shebangSize source

end Downlevel.Lexer
