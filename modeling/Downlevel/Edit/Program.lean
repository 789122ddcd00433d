import Downlevel.Identifier
import Downlevel.Text.Line
import Downlevel.Token.Basic

/-!
# Parsed programs

A source with its annotated tokens.  Past the last token there is a token of
kind `eof` everywhere.
-/

namespace Downlevel

/-- A source and its tokens. -/
structure Program where
  source : Text
  tokens : Array Token
  deriving Repr, Inhabited

namespace Program

/-- The token that stands past the last one. -/
def pastEnd : Token :=
  { kind := .eof, start := 0, stop := 0 }

/-- The number of tokens. -/
def count (p : Program) : Nat :=
  p.tokens.size

/-- The token of an index. -/
def tokenAt (p : Program) (i : Nat) : Token :=
  p.tokens[i]?.getD pastEnd

/-- The kind of the token of an index. -/
def kindAt (p : Program) (i : Nat) : Kind :=
  (p.tokenAt i).kind

/-- Does the token of an index belong to a type? -/
def isTypeAt (p : Program) (i : Nat) : Bool :=
  (p.tokenAt i).isType

/-- The text of the token of an index. -/
def textAt (p : Program) (i : Nat) : Text :=
  (p.tokenAt i).text p.source

/-- The identifier that the token of an index spells. -/
def nameAt (p : Program) (i : Nat) : Text :=
  Identifier.decode (p.textAt i)

/-- The identifier that the token of an index spells, if it spells one. -/
def nameAt? (p : Program) (i : Nat) : Option Text :=
  Identifier.decode? (p.textAt i)

/-- Are the tokens from an index on of these kinds? -/
def matchesAt (p : Program) : Nat → List Kind → Bool
  | _, [] => true
  | i, kind :: kinds => p.kindAt i == kind && p.matchesAt (i + 1) kinds

/-- Is the token of an index a name written like this? -/
def isNameAt (p : Program) (i : Nat) (word : Text) : Bool :=
  p.kindAt i == .name && p.textAt i == word

/-- The first index from `i` on, of at most `n`, that satisfies `stop`. -/
def search (stop : Nat → Bool) : Nat → Nat → Nat
  | 0, i => i
  | n + 1, i => if stop i then i else search stop n (i + 1)

/-- The first index from `i` on that satisfies `stop`, or one past the last token. -/
def seek (p : Program) (i : Nat) (stop : Nat → Bool) : Nat :=
  search stop (p.count - i) i

/-- The first index from `i` on whose token is not part of a type. -/
def skipTypes (p : Program) (i : Nat) : Nat :=
  p.seek i fun j => !p.isTypeAt j

/-- The next index after `i` whose token is in the same context. -/
def matching? (p : Program) (i : Nat) : Option Nat :=
  match p.tokens[i]? with
  | none => none
  | some t =>
      match t.context with
      | none => none
      | some id =>
          let j := p.seek (i + 1) fun j => (p.tokenAt j).context == some id
          if j < p.count then some j else none

/-- The source between the token before an index and the token of the index.
What precedes the first token starts after a `#!` line. -/
def gapBefore (p : Program) (i : Nat) : Text :=
  let start :=
    match i with
    | 0 => Text.shebangSize p.source
    | j + 1 => (p.tokenAt j).stop
  let stop :=
    match p.tokens[i]? with
    | some t => t.start
    | none => Text.size p.source
  Text.slice p.source start stop

end Program

end Downlevel
