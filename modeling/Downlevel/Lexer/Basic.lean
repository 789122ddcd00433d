import Downlevel.Error
import Downlevel.Token.Basic

/-!
# Scanning

A scan starts at a byte offset of the source and moves it forward.  A scan
that fails leaves the offset where it gave up, which may be past the place the
failure is about.
-/

namespace Downlevel.Lexer

/-- How the next token is to be read; only the grammar knows. -/
inductive Mode where
  /-- Tokens of ordinary code. -/
  | normal
  /-- The text of a template up to the next backquote or `${`. -/
  | templateChunk
  /-- The backquote or `${` that ends a template chunk. -/
  | templateEnd
  /-- Inside the angle brackets of an element. -/
  | tag
  /-- Between the tags of an element. -/
  | child
  deriving Repr, DecidableEq, Inhabited

/-- The outcome of a scan: a value or a failure, and the offset reached. -/
abbrev Outcome := EStateM.Result Failure Nat

/-- A scan of the source from the current offset. -/
abbrev Scan := ReaderT Text (EStateM Failure Nat)

/-- Gives up at offset `reached` because of a fault at offset `place`. -/
def fail {α : Type} (fault : Fault) (place reached : Nat) : Outcome α :=
  .error { fault, offset := place } reached

/-- The offset at which `rest` starts, if `cs` starts at `pos` and ends in `rest`. -/
def past (pos : Nat) (cs rest : Text) : Nat :=
  pos + (Text.size cs - Text.size rest)

end Downlevel.Lexer
