import Downlevel.Lexer.Read
import Downlevel.Options

/-!
# The state of a parse

Finished tokens are collected in order, and one token is looked at ahead of
them.  A token is finished when the parse moves past it, and that is when it
learns whether it belongs to a type and how deep it stands.
-/

namespace Downlevel.Grammar

/-- What stays the same during a parse. -/
structure Setting where
  source : Text
  jsx : Bool := false
  typescript : Bool := false
  flow : Bool := false
  /-- The number of bytes of the source. -/
  size : Nat := Text.size source
  size_eq : size = Text.size source := by rfl
  deriving Repr

instance : Inhabited Setting := ⟨{ source := [] }⟩

namespace Setting

/-- The setting of a source under given options. -/
def ofOptions (source : Text) (o : Options) : Setting :=
  { source, jsx := o.has .jsx, typescript := o.has .typescript, flow := o.has .flow }

/-- Can the source have types in it? -/
def hasTypes (s : Setting) : Bool :=
  s.typescript || s.flow

end Setting

/-- The state of a parse. -/
structure State where
  /-- The offset at which the next token is read. -/
  pos : Nat
  /-- The finished tokens. -/
  tokens : Array Token
  /-- The token ahead, which is not finished. -/
  cur : Token
  /-- Tokens finished now belong to a type. -/
  isType : Bool
  /-- How many functions and class bodies are open. -/
  depth : Nat
  /-- The next context number to give out. -/
  nextContext : Nat
  /-- The contexts that are open, innermost first. -/
  contexts : List Nat
  deriving Repr, DecidableEq, Inhabited

/-- What is kept of a state in order to come back to it.  Finished tokens are
only counted, since a parse adds to them at the end. -/
structure Snapshot where
  pos : Nat
  tokenCount : Nat
  cur : Token
  isType : Bool
  depth : Nat
  nextContext : Nat
  contexts : List Nat
  deriving Repr, DecidableEq, Inhabited

/-- The number of bytes from the token ahead to the end of the source. -/
def Setting.remaining (c : Setting) (st : State) : Nat :=
  c.size - st.cur.start

namespace State

/-- What is needed to come back to this state. -/
def snapshot (s : State) : Snapshot :=
  { pos := s.pos, tokenCount := s.tokens.size, cur := s.cur, isType := s.isType,
    depth := s.depth, nextContext := s.nextContext, contexts := s.contexts }

/-- The state a snapshot was taken of, as far as its tokens are still there. -/
def restore (s : State) (p : Snapshot) : State :=
  { pos := p.pos, tokens := s.tokens.take p.tokenCount, cur := p.cur, isType := p.isType,
    depth := p.depth, nextContext := p.nextContext, contexts := p.contexts }

/-- The state at the start of a source, its first token ahead. -/
def initial (source : Text) : Except Error State :=
  match Lexer.next false source (Lexer.startOffset source) with
  | .error failure _ => .error (failure.toError source)
  | .ok token pos =>
      .ok { pos, tokens := #[], cur := token, isType := false, depth := 0, nextContext := 1,
            contexts := [] }

end State

end Downlevel.Grammar
