import Downlevel.Token.Kind

/-!
# Annotated tokens

A program is never turned into a tree.  Instead each token carries the facts
that lowering needs: whether it belongs to a type, how an identifier is used,
and a number it shares with its structural partners.
-/

namespace Downlevel

/-- How an identifier is used. -/
inductive Role where
  /-- A reference to a binding. -/
  | access
  /-- Declared by `var`, as the name of a function, or as a parameter. -/
  | functionScoped
  /-- Declared by `let`, `const`, `class`, `import` or a catch clause. -/
  | blockScoped
  /-- The `a` of `{a}`, a key and a reference at once. -/
  | shorthand
  /-- A plain key of an object. -/
  | key
  deriving Repr, DecidableEq, Inhabited

namespace Role

/-- Every role, in the order of their declaration. -/
def all : List Role :=
  [.access, .functionScoped, .blockScoped, .shorthand, .key]

/-- Does the identifier introduce a binding? -/
def isDeclaration : Role → Bool
  | .functionScoped | .blockScoped => true
  | _ => false

/-- Does the identifier refer to a binding? -/
def isReference : Role → Bool
  | .access | .shorthand => true
  | _ => false

end Role

/-- A token, as a span of bytes and its annotations. -/
structure Token where
  kind : Kind
  /-- Byte offset of the first character. -/
  start : Nat
  /-- Byte offset past the last character. -/
  stop : Nat
  /-- The token belongs to a type, which is erased. -/
  isType : Bool := false
  role : Option Role := none
  /-- Shared by the tokens of one construct. -/
  context : Option Nat := none
  /-- How many functions and class bodies enclose the token. -/
  depth : Nat := 0
  /-- Of a `class`: it is used as a value. -/
  isExpression : Bool := false
  /-- Of the `=` of a class field, the index past its initializer.  Of the
  `export` of a variable declaration, the index past the declaration. -/
  rhsEnd : Option Nat := none
  /-- A line terminator stands between this token and the one before. -/
  newlineBefore : Bool := false
  deriving Repr, DecidableEq, Inhabited

namespace Token

/-- The text of the token in its source. -/
def text (source : Text) (t : Token) : Text :=
  if t.kind = .eof then [] else Text.slice source t.start t.stop

/-- Does the token declare a name? -/
def isDeclaration (t : Token) : Bool :=
  t.role.any Role.isDeclaration

/-- Does the token refer to a name? -/
def isReference (t : Token) : Bool :=
  t.role.any Role.isReference

end Token

end Downlevel
