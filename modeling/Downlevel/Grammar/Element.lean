import Downlevel.Character
import Downlevel.Grammar.Rule

/-!
# Elements

Inside a tag and between tags tokens are read differently, and each rule says
how the token after it is read.
-/

namespace Downlevel.Grammar

open Grammar.Parser

/-- The text of the finished tokens from an index on. -/
def textFrom (start : Nat) : Parser Text := do
  let source := (← read).source
  return ((← get).tokens.toList.drop start).flatMap (Token.text source)

/-- A name inside a tag. -/
def tagName : Parser Unit := do
  if ← is .jsxName then nextIn .tag else unexpected

/-- The name of an element: a name, two names around a colon, or names between
dots.  A name that stands for a value is a reference. -/
def elementName : Parser Unit := do
  let index ← tokenCount
  let name ← textOf (← cur)
  tagName
  if !name.head?.any Character.isLower || (← is .dot) then
    modifyToken index fun t => { t with role := some .access }
  if ← is .colon then
    nextIn .tag
    tagName
  else
    repeatWhile (is .dot) do
      nextIn .tag
      tagName

/-- An attribute of an element. -/
def tagAttribute (call : Reference) : Parser Unit := do
  if ← is .braceL then
    next
    expect .ellipsis
    call (.assignment false)
    expectIn .braceR .tag
  else
    tagName
    if ← is .colon then
      nextIn .tag
      expectIn .jsxName .tag
    if ← is .eq then
      nextIn .tag
      match (← cur).kind with
      | .string => nextIn .tag
      | .braceL =>
          next
          call (.assignment false)
          expectIn .braceR .tag
      | .jsxTagStart => call (.element .tag)
      | _ => fault .badAttributeValue

/-- An expression between the tags of an element. -/
def childExpression (call : Reference) : Parser Unit := do
  next
  if !(← is .braceR) then
    discard <| eat .ellipsis
    expression call false
  expectIn .braceR .child

/-- The children of an element, and the `</` after them. -/
def children (call : Reference) : Parser Unit :=
  loop () fun _ => do
    match (← cur).kind with
    | .jsxText =>
        nextIn .child
        return .yield ()
    | .braceL =>
        childExpression call
        return .yield ()
    | .jsxTagStart =>
        if ← scan (Lexer.nextByteIs (Character.leadByte '/')) then
          nextIn .tag
          nextIn .tag
          return .done ()
        else
          call (.element .child)
          return .yield ()
    | .eof => fault .unterminatedElement
    | _ => unexpected

/-- The closing tag of an element after its `</`; its name must be the one of
the opening tag. -/
def closingTag (name : Text) (after : Lexer.Mode) : Parser Unit := do
  let place := (← cur).start
  let index ← tokenCount
  if ← is .jsxName then elementName
  if (← textFrom index) = name then expectIn .jsxTagEnd after
  else faultAt (.unclosedElement name) place

/-- An element with a name. -/
def namedElement (call : Reference) (after : Lexer.Mode) : Parser Unit := do
  let index ← tokenCount
  elementName
  let name ← textFrom index
  repeatWhile (return !(← isOneOf [.jsxTagEnd, .slash])) (tagAttribute call)
  if ← is .slash then
    nextIn .tag
    expectIn .jsxTagEnd after
  else
    nextIn .child
    children call
    closingTag name after

/-- An element or fragment. -/
def element (call : Reference) (after : Lexer.Mode) : Parser Unit := do
  modifyCur fun t => { t with kind := .jsxTagStart }
  nextIn .tag
  if ← is .jsxTagEnd then
    nextIn .child
    children call
    if ← is .jsxTagEnd then nextIn after else fault .unclosedFragment
  else namedElement call after

end Downlevel.Grammar
