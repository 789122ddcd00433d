import Downlevel.Grammar.Binding

/-!
# Functions

The parentheses of the parameters share a context, and so do the braces of the
body.
-/

namespace Downlevel.Grammar

open Grammar.Parser

/-- Statements up to a closing brace. -/
def statements (call : Reference) : Parser Unit :=
  repeatUntil .braceR do
    if ← is .eof then unexpected else call .statement

/-- The body of a function. -/
def functionBody (call : Reference) : Parser Unit := do
  discard <| openContext .braceL
  statements call
  closeContext .braceR

/-- Parameters in parentheses. -/
def parameters (call : Reference) (modifiers : Bool) : Parser Unit := do
  discard <| openContext .parenL
  bindingList call .parenR .functionScoped false modifiers
  closeContext .parenR

/-- Parameters, return type and body.  Without a body it is a signature, and
every token from index `start` on belongs to a type. -/
def signatureAndBody (call : Reference) (start : Nat) (modifiers : Bool) : Parser Unit := do
  parameters call modifiers
  maybeReturnType call
  if ← is .braceL then functionBody call
  else if ← hasTypes then
    inType semicolon
    markTypesFrom start
  else unexpected

/-- A method after its name. -/
def method (call : Reference) (start : Option Nat) (modifiers : Bool) : Parser Unit := do
  enterScope
  maybeTypeParameters call
  signatureAndBody call (start.getD (← tokenCount)) modifiers
  leaveScope

/-- A function; its `async` is finished already.  The name of a declaration
belongs to the surrounding scope, that of an expression to its own. -/
def function (call : Reference) (isStatement isAsync : Bool) : Parser Unit := do
  let count ← tokenCount
  let start := if isAsync then count - 1 else count
  expect .kwFunction
  discard <| eat .star
  if isStatement && (← is .name) then identifier .functionScoped
  enterScope
  if !isStatement && (← is .name) then identifier .functionScoped
  maybeTypeParameters call
  signatureAndBody call start false
  leaveScope

/-! ## Arrow functions -/

/-- Parameters and return type of an arrow function, up to its arrow.  The
scope it enters stays open. -/
def arrowParameters (call : Reference) : Parser Unit := do
  enterScope
  parameters call false
  maybeReturnType call
  if (← is .arrow) && !(← afterNewline) then return else unexpected

/-- The arrow and the body of an arrow function, which ends its scope. -/
def arrowBody (call : Reference) : Parser Unit := do
  expect .arrow
  if ← is .braceL then functionBody call else call (.assignment false)
  leaveScope

/-- An arrow function with one parameter and no parentheses. -/
def simpleArrow (call : Reference) : Parser Unit := do
  enterScope
  identifier .functionScoped
  if (← is .arrow) && !(← afterNewline) then arrowBody call else unexpected

/-- An arrow function with type parameters. -/
def genericArrow (call : Reference) : Parser Unit := do
  typeArguments call
  arrowParameters call
  arrowBody call

end Downlevel.Grammar
