import Downlevel.Grammar.Type

/-!
# Bindings

Names, array and object patterns, rest elements and defaults.  Every name that
is bound gets the role of the declaration it stands in.
-/

namespace Downlevel.Grammar

open Grammar.Parser

/-- The words that make a constructor parameter a property. -/
def parameterModifiers : List String :=
  ["public", "private", "protected", "readonly", "override"]

/-- Can a token of this kind start a binding? -/
def startsBinding (kind : Kind) : Bool :=
  [.name, .bracketL, .braceL].contains kind

/-- Is the token ahead a modifier in front of a parameter? -/
def atParameterModifier : Parser Bool := do
  if ← isNameOf parameterModifiers then return startsBinding (← peek).kind else return false

/-- Is the token ahead the `this` of a typed parameter list? -/
def atThisParameter : Parser Bool := do
  if (← typescript) && (← is .kwThis) then peekIs .colon else return false

/-- A binding with its annotation and default.  The result says whether the
comma after it is finished too, as it is after a `this` parameter. -/
def bindingElement (call : Reference) (role : Role) (modifiers : Bool) : Parser Bool := do
  if ← atThisParameter then
    inType do
      next
      typeAnnotation call
      eat .comma
  else
    if modifiers && (← typescript) then repeatWhile atParameterModifier (inType next)
    call (.binding role)
    if (← hasTypes) && (← is .question) then inType next
    maybeAnnotation call
    if ← eat .eq then call (.assignment false)
    return false

/-- Bindings up to `close`.  With `holes` a place may be left empty, and with
`modifiers` a parameter may be a property. -/
def bindingList (call : Reference) (close : Kind) (role : Role) (holes modifiers : Bool) :
    Parser Unit :=
  repeatUntil close do
    if holes && (← is .comma) then next
    else if ← is .ellipsis then
      next
      call (.binding role)
      maybeAnnotation call
      separator close
    else if ← bindingElement call role modifiers then return
    else separator close

/-- One property of an object pattern. -/
def propertyBinding (call : Reference) (role : Role) : Parser Unit := do
  let kind := (← cur).kind
  if kind = .ellipsis then
    next
    call (.binding role)
  else if kind = .bracketL then
    next
    call (.assignment false)
    expect .bracketR
    expect .colon
    discard <| bindingElement call role false
  else if kind = .string || kind = .num || kind = .bigInt then
    next
    expect .colon
    discard <| bindingElement call role false
  else if kind.isNameLike then
    if ← peekIs .colon then
      next
      next
      discard <| bindingElement call role false
    else
      identifier role
      if ← eat .eq then call (.assignment false)
  else unexpected

/-- What a declaration binds: a name or a pattern. -/
def binding (call : Reference) (role : Role) : Parser Unit := do
  match (← cur).kind with
  | .name => identifier role
  | .bracketL =>
      next
      bindingList call .bracketR role true false
      expect .bracketR
  | .braceL =>
      next
      commaList .braceR (propertyBinding call role)
      next
  | _ => fault .expectedBinding

end Downlevel.Grammar
