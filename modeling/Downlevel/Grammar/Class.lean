import Downlevel.Grammar.Function

/-!
# Classes

The keyword of a class and both braces of its body share a context.
-/

namespace Downlevel.Grammar

open Grammar.Parser

/-- The words that can stand in front of the name of a member. -/
def memberModifiers : List String :=
  ["static", "async", "get", "set", "accessor", "public", "private", "protected", "readonly",
    "abstract", "override", "declare"]

/-- The modifiers that only say something about types. -/
def typeModifiers : List String :=
  ["public", "private", "protected", "readonly", "abstract", "override", "declare"]

/-- The modifiers of a member that does not exist when the program runs. -/
def ambientModifiers : List String :=
  ["declare", "abstract"]

/-- The kinds of tokens after a word that is the name of a member itself. -/
def memberNameFollowers : List Kind :=
  [.parenL, .eq, .semi, .braceR, .colon, .lessThan, .question, .bang, .eof]

/-- Is the token ahead a modifier, and not the name of a member? -/
def atMemberModifier : Parser Bool := do
  if ← isNameOf memberModifiers then
    let after ← peek
    return !(memberNameFollowers.contains after.kind
      || ((← isName "async") && after.newlineBefore))
  else return false

/-- The modifiers of a member.  The result says whether it is ambient. -/
def modifiers : Parser Bool :=
  loop false fun ambient => do
    if ← atMemberModifier then
      if (← typescript) && (← isNameOf typeModifiers) then
        let ambient := ambient || (← isNameOf ambientModifiers)
        inType next
        return .yield ambient
      else
        next
        return .yield ambient
    else return .done ambient

/-- Is the token ahead the bracket of an index signature? -/
def atIndexSignature : Parser Bool := do
  if (← typescript) && (← is .bracketL) then
    lookahead do
      next
      if ← is .name then
        next
        is .colon
      else return false
  else return false

/-- Is the token ahead the start of a static block? -/
def atStaticBlock : Parser Bool := do
  if ← isName "static" then peekIs .braceL else return false

/-- The text without the quotes around it. -/
def trimQuotes (t : Text) : Text :=
  let isQuote (c : Char) : Bool := c == '\x22' || c == '\x27'
  ((t.dropWhile isQuote).reverse.dropWhile isQuote).reverse

/-- Is the token ahead the name of a constructor? -/
def atConstructor : Parser Bool := do
  if ← isName "constructor" then return true
  else if ← is .string then
    return trimQuotes (← textOf (← cur)) = "constructor".toList
  else return false

/-- The name of a member. -/
def memberName (call : Reference) : Parser Unit := do
  let kind := (← cur).kind
  if kind = .bracketL then
    next
    call (.assignment false)
    expect .bracketR
  else if [.string, .num, .bigInt, .privateName].contains kind || kind.isNameLike then next
  else unexpected

/-- A field after its name.  The `=` of an initializer knows where it ends. -/
def field (call : Reference) : Parser Unit := do
  maybeAnnotation call
  if ← is .eq then
    let index ← tokenCount
    next
    call (.assignment false)
    let stop ← tokenCount
    modifyToken index fun t => { t with rhsEnd := some stop }
  semicolon

/-- A member with a name, whose tokens start at index `start`. -/
def namedMember (call : Reference) (start : Nat) : Parser Unit := do
  let ambient ← modifiers
  discard <| eat .star
  let isConstructor ← atConstructor
  memberName call
  if (← hasTypes) && (← isOneOf [.question, .bang]) then inType next
  if ← isOneOf [.parenL, .lessThan] then method call (some start) isConstructor
  else
    field call
    if ambient then markTypesFrom start

/-- A member of a class body. -/
def classMember (call : Reference) : Parser Unit := do
  let start ← tokenCount
  if ← eat .semi then return
  else if ← atIndexSignature then
    inType do
      balanced call
      maybeAnnotation call
      semicolon
  else if ← atStaticBlock then
    next
    enterScope
    functionBody call
    leaveScope
  else namedMember call start

/-- The name of a class.  That of an expression is no declaration. -/
def maybeClassName (isStatement : Bool) : Parser Unit := do
  if (← is .name) && !((← hasTypes) && (← isName "implements")) then
    if isStatement then identifier .blockScoped else next

/-- What a class extends and implements. -/
def classHeritage (call : Reference) : Parser Unit := do
  if ← eat .kwExtends then
    call .unary
    maybeTypeParameters call
  if (← hasTypes) && (← isName "implements") then
    inType do
      next
      loop () fun _ => do
        inType (call (.type true))
        if ← eat .comma then return .yield () else return .done ()

/-- The body of a class in the context `id`. -/
def classBody (call : Reference) (id : Nat) : Parser Unit := do
  if ← is .braceL then
    stamp id
    next
    enterScope
    repeatUntil .braceR do
      if ← is .eof then unexpected else classMember call
    leaveScope
    match ← popContext with
    | none => throw (.invariant .classContextUnderflow)
    | some id =>
        stamp id
        next
  else unexpected

/-- A class. -/
def classRule (call : Reference) (isStatement : Bool) : Parser Unit := do
  let id ← pushContext
  modifyCur fun t => { t with context := some id, isExpression := !isStatement }
  expect .kwClass
  maybeClassName isStatement
  maybeTypeParameters call
  classHeritage call
  classBody call id

end Downlevel.Grammar
