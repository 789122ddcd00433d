import Downlevel.Grammar.Class
import Downlevel.Grammar.Element

/-!
# Expressions

Precedence makes no difference to lowering, so the binary operators of an
expression form one flat chain.  What counts is where an expression ends, which
parentheses are parameters, which slashes are regular expressions, and how each
identifier is used.
-/

namespace Downlevel.Grammar

open Grammar.Parser

/-- Can the token start an operand on the same line? -/
def startsOperand (t : Token) : Bool :=
  !t.newlineBefore
    && [.name, .privateName, .num, .bigInt, .string, .regex, .backQuote, .parenL, .bracketL,
        .braceL, .plusMin, .bang, .tilde, .incDec, .lessThan, .slash, .kwThis, .kwSuper,
        .kwFunction, .kwClass, .kwNew, .kwNull, .kwTrue, .kwFalse, .kwTypeOf, .kwVoid,
        .kwDelete, .kwImport].contains t.kind

/-! ## Members and arguments -/

/-- The name of a property after a dot. -/
def propertyName : Parser Unit := do
  let kind := (← cur).kind
  if kind.isNameLike || kind = .privateName then next else unexpected

/-- The arguments of a call. -/
def arguments (call : Reference) : Parser Unit := do
  expect .parenL
  commaList .parenR do
    discard <| eat .ellipsis
    call (.assignment false)
  next

/-- A property in square brackets. -/
def index (call : Reference) : Parser Unit := do
  next
  expression call false
  expect .bracketR

/-- What follows a `?.`. -/
def optionalMember (call : Reference) : Parser Unit := do
  next
  match (← cur).kind with
  | .parenL => arguments call
  | .bracketL => index call
  | .lessThan =>
      if ← hasTypes then
        typeArguments call
        arguments call
      else propertyName
  | _ => propertyName

/-- A template literal. -/
def template (call : Reference) : Parser Unit :=
  templateWith (expression call false)

/-- Member accesses, calls and tagged templates after an operand. -/
def subscripts (call : Reference) (noCall : Bool) : Parser Unit :=
  loop () fun _ => do
    let t ← cur
    match t.kind with
    | .dot =>
        next
        propertyName
        return .yield ()
    | .questionDot =>
        optionalMember call
        return .yield ()
    | .bracketL =>
        index call
        return .yield ()
    | .parenL =>
        if noCall then return .done ()
        else
          arguments call
          return .yield ()
    | .backQuote =>
        template call
        return .yield ()
    | .bang =>
        if (← typescript) && !t.newlineBefore then
          inType next
          return .yield ()
        else return .done ()
    | .lessThan =>
        if (← hasTypes) && !t.newlineBefore then
          if ← callTypeArguments call then return .yield () else return .done ()
        else return .done ()
    | _ => return .done ()

/-! ## Objects -/

/-- The kinds of tokens after a word that is a key itself. -/
def keyFollowers : List Kind :=
  [.parenL, .comma, .colon, .braceR, .eq, .lessThan]

/-- Is the token ahead a modifier, and not a key? -/
def atKeyModifier : Parser Bool := do
  if ← is .star then return true
  else if ← isNameOf ["async", "get", "set"] then
    return !keyFollowers.contains (← peek).kind
  else return false

/-- A key of the object whose context is `id`.  The result says whether the key
is a reference too. -/
def objectKey (call : Reference) (id : Nat) (hasModifier : Bool) : Parser Bool := do
  let kind := (← cur).kind
  if kind = .bracketL then
    next
    call (.assignment false)
    expect .bracketR
    return false
  else if kind = .string || kind = .num || kind = .bigInt then
    stamp id
    next
    return false
  else if kind.isNameLike then
    let after ← peek
    let isShorthand :=
      !hasModifier && kind = .name && [.comma, .braceR, .eq].contains after.kind
    let role : Role := if isShorthand then .shorthand else .key
    modifyCur fun t => { t with role := some role, context := some id }
    next
    return isShorthand
  else unexpected

/-- A property of the object whose context is `id`. -/
def objectMember (call : Reference) (id : Nat) : Parser Unit := do
  let hasModifier ← loop false fun found => do
    if ← atKeyModifier then
      next
      return .yield true
    else return .done found
  if ← objectKey call id hasModifier then
    -- a default, which only a pattern has
    if ← eat .eq then call (.assignment false)
  else if ← isOneOf [.parenL, .lessThan] then method call none false
  else
    expect .colon
    call (.assignment false)

/-- An object, whose keys are in the context of its braces. -/
def object (call : Reference) : Parser Unit := do
  let id ← openContext .braceL
  commaList .braceR do
    if ← is .ellipsis then
      next
      call (.assignment false)
    else objectMember call id
  closeContext .braceR

/-! ## Operands -/

/-- An array. -/
def array (call : Reference) : Parser Unit := do
  next
  repeatUntil .bracketR do
    if ← eat .comma then return
    else
      discard <| eat .ellipsis
      call (.assignment false)
      separator .bracketR
  next

/-- A name, or an arrow function with the name as its parameter. -/
def plainName (call : Reference) : Parser Bool := do
  let after ← peek
  if after.kind = .arrow && !after.newlineBefore then
    simpleArrow call
    return true
  else
    identifier .access
    return false

/-- The head of an asynchronous arrow function up to its arrow. -/
def asyncArrowHead (call : Reference) : Parser Unit := do
  next
  if ← is .lessThan then typeArguments call
  arrowParameters call

/-- An operand that starts with a name.  The result says whether it is an arrow
function. -/
def nameOperand (call : Reference) : Parser Bool := do
  if ← isName "async" then
    let after ← peek
    if after.newlineBefore then plainName call
    else
      match after.kind with
      | .kwFunction =>
          next
          function call false true
          return false
      | .name =>
          next
          simpleArrow call
          return true
      | .parenL | .lessThan =>
          if ← attempt (asyncArrowHead call) then
            arrowBody call
            return true
          else plainName call
      | _ => plainName call
  else plainName call

/-- The parameters of an arrow function, or an expression in parentheses. -/
def parenthesized (call : Reference) : Parser Bool := do
  if ← attempt (arrowParameters call) then
    arrowBody call
    return true
  else
    next
    expression call false
    if (← flow) && (← is .colon) then typeAnnotation call
    expect .parenR
    return false

/-- An element, or an arrow function with type parameters. -/
def angled (call : Reference) : Parser Bool := do
  if (← read).jsx then
    let before ← snapshot
    try
      call (.element .normal)
      return false
    catch e =>
      if (← hasTypes) && !e.isFatal then
        restore before
        if ← attempt (genericArrow call) then return true else throw e
      else throw e
  else if ← hasTypes then
    genericArrow call
    return true
  else unexpected

/-- An `import` that is not a declaration. -/
def importExpression (call : Reference) : Parser Unit := do
  next
  if ← eat .dot then propertyName
  else if ← is .parenL then arguments call
  else unexpected

/-- An operand.  The result says whether it is an arrow function. -/
def operand (call : Reference) : Parser Bool := do
  let t ← cur
  match t.kind with
  | .name => nameOperand call
  | .num | .bigInt | .string | .regex | .kwNull | .kwTrue | .kwFalse | .kwThis | .kwSuper
  | .privateName =>
      next
      return false
  | .slash | .assign =>
      if (← textOf t).head? = some '/' then
        rereadRegex
        next
        return false
      else unexpected
  | .backQuote =>
      template call
      return false
  | .parenL => parenthesized call
  | .bracketL =>
      array call
      return false
  | .braceL =>
      object call
      return false
  | .kwFunction =>
      function call false false
      return false
  | .kwClass =>
      classRule call false
      return false
  | .kwNew =>
      call .newExpression
      return false
  | .kwImport =>
      importExpression call
      return false
  | .lessThan => angled call
  | .at => fault .decorator
  | _ => unexpected

/-- A `new` expression, or `new.target`. -/
def newExpression (call : Reference) : Parser Unit := do
  next
  if ← eat .dot then propertyName
  else
    if ← is .kwNew then call .newExpression else discard <| operand call
    subscripts call true
    if ← is .parenL then arguments call

/-! ## Operators -/

/-- An operand with what follows it; an arrow function takes nothing. -/
def suffixed (call : Reference) : Parser Unit := do
  if !(← operand call) then subscripts call false
  repeatWhile (return (← is .incDec) && !(← afterNewline)) next

/-- An operand with the operators in front of it. -/
def unary (call : Reference) : Parser Unit := do
  let kind := (← cur).kind
  if [.plusMin, .bang, .tilde, .incDec, .kwTypeOf, .kwVoid, .kwDelete].contains kind then
    next
    call .unary
  else if ← isName "await" then
    if startsOperand (← peek) then
      next
      call .unary
    else suffixed call
  else if kind = .lessThan && (← typescript) && !(← read).jsx then
    -- an assertion, unless an arrow function with type parameters fits
    if ← attempt (genericArrow call) then return
    else
      typeArguments call
      call .unary
  else suffixed call

/-- The type after `as` or `satisfies`. -/
def assertedType (call : Reference) : Parser Unit :=
  inType do
    next
    if ← is .kwConst then next else inType (call (.type true))

/-- Operands with binary operators between them. -/
def operators (call : Reference) (noIn : Bool) : Parser Unit := do
  call .unary
  loop () fun _ => do
    let t ← cur
    if t.kind = .kwIn && noIn then return .done ()
    else if t.kind.isBinaryOperator then
      next
      call .unary
      return .yield ()
    else if (← typescript) && !t.newlineBefore && (← isNameOf ["as", "satisfies"]) then
      assertedType call
      return .yield ()
    else return .done ()

/-- A chain of operators that may be the condition of a choice. -/
def conditional (call : Reference) (noIn : Bool) : Parser Unit := do
  operators call noIn
  if ← is .question then
    next
    call (.assignment false)
    expect .colon
    call (.assignment noIn)

/-- An assignment expression. -/
def assignment (call : Reference) (noIn : Bool) : Parser Unit := do
  if ← isName "yield" then
    next
    if ← is .star then next
    if startsOperand (← cur) then call (.assignment noIn)
  else
    conditional call noIn
    if ← isOneOf [.eq, .assign] then
      next
      call (.assignment noIn)

end Downlevel.Grammar
