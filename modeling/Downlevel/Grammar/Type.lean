import Downlevel.Grammar.Rule

/-!
# Types

Types are never understood, only passed over: all their tokens are marked, and
the rules here know just enough to find where a type ends.
-/

namespace Downlevel.Grammar

open Grammar.Parser

/-! ## Brackets and templates -/

/-- A template literal, whose interpolations are parsed by `part`. -/
def templateWith (part : Parser Unit) : Parser Unit := do
  expectIn .backQuote .templateChunk
  loop () fun _ => do
    expectIn .template .templateEnd
    if ← is .backQuote then
      next
      return .done ()
    else
      expect .dollarBraceL
      part
      expectIn .braceR .templateChunk
      return .yield ()

/-- A template literal type. -/
def templateType (call : Reference) : Parser Unit :=
  templateWith (call (.type true))

/-- The closing bracket of an opening one. -/
def closerOf : Kind → Option Kind
  | .parenL => some .parenR
  | .bracketL => some .bracketR
  | .braceL => some .braceR
  | _ => none

/-- Finishes the token ahead, after which the brackets `stack` wait to be closed. -/
def balancedStep (stack : List Kind) : Parser (ForInStep (List Kind)) := do
  next
  return if stack.isEmpty then .done stack else .yield stack

/-- A group in brackets with everything in it. -/
def balanced (call : Reference) : Parser Unit := do
  let _ ← loop ([] : List Kind) fun stack => do
    let kind := (← cur).kind
    match closerOf kind with
    | some closer => balancedStep (closer :: stack)
    | none =>
        if kind = .parenR || kind = .bracketR || kind = .braceR then
          match stack with
          | top :: rest => if top = kind then balancedStep rest else unexpected
          | [] => unexpected
        else if kind = .backQuote then
          templateType call
          return .yield stack
        else if kind = .eof || stack.isEmpty then unexpected
        else balancedStep stack

/-- A list in angle brackets with everything in it. -/
def angleBrackets (call : Reference) : Parser Unit := do
  expect .lessThan
  let _ ← loop 1 fun depth => do
    let kind := (← cur).kind
    if depth = 0 then return .done depth
    else if kind = .lessThan then
      next
      return .yield (depth + 1)
    else if kind = .greaterThan then
      next
      return .yield (depth - 1)
    else if (closerOf kind).isSome then
      balanced call
      return .yield depth
    else if kind = .backQuote then
      templateType call
      return .yield depth
    else if [.eof, .semi, .parenR, .bracketR, .braceR].contains kind then unexpected
    else
      next
      return .yield depth

/-! ## Operands -/

/-- The rest of a qualified name, with its type arguments. -/
def qualifiedTail (call : Reference) : Parser Unit := do
  repeatWhile (is .dot) do
    next
    if (← cur).kind.isNameLike then next else unexpected
  if (← is .lessThan) && !(← afterNewline) then angleBrackets call

/-- Is the token ahead a word that makes an operator in front of a type? -/
def atTypeOperator : Parser Bool := do
  if ← isNameOf ["keyof", "unique", "readonly", "infer", "asserts"] then
    let after ← peek
    return !after.newlineBefore && (after.kind.isNameLike
      || [.braceL, .bracketL, .parenL, .string, .num].contains after.kind)
  else return false

/-- Is the token ahead something that stands in front of a type? -/
def atTypePrefix : Parser Bool := do
  if (← flow) && (← is .question) then return true
  else if ← isOneOf [.kwNew, .plusMin] then return true
  else if ← isName "abstract" then
    if ← peekIs .kwNew then return true else atTypeOperator
  else atTypeOperator

/-- What may follow an operand: indices, and the type of a predicate. -/
def typeSuffix (call : Reference) : Parser Unit := do
  repeatWhile (return (← is .bracketL) && !(← afterNewline)) (balanced call)
  if (← isName "is") && !(← afterNewline) then
    next
    call (.type true)

/-- A type without union and intersection at its top. -/
def typeOperand (call : Reference) : Parser Unit := do
  repeatWhile (isOneOf [.bitOr, .bitAnd]) next
  repeatWhile atTypePrefix next
  match (← cur).kind with
  | .parenL =>
      balanced call
      if ← is .arrow then
        next
        call (.type true)
      else typeSuffix call
  | .lessThan =>
      angleBrackets call
      if ← is .parenL then
        balanced call
        expect .arrow
        call (.type true)
      else unexpected
  | .braceL | .bracketL =>
      balanced call
      typeSuffix call
  | .backQuote =>
      templateType call
      typeSuffix call
  | .kwImport =>
      next
      if ← is .parenL then balanced call
      qualifiedTail call
      typeSuffix call
  | .kwTypeOf =>
      next
      if ← is .kwImport then call .typeOperand
      else if (← cur).kind.isNameLike then
        next
        qualifiedTail call
        typeSuffix call
      else unexpected
  | .star | .string | .num | .bigInt =>
      next
      typeSuffix call
  | kind =>
      if kind.isNameLike then
        next
        qualifiedTail call
        typeSuffix call
      else unexpected

/-! ## Whole types -/

/-- A type; an `extends` after it makes it conditional if that is allowed. -/
def typeRule (call : Reference) (conditional : Bool) : Parser Unit := do
  loop () fun _ => do
    call .typeOperand
    if ← isOneOf [.bitOr, .bitAnd] then
      next
      return .yield ()
    else return .done ()
  if (← typescript) && conditional && (← is .kwExtends) && !(← afterNewline) then
    next
    call (.type false)
    expect .question
    call (.type true)
    expect .colon
    call (.type true)

/-- A `:` and the type after it. -/
def typeAnnotation (call : Reference) : Parser Unit :=
  inType do
    expect .colon
    call (.type true)

/-- A type annotation, if there is one. -/
def maybeAnnotation (call : Reference) : Parser Unit := do
  if (← hasTypes) && (← is .colon) then typeAnnotation call

/-- The type a function returns, or the mark of a predicate, if there is one. -/
def maybeReturnType (call : Reference) : Parser Unit := do
  if (← hasTypes) && (← is .colon) then
    inType do
      next
      if !((← flow) && (← is .modulo)) then call (.type true)
      if (← flow) && (← is .modulo) then
        next
        if ← isName "checks" then next

/-- Type parameters or arguments. -/
def typeArguments (call : Reference) : Parser Unit :=
  inType (angleBrackets call)

/-- Type parameters, if there are any. -/
def maybeTypeParameters (call : Reference) : Parser Unit := do
  if (← hasTypes) && (← is .lessThan) then typeArguments call

/-- Type arguments in front of a call or a tagged template.  Anything else is
left alone, and the result says which it was. -/
def callTypeArguments (call : Reference) : Parser Bool :=
  attempt do
    typeArguments call
    if ← isOneOf [.parenL, .backQuote] then return else unexpected

/-! ## Declarations of types -/

/-- A type alias, which may hide its definition. -/
def typeAlias (call : Reference) : Parser Unit :=
  inType do
    if ← isName "opaque" then next
    next
    identifier .blockScoped
    if ← is .lessThan then angleBrackets call
    if ← is .colon then
      next
      call (.type true)
    if ← eat .eq then call (.type true)
    semicolon

/-- An interface. -/
def interface (call : Reference) : Parser Unit :=
  inType do
    next
    identifier .blockScoped
    if ← is .lessThan then angleBrackets call
    if ← eat .kwExtends then
      loop () fun _ => do
        call (.type false)
        if ← eat .comma then return .yield () else return .done ()
    balanced call

/-- Is the token ahead the start of a type alias? -/
def atTypeAlias : Parser Bool := do
  if !(← hasTypes) then return false
  else if ← isName "type" then
    let after ← peek
    return after.kind = .name && !after.newlineBefore
  else if (← flow) && (← isName "opaque") then
    let after ← peek
    return after.kind = .name && (← textOf after) = "type".toList
  else return false

/-- Is the token ahead the start of an interface? -/
def atInterface : Parser Bool := do
  if (← hasTypes) && (← isName "interface") then
    let after ← peek
    return after.kind = .name && !after.newlineBefore
  else return false

end Downlevel.Grammar
