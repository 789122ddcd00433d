import Downlevel.Grammar.Expression
import Downlevel.Grammar.Module

/-!
# Statements
-/

namespace Downlevel.Grammar

open Grammar.Parser

/-! ## Simple statements -/

/-- An expression as a statement. -/
def expressionStatement (call : Reference) : Parser Unit := do
  expression call false
  semicolon

/-- An expression in parentheses after a keyword. -/
def parenExpression (call : Reference) : Parser Unit := do
  expect .parenL
  expression call false
  expect .parenR

/-- Statements in braces. -/
def block (call : Reference) : Parser Unit := do
  expect .braceL
  statements call
  next

/-- The declarations of a `var`, `let` or `const` after its keyword. -/
def declarations (call : Reference) (role : Role) (noIn : Bool) : Parser Unit :=
  loop () fun _ => do
    call (.binding role)
    if (← typescript) && (← is .bang) then inType next
    maybeAnnotation call
    if ← eat .eq then call (.assignment noIn)
    if ← eat .comma then return .yield () else return .done ()

/-- A `var`, `let` or `const` statement. -/
def variableStatement (call : Reference) (role : Role) : Parser Unit := do
  next
  declarations call role false
  semicolon

/-! ## Control flow -/

/-- Is the token ahead the `let` of a declaration? -/
def atLet : Parser Bool := do
  if ← isName "let" then return startsBinding (← peek).kind else return false

/-- What a loop declares or evaluates first. -/
def forInit (call : Reference) : Parser Unit := do
  if ← is .semi then return
  else if ← atLet then
    next
    declarations call .blockScoped true
  else if ← is .kwVar then
    next
    declarations call .functionScoped true
  else if ← is .kwConst then
    next
    declarations call .blockScoped true
  else expression call true

/-- A `for` statement. -/
def forStatement (call : Reference) : Parser Unit := do
  next
  if ← isName "await" then next
  expect .parenL
  forInit call
  if (← is .kwIn) || (← isName "of") then
    next
    expression call false
  else
    expect .semi
    if !(← is .semi) then expression call false
    expect .semi
    if !(← is .parenR) then expression call false
  expect .parenR
  call .statement

/-- A `try` statement, whose `catch` may bind nothing. -/
def tryStatement (call : Reference) : Parser Unit := do
  next
  block call
  if ← eat .kwCatch then
    if ← eat .parenL then
      call (.binding .blockScoped)
      maybeAnnotation call
      expect .parenR
    block call
  if ← eat .kwFinally then block call

/-- A `switch` statement. -/
def switchStatement (call : Reference) : Parser Unit := do
  next
  parenExpression call
  expect .braceL
  repeatUntil .braceR do
    if ← eat .kwCase then
      expression call false
      expect .colon
    else if ← eat .kwDefault then expect .colon
    else if ← is .eof then unexpected
    else call .statement
  next

/-- An `if` statement. -/
def ifStatement (call : Reference) : Parser Unit := do
  next
  parenExpression call
  call .statement
  if ← eat .kwElse then call .statement

/-- A `do` statement; the semicolon after it can always be left out. -/
def doStatement (call : Reference) : Parser Unit := do
  next
  call .statement
  expect .kwWhile
  parenExpression call
  discard <| eat .semi

/-- A `return` or `throw` statement. -/
def returnStatement (call : Reference) : Parser Unit := do
  next
  if !(← is .semi) && !(← canEndStatement) then expression call false
  semicolon

/-- A `break` or `continue` statement. -/
def jumpStatement : Parser Unit := do
  next
  if (← is .name) && !(← afterNewline) then next
  semicolon

/-! ## Ambient declarations -/

/-- An enumeration, which is only accepted where it is ambient. -/
def enumDeclaration (call : Reference) : Parser Unit := do
  if (← get).isType then
    if ← is .kwConst then next
    next
    identifier .blockScoped
    balanced call
  else fault .enumDeclaration

/-- A namespace, which is only accepted where it is ambient. -/
def namespaceDeclaration (call : Reference) : Parser Unit := do
  if (← get).isType then
    next
    next
    repeatWhile (eat .dot) next
    if ← is .braceL then balanced call else semicolon
  else fault .namespaceDeclaration

/-- A `const` statement, or a constant enumeration. -/
def constStatement (call : Reference) : Parser Unit := do
  if ← typescript then
    if (← textOf (← peek)) = "enum".toList then enumDeclaration call
    else variableStatement call .blockScoped
  else variableStatement call .blockScoped

/-- A declaration that starts with a word of a type system, or an expression. -/
def typedNameStatement (call : Reference) (after : Token) : Parser Unit := do
  let sameLine := !after.newlineBefore
  if ← atTypeAlias then typeAlias call
  else if ← atInterface then interface call
  else if (← isName "declare") && sameLine && after.kind.isNameLike then
    inType do
      next
      call .statement
  else if (← isName "abstract") && (← typescript) && after.kind = .kwClass && sameLine then
    inType next
    classRule call true
  else if (← isName "enum") && (← typescript) && after.kind = .name && sameLine then
    enumDeclaration call
  else if (← isNameOf ["namespace", "module"]) && (← typescript) && sameLine
      && (after.kind = .name || after.kind = .string) then
    namespaceDeclaration call
  else if (← isName "global") && (← get).isType && after.kind = .braceL then
    next
    block call
  else expressionStatement call

/-- A statement that starts with a name. -/
def nameStatement (call : Reference) : Parser Unit := do
  let after ← peek
  if after.kind = .colon then
    next
    next
    call .statement
  else if (← isName "let") && startsBinding after.kind then variableStatement call .blockScoped
  else if (← isName "async") && after.kind = .kwFunction && !after.newlineBefore then
    next
    function call true true
  else if ← hasTypes then typedNameStatement call after
  else expressionStatement call

/-! ## Exports -/

/-- Is the token ahead the `async` of a function? -/
def atAsyncFunction : Parser Bool := do
  if ← isName "async" then peekIs .kwFunction else return false

/-- Is the token ahead the `abstract` of a class? -/
def atAbstractClass : Parser Bool := do
  if (← typescript) && (← isName "abstract") then peekIs .kwClass else return false

/-- What a module exports by default. -/
def exportDefault (call : Reference) : Parser Unit := do
  if ← is .kwFunction then function call true false
  else if ← atAsyncFunction then
    next
    function call true true
  else if ← is .kwClass then
    let after ← peek
    classRule call (after.kind = .name && (← textOf after) != "implements".toList)
  else if ← atAbstractClass then
    inType next
    classRule call true
  else if ← atInterface then interface call
  else
    call (.assignment false)
    semicolon

/-- What follows an `export` that is not only a type. -/
def exported (call : Reference) : Parser Unit := do
  match (← cur).kind with
  | .star => exportAll
  | .braceL => exportList
  | .kwDefault =>
      next
      exportDefault call
  | .kwVar => variableStatement call .functionScoped
  | .kwConst => variableStatement call .blockScoped
  | .kwFunction => function call true false
  | .kwClass => classRule call true
  | .eq => if ← typescript then fault .exportAssignment else unexpected
  | .name =>
      if ← isName "let" then variableStatement call .blockScoped
      else if ← isName "async" then
        next
        function call true true
      else if (← isName "abstract") && (← typescript) then
        inType next
        classRule call true
      else if (← isName "enum") && (← typescript) then enumDeclaration call
      else unexpected
  | _ => unexpected

/-- Makes the `export` at an index part of a type if all that it exports is one,
as with a signature. -/
def markTypeExport (index : Nat) : Parser Unit := do
  let tokens := (← get).tokens
  if tokens.back?.any (·.isType) && (tokens[index + 1]?).any (·.isType) then
    modifyToken index fun t => { t with isType := true }

/-- An export declaration.  The `export` of a variable declaration knows where
the declaration ends. -/
def exportRule (call : Reference) : Parser Unit := do
  let index ← tokenCount
  if ← atTypeExport then
    inType do
      next
      typeExport call
  else
    next
    let isVariable := (← isOneOf [.kwVar, .kwConst]) || (← isName "let")
    exported call
    let stop ← tokenCount
    if isVariable then modifyToken index fun t => { t with rhsEnd := some stop }
    markTypeExport index

/-! ## Statements of every form -/

/-- A statement. -/
def statement (call : Reference) : Parser Unit := do
  match (← cur).kind with
  | .braceL => block call
  | .semi => next
  | .kwVar => variableStatement call .functionScoped
  | .kwConst => constStatement call
  | .kwFunction => function call true false
  | .kwClass => classRule call true
  | .kwIf => ifStatement call
  | .kwFor => forStatement call
  | .kwWhile | .kwWith =>
      next
      parenExpression call
      call .statement
  | .kwDo => doStatement call
  | .kwReturn | .kwThrow => returnStatement call
  | .kwBreak | .kwContinue => jumpStatement
  | .kwDebugger =>
      next
      semicolon
  | .kwTry => tryStatement call
  | .kwSwitch => switchStatement call
  | .kwImport =>
      if [.parenL, .dot].contains (← peek).kind then expressionStatement call else importRule
  | .kwExport => exportRule call
  | .at => fault .decorator
  | .name => nameStatement call
  | _ => expressionStatement call

end Downlevel.Grammar
