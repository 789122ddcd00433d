import Downlevel.Grammar.Class

/-!
# Imports and exports
-/

namespace Downlevel.Grammar

open Grammar.Parser

/-! ## Imports -/

/-- The `from` and the path that end an import, and the end of the statement. -/
def moduleSource : Parser Unit := do
  if ← isName "from" then
    next
    expect .string
    semicolon
  else unexpected

/-- An imported name and the name it is bound to. -/
def plainImportSpecifier : Parser Unit := do
  let after ← peek
  if after.kind = .name && (← textOf after) = "as".toList then
    next
    next
  identifier .blockScoped

/-- Does an `as` after the word `type` name the imported type? -/
def atTypeNamedAs : Parser Bool :=
  lookahead do
    next
    next
    if ← isName "as" then return true else isOneOf [.comma, .braceR]

/-- Is the token ahead the mark of a specifier that only imports a type? -/
def atTypeSpecifier : Parser Bool := do
  if (← hasTypes) && ((← isName "type") || (← is .kwTypeOf)) then
    let after ← peek
    if after.kind.isNameLike || after.kind = .string then
      if (← textOf after) = "as".toList then atTypeNamedAs else return true
    else return false
  else return false

/-- An import specifier, which may only import a type. -/
def importSpecifier : Parser Unit := do
  if ← atTypeSpecifier then
    inType do
      next
      plainImportSpecifier
  else plainImportSpecifier

/-- What an import takes besides the default. -/
def importedNames : Parser Unit := do
  if ← eat .star then
    if ← isName "as" then
      next
      identifier .blockScoped
      moduleSource
    else unexpected
  else if ← eat .braceL then
    commaList .braceR importSpecifier
    next
    moduleSource
  else unexpected

/-- An import declaration. -/
def importDeclaration : Parser Unit := do
  expect .kwImport
  if (← get).isType && ((← isName "type") || (← is .kwTypeOf)) then next
  if ← is .string then
    next
    semicolon
  else if ← is .name then
    if ← peekIs .eq then fault .importAssignment
    else
      identifier .blockScoped
      if ← eat .comma then importedNames else moduleSource
  else importedNames

/-- Is the token ahead the `import` of a declaration that only imports types? -/
def atTypeImport : Parser Bool :=
  lookahead do
    next
    if (← isName "type") || ((← flow) && (← is .kwTypeOf)) then
      next
      return (← isOneOf [.braceL, .star]) || ((← is .name) && !(← isName "from"))
    else return false

/-- An import declaration, which may only import types. -/
def importRule : Parser Unit := do
  if ← hasTypes then
    if ← atTypeImport then inType importDeclaration else importDeclaration
  else importDeclaration

/-! ## Export lists -/

/-- A name in an export list. -/
def exportName : Parser Unit := do
  let kind := (← cur).kind
  if kind.isNameLike || kind = .string then next else unexpected

/-- A name of the module and the name it is exported by. -/
def exportSpecifier : Parser Unit := do
  if ← is .name then modifyCur fun t => { t with role := some .access }
  exportName
  if ← isName "as" then
    next
    exportName

/-- Is the token ahead the mark of a specifier that only exports a type? -/
def atTypeExportSpecifier : Parser Bool := do
  if (← hasTypes) && (← isName "type") then
    let after ← peek
    return !([.comma, .braceR].contains after.kind) && (← textOf after) != "as".toList
  else return false

/-- An export list, which may come from another module.  Its names are then no
references. -/
def exportList : Parser Unit := do
  let start ← tokenCount
  expect .braceL
  commaList .braceR do
    if ← atTypeExportSpecifier then
      inType do
        next
        exportSpecifier
    else exportSpecifier
  next
  if ← isName "from" then
    modifyFrom start fun t => { t with role := none }
    moduleSource
  else semicolon

/-- Everything of another module, perhaps under one name. -/
def exportAll : Parser Unit := do
  next
  if ← isName "as" then
    next
    next
  moduleSource

/-- Is the token ahead the `export` of something that is only a type? -/
def atTypeExport : Parser Bool := do
  if ← hasTypes then
    let after ← peek
    if after.kind = .name then
      let word := String.ofList (← textOf after)
      return ["type", "interface", "declare", "opaque"].contains word
        || (word = "as" && (← typescript))
    else return false
  else return false

/-- The rest of an exported list of types. -/
def exportedTypeList (call : Reference) : Parser Unit := do
  if ← is .braceL then balanced call
  else if ← eat .star then
    if ← isName "as" then
      next
      next
  else unexpected
  if ← isName "from" then
    next
    expect .string
  semicolon

/-- What is exported, if it is only a type. -/
def typeExport (call : Reference) : Parser Unit := do
  if ← atTypeAlias then typeAlias call
  else if ← isName "interface" then interface call
  else if ← isName "declare" then
    next
    call .statement
  else if ← isName "type" then
    next
    exportedTypeList call
  else if ← isName "as" then
    next
    next
    next
    semicolon
  else unexpected

end Downlevel.Grammar
