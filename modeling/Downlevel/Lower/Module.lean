import Downlevel.Lower.Class

/-!
# Imports and exports

An import becomes a call of `require`, a reference to an imported name an access
to a property of the module, and an export an assignment to `exports`.
-/

namespace Downlevel.Lower

/-! ## Imports -/

/-- Is the next token the path of an import or export? -/
def atModulePath : Lower Bool := do
  let p ← program
  let i ← index
  return p.kindAt i = .string && !p.isTypeAt i && 0 < i
    && (p.kindAt (i - 1) = .kwImport || p.isNameAt (i - 1) "from".toList)

/-- The statement that loads a path, the first time it is asked for. -/
def claimLoad (path : Text) : Lower Text := do
  let b ← bindings
  if (← get).loaded.contains path then return []
  else
    modify fun w => { w with loaded := path :: w.loaded }
    return b.load path

/-- Drops tokens up to the path of an import or export. -/
def removeToPath (missing : Breach) : Lower Unit :=
  repeatWhile (return !(← atModulePath)) do
    if ← atEnd then breach missing else remove

/-- Drops the semicolon here, if there is one. -/
def removeSemicolon : Lower Unit := do
  if ← is .semi then remove

/-- An import declaration. -/
def importDeclaration : Lower Unit := do
  removeInitial
  removeToPath .importSource
  let code ← claimLoad (Linkage.unquote (← curText))
  replaceTrimmed code
  removeSemicolon

/-- Is the name at an index called, other than by `new`? -/
def isCalled (p : Program) (i : Nat) : Bool :=
  let after := p.kindAt (p.skipTypes (i + 1))
  (after == .parenL || after == .backQuote) && !(0 < i && p.kindAt (i - 1) == .kwNew)

/-- A reference to an imported name.  A function is called through a comma, so
that it does not get the module as its receiver. -/
def reference : Lower Bool := do
  let t ← cur
  if t.isReference then
    let name ← curName
    match (← bindings).replacement? name with
    | none => return false
    | some code =>
        if t.role = some .shorthand then replace (name ++ ": ".toList ++ code)
        else if isCalled (← program) (← index) && code.contains '.' then
          replace ("(0, ".toList ++ code ++ ")".toList)
        else replace code
        return true
  else return false

/-! ## Exports of declarations -/

/-- Writes an export in front of the program. -/
def hoist (code : Text) : Lower Unit :=
  modify fun w => { w with hoisted := w.hoisted ++ [code] }

/-- The assignment of a value to an exported name. -/
def exportCode (name value : Text) : Text :=
  "exports.".toList ++ name ++ " = ".toList ++ value ++ ";".toList

/-- Drops tokens through an index. -/
def removeThrough (last : Nat) : Lower Unit := do
  removeInitial
  repeatTo (last + 1) remove

/-- A function whose name is at an index.  The result is the name. -/
def namedFunction (token : Lower Unit) (nameIndex : Nat) : Lower Text := do
  repeatTo nameIndex token
  let name ← curName
  copy
  let p ← program
  let close ← orBreach (p.matching? (p.skipTypes (nameIndex + 1))) .functionParameters
  let stop ← orBreach (p.matching? (p.skipTypes (close + 1))) .functionBody
  repeatTo (stop + 1) token
  return name

/-- The class whose keyword is at an index. -/
def classAt (token : Lower Unit) (classIndex : Nat) : Lower Unit := do
  repeatTo classIndex token
  classRule token

/-- An exported function. -/
def exportFunction (token : Lower Unit) : Lower Unit := do
  let p ← program
  let isName (i : Nat) : Bool :=
    p.kindAt i == .name && !p.isNameAt i "async".toList && !p.isTypeAt i
  let i := p.seek ((← index) + 1) fun i => isName i || p.kindAt i == .parenL
  if isName i then
    removeInitial
    let name ← namedFunction token i
    hoist (exportCode name name)
  else breach .exportedFunctionName

/-- An exported class, whose keyword is at an index. -/
def exportClass (token : Lower Unit) (classIndex : Nat) : Lower Unit := do
  let p ← program
  if p.kindAt (classIndex + 1) = .name && !p.isTypeAt (classIndex + 1) then
    let name := p.nameAt (classIndex + 1)
    removeInitial
    classAt token classIndex
    append (" ".toList ++ exportCode name name)
  else breach .exportedClassName

/-- The names that the tokens between two indices declare outside functions,
each once. -/
def declaredNames (p : Program) (start stop : Nat) : List Text :=
  let names := (List.range' start (stop - start)).filterMap fun i =>
    let t := p.tokenAt i
    if t.kind = .name && t.isDeclaration && !t.isType && t.depth = 0 then some (p.nameAt i)
    else none
  names.foldl (fun seen name => if seen.contains name then seen else seen ++ [name]) []

/-- An exported variable declaration. -/
def exportVariables (token : Lower Unit) : Lower Unit := do
  let p ← program
  let start ← index
  match (← cur).rhsEnd with
  | none | some 0 => breach .declarationEnd
  | some (last + 1) =>
      removeInitial
      repeatTo (last + 1) token
      let statements := (declaredNames p (start + 1) (last + 1)).map fun name =>
        " ".toList ++ exportCode name name
      append ((if p.kindAt last = .semi then [] else ";".toList) ++ statements.flatten)

/-- The function that a default export at an index gives a name, as the index of
the name. -/
def defaultFunctionName? (p : Program) (start : Nat) : Option Nat :=
  let i := if p.isNameAt start "async".toList then start + 1 else start
  if p.kindAt i = .kwFunction then
    let j := if p.kindAt (i + 1) = .star then i + 2 else i + 1
    if p.kindAt j = .name then some j else none
  else none

/-- Is the token at an index the keyword of a class with a name? -/
def isNamedClassAt (p : Program) (i : Nat) : Bool :=
  p.kindAt i == .kwClass && !(p.tokenAt i).isExpression && p.kindAt (i + 1) == .name
    && !p.isTypeAt (i + 1)

/-- A default export, whose `default` is at an index. -/
def exportDefault (token : Lower Unit) (defaultIndex : Nat) : Lower Unit := do
  let p ← program
  let start := p.skipTypes (defaultIndex + 1)
  match defaultFunctionName? p start with
  | some nameIndex =>
      removeThrough defaultIndex
      let name ← namedFunction token nameIndex
      hoist (exportCode "default".toList name)
  | none =>
      if isNamedClassAt p start then
        let name := p.nameAt (start + 1)
        removeThrough defaultIndex
        classAt token start
        append (" ".toList ++ exportCode "default".toList name)
      else
        replace "exports.default =".toList
        repeatTo (defaultIndex + 1) remove

/-! ## Exports of names -/

/-- The name at the next token, which may be a string literal. -/
def specifierName : Lower Text := do
  if ← is .string then curText else curName

/-- Drops a list of names in braces.  The result has each name of the module and
the name it is exported by. -/
def specifiers : Lower (List (Text × Text)) := do
  if ← is .braceL then remove
  loop [] fun found => do
    let t ← cur
    if t.kind = .braceR then
      remove
      return .done found
    else if t.kind = .eof then breach .exportSpecifiers
    else if t.isType || t.kind = .comma then
      remove
      return .yield found
    else
      let name ← specifierName
      remove
      if (← isName "as") && !(← isType) then
        remove
        let exported ← specifierName
        remove
        return .yield (found ++ [(name, exported)])
      else return .yield (found ++ [(name, name)])

/-- Is the text a string literal? -/
def isQuoted (t : Text) : Bool :=
  t.head?.any fun c => c == '\x22' || c == '\x27'

/-- The property of `exports` for a name. -/
def exportTarget (exported : Text) : Text :=
  if isQuoted exported then "exports[".toList ++ exported ++ "]".toList
  else "exports.".toList ++ exported

/-- A name as a string literal. -/
def quotedName (name : Text) : Text :=
  if isQuoted name then name else '\x27' :: name ++ ['\x27']

/-- The assignment of a name in an export list.  A name that is only a type has
none. -/
def specifierExport (name exported : Text) : Lower (Option Text) := do
  let code (value : Text) : Text := exportTarget exported ++ " = ".toList ++ value ++ ";".toList
  match (← bindings).replacement? name with
  | some value => return some (code value)
  | none =>
      match (← read).declared with
      | some declared => return if declared.contains name then some (code name) else none
      | none => return some (code name)

/-- An export list. -/
def exportNames : Lower Unit := do
  removeInitial
  let found ← specifiers
  removeSemicolon
  let statements ← found.mapM fun (name, exported) => specifierExport name exported
  append (Text.join " ".toList (statements.filterMap id))

/-- The variable of a path. -/
def moduleVariable (path : Text) : Lower Text := do
  orBreach ((← bindings).moduleName? path) (.moduleName path)

/-- An export that reads a property of another module when it is asked for. -/
def getterCode (moduleName imported exported : Text) : Text :=
  " Object.defineProperty(exports, ".toList ++ quotedName exported
    ++ ", \x7benumerable: true, get: function() \x7b return ".toList ++ moduleName
    ++ '.' :: imported ++ "; \x7d\x7d);".toList

/-- An export list of another module, whose path is at an index. -/
def reexportNames (pathIndex : Nat) : Lower Unit := do
  let path := Linkage.unquote ((← program).textAt pathIndex)
  removeInitial
  let found ← specifiers
  repeatTo pathIndex remove
  let load ← claimLoad path
  let moduleName ← moduleVariable path
  let getters := found.map fun (imported, exported) => getterCode moduleName imported exported
  replaceTrimmed (load ++ getters.flatten)
  removeSemicolon

/-- An export list, of this module or of another. -/
def exportList : Lower Unit := do
  let p ← program
  let close := p.seek ((← index) + 2) fun i => p.kindAt i == .braceR
  if p.count ≤ close then breach .exportSpecifiers
  else
    let source := p.skipTypes (close + 1)
    if p.isNameAt source "from".toList then reexportNames (source + 1) else exportNames

/-- The one name that everything behind a star is exported under, if there is one
and it can be decoded. -/
def starName? (p : Program) (star : Nat) : Option (Option Text) :=
  if p.isNameAt (star + 1) "as".toList then (p.nameAt? (star + 2)).map some else some none

/-- An export of everything another module exports, perhaps under one name. -/
def exportAll : Lower Unit := do
  let p ← program
  let star := (← index) + 1
  let name ← orBreach (starName? p star) .splitCharacter
  removeInitial
  removeToPath .exportSource
  let path := Linkage.unquote (← curText)
  let load ← claimLoad path
  let moduleName ← moduleVariable path
  let code ←
    match name with
    | some name => pure (" ".toList ++ exportCode name moduleName)
    | none => do
        let helper ← orBreach (← bindings).helpers.exportStar .starHelper
        pure (" ".toList ++ helper ++ "(".toList ++ moduleName ++ ");".toList)
  replaceTrimmed (load ++ code)
  removeSemicolon

/-- An export declaration. -/
def exportDeclaration (token : Lower Unit) : Lower Unit := do
  let p ← program
  let i := p.skipTypes ((← index) + 1)
  match p.kindAt i with
  | .kwDefault => exportDefault token i
  | .kwVar | .kwConst => exportVariables token
  | .kwFunction => exportFunction token
  | .kwClass => exportClass token i
  | .braceL => exportList
  | .star => exportAll
  | .name =>
      if p.textAt i = "let".toList then exportVariables token
      else if p.textAt i = "async".toList && p.kindAt (i + 1) = .kwFunction then
        exportFunction token
      else breach .exportForm
  | _ => breach .exportForm

/-- Lowers an import, an export or a reference, if there is one here. -/
def moduleRule (token : Lower Unit) : Lower Bool := do
  let t ← cur
  if t.isType then return false
  else if t.kind = .kwImport && t.depth = 0 then
    let after := (← program).kindAt ((← index) + 1)
    if after = .parenL || after = .dot then return false
    else
      importDeclaration
      return true
  else if t.kind = .kwExport && t.depth = 0 then
    exportDeclaration token
    return true
  else if t.kind = .name || t.kind = .jsxName then reference
  else return false

end Downlevel.Lower
