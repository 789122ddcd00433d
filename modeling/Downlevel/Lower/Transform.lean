import Downlevel.Grammar.Parse
import Downlevel.Lower.DisplayName
import Downlevel.Lower.Element
import Downlevel.Lower.Literal
import Downlevel.Lower.Module

/-!
# Transforming a program
-/

namespace Downlevel

namespace Lower

/-! ## One token -/

/-- Tries rules in order until one applies; if none does, the token is copied. -/
def firstOf : List (Lower Bool) → Lower Unit
  | [] => copy
  | rule :: rules => do
      if ← rule then return else firstOf rules

/-- The rules that the options enable. -/
def rules (o : Options) (token : Lower Unit) : List (Lower Bool) :=
  (if o.has .jsx then [elementRule token, componentRule token] else [])
    ++ (if o.has .imports then [moduleRule token] else [])
    ++ (if o.has .flow then [arrowParametersEnd, typeRun] else [])
    ++ (if o.has .typescript then [arrowParametersEnd, asyncTypeParameters token, typeRun]
        else [])
    ++ [numericSeparators, catchBinding]

/-- Lowers the next token, given how to lower tokens inside it. -/
def tokenStep (token : Lower Unit) : Lower Unit := do
  let t ← cur
  if t.kind = .kwClass && !t.isType then classRule token
  else firstOf (rules (← read).options token)

/-- Lowers the next token, with tokens nested in it at most to the given depth. -/
def tokenWithin : Nat → Lower Unit
  | 0 => breach .noProgress
  | depth + 1 => tokenStep (tokenWithin depth)

/-- Lowers the next token.  A nested token comes after the one it is nested in,
so that the number of tokens bounds the depth. -/
def token : Lower Unit := do
  tokenWithin ((← read).program.count + 2)

/-! ## The whole program -/

/-- What goes in front of the program. -/
def preamble : Lower Text := do
  let plan ← read
  let work ← get
  let strict := if plan.options.has .imports then "\"use strict\";".toList else []
  let fileName :=
    match plan.fileNameVariable, plan.options.filePath with
    | some name, some path =>
        if plan.options.has .jsx then
          "const ".toList ++ name ++ " = ".toList ++ Text.quote path ++ ";".toList
        else []
    | _, _ => []
  let modules :=
    if plan.options.has .imports then
      (match plan.bindings with
        | some b =>
            (if b.hasExport then
                "Object.defineProperty(exports, \"__esModule\", \x7bvalue: true\x7d);".toList
              else [])
              ++ b.helpers.code
        | none => [])
        ++ (work.hoisted.map (' ' :: ·)).flatten
    else []
  let declarations := work.generated.map fun name => " var ".toList ++ name ++ ";".toList
  return strict ++ fileName ++ modules ++ declarations.flatten

/-- What goes after the program. -/
def postamble : Lower Text := do
  let plan ← read
  match plan.bindings with
  | some b =>
      if plan.options.has .imports && plan.options.has .addModuleExports && b.hasDefaultExport
          && !b.hasNamedExports then
        return "\nmodule.exports = exports.default;\n".toList
      else return []
  | none => return []

/-- The `#!` line of a source, with a line feed at its end. -/
def shebang (source : Text) : Text :=
  let line := Text.takeBytes source (Text.shebangSize source)
  if line.isEmpty || line.getLast? = some '\n' then line else line ++ ['\n']

/-- Lowers all tokens from here on and puts the output together. -/
def finish : Lower Text := do
  balanced token
  if ← atEnd then
    let before ← preamble
    let after ← postamble
    let body ← edit Edit.finish
    return shebang (← program).source ++ before ++ body ++ after
  else breach .strayCloser

end Lower

/-! ## Preparing -/

namespace Plan

/-- The values that a program declares outside functions and imports.  `inImport`
says that the tokens are those of an import. -/
def declaredValues (source : Text) (inImport : Bool) : List Token → List Text
  | [] => []
  | t :: ts =>
      if t.isType then declaredValues source inImport ts
      else if t.kind = .kwImport && t.depth = 0 then
        declaredValues source (!Linkage.startsExpression ts.head?) ts
      else if inImport then declaredValues source (t.kind != .string) ts
      else if t.kind = .name && t.isDeclaration && t.depth = 0 then
        t.text source :: declaredValues source inImport ts
      else declaredValues source inImport ts

/-- The plan for a program, and the work before its first token. -/
def prepare (source : Text) (tokens : Array Token) (o : Options) : Except Error (Plan × Work) := do
  let names := Names.ofTokens source tokens.toList
  let (bindings, names) ←
    if o.has .imports then
      let (b, names) ← Linkage.Bindings.ofTokens source tokens.toList o names
      pure (some b, names)
    else pure (none, names)
  let hasElement := tokens.any fun t => t.kind = .jsxTagStart
  let (fileNameVariable, names) :=
    if o.has .jsx && o.filePath.isSome && hasElement then
      let (name, names) := names.claim "_jsxFileName".toList
      (some name, names)
    else (none, names)
  let declared :=
    if o.has .typescript then some (declaredValues source false tokens.toList) else none
  return ({ program := { source, tokens }, options := o, bindings, fileNameVariable, declared },
    { names })

end Plan

/-- Lowers a source to plain code. -/
def transform (source : Text) (o : Options) : Except Error Text := do
  o.validate
  let tokens ← Grammar.parse source o
  let (plan, work) ← Plan.prepare source tokens o
  match Lower.finish plan work with
  | .ok code _ => return code
  | .error e _ => throw e

end Downlevel
