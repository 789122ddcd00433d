import Downlevel.Lower.Transform
import Downlevel.Proofs.Text.Line

/-!
# Lowering with lines counted from the start

Here the line of an element is counted from the start of the source each time, and not on or
back from the line that was asked for last.  All else is as in lowering itself.
-/

namespace Downlevel.Lower.Counted

/-- The line of an offset, counted from the start of the source. -/
def lineAt (offset : Nat) : Lower Nat := do
  let source := (← program).source
  let lineOffset := min offset (Text.size source)
  let line := Text.byteLine source lineOffset
  modify fun w => { w with draft := { w.draft with lineOffset, line } }
  return line

/-- The properties that tell where an element comes from. -/
def debugProperties (start : Nat) : Lower (Option Text) := do
  match (← read).fileNameVariable with
  | none => return none
  | some name =>
    let line ← lineAt start
    return some ("__self: this, __source: \x7bfileName: ".toList ++ name
      ++ ", lineNumber: ".toList ++ Text.ofNat line ++ "\x7d".toList)

/-- The properties of an element that starts at an offset. -/
def properties (token : Lower Unit) (start : Nat) : Lower Unit := do
  let debug ← debugProperties start
  if (← is .jsxName) || (← is .braceL) then
    append ", \x7b".toList
    loop () fun _ => do
      if ← is .jsxName then
        propertyKey
        propertyValue token
        append ",".toList
        return .yield ()
      else if ← is .braceL then
        container token
        append ",".toList
        return .yield ()
      else return .done ()
    match debug with
    | some code => append (" ".toList ++ code ++ "\x7d".toList)
    | none => append "\x7d".toList
  else
    match debug with
    | some code => append (", \x7b".toList ++ code ++ "\x7d".toList)
    | none => append ", null".toList

/-- An element or fragment. -/
def element (token : Lower Unit) : Lower Unit := do
  let options := (← read).options
  let start := (← cur).start
  replace ((← pragma options.jsxPragma) ++ "(".toList)
  if ← is .jsxTagEnd then
    replace ((← pragma options.jsxFragmentPragma) ++ ", null".toList)
    children token
    closingTag
  else
    elementName token
    properties token start
    if ← comes [.slash, .jsxTagEnd] then
      replace []
      replace ")".toList
    else if ← is .jsxTagEnd then
      replace []
      children token
      closingTag
    else breach .tagEnd

/-- Lowers an element, if there is one here. -/
def elementRule (token : Lower Unit) : Lower Bool := do
  if ← is .jsxTagStart then
    element token
    return true
  else return false

/-- The rules that the options enable. -/
def rules (o : Options) (token : Lower Unit) : List (Lower Bool) :=
  (if o.has .jsx then [elementRule token, componentRule token] else [])
    ++ (if o.has .imports then [moduleRule token] else [])
    ++ (if o.has .flow then [arrowParametersEnd, typeRun] else [])
    ++ (if o.has .typescript then [arrowParametersEnd, asyncTypeParameters token, typeRun]
        else [])
    ++ [numericSeparators, catchBinding]

/-- Lowers the next token, with tokens nested in it at most to the given depth. -/
def tokenWithin : Nat → Lower Unit
  | 0 => breach .noProgress
  | depth + 1 => do
    let t ← cur
    if t.kind = .kwClass && !t.isType then classRule (tokenWithin depth)
    else firstOf (rules (← read).options (tokenWithin depth))

/-- Lowers all tokens from here on and puts the output together. -/
def finish : Lower Text := do
  balanced (do tokenWithin ((← read).program.count + 2))
  if ← atEnd then
    let before ← preamble
    let after ← postamble
    let body ← edit Edit.finish
    return shebang (← program).source ++ before ++ body ++ after
  else breach .strayCloser

end Downlevel.Lower.Counted
