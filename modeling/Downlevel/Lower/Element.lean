import Downlevel.Lower.Walk
import Downlevel.Markup.Literal

/-!
# Elements

An element becomes a call of a function with its name, its properties and its
children.
-/

namespace Downlevel.Lower

/-- A text in single quotes. -/
def singleQuoted (t : Text) : Text :=
  '\x27' :: t ++ ['\x27']

/-- The expression of a pragma.  What it starts with may be an imported name. -/
def pragma (p : Text) : Lower Text := do
  let base := Linkage.pragmaBase p
  return ((← replacement? base).getD base) ++ p.drop base.length

/-! ## Names -/

/-- The first index from `i` on at which the name of an element has ended. -/
def elementNameEnd (p : Program) (i : Nat) : Nat :=
  p.seek i fun j =>
    !p.isTypeAt j
      && (p.matchesAt (j - 1) [.jsxName, .jsxName] || p.kindAt j == .braceL
        || p.kindAt j == .jsxTagEnd || p.matchesAt j [.slash, .jsxTagEnd])

/-- The names around a colon as one name in quotes. -/
def namespacedName (p : Program) (i : Nat) : Text :=
  singleQuoted (p.nameAt i ++ ':' :: p.nameAt (i + 2))

/-- The name of an element.  A single name in lower case, and names around a
colon, become a string; all others refer to a value. -/
def elementName (token : Lower Unit) : Lower Unit := do
  let p ← program
  let start ← index
  let stop := elementNameEnd p (start + 1)
  if p.count ≤ stop then breach .tagName
  else
    if stop = start + 1 then
      let name := p.nameAt start
      if name.head?.any Character.isLower then replace (singleQuoted name)
    else if stop = start + 3 && p.matchesAt start [.jsxName, .colon, .jsxName] then
      replace (namespacedName p start)
      remove
      remove
    repeatTo stop token

/-! ## Properties -/

/-- The properties that tell where an element comes from. -/
def debugProperties (start : Nat) : Lower (Option Text) := do
  match (← read).fileNameVariable with
  | none => return none
  | some name =>
      let line ← edit (Edit.lineAt start)
      return some ("__self: this, __source: \x7bfileName: ".toList ++ name
        ++ ", lineNumber: ".toList ++ Text.ofNat line ++ "\x7d".toList)

/-- The key of a property. -/
def propertyKey : Lower Unit := do
  let p ← program
  let i ← index
  if p.matchesAt i [.jsxName, .colon, .jsxName] then
    replace (namespacedName p i)
    remove
    remove
  else
    let name := p.nameAt i
    if name.contains '-' then replace (singleQuoted name) else copy

/-- An expression in braces, which are dropped. -/
def container (token : Lower Unit) : Lower Unit := do
  replace []
  balanced token
  replace []

/-- A property in quotes. -/
def quotedProperty : Lower Unit := do
  let value := (← curText).tail.dropLast
  replace (Markup.attributeLiteral value ++ Markup.layout value)

/-- The value of a property, which is `true` if none is written. -/
def propertyValue (token : Lower Unit) : Lower Unit := do
  if ← is .eq then
    replace ": ".toList
    if ← is .braceL then container token
    else if ← is .jsxTagStart then token
    else quotedProperty
  else append ": true".toList

/-- The properties of an element that starts at an offset. -/
def properties (token : Lower Unit) (start : Nat) : Lower Unit := do
  let debug ← debugProperties start
  if (← is .jsxName) || (← is .braceL) then
    append ", \x7b".toList
    loop () fun _ => do
      if ← is .jsxName then
        propertyKey
        propertyValue token
        append ",".toList
        return .yield ()
      else if ← is .braceL then
        container token
        append ",".toList
        return .yield ()
      else return .done ()
    match debug with
    | some code => append (" ".toList ++ code ++ "\x7d".toList)
    | none => append "\x7d".toList
  else
    match debug with
    | some code => append (", \x7b".toList ++ code ++ "\x7d".toList)
    | none => append ", null".toList

/-! ## Children -/

/-- A text between tags. -/
def childText : Lower Unit := do
  let t ← curText
  let literal := Markup.textLiteral t
  if literal = "\"\"".toList then replace (Markup.layout t)
  else replace (", ".toList ++ literal ++ Markup.layout t)

/-- The children of an element, up to its closing tag. -/
def children (token : Lower Unit) : Lower Unit :=
  loop () fun _ => do
    if ← comes [.jsxTagStart, .slash] then return .done ()
    else if ← comes [.braceL, .braceR] then
      replace []
      replace []
      return .yield ()
    else if ← is .braceL then
      replace ", ".toList
      balanced token
      replace []
      return .yield ()
    else if ← is .jsxTagStart then
      append ", ".toList
      token
      return .yield ()
    else if ← is .jsxText then
      childText
      return .yield ()
    else breach .elementChild

/-- The closing tag of an element, which becomes the end of the call. -/
def closingTag : Lower Unit := do
  repeatWhile (return !(← is .jsxTagEnd)) do
    if ← atEnd then breach .closingTag else replace []
  replace ")".toList

/-- An element or fragment. -/
def element (token : Lower Unit) : Lower Unit := do
  let options := (← read).options
  let start := (← cur).start
  replace ((← pragma options.jsxPragma) ++ "(".toList)
  if ← is .jsxTagEnd then
    replace ((← pragma options.jsxFragmentPragma) ++ ", null".toList)
    children token
    closingTag
  else
    elementName token
    properties token start
    if ← comes [.slash, .jsxTagEnd] then
      replace []
      replace ")".toList
    else if ← is .jsxTagEnd then
      replace []
      children token
      closingTag
    else breach .tagEnd

/-- Lowers an element, if there is one here. -/
def elementRule (token : Lower Unit) : Lower Bool := do
  if ← is .jsxTagStart then
    element token
    return true
  else return false

end Downlevel.Lower
