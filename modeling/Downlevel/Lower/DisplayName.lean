import Downlevel.Lower.Walk

/-!
# Display names

A component made by a call gets the name of what it is assigned to, of the key
it is the value of, or of the file it is the default of.
-/

namespace Downlevel.Lower

/-! ## Finding a name -/

/-- The text before the last dot. -/
def dropExtension (t : Text) : Text :=
  match t.reverse.dropWhile (· != '.') with
  | _ :: stem => stem.reverse
  | [] => t

/-- The name of a file without folder and extension.  An index file is named for
its folder. -/
def fileDisplayName (path : Text) : Text :=
  match (Text.split '/' path).reverse with
  | file :: folder :: _ =>
      let base := dropExtension file
      if base = "index".toList && !folder.isEmpty then folder else base
  | [file] => dropExtension file
  | [] => []

/-- The name for a component whose call starts at an index. -/
def displayName? (p : Program) (filePath : Option Text) (start : Nat) : Option Text :=
  if start < 2 then none
  else
    let i := start - 2
    if p.matchesAt i [.name, .eq] then some (p.nameAt i)
    else if (p.tokenAt i).role = some .key then some (p.nameAt i)
    else if p.matchesAt i [.kwExport, .kwDefault] then
      some (fileDisplayName (filePath.getD "unknown".toList))
    else none

/-- Is a call whose arguments start at an index made with one object that has no
display name? -/
def needsDisplayName (p : Program) (i : Nat) : Except Error Bool :=
  if p.matchesAt i [.parenL, .braceL] then
    match (p.tokenAt (i + 1)).context with
    | none => .error (.invariant .objectContext)
    | some id =>
        let isEnd (j : Nat) : Bool :=
          p.kindAt j == .braceR && (p.tokenAt j).context == some id
        let isName (j : Nat) : Bool :=
          (p.tokenAt j).context == some id && (p.tokenAt j).role == some .key
            && p.nameAt j == "displayName".toList
        let j := p.seek (i + 2) fun j => p.kindAt j == .eof || isEnd j || isName j
        if p.kindAt j = .eof then .error (.invariant .objectEnd)
        else if isEnd j then
          .ok (p.matchesAt (j + 1) [.parenR] || p.matchesAt (j + 1) [.comma, .parenR])
        else .ok false
  else .ok false

/-! ## Writing it -/

/-- Adds a display name to the arguments here, those of a call that starts at an
index. -/
def nameComponent (token : Lower Unit) (start : Nat) : Lower Unit := do
  let p ← program
  match displayName? p (← read).options.filePath start with
  | none => return
  | some name =>
      match needsDisplayName p (← index) with
      | .error e => throw e
      | .ok false => return
      | .ok true =>
          copyExpected .parenL
          copyExpected .braceL
          append ("displayName: '".toList ++ name ++ "',".toList)
          balanced token
          copyExpected .braceR
          copyExpected .parenR

/-- Lowers the call that makes a component, if there is one here. -/
def componentRule (token : Lower Unit) : Lower Bool := do
  let p ← program
  let start ← index
  if p.kindAt start = .name && !p.isTypeAt start then
    if p.nameAt start = "createReactClass".toList then
      match ← replacement? "createReactClass".toList with
      | some code => replace ("(0, ".toList ++ code ++ ")".toList)
      | none => copy
      nameComponent token start
      return true
    else if p.matchesAt start [.name, .dot, .name] && p.nameAt start = "React".toList
        && p.nameAt (start + 2) = "createClass".toList then
      replace ((← replacement? "React".toList).getD "React".toList)
      copy
      copy
      nameComponent token start
      return true
    else return false
  else return false

end Downlevel.Lower
