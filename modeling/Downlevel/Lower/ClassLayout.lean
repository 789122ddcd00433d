import Downlevel.Lower.Work
import Downlevel.Unicode.Blank

/-!
# The layout of a class

Before a class is written it is gone through once to find its fields, which are
taken out of the body, the assignments they become, and the place in the
constructor where those go.  Initializers are lowered on the way; the draft of
that is thrown away.
-/

namespace Downlevel

/-- What is known of a class from its head. -/
structure ClassHead where
  isExpression : Bool
  name : Option Text
  hasSuperclass : Bool
  deriving Repr, DecidableEq, Inhabited

/-- The layout of a class. -/
structure ClassLayout where
  head : ClassHead
  /-- Statements for the start of the constructor. -/
  initializers : List Text := []
  /-- Assignments for after the class, without the name of the class. -/
  statics : List Text := []
  /-- The token after which the initializers go, if there is a constructor. -/
  insertPos : Option Nat := none
  /-- The fields, each as the index of its first token and the index past its last. -/
  fields : List (Nat × Nat) := []
  deriving Repr, DecidableEq, Inhabited

namespace ClassLayout

/-! ## Parts of members -/

/-- The words that can stand in front of the name of a member. -/
def memberModifiers : List Text :=
  ["static".toList, "async".toList, "get".toList, "set".toList, "accessor".toList]

/-- The words that make a constructor parameter a property. -/
def propertyModifiers : List Text :=
  ["public".toList, "private".toList, "protected".toList, "readonly".toList,
    "override".toList]

/-- The kinds of tokens after a word that is the name of a member itself. -/
def nameFollowers : List Kind :=
  [.parenL, .eq, .semi, .braceR, .colon, .lessThan, .question, .bang, .eof]

/-- Is the token of an index a modifier, and not the name of a member? -/
def isModifierAt (p : Program) (i : Nat) : Bool :=
  let t := p.tokenAt i
  (t.isType && t.kind == .name) || t.kind == .star
    || (t.kind == .name && memberModifiers.contains (p.textAt i)
      && !nameFollowers.contains (p.kindAt (i + 1)))

/-- Is the token of an index a modifier in front of a parameter? -/
def isPropertyModifierAt (p : Program) (i : Nat) : Bool :=
  p.isTypeAt i && propertyModifiers.contains (p.textAt i)

/-- The names of the parameters between two indices that are properties.  At most
`n` indices are looked at. -/
def parameterProperties (p : Program) (stop : Nat) : Nat → Nat → Except Error (List Text)
  | 0, _ => .ok []
  | n + 1, i =>
      if stop ≤ i then .ok []
      else if isPropertyModifierAt p i then
        let j := p.seek i fun j => !isPropertyModifierAt p j
        if p.kindAt j = .name && !p.isTypeAt j then
          (parameterProperties p stop n (j + 1)).map (p.nameAt j :: ·)
        else .error (.invariant .parameterName)
      else parameterProperties p stop n (i + 1)

/-- The index of the parenthesis that closes the one at `i`, or `stop`.  At most
`n` indices are looked at, and `depth` parentheses are open. -/
def closingParen (p : Program) (stop : Nat) : Nat → Nat → Nat → Nat
  | 0, _, _ => stop
  | n + 1, depth, i =>
      if stop ≤ i then stop
      else
        match p.kindAt i with
        | .parenL => closingParen p stop n (depth + 1) (i + 1)
        | .parenR => if depth ≤ 1 then i else closingParen p stop n (depth - 1) (i + 1)
        | _ => closingParen p stop n depth (i + 1)

/-- The index after which initializers go in a constructor body: the end of the
first call of `super`, or the opening brace. -/
def insertionPoint (p : Program) (bodyStart bodyEnd : Nat) : Nat :=
  let i := p.seek (bodyStart + 1) fun j =>
    bodyEnd ≤ j || p.matchesAt j [.kwSuper, .parenL]
  if i < bodyEnd then closingParen p bodyEnd (bodyEnd - i) 0 (i + 1) else bodyStart

/-- The assignment of a parameter to the property of its name. -/
def parameterAssignment (name : Text) : Text :=
  "this.".toList ++ name ++ " = ".toList ++ name

end ClassLayout

namespace Lower

open ClassLayout

/-! ## Passing over members -/

/-- Passes tokens of types. -/
def skipTypes : Lower Unit :=
  repeatWhile isType skip

/-- Passes tokens through an index. -/
def skipThrough (last : Nat) : Lower Unit :=
  repeatTo (last + 1) skip

/-- Passes an opening token and everything through its partner. -/
def skipContext : Lower Unit := do
  skipThrough (← orBreach ((← program).matching? (← index)) .matchingContext)

/-- Passes the parameters, return type and body of a method. -/
def skipMethod : Lower Unit := do
  skipContext
  skipTypes
  if ← is .braceL then skipContext

/-- The index past the initializer after the `=` here. -/
def initializerEnd : Lower Nat := do
  orBreach (← cur).rhsEnd .initializerEnd

/-- Passes a member that stays as it is. -/
def skipMember : Lower Unit := do
  skip
  skipTypes
  if ← is .parenL then skipMethod
  else
    if ← is .eq then repeatTo (← initializerEnd) skip
    if ← is .semi then skip

/-- The end of a computed name whose brackets are open to some depth. -/
def computedNameEnd : Lower Nat := do
  let (_, stop) ← loop (0, 0) fun (depth, _) => do
    let t ← cur
    match t.kind with
    | .bracketL =>
        skip
        return .yield (depth + 1, t.stop)
    | .bracketR =>
        skip
        if depth ≤ 1 then return .done (0, t.stop) else return .yield (depth - 1, t.stop)
    | .eof => breach .computedName
    | _ =>
        skip
        return .yield (depth, t.stop)
  return stop

/-- The name of a member as a property access.  A computed name stays as it is
written. -/
def memberAccess : Lower Text := do
  let t ← cur
  match t.kind with
  | .bracketL =>
      let stop ← computedNameEnd
      return Text.slice (← program).source t.start stop
  | .string | .num | .bigInt =>
      let text ← curText
      skip
      return "[".toList ++ text ++ "]".toList
  | _ =>
      let name ← curName
      skip
      return '.' :: name

/-! ## Going through a class -/

/-- Passes the head of a class, up to the brace of its body. -/
def classHead : Lower ClassHead := do
  let t ← cur
  let id ← orBreach t.context .classContext
  skip
  let name ← if (← is .name) && !(← isType) then some <$> curName else pure none
  let hasSuperclass ← loop false fun found => do
    if ← isInContext .braceL id then return .done found
    else if ← atEnd then breach .classBody
    else
      let found := found || ((← is .kwExtends) && !(← isType))
      skip
      return .yield found
  return { isExpression := t.isExpression, name, hasSuperclass }

/-- Passes a constructor: the assignments of its parameters, and the place for
the initializers. -/
def constructorLayout : Lower (List Text × Nat) := do
  skip
  skipTypes
  let p ← program
  let open_ ← index
  let close ← orBreach (p.matching? open_) .constructorParameters
  let properties ←
    match parameterProperties p close (close - open_) (open_ + 1) with
    | .ok names => pure names
    | .error e => throw e
  skipThrough close
  skipTypes
  let bodyStart ← index
  let bodyEnd ← orBreach (p.matching? bodyStart) .constructorBody
  skipThrough bodyEnd
  return (properties.map parameterAssignment, insertionPoint p bodyStart bodyEnd)

/-- Passes a field after its name.  An initializer is lowered, and becomes an
assignment. -/
def fieldLayout (token : Lower Unit) (layout : ClassLayout) (start : Nat) (isStatic : Bool)
    (access : Text) : Lower ClassLayout := do
  let layout ←
    if ← is .eq then
      let stop ← initializerEnd
      skip
      let before := Text.size (← get).draft.out
      repeatTo stop token
      let value := Unicode.trimLeft (Text.dropBytes (← get).draft.out before)
      let assignment := access ++ " = ".toList ++ value
      pure <|
        if isStatic then { layout with statics := layout.statics ++ [assignment] }
        else
          { layout with
            initializers := layout.initializers ++ ["this".toList ++ assignment] }
    else pure layout
  return { layout with fields := layout.fields ++ [(start, ← index)] }

/-- Passes the modifiers of a member.  The result says whether it is static. -/
def skipModifiers : Lower Bool :=
  loop false fun isStatic => do
    if isModifierAt (← program) (← index) then
      let isStatic := isStatic || (← isName "static")
      skip
      return .yield isStatic
    else return .done isStatic

/-- Passes a member with a name. -/
def namedMemberLayout (token : Lower Unit) (layout : ClassLayout) : Lower ClassLayout := do
  let start ← index
  let isStatic ← skipModifiers
  if ← isName "constructor" then
    let (assignments, pos) ← constructorLayout
    return { layout with
      initializers := assignments ++ layout.initializers, insertPos := some pos }
  else if ← is .privateName then
    skipMember
    return layout
  else
    let access ← memberAccess
    skipTypes
    if ← is .parenL then
      skipMethod
      return layout
    else fieldLayout token layout start isStatic access

/-- Passes a member.  A semicolon counts as a field. -/
def memberLayout (token : Lower Unit) (layout : ClassLayout) : Lower ClassLayout := do
  if ← isType then
    skip
    return layout
  else if ← is .semi then
    let i ← index
    skip
    return { layout with fields := layout.fields ++ [(i, i + 1)] }
  else if (← isName "static") && (← program).kindAt ((← index) + 1) = .braceL then
    skip
    skipContext
    return layout
  else namedMemberLayout token layout

/-- Goes through the class here. -/
def scanClass (token : Lower Unit) : Lower ClassLayout := do
  let head ← classHead
  let id ← orBreach (← cur).context .classBraceContext
  skip
  loop { head } fun layout => do
    if ← isInContext .braceR id then return .done layout
    else if ← atEnd then breach .classEnd
    else return .yield (← memberLayout token layout)

/-- The layout of the class here.  The draft stays as it is, also if the class
cannot be gone through. -/
def classLayout (token : Lower Unit) : Lower ClassLayout := do
  let before := (← get).draft.snapshot
  try
    let layout ← scanClass token
    modify fun w => { w with draft := w.draft.restore before }
    return layout
  catch e =>
    modify fun w => { w with draft := w.draft.restore before }
    throw e

end Lower

end Downlevel
