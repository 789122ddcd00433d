import Downlevel.Grammar.State

/-!
# Parsers

A parser moves through the tokens of a source and annotates them.  It yields
no tree; what it finds out is on the tokens it has finished.
-/

namespace Downlevel.Grammar

/-- A step of a parse. -/
abbrev Parser := ReaderT Setting (EStateM Error State)

namespace Parser

/-! ## Reading tokens -/

/-- Scans the source at the current offset. -/
def scan {α : Type} (s : Lexer.Scan α) : Parser α :=
  fun setting st =>
    match s setting.source st.pos with
    | .ok a pos => .ok a { st with pos }
    | .error failure pos => .error (failure.toError setting.source) { st with pos }

/-- Scans the source at the current offset and comes back to it. -/
def glance {α : Type} (s : Lexer.Scan α) : Parser α :=
  fun setting st =>
    match s setting.source st.pos with
    | .ok a _ => .ok a st
    | .error failure _ => .error (failure.toError setting.source) st

/-- Finishes the token ahead and reads the next one in a mode. -/
def nextIn (mode : Lexer.Mode) : Parser Unit := do
  let token ← scan (Lexer.read mode (← get).isType)
  modify fun st =>
    { st with
      tokens := st.tokens.push
        { st.cur with isType := st.cur.isType || st.isType, depth := st.depth }
      cur := token }

/-- Finishes the token ahead and reads the next one. -/
def next : Parser Unit :=
  nextIn .normal

/-- Reads the token ahead again, as a regular expression. -/
def rereadRegex : Parser Unit := do
  let st ← get
  let token ← scan (Lexer.regex st.cur.start)
  modify fun st => { st with cur := { token with newlineBefore := st.cur.newlineBefore } }

/-- The token after the one ahead. -/
def peek : Parser Token := do
  glance (Lexer.next (← get).isType)

/-- Is the token after the one ahead of this kind? -/
def peekIs (kind : Kind) : Parser Bool :=
  return (← peek).kind = kind

/-! ## Looking at the token ahead -/

/-- The token ahead. -/
def cur : Parser Token :=
  return (← get).cur

/-- The text of a token. -/
def textOf (t : Token) : Parser Text :=
  return t.text (← read).source

/-- Is the token ahead of this kind? -/
def is (kind : Kind) : Parser Bool :=
  return (← get).cur.kind = kind

/-- Is the token ahead of one of these kinds? -/
def isOneOf (kinds : List Kind) : Parser Bool :=
  return kinds.contains (← get).cur.kind

/-- Is the token ahead a name written like this? -/
def isName (word : String) : Parser Bool := do
  let t ← cur
  return t.kind = .name && (← textOf t) = word.toList

/-- Is the token ahead a name written like one of these? -/
def isNameOf (words : List String) : Parser Bool := do
  let t ← cur
  return t.kind = .name && words.contains (String.ofList (← textOf t))

/-- Does a line terminator stand before the token ahead? -/
def afterNewline : Parser Bool :=
  return (← get).cur.newlineBefore

/-- Can the source have types in it? -/
def hasTypes : Parser Bool :=
  return (← read).hasTypes

/-- Is the source written in TypeScript? -/
def typescript : Parser Bool :=
  return (← read).typescript

/-- Is the source written in Flow? -/
def flow : Parser Bool :=
  return (← read).flow

/-! ## Failing -/

/-- Fails at an offset. -/
def faultAt {α : Type} (f : Fault) (offset : Nat) : Parser α := do
  throw (Failure.toError (← read).source { fault := f, offset })

/-- Fails at the token ahead. -/
def fault {α : Type} (f : Fault) : Parser α := do
  faultAt f (← get).cur.start

/-- Fails because the token ahead cannot stand here. -/
def unexpected {α : Type} : Parser α := do
  let t ← cur
  if t.kind = .eof then fault .unexpectedEnd else fault (.unexpectedToken (← textOf t))

/-! ## Moving on -/

/-- Finishes the token ahead if it is of this kind. -/
def eat (kind : Kind) : Parser Bool := do
  if ← is kind then
    next
    return true
  else return false

/-- Finishes the token ahead, which must be of this kind, and reads on in a mode. -/
def expectIn (kind : Kind) (mode : Lexer.Mode) : Parser Unit := do
  if ← is kind then nextIn mode else fault (.expectedKind kind)

/-- Finishes the token ahead, which must be of this kind. -/
def expect (kind : Kind) : Parser Unit :=
  expectIn kind .normal

/-- Changes the token ahead. -/
def modifyCur (f : Token → Token) : Parser Unit :=
  modify fun st => { st with cur := f st.cur }

/-- Changes the finished token of an index. -/
def modifyToken (index : Nat) (f : Token → Token) : Parser Unit :=
  modify fun st => { st with tokens := st.tokens.modify index f }

/-- Changes every finished token from an index on. -/
def modifyFrom (start : Nat) (f : Token → Token) : Parser Unit :=
  modify fun st =>
    { st with tokens := st.tokens.mapIdx fun i t => if start ≤ i then f t else t }

/-- The number of finished tokens. -/
def tokenCount : Parser Nat :=
  return (← get).tokens.size

/-- Finishes an identifier used in a role. -/
def identifier (role : Role) : Parser Unit := do
  if ← is .name then
    modifyCur fun t => { t with role := some role }
    next
  else unexpected

/-- May a statement end here without a semicolon? -/
def canEndStatement : Parser Bool := do
  let t ← cur
  return t.kind = .eof || t.kind = .braceR || t.newlineBefore

/-- Finishes the end of a statement, which may be a semicolon. -/
def semicolon : Parser Unit := do
  if ← eat .semi then return
  else if ← canEndStatement then return
  else unexpected

/-! ## Scopes and contexts -/

/-- Goes one function or class body deeper. -/
def enterScope : Parser Unit :=
  modify fun st => { st with depth := st.depth + 1 }

/-- Leaves a function or class body. -/
def leaveScope : Parser Unit := do
  match (← get).depth with
  | 0 => throw (.invariant .scopeUnderflow)
  | depth + 1 => modify fun st => { st with depth }

/-- A context number that was not given out before. -/
def freshContext : Parser Nat := do
  let id := (← get).nextContext
  modify fun st => { st with nextContext := id + 1 }
  return id

/-- Opens a context. -/
def pushContext : Parser Nat := do
  let id ← freshContext
  modify fun st => { st with contexts := id :: st.contexts }
  return id

/-- Closes the innermost context. -/
def popContext : Parser (Option Nat) := do
  match (← get).contexts with
  | [] => return none
  | id :: rest =>
      modify fun st => { st with contexts := rest }
      return some id

/-- Puts the token ahead into a context. -/
def stamp (id : Nat) : Parser Unit :=
  modifyCur fun t => { t with context := some id }

/-- Finishes an opening token, which starts a context. -/
def openContext (kind : Kind) : Parser Nat := do
  if ← is kind then
    let id ← pushContext
    stamp id
    next
    return id
  else fault (.expectedKind kind)

/-- Finishes a closing token, which ends the innermost context. -/
def closeContext (kind : Kind) : Parser Unit := do
  if ← is kind then
    match ← popContext with
    | none => throw (.invariant .contextUnderflow)
    | some id =>
        stamp id
        next
  else fault (.expectedKind kind)

/-! ## Speculation and types -/

/-- A snapshot of the current state. -/
def snapshot : Parser Snapshot :=
  return (← get).snapshot

/-- Comes back to a snapshot. -/
def restore (p : Snapshot) : Parser Unit :=
  modify fun st => st.restore p

/-- Runs a parser, and takes everything back if it fails.  The result says
whether it went through. -/
def attempt (p : Parser Unit) : Parser Bool := do
  let before ← snapshot
  try
    p
    return true
  catch e =>
    if e.isFatal then throw e
    else
      restore before
      return false

/-- Runs a parser and takes everything back if it goes through. -/
def lookahead {α : Type} (p : Parser α) : Parser α := do
  let before ← snapshot
  let a ← p
  restore before
  return a

/-- Runs a parser whose tokens all belong to a type. -/
def inType {α : Type} (p : Parser α) : Parser α :=
  fun setting st =>
    match p setting { st with isType := true } with
    | .ok a st' => .ok a { st' with isType := st.isType }
    | .error e st' => .error e { st' with isType := st.isType }

/-- Makes every finished token from an index on part of a type. -/
def markTypesFrom (start : Nat) : Parser Unit :=
  modifyFrom start fun t => { t with isType := true }

/-! ## Repetition -/

/-- Fails because nothing is left to be done that has not been done before. -/
def stalled {α : Type} : Parser α :=
  throw (.invariant .noProgress)

/-- The rounds of a loop.  A round that is not the last one has to leave less of
the source than there was. -/
def rounds {σ : Type} (step : σ → Parser (ForInStep σ)) (s : σ) (c : Setting) (st : State) :
    EStateM.Result Error State σ :=
  match step s c st with
  | .error e st' => .error e st'
  | .ok (.done s') st' => .ok s' st'
  | .ok (.yield s') st' =>
      if c.remaining st' < c.remaining st then rounds step s' c st' else stalled c st'
termination_by c.remaining st

/-- Runs a step until it is done. -/
def loop {σ : Type} (s : σ) (step : σ → Parser (ForInStep σ)) : Parser σ :=
  rounds step s

/-- Runs a parser as long as a condition holds. -/
def repeatWhile (condition : Parser Bool) (body : Parser Unit) : Parser Unit :=
  loop () fun _ => do
    if ← condition then
      body
      return .yield ()
    else return .done ()

/-- Runs a parser until the token ahead is of this kind. -/
def repeatUntil (kind : Kind) (body : Parser Unit) : Parser Unit :=
  repeatWhile (return !(← is kind)) body

/-- Finishes the comma between two items of a list that ends with `close`. -/
def separator (close : Kind) : Parser Unit := do
  if !(← is close) then expect .comma

/-- Items with commas between them, up to `close`. -/
def commaList (close : Kind) (item : Parser Unit) : Parser Unit :=
  repeatUntil close do
    item
    separator close

end Parser

end Downlevel.Grammar
