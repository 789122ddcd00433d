import Downlevel.Edit.Draft
import Downlevel.Iteration
import Downlevel.Linkage.Bindings

/-!
# Lowering

Lowering goes through a program once and writes a draft without the enabled
extensions.  Besides the draft it keeps the names it has taken and the code
that goes in front of the program.
-/

namespace Downlevel

/-- What stays the same while a program is lowered. -/
structure Plan where
  program : Program
  options : Options := {}
  /-- How imported names are reached, if imports are lowered. -/
  bindings : Option Linkage.Bindings := none
  /-- The variable that holds the name of the file, if elements refer to it. -/
  fileNameVariable : Option Text := none
  /-- The values that the program declares, if names may be types. -/
  declared : Option (List Text) := none
  deriving Repr, Inhabited

/-- What changes while a program is lowered. -/
structure Work where
  draft : Draft := {}
  names : Names
  /-- The paths whose loading is written. -/
  loaded : List Text := []
  /-- Exports that are written in front of the program. -/
  hoisted : List Text := []
  /-- Variables that are declared in front of the program. -/
  generated : List Text := []
  deriving Repr, DecidableEq, Inhabited

/-- A step of lowering. -/
abbrev Lower := ReaderT Plan (EStateM Error Work)

namespace Lower

/-! ## Working on the draft -/

/-- Edits the draft. -/
def edit {α : Type} (e : Edit α) : Lower α :=
  fun plan work =>
    match e plan.program work.draft with
    | .ok a draft => .ok a { work with draft }
    | .error err draft => .error err { work with draft }

/-- Writes a text. -/
def append (t : Text) : Lower Unit := edit (Edit.append t)

/-- Passes the next token and writes nothing. -/
def skip : Lower Unit := edit Edit.skip

/-- Copies the next token. -/
def copy : Lower Unit := edit Edit.copy

/-- Copies the next token, which must be of this kind. -/
def copyExpected (kind : Kind) : Lower Unit := edit (Edit.copyExpected kind)

/-- Writes a text for the next token. -/
def replace (t : Text) : Lower Unit := edit (Edit.replace t)

/-- Writes a text for the next token, of the gap only the line breaks. -/
def replaceTrimmed (t : Text) : Lower Unit := edit (Edit.replaceTrimmed t)

/-- Drops the next token. -/
def remove : Lower Unit := edit Edit.remove

/-- Drops the next token and keeps the gap before it. -/
def removeInitial : Lower Unit := edit Edit.removeInitial

/-! ## Looking at the program -/

/-- The program. -/
def program : Lower Program :=
  return (← read).program

/-- The index of the next token. -/
def index : Lower Nat :=
  return (← get).draft.index

/-- Are all tokens passed? -/
def atEnd : Lower Bool := edit Edit.atEnd

/-- The next token. -/
def cur : Lower Token := edit Edit.cur

/-- The text of the next token. -/
def curText : Lower Text := edit Edit.curText

/-- The identifier that the next token spells. -/
def curName : Lower Text :=
  return (← read).program.nameAt (← index)

/-- Is the next token of this kind? -/
def is (kind : Kind) : Lower Bool :=
  return (← cur).kind = kind

/-- Are the next tokens of these kinds? -/
def comes (kinds : List Kind) : Lower Bool :=
  return (← read).program.matchesAt (← index) kinds

/-- Is the next token a name written like this? -/
def isName (word : String) : Lower Bool :=
  return (← read).program.isNameAt (← index) word.toList

/-- Does the next token belong to a type? -/
def isType : Lower Bool :=
  return (← cur).isType

/-- Is the next token of this kind and in this context? -/
def isInContext (kind : Kind) (id : Nat) : Lower Bool := do
  let t ← cur
  return t.kind = kind && t.context = some id

/-! ## Failing and repeating -/

/-- Fails because an assumption does not hold. -/
def breach {α : Type} (b : Breach) : Lower α :=
  throw (.invariant b)

/-- The value, without which an assumption does not hold. -/
def orBreach {α : Type} (o : Option α) (b : Breach) : Lower α :=
  match o with
  | some a => pure a
  | none => breach b

/-- Runs a step until it is done.  Each time but the last it passes a token, so
that the number of tokens bounds the number of times. -/
def loop {σ : Type} (s : σ) (step : σ → Lower (ForInStep σ)) : Lower σ := do
  iterate (breach .noProgress) step ((← read).program.count + 2) s

/-- Runs a step as long as a condition holds. -/
def repeatWhile (condition : Lower Bool) (body : Lower Unit) : Lower Unit :=
  loop () fun _ => do
    if ← condition then
      body
      return .yield ()
    else return .done ()

/-- Runs a step until the next token has this index. -/
def repeatTo (stop : Nat) (body : Lower Unit) : Lower Unit :=
  repeatWhile (return (← index) < stop) body

/-! ## Names -/

/-- Takes a free name. -/
def claim (base : String) : Lower Text := do
  let (name, names) := (← get).names.claim base.toList
  modify fun w => { w with names }
  return name

/-- How imported names are reached. -/
def bindings : Lower Linkage.Bindings := do
  orBreach (← read).bindings .noBindings

/-- The expression of an imported name, if imports are lowered. -/
def replacement? (name : Text) : Lower (Option Text) :=
  return (← read).bindings.bind (·.replacement? name)

end Lower

end Downlevel
