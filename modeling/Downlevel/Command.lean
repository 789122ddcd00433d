import Downlevel.Command.Folder
import Downlevel.Command.Typing
import Downlevel.Lower.Transform

/-!
# The command

The command transforms one file, or, without a file, each line of its input.
What it does to the world is described by an `Outcome`, so that this module does
no input or output itself.
-/

namespace Downlevel

namespace Command

/-! ## Arguments -/

/-- What the command is asked to do. -/
structure Request where
  file : Option Text := none
  transforms : Text := "jsx".toList
  output : Option Text := none
  jsxPragma : Text := "React.createElement".toList
  jsxFragmentPragma : Text := "React.Fragment".toList
  /-- Should elements tell where they come from? -/
  dev : Bool := false
  deriving Repr, DecidableEq, Inhabited

/-- A request with the value of an option. -/
def Request.withOption? (r : Request) (option value : Text) : Option Request :=
  if option = "-t".toList || option = "--transforms".toList then
    some { r with transforms := value }
  else if option = "-o".toList || option = "--output".toList then
    some { r with output := some value }
  else if option = "--jsx-pragma".toList then some { r with jsxPragma := value }
  else if option = "--jsx-fragment-pragma".toList then
    some { r with jsxFragmentPragma := value }
  else none

/-- A request with one more file.  There can be only one. -/
def Request.withFile? (r : Request) (file : Text) : Option Request :=
  if r.file.isSome then none else some { r with file := some file }

/-- Is the argument an option?  A single dash is the name of a file. -/
def isOption (a : Text) : Bool :=
  a.head? == some '-' && 2 ≤ a.length

/-- A request with the arguments that are left. -/
def Request.withArguments? (r : Request) : List Text → Option Request
  | [] => some r
  | [a] =>
      if a = "--dev".toList then some { r with dev := true }
      else if isOption a then none
      else r.withFile? a
  | a :: b :: rest =>
      if a = "--dev".toList then withArguments? { r with dev := true } (b :: rest)
      else if isOption a then
        match r.withOption? a b with
        | some r => r.withArguments? rest
        | none => none
      else
        match r.withFile? a with
        | some r => r.withArguments? (b :: rest)
        | none => none

/-- The request that arguments make, if they are well formed. -/
def Request.ofArguments? (arguments : List Text) : Option Request :=
  Request.withArguments? {} arguments

/-- The options of a request.  Elements can tell where they come from only in a
file. -/
def Request.options (r : Request) : Except Error Options := do
  return {
    transforms := ← Transform.ofList r.transforms
    filePath := if r.dev then r.file else none
    jsxPragma := r.jsxPragma
    jsxFragmentPragma := r.jsxFragmentPragma }

/-! ## Outcomes -/

/-- What the command does. -/
structure Outcome where
  exit : Nat := 0
  stdout : Text := []
  stderr : Text := []
  /-- The file to write, with its name. -/
  written : Option (Text × Text) := none
  deriving Repr, DecidableEq, Inhabited

/-- An outcome that is only a complaint. -/
def Outcome.failure (complaint : Text) : Outcome :=
  { exit := 1, stderr := complaint ++ ['\n'] }

/-- The outcome if a file cannot be read. -/
def Outcome.notRead (file : Text) (fault : FileFault) : Outcome :=
  .failure ("Error reading ".toList ++ file ++ ": ".toList ++ fault.message)

/-- The outcome if a file cannot be written. -/
def Outcome.notWritten (file : Text) (fault : FileFault) : Outcome :=
  .failure ("Error writing ".toList ++ file ++ ": ".toList ++ fault.message)

/-! ## Transforming a file -/

/-- Transforms a file, whose content may be unreadable. -/
def transformFile (file : Text) (content : Except FileFault Text) (output : Option Text)
    (o : Options) : Outcome :=
  match content with
  | .error fault => .notRead file fault
  | .ok source =>
      match transform source o with
      | .error e => .failure (file ++ ": ".toList ++ e.message.toList)
      | .ok code =>
          match output with
          | some target => { written := some (target, code) }
          | none => { stdout := code }

/-! ## Transforming lines -/

/-- What is written before the first line. -/
def banner : Text :=
  "jstrip 0.1.0\nType code to transform, Ctrl+D to exit.\n\n".toList

/-- What is written for a line. -/
def lineAnswer (o : Options) (line : Text) : Text :=
  let source := Unicode.trim (applyBackspaces line)
  if source.isEmpty then []
  else
    match transform source o with
    | .ok code => code ++ ['\n']
    | .error e => "Error: ".toList ++ e.message.toList ++ ['\n']

/-- Transforms each line of the input. -/
def transformLines (input : Text) (o : Options) : Outcome :=
  { stdout := banner ++ ((Text.split '\n' input).map (lineAnswer o)).flatten }

/-! ## The whole command -/

/-- Does what a request asks for.  `contents` gives the content of a file, or why
it cannot be read. -/
def run (r : Request) (contents : Text → Except FileFault Text) (input : Text) : Outcome :=
  match r.options with
  | .error e => .failure ("Error: ".toList ++ e.message.toList)
  | .ok o =>
      match r.file with
      | some file => transformFile file (contents file) r.output o
      | none => transformLines input o

/-- Does what a request asks for in a folder.  The second part of the result is the
folder afterwards. -/
def runIn (f : Folder) (r : Request) (input : Text) : Outcome × Folder :=
  let outcome := run r f.read input
  match outcome.written with
  | none => (outcome, f)
  | some (file, code) =>
      match f.write file code with
      | .ok after => (outcome, after)
      | .error fault => (.notWritten file fault, f)

end Command

end Downlevel
