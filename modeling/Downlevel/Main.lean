import Downlevel.Command

/-!
# The command line
-/

open Downlevel

/-- Why an operation on a file failed. -/
def faultOf : IO.Error → Command.FileFault
  | .noFileOrDirectory .. => .missing
  | .permissionDenied .. => .denied
  | .inappropriateType .. => .isFolder
  | e => .other e.toString.toList

/-- The content of a file, or why it cannot be read. -/
def readContent (file : Text) : IO (Except Command.FileFault Text) := do
  try
    return .ok (← IO.FS.readFile (String.ofList file)).toList
  catch e =>
    return .error (faultOf e)

/-- Writes a file.  The result is the outcome if that fails. -/
def writeContent (file content : Text) : IO (Option Command.Outcome) := do
  try
    IO.FS.writeFile (String.ofList file) (String.ofList content)
    return none
  catch e =>
    return some (.notWritten file (faultOf e))

/-- Prints what an outcome has to say. -/
def report (o : Command.Outcome) : IO UInt32 := do
  IO.print (String.ofList o.stdout)
  IO.eprint (String.ofList o.stderr)
  return o.exit.toUInt32

/-- Reads what a request needs, runs it and writes the result. -/
def perform (r : Command.Request) : IO UInt32 := do
  let content ←
    match r.file with
    | some file => readContent file
    | none => pure (.error .missing)
  let input ← if r.file.isSome then pure "" else (← IO.getStdin).readToEnd
  let outcome := Command.run r (fun _ => content) input.toList
  match outcome.written with
  | none => report outcome
  | some (file, code) => report ((← writeContent file code).getD outcome)

/-- How the command is called. -/
def usage : String :=
  "usage: [FILE] [-t LIST] [-o FILE] [--jsx-pragma P] [--jsx-fragment-pragma P] [--dev]"

/-- The command. -/
def main (arguments : List String) : IO UInt32 := do
  match Command.Request.ofArguments? (arguments.map String.toList) with
  | some r => perform r
  | none =>
      IO.eprintln usage
      return 2
