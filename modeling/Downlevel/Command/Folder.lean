import Downlevel.Text.Basic

/-!
# Folders

A folder of files, each of them reached by a path.  A path is a list of names
with slashes between them.  An empty name and a single dot stay where they are.
-/

namespace Downlevel

namespace Command

/-! ## Faults -/

/-- Why a file cannot be read or written. -/
inductive FileFault where
  | missing
  /-- The path goes on after a file. -/
  | notFolder
  /-- The path leads to a folder. -/
  | isFolder
  | denied
  | other (reason : Text)
  deriving Repr, DecidableEq, Inhabited

/-- How a fault is reported. -/
def FileFault.message : FileFault → Text
  | .missing => "No such file or directory (os error 2)".toList
  | .notFolder => "Not a directory (os error 20)".toList
  | .isFolder => "Is a directory (os error 21)".toList
  | .denied => "Permission denied (os error 13)".toList
  | .other reason => reason

/-! ## Paths -/

/-- Where a path leads. -/
structure Location where
  /-- The names on the way, the last one being the file. -/
  names : List Text
  /-- Can the path lead to a folder only? -/
  folderOnly : Bool
  deriving Repr, DecidableEq, Inhabited

/-- Does a name on a path stay where it is? -/
def staysPut (name : Text) : Bool :=
  name.isEmpty || name = ['.']

/-- The location of a path.  The empty path leads nowhere, and one that starts with
a slash leads out of the folder. -/
def Location.ofPath? (path : Text) : Option Location :=
  if path.isEmpty || path.head? = some '/' then none
  else
    let names := Text.split '/' path
    some {
      names := names.filter (fun name => !staysPut name)
      folderOnly := (names.getLast?.map staysPut).getD false }

/-! ## Files in a folder -/

/-- The files below a folder, each with the names that lead to it. -/
structure Folder where
  files : List (List Text × Text) := []
  deriving Repr, DecidableEq, Inhabited

namespace Folder

/-- A folder with one more file. -/
def insert (f : Folder) (names : List Text) (content : Text) : Folder :=
  { files := (names, content) :: f.files }

/-- The folder of files that are given by their paths. -/
def ofFiles (files : List (Text × Text)) : Folder :=
  { files := files.filterMap fun (path, content) =>
      (Location.ofPath? path).map fun l => (l.names, content) }

/-- Do the names lead to the folder itself or to a folder in it? -/
def hasFolder (f : Folder) (names : List Text) : Bool :=
  names.isEmpty || f.files.any fun (file, _) => names.isPrefixOf file && names ≠ file

/-- Is there a file before the end of the names? -/
def isBlocked (f : Folder) (names : List Text) : Bool :=
  f.files.any fun (file, _) => file.isPrefixOf names && file ≠ names

/-- The content of the file that a path leads to, or why it cannot be read. -/
def read (f : Folder) (path : Text) : Except FileFault Text :=
  match Location.ofPath? path with
  | none => .error .missing
  | some l =>
      match f.files.lookup l.names with
      | some content => if l.folderOnly then .error .notFolder else .ok content
      | none =>
          if f.hasFolder l.names then .error .isFolder
          else if f.isBlocked l.names then .error .notFolder
          else .error .missing

/-- The folder after the file that a path leads to has been written, or why it
cannot be written. -/
def write (f : Folder) (path content : Text) : Except FileFault Folder :=
  match Location.ofPath? path with
  | none => .error .missing
  | some l =>
      if f.hasFolder l.names then .error .isFolder
      else if f.isBlocked l.names then .error .notFolder
      else if !f.hasFolder l.names.dropLast then .error .missing
      else if l.folderOnly then
        .error (if (f.files.lookup l.names).isSome then .notFolder else .isFolder)
      else .ok (f.insert l.names content)

end Folder

end Command

end Downlevel
