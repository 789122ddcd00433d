import Downlevel.Unicode.Cluster

/-!
# Typing

A line that is typed can hold backspaces, each of which takes back the cluster
before it.
-/

namespace Downlevel

namespace Command

/-- What has been typed. -/
structure Typed where
  /-- The characters, the last one first. -/
  characters : Text := []
  /-- The sizes of the clusters that can be taken back, the last one first. -/
  sizes : List Nat := []
  deriving Repr, DecidableEq, Inhabited

namespace Typed

/-- The character that takes back a cluster. -/
def backspace : Char := '\x08'

/-- Sizes of clusters are kept modulo this number, as they are kept in one byte. -/
def sizeLimit : Nat := 256

/-- Types one more cluster. -/
def add (t : Typed) (cluster : Text) : Typed :=
  { characters := cluster.reverseAux t.characters
    sizes := (Text.size cluster % sizeLimit) :: t.sizes }

/-- Takes back the last cluster, if there is one. -/
def erase (t : Typed) : Typed :=
  match t.sizes with
  | [] => t
  | n :: sizes => { characters := Text.dropBytes t.characters n, sizes }

/-- What has been typed after one more cluster of the line. -/
def step (t : Typed) (cluster : Text) : Typed :=
  if cluster = [backspace] then t.erase else t.add cluster

/-- The text that has been typed. -/
def text (t : Typed) : Text :=
  t.characters.reverse

end Typed

/-- A line after the backspaces in it have taken effect. -/
def applyBackspaces (line : Text) : Text :=
  ((Unicode.clusters line).foldl Typed.step {}).text

end Command

end Downlevel
