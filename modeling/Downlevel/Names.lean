import Downlevel.Token.Basic

/-!
# Fresh names

A generated name must differ from every identifier of the program and from
every name generated before.
-/

namespace Downlevel

/-- The names that are taken. -/
structure Names where
  used : List Text
  deriving Repr, DecidableEq, Inhabited

namespace Names

/-- The names that the tokens of a program take. -/
def ofTokens (source : Text) (tokens : List Token) : Names :=
  { used := (tokens.filter fun t => t.kind = .name || t.kind = .jsxName).map (Token.text source) }

/-- Is the name free? -/
def isFree (n : Names) (name : Text) : Bool :=
  !n.used.contains name

/-- The base with a number after it. -/
def numbered (base : Text) (k : Nat) : Text :=
  base ++ Text.ofNat k

/-- The base if it is free, and otherwise the base with the least number from two
on that makes it free.  Of one number more than there are names, one is free. -/
def findFree (n : Names) (base : Text) : Text :=
  if n.isFree base then base
  else
    match (List.range' 2 (n.used.length + 1)).find? fun k => n.isFree (numbered base k) with
    | some k => numbered base k
    | none => base

/-- Takes a free name. -/
def claim (n : Names) (base : Text) : Text × Names :=
  let name := n.findFree base
  (name, { used := name :: n.used })

end Names

end Downlevel
