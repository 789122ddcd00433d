import Downlevel.Lower.Work

/-!
# Number literals and catch clauses
-/

namespace Downlevel.Lower

/-- Removes the separators of a number literal. -/
def numericSeparators : Lower Bool := do
  if (← is .num) || (← is .bigInt) then
    let t ← curText
    if t.contains '_' then
      replace (t.filter (· != '_'))
      return true
    else return false
  else return false

/-- Gives a catch clause that binds nothing a name to bind. -/
def catchBinding : Lower Bool := do
  if ← comes [.kwCatch, .braceL] then
    copy
    let name ← claim "e"
    append (" (".toList ++ name ++ ")".toList)
    return true
  else return false

end Downlevel.Lower
