import Downlevel.Lower.ClassLayout

/-!
# Classes

Fields of a class become assignments: those of instances in the constructor,
static ones after the class.
-/

namespace Downlevel.Lower

/-- The constructor of a class that has none of its own. -/
def constructorCode (hasSuperclass : Bool) (initializers : Text) : Lower Text := do
  if hasSuperclass then
    let arguments ← claim "args"
    return "constructor(...".toList ++ arguments ++ ") \x7b super(...".toList ++ arguments
      ++ "); ".toList ++ initializers ++ "; \x7d".toList
  else return "constructor() \x7b ".toList ++ initializers ++ "; \x7d".toList

/-- The members of a class.  Fields are taken out, and initializers go into the
constructor. -/
def classMembers (token : Lower Unit) (layout : ClassLayout) (initializers : Text) (id : Nat) :
    Lower Unit := do
  let _ ← loop layout.fields fun fields => do
    if ← isInContext .braceR id then return .done fields
    else if ← atEnd then breach .classEnd
    else
      let i ← index
      match fields with
      | (start, stop) :: rest =>
          if start = i then
            removeInitial
            repeatTo stop remove
            return .yield rest
          else
            member i
            return .yield fields
      | [] =>
          member i
          return .yield fields
where
  /-- Writes the token of an index, and the initializers if they go after it. -/
  member (i : Nat) : Lower Unit := do
    if layout.insertPos = some i then
      copy
      if !layout.initializers.isEmpty then
        append (";".toList ++ initializers ++ ";".toList)
    else token

/-- The body of a class. -/
def classBody (token : Lower Unit) (layout : ClassLayout) (id : Nat) : Lower Unit := do
  copyExpected .braceL
  let initializers := Text.join ";".toList layout.initializers
  if layout.insertPos.isNone && !layout.initializers.isEmpty then
    append (← constructorCode layout.head.hasSuperclass initializers)
  classMembers token layout initializers id
  copyExpected .braceR

/-- The assignments of static fields after a class.  After an expression they are
part of it. -/
def staticsCode (name : Text) (isExpression : Bool) (statics : List Text) : Text :=
  let assignments := statics.map (name ++ ·)
  if isExpression then
    ", ".toList ++ (assignments.map (· ++ ", ".toList)).flatten ++ name ++ ")".toList
  else " ".toList ++ Text.join " ".toList (assignments.map (· ++ ";".toList))

/-- The name by which the static fields of a class are assigned.  A class
expression is put into a variable for that. -/
def staticsName (layout : ClassLayout) : Lower (Option Text) := do
  if layout.head.isExpression && !layout.statics.isEmpty then
    let name ← claim "_class"
    modify fun w => { w with generated := w.generated ++ [name] }
    append (" (".toList ++ name ++ " =".toList)
    return some name
  else return layout.head.name

/-- Lowers the class here. -/
def classRule (token : Lower Unit) : Lower Unit := do
  let layout ← classLayout token
  let name ← staticsName layout
  let id ← orBreach (← cur).context .classContext
  copyExpected .kwClass
  repeatWhile (return !(← isInContext .braceL id)) do
    if ← atEnd then breach .classBody else token
  classBody token layout id
  if !layout.statics.isEmpty then
    let name ← orBreach name .className
    append (staticsCode name layout.head.isExpression layout.statics)

end Downlevel.Lower
