import Downlevel.Lower.Work

/-!
# Walking over brackets and types

`token` stands for lowering the next token, whatever it is.
-/

namespace Downlevel.Lower

/-- Lowers tokens up to the brace or parenthesis that closes what surrounds
them, or to the end. -/
def balanced (token : Lower Unit) : Lower Unit := do
  let _ ← loop (0, 0) fun (braces, parens) => do
    if ← atEnd then return .done (braces, parens)
    else
      match (← cur).kind with
      | .braceL | .dollarBraceL =>
          token
          return .yield (braces + 1, parens)
      | .braceR =>
          if braces = 0 then return .done (braces, parens)
          else
            token
            return .yield (braces - 1, parens)
      | .parenL =>
          token
          return .yield (braces, parens + 1)
      | .parenR =>
          if parens = 0 then return .done (braces, parens)
          else
            token
            return .yield (braces, parens - 1)
      | _ =>
          token
          return .yield (braces, parens)

/-- Removes the run of type tokens that starts here, if there is one. -/
def typeRun : Lower Bool := do
  if ← isType then
    removeInitial
    repeatWhile isType remove
    return true
  else return false

/-- The end of the parameters of an arrow function with a return type.  No line
break may stand before an arrow, so the parenthesis moves next to it. -/
def arrowParametersEnd : Lower Bool := do
  let p ← program
  let i ← index
  if p.matchesAt i [.parenR, .colon] && p.isTypeAt (i + 1) then
    let arrow := p.skipTypes (i + 1)
    if p.kindAt arrow = .arrow then
      removeInitial
      repeatTo arrow remove
      replaceTrimmed ") =>".toList
      return true
    else return false
  else return false

/-- The type parameters of an asynchronous arrow function, which leave no gap. -/
def asyncTypeParameters (token : Lower Unit) : Lower Bool := do
  let p ← program
  let i ← index
  if p.isNameAt i "async".toList && !p.isTypeAt i && p.kindAt (i + 1) = .lessThan
      && p.isTypeAt (i + 1) then
    let open_ := p.skipTypes (i + 1)
    if p.kindAt open_ = .parenL then
      replace "async (".toList
      removeInitial
      repeatTo open_ remove
      remove
      -- the opening parenthesis is gone, so the closing one is up to this walk
      balanced token
      token
      return true
    else return false
  else return false

end Downlevel.Lower
