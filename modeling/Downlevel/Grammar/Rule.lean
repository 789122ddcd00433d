import Downlevel.Grammar.Parser

/-!
# Rules of the grammar

The rules through which the grammar refers to itself.  Every other part of it
is a plain definition over a `Reference`, which runs a rule.
-/

namespace Downlevel.Grammar

/-- A recursive rule. -/
inductive Rule where
  | statement
  /-- An assignment expression; `noIn` leaves a bare `in` to the surrounding `for`. -/
  | assignment (noIn : Bool)
  /-- An operand with the operators in front of it. -/
  | unary
  /-- A `new` expression. -/
  | newExpression
  /-- What a declaration binds: a name or a pattern. -/
  | binding (role : Role)
  /-- A type; without `conditional` an `extends` after it is left alone. -/
  | type (conditional : Bool)
  /-- A type without union and intersection at its top. -/
  | typeOperand
  /-- An element, and the mode in which the token after it is read. -/
  | element (after : Lexer.Mode)
  deriving Repr, DecidableEq, Inhabited

/-- How a part of the grammar runs a rule. -/
abbrev Reference := Rule → Parser Unit

/-- One or more assignment expressions with commas between them. -/
def expression (call : Reference) (noIn : Bool) : Parser Unit := do
  call (.assignment noIn)
  Parser.repeatWhile (Parser.eat .comma) (call (.assignment noIn))

end Downlevel.Grammar
