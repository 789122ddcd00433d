import Downlevel.Character
import Downlevel.Lexer.Basic

/-!
# Punctuators
-/

namespace Downlevel.Lexer

/-- The punctuator a text starts with, and its length.  Inside a type every
`>` stands alone, so that one token closes one list of arguments. -/
def punctuator? (inType : Bool) : Text → Option (Kind × Nat)
  | '(' :: _ => some (.parenL, 1)
  | ')' :: _ => some (.parenR, 1)
  | '[' :: _ => some (.bracketL, 1)
  | ']' :: _ => some (.bracketR, 1)
  | '{' :: _ => some (.braceL, 1)
  | '}' :: _ => some (.braceR, 1)
  | ',' :: _ => some (.comma, 1)
  | ';' :: _ => some (.semi, 1)
  | ':' :: _ => some (.colon, 1)
  | '~' :: _ => some (.tilde, 1)
  | '@' :: _ => some (.at, 1)
  | '\x60' :: _ => some (.backQuote, 1)
  | '.' :: '.' :: '.' :: _ => some (.ellipsis, 3)
  | '.' :: _ => some (.dot, 1)
  | '?' :: '.' :: c :: _ =>
      -- a conditional on a number such as `.5`
      if Character.isDigit c then some (.question, 1) else some (.questionDot, 2)
  | '?' :: '.' :: _ => some (.questionDot, 2)
  | '?' :: '?' :: '=' :: _ => some (.assign, 3)
  | '?' :: '?' :: _ => some (.nullishCoalescing, 2)
  | '?' :: _ => some (.question, 1)
  | '=' :: '>' :: _ => some (.arrow, 2)
  | '=' :: '=' :: '=' :: _ => some (.equality, 3)
  | '=' :: '=' :: _ => some (.equality, 2)
  | '=' :: _ => some (.eq, 1)
  | '!' :: '=' :: '=' :: _ => some (.equality, 3)
  | '!' :: '=' :: _ => some (.equality, 2)
  | '!' :: _ => some (.bang, 1)
  | '+' :: '+' :: _ => some (.incDec, 2)
  | '+' :: '=' :: _ => some (.assign, 2)
  | '+' :: _ => some (.plusMin, 1)
  | '-' :: '-' :: _ => some (.incDec, 2)
  | '-' :: '=' :: _ => some (.assign, 2)
  | '-' :: _ => some (.plusMin, 1)
  | '*' :: '*' :: '=' :: _ => some (.assign, 3)
  | '*' :: '*' :: _ => some (.exponent, 2)
  | '*' :: '=' :: _ => some (.assign, 2)
  | '*' :: _ => some (.star, 1)
  | '/' :: '=' :: _ => some (.assign, 2)
  | '/' :: _ => some (.slash, 1)
  | '%' :: '=' :: _ => some (.assign, 2)
  | '%' :: _ => some (.modulo, 1)
  | '^' :: '=' :: _ => some (.assign, 2)
  | '^' :: _ => some (.bitXor, 1)
  | '&' :: '&' :: '=' :: _ => some (.assign, 3)
  | '&' :: '&' :: _ => some (.logicalAnd, 2)
  | '&' :: '=' :: _ => some (.assign, 2)
  | '&' :: _ => some (.bitAnd, 1)
  | '|' :: '|' :: '=' :: _ => some (.assign, 3)
  | '|' :: '|' :: _ => some (.logicalOr, 2)
  | '|' :: '=' :: _ => some (.assign, 2)
  | '|' :: _ => some (.bitOr, 1)
  | '<' :: '<' :: '=' :: _ => some (.assign, 3)
  | '<' :: '<' :: _ => some (.bitShift, 2)
  | '<' :: '=' :: _ => some (.relational, 2)
  | '<' :: _ => some (.lessThan, 1)
  | '>' :: cs => if inType then some (.greaterThan, 1) else some (greater cs)
  | _ => none
where
  /-- The operator that a `>` in front of the text belongs to. -/
  greater : Text → Kind × Nat
    | '>' :: '>' :: '=' :: _ => (.assign, 4)
    | '>' :: '>' :: _ => (.bitShift, 3)
    | '>' :: '=' :: _ => (.assign, 3)
    | '>' :: _ => (.bitShift, 2)
    | '=' :: _ => (.relational, 2)
    | _ => (.greaterThan, 1)

end Downlevel.Lexer
