import Downlevel.Character
import Downlevel.Lexer.Basic

/-!
# Tokens of elements

Inside a tag there are names, attribute strings and a few marks.  Between tags
there is text up to the next tag or brace.
-/

namespace Downlevel.Lexer

open Character

/-- The mark a tag can hold that is written with this character. -/
def tagMark? : Char → Option Kind
  | '>' => some .jsxTagEnd
  | '<' => some .jsxTagStart
  | '/' => some .slash
  | '=' => some .eq
  | ':' => some .colon
  | '.' => some .dot
  | '{' => some .braceL
  | _ => none

/-- Reads the token of a tag that starts at `pos`.  An attribute string has no
escapes and may span lines. -/
def tagToken (pos : Nat) : Text → Outcome Kind
  | [] => .ok .eof pos
  | c :: cs =>
      match tagMark? c with
      | some kind => .ok kind (pos + 1)
      | none =>
          if c == '\x22' || c == '\x27' then
            match Text.cut c cs with
            | (value, some _) => .ok .string (pos + 1 + Text.size value + 1)
            | (_, none) => fail .unterminatedString pos (pos + 1)
          else if isIdStart c then
            .ok .jsxName
              (pos + Text.size ((c :: cs).takeWhile fun d => d == '-' || isIdContinue d))
          else fail (.unexpectedTagCharacter c) pos pos

/-- Reads the token between tags that starts at `pos`. -/
def childToken (pos : Nat) : Text → Outcome Kind
  | [] => .ok .eof pos
  | '<' :: _ => .ok .jsxTagStart (pos + 1)
  | '{' :: _ => .ok .braceL (pos + 1)
  | cs => .ok .jsxText (pos + Text.size (cs.takeWhile fun d => d != '<' && d != '{'))

end Downlevel.Lexer
