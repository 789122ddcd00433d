import Downlevel.Proofs.Grammar.Progress.Parts
import Downlevel.Proofs.Text.Line

/-!
# A parse that fails blames the source

Errors are raised at the start of the token ahead, at the offset of the scan and
at places that were remembered.  All of these stand between characters, so that
every error of a parse has a line and a column, and no error speaks of an
assumption that did not hold.
-/

namespace Downlevel.Grammar

/-- **Every error of a parse is a located fault of the source.**  Its offset lies
between characters of the source, and its message ends with the line and the
column of that offset, both counted in bytes, before the offset itself. -/
theorem message_of_parse_error {source : Text} {o : Options} {e : Error}
    (h : parse source o = .error e) :
    ∃ fault pos, e = .source fault (Text.locate source pos) ∧ e.offset? = some pos
      ∧ Text.IsBoundary source pos ∧ pos ≤ Text.size source
      ∧ e.message = Error.withOffset (fault.message ++ " (" ++ toString (Text.byteLine source pos)
          ++ ":" ++ toString (Text.byteColumn source pos) ++ ")") pos := by
  obtain ⟨failure, rfl, hboundary⟩ := located_of_parse h
  have hplace := Text.lineAndColumn_of_isBoundary hboundary
  have hline : (Text.locate source failure.offset).line = Text.byteLine source failure.offset :=
    congrArg Prod.fst hplace
  have hcolumn :
      (Text.locate source failure.offset).column = Text.byteColumn source failure.offset :=
    congrArg Prod.snd hplace
  refine ⟨failure.fault, failure.offset, rfl, rfl, hboundary, hboundary.le, ?_⟩
  rw [← hline, ← hcolumn]
  rfl

/-- A parenthesis that is not open, in the second line. -/
def strayParenSource : Text :=
  "a\n)".toList

theorem message_strayParenSource :
    ∃ e, parse strayParenSource {} = .error e ∧
      ∃ fault pos, e = .source fault (Text.locate strayParenSource pos) ∧ e.offset? = some pos
        ∧ Text.IsBoundary strayParenSource pos ∧ pos ≤ Text.size strayParenSource
        ∧ e.message = Error.withOffset (fault.message ++ " ("
          ++ toString (Text.byteLine strayParenSource pos) ++ ":"
          ++ toString (Text.byteColumn strayParenSource pos) ++ ")") pos := by
  have hfails : (parse strayParenSource {}).toOption.isNone = true := by decide +kernel
  cases h : parse strayParenSource {} with
  | ok tokens =>
    rw [h] at hfails
    cases hfails
  | error e => exact ⟨e, rfl, message_of_parse_error h⟩

end Downlevel.Grammar
