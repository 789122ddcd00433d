import Downlevel.Proofs.Lexer.Failure

/-!
# The kinds of tokens each way of reading gives

Names, text and angle brackets of elements are only read inside tags and between them
(`isMarkup_of_read`).
-/

namespace Downlevel

namespace Lexer

variable {source : Text} {pos stop : Nat} {inType : Bool}

/-- Ordinary code has no tokens of elements. -/
theorem isMarkup_of_read {mode : Mode} {t : Token} (htag : mode ≠ .tag) (hchild : mode ≠ .child)
    (h : read mode inType source pos = .ok t stop) : t.kind.isMarkup = false := by
  cases mode with
  | normal =>
    obtain ⟨cs, rest, -, -, hread, -⟩ := exists_of_afterGap h
    obtain ⟨_, _, -, -, hlexeme⟩ := exists_of_codeToken hread
    exact hlexeme.isMarkup
  | templateChunk =>
    obtain ⟨cs, -, hread, -⟩ := exists_of_atOffset h
    unfold templateChunk at hread
    split at hread
    · cases hread
    · rw [← (EStateM.Result.ok.inj hread).1]
      rfl
  | templateEnd =>
    obtain ⟨cs, -, hread, -⟩ := exists_of_atOffset h
    generalize t.kind = kind at hread
    unfold templateMark at hread
    split at hread <;> cases hread <;> rfl
  | tag => exact absurd rfl htag
  | child => exact absurd rfl hchild

end Lexer

end Downlevel
