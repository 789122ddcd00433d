import Downlevel.Proofs.Lexer.Gap
import Downlevel.Proofs.Lexer.Scan
import Downlevel.Proofs.Text.Offset

/-!
# Reading ordinary code and types

Inside a type every `>` is a token of its own.  This is the only difference from
ordinary code, and it shows only where a `>` is followed by another one or by
`=`.
-/

namespace Downlevel.Lexer

/-- Does the text start with an operator that is longer than its `>`?  Inside a type
it is split. -/
def splits : Text → Bool
  | '>' :: c :: _ => c == '>' || c == '='
  | _ => false

/-! ## Punctuators -/

theorem punctuator?_eq (cs : Text) :
    (∃ rest, cs = '>' :: rest) ∨ punctuator? true cs = punctuator? false cs := by
  unfold punctuator?
  split
  case h_55 rest => exact .inl ⟨rest, rfl⟩
  all_goals exact .inr rfl

/-- The operator that a `>` starts is the `>` alone, or it is split inside a type. -/
theorem greater_cases (cs : Text) :
    (splits ('>' :: cs) = false ∧ punctuator?.greater cs = (.greaterThan, 1))
      ∨ (splits ('>' :: cs) = true ∧ 1 < (punctuator?.greater cs).2) := by
  unfold punctuator?.greater
  split
  case h_6 hgreater heq =>
    refine .inl ⟨?_, rfl⟩
    cases cs with
    | nil => rfl
    | cons c cs =>
      rw [splits, Bool.or_eq_false_iff, beq_eq_false_iff_ne, beq_eq_false_iff_ne]
      exact ⟨fun h => hgreater cs (h ▸ rfl), fun h => heq cs (h ▸ rfl)⟩
  all_goals exact .inr ⟨by simp [splits], by decide⟩

/-! ## Tokens -/

variable {source cs rest : Text} {pos stop : Nat} {t : Token} {kind : Kind}

theorem splits_of_ne (h : ∀ rest, cs ≠ '>' :: rest) : splits cs = false := by
  unfold splits
  split
  · exact absurd rfl (h _)
  · rfl

theorem codeToken_eq (h : ∀ rest, cs ≠ '>' :: rest) :
    codeToken true pos cs = codeToken false pos cs := by
  cases cs with
  | nil => rfl
  | cons c cs =>
    obtain ⟨rest, hrest⟩ | heq := punctuator?_eq (c :: cs)
    · exact absurd hrest (h rest)
    · simp only [codeToken, heq]

theorem codeToken_greater (inType : Bool) (pos : Nat) (cs : Text) :
    codeToken inType pos ('>' :: cs) = if inType then .ok .greaterThan (pos + 1)
      else .ok (punctuator?.greater cs).1 (pos + (punctuator?.greater cs).2) := by
  cases inType <;> rfl

/-- Inside a type the token of ordinary code is read, or a `>` that starts a longer one. -/
theorem codeToken_cases (h : codeToken true pos cs = .ok kind stop) :
    (splits cs = false ∧ codeToken false pos cs = .ok kind stop)
      ∨ (splits cs = true ∧ kind = .greaterThan ∧ stop = pos + 1
        ∧ ∃ kind' stop', codeToken false pos cs = .ok kind' stop' ∧ stop < stop') := by
  by_cases hgreater : ∃ rest, cs = '>' :: rest
  · obtain ⟨rest, rfl⟩ := hgreater
    rw [codeToken_greater] at h ⊢
    cases h
    obtain ⟨hsplits, halone⟩ | ⟨hsplits, hlonger⟩ := greater_cases rest
    · refine .inl ⟨hsplits, ?_⟩
      rw [halone]
      rfl
    · exact .inr ⟨hsplits, rfl, rfl, _, _, rfl, by omega⟩
  · have hne : ∀ rest, cs ≠ '>' :: rest := fun rest hcs => hgreater ⟨rest, hcs⟩
    refine .inl ⟨splits_of_ne hne, ?_⟩
    rw [← codeToken_eq hne]
    exact h

/-- A token behind a gap is read from the text at its start. -/
theorem read_of_afterGap {inside : Fault} {read : Nat → Text → Outcome Kind}
    (h : afterGap inside read source pos = .ok t stop) :
    t.stop = stop ∧ read t.start (Text.dropBytes source t.start) = .ok t.kind stop
    ∧ ∀ {inside' read'} kind stop', read' t.start (Text.dropBytes source t.start) = .ok kind stop' →
      afterGap inside' read' source pos = .ok { t with kind, stop := stop' } stop' := by
  obtain ⟨cs, rest, hdrop, hgap, hread, ht⟩ := exists_of_afterGap h
  obtain ⟨gap, rfl, hstart, -⟩ := crosses_of_skipGap hgap
  have hrest : Text.dropBytes source t.start = rest := by
    rw [Text.dropBytes, hstart, Text.dropBytes?_add _ hdrop, Text.dropBytes?_append]
    rfl
  rw [hrest]
  refine ⟨by rw [ht], hread, fun kind stop' hcode => ?_⟩
  simp only [afterGap, hdrop, hgap, hcode]
  rw [ht]

/-- A token is read from the text at its start.  What else is read there comes behind
the same gap. -/
theorem codeToken_of_next {inType : Bool} (h : next inType source pos = .ok t stop) :
    t.stop = stop ∧ codeToken inType t.start (Text.dropBytes source t.start) = .ok t.kind stop
    ∧ ∀ inType' kind stop',
      codeToken inType' t.start (Text.dropBytes source t.start) = .ok kind stop' →
      next inType' source pos = .ok { t with kind, stop := stop' } stop' := by
  obtain ⟨hstop, hcode, hnext⟩ := read_of_afterGap h
  exact ⟨hstop, hcode, fun _ kind stop' hcode' => hnext kind stop' hcode'⟩

/-- The token inside a type is the token of ordinary code exactly if it is not split
off an operator. -/
theorem next_inType_iff (h : next true source pos = .ok t stop) :
    next false source pos = .ok t stop ↔ splits (Text.dropBytes source t.start) = false := by
  obtain ⟨rfl, hcode, hnext⟩ := codeToken_of_next h
  obtain ⟨hsplits, hsame⟩ | ⟨hsplits, -, -, kind, stop', hlonger, hlt⟩ := codeToken_cases hcode
  · exact iff_of_true (hnext _ _ _ hsame) hsplits
  · refine iff_of_false (fun hsame => ?_) (by rw [hsplits]; nofun)
    have hstop : stop' = t.stop :=
      (EStateM.Result.ok.inj ((hnext _ _ _ hlonger).symm.trans hsame)).2
    omega

/-- A token that is split off an operator is a `>`, and ordinary code has a longer
token in its place. -/
theorem next_of_splits (h : next true source pos = .ok t stop)
    (hsplits : splits (Text.dropBytes source t.start) = true) :
    t.kind = .greaterThan ∧ t.stop = t.start + 1
      ∧ ∃ op, next false source pos = .ok op op.stop ∧ op.start = t.start ∧ t.stop < op.stop := by
  obtain ⟨rfl, hcode, hnext⟩ := codeToken_of_next h
  obtain ⟨hwhole, -⟩ | ⟨-, hkind, hone, kind, stop', hlonger, hlt⟩ := codeToken_cases hcode
  · rw [hsplits] at hwhole
    cases hwhole
  · exact ⟨hkind, hone, _, hnext _ _ _ hlonger, rfl, hlt⟩

end Downlevel.Lexer
