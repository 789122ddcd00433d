import Downlevel.Edit.Program

/-!
# Looking at a program

Past the last token there is a token of kind `eof` that belongs to no type, so
what is found out about a token of another kind, or of a type, is about one of
the program.
-/

namespace Downlevel.Program

variable {p : Program} {i j : Nat} {kind : Kind} {kinds : List Kind} {t : Token}
  {rest : List Token}

theorem tokenAt_of_lt (h : i < p.count) : p.tokens[i]? = some (p.tokenAt i) := by
  rw [tokenAt, Array.getElem?_eq_getElem h, Option.getD_some]

theorem tokenAt_of_le (h : p.count ≤ i) : p.tokenAt i = pastEnd := by
  rw [tokenAt, Array.getElem?_eq_none h, Option.getD_none]

theorem tokenAt_of_drop (h : p.tokens.toList.drop i = t :: rest) :
    p.tokenAt i = t ∧ i < p.count ∧ p.tokens.toList.drop (i + 1) = rest := by
  have hget : p.tokens.toList[i]? = some t := by
    rw [← List.head?_drop, h, List.head?_cons]
  rw [Array.getElem?_toList] at hget
  refine ⟨by rw [tokenAt, hget, Option.getD_some], (Array.getElem?_eq_some_iff.mp hget).1, ?_⟩
  rw [← List.drop_drop, h, List.drop_one, List.tail_cons]

theorem drop_eq_cons (h : i < p.count) :
    p.tokens.toList.drop i = p.tokenAt i :: p.tokens.toList.drop (i + 1) := by
  have hlt : i < p.tokens.toList.length := h
  have htoken : p.tokenAt i = p.tokens.toList[i] := by
    rw [tokenAt, Array.getElem?_eq_getElem h, Option.getD_some]
    rfl
  rw [htoken, List.drop_eq_getElem_cons hlt]

theorem lt_count_of_kindAt (h : p.kindAt i = kind) (hne : kind ≠ .eof) : i < p.count := by
  refine Decidable.byContradiction fun hi => hne (h.symm.trans ?_)
  rw [kindAt, tokenAt_of_le (Nat.le_of_not_lt hi)]
  rfl

theorem lt_count_of_isTypeAt (h : p.isTypeAt i = true) : i < p.count := by
  refine Decidable.byContradiction fun hi => ?_
  rw [isTypeAt, tokenAt_of_le (Nat.le_of_not_lt hi)] at h
  cases h

theorem isNameAt_iff {word : Text} :
    p.isNameAt i word = true ↔ p.kindAt i = .name ∧ p.textAt i = word := by
  rw [isNameAt, Bool.and_eq_true, beq_iff_eq, beq_iff_eq]

theorem kindAt_of_matchesAt (h : p.matchesAt i (kind :: kinds) = true) : p.kindAt i = kind := by
  rw [matchesAt, Bool.and_eq_true] at h
  exact eq_of_beq h.1

/-! ## Searching -/

/-- A search ends at the first index that it stops at, or after the last that it
looks at. -/
theorem search_eq {stop : Nat → Bool} {n : Nat} (hij : i ≤ j) (hjn : j ≤ i + n)
    (hj : j < i + n → stop j = true) (hbefore : ∀ k, i ≤ k → k < j → stop k = false) :
    search stop n i = j := by
  induction n generalizing i with
  | zero => rw [search, Nat.le_antisymm hij hjn]
  | succ n ih =>
    unfold search
    by_cases heq : i = j
    · rw [heq, if_pos (hj (by omega))]
    · rw [if_neg (by simp [hbefore i (Nat.le_refl i) (by omega)])]
      exact ih (by omega) (by omega) (fun hlt => hj (by omega)) fun k hk => hbefore k (by omega)

theorem skipTypes_eq (hij : i ≤ j) (hj : j ≤ p.count)
    (htypes : ∀ k, i ≤ k → k < j → p.isTypeAt k = true) (hend : p.isTypeAt j = false) :
    p.skipTypes i = j := by
  refine search_eq hij (by omega) (fun _ => by simp [hend]) fun k hk hkj => ?_
  simp [htypes k hk hkj]

theorem skipTypes_eq_self (h : p.isTypeAt i = false) : p.skipTypes i = i := by
  unfold skipTypes seek
  cases p.count - i with
  | zero => rfl
  | succ n => rw [search, if_pos (by simp [h])]

theorem skipTypes_succ (h : p.isTypeAt i = true) : p.skipTypes i = p.skipTypes (i + 1) := by
  have hlt := lt_count_of_isTypeAt h
  obtain ⟨n, hn⟩ : ∃ n, p.count - i = n + 1 := ⟨p.count - i - 1, by omega⟩
  unfold skipTypes seek
  rw [hn, search, if_neg (by simp [h]), show p.count - (i + 1) = n by omega]

/-- Types in front of an index are skipped on the way there. -/
theorem skipTypes_eq_skipTypes (hij : i ≤ j) (htypes : ∀ k, i ≤ k → k < j → p.isTypeAt k = true) :
    p.skipTypes i = p.skipTypes j := by
  induction hij with
  | refl => rfl
  | @step j hij ih =>
    rw [ih fun k hik hkj => htypes k hik (Nat.lt_succ_of_lt hkj),
      skipTypes_succ (htypes j hij (Nat.lt_succ_self j))]

end Downlevel.Program
