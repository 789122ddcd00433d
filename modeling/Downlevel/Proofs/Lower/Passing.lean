import Downlevel.Proofs.Grammar.Contexts
import Downlevel.Proofs.Lower.Layout

/-!
# Where passing tokens ends

When a class is gone through its tokens are passed, and nothing but initializers is lowered.  Here
is said where each way of passing ends: past the types that stand there, past the partner of a
token, or past the bracket that closes a computed name.
-/

namespace Downlevel

namespace Program

variable {p : Program} {o : Options} {a b i j : Nat}

/-! ## Partners -/

theorem stop_search {stop : Nat → Bool} {n : Nat} (h : search stop n i < i + n) :
    stop (search stop n i) = true := by
  induction n generalizing i with
  | zero => exact absurd h (Nat.lt_irrefl _)
  | succ n ih =>
    unfold search at h ⊢
    by_cases hstop : stop i = true
    · rw [if_pos hstop]
      exact hstop
    · rw [if_neg hstop] at h ⊢
      exact ih (by omega)

/-- The partner of a token is in its context. -/
theorem exists_of_matching? (h : p.matching? i = some j) :
    ∃ id, j < p.count ∧ (p.tokenAt i).context = some id ∧ (p.tokenAt j).context = some id := by
  unfold matching? at h
  split at h
  · cases h
  rename_i t ht
  split at h
  · cases h
  rename_i id hid
  dsimp only at h
  split at h
  case isFalse => cases h
  rename_i hlt
  cases h
  have hstop := @stop_search (i + 1) (fun j => (p.tokenAt j).context == some id)
    (p.count - (i + 1)) (by rw [seek] at hlt; omega)
  have hi : p.tokenAt i = t := by rw [tokenAt, ht, Option.getD_some]
  exact ⟨id, hlt, hi ▸ hid, beq_iff_eq.mp hstop⟩

/-- A closing brace has no partner behind it. -/
theorem matching?_braceR (h : Grammar.parse p.source o = .ok p.tokens)
    (hkind : p.kindAt i = .braceR) : p.matching? i = none := by
  cases hmatching : p.matching? i with
  | none => rfl
  | some j =>
    obtain ⟨id, hj, hi, hjd⟩ := exists_of_matching? hmatching
    have hsub := sublist_carriers (lt_of_matching? hmatching) hj hi hjd
    exact absurd hkind ((isConstruct_carriers h hj hjd).kind_ne_braceR hsub)

/-! ## Computed names -/

/-- How many square brackets are open after `n` tokens from an index on. -/
def bracketDepth (p : Program) (a : Nat) : Nat → Nat
  | 0 => 0
  | n + 1 =>
    match p.kindAt (a + n) with
    | .bracketL => p.bracketDepth a n + 1
    | .bracketR => p.bracketDepth a n - 1
    | _ => p.bracketDepth a n

/-- The bracket at an index is closed by the last token before another one. -/
structure ClosesBefore (p : Program) (a b : Nat) : Prop where
  lt : a < b
  kind_open : p.kindAt a = .bracketL
  kind_close : p.kindAt (b - 1) = .bracketR
  depth_close : p.bracketDepth a (b - 1 - a) ≤ 1
  inside : ∀ n, n < b - 1 - a → p.kindAt (a + n) = .bracketR → 1 < p.bracketDepth a n

instance (p : Program) (a b : Nat) : Decidable (p.ClosesBefore a b) :=
  decidable_of_iff (a < b ∧ p.kindAt a = .bracketL ∧ p.kindAt (b - 1) = .bracketR
    ∧ p.bracketDepth a (b - 1 - a) ≤ 1
    ∧ ∀ n, n < b - 1 - a → p.kindAt (a + n) = .bracketR → 1 < p.bracketDepth a n)
    ⟨fun ⟨h₁, h₂, h₃, h₄, h₅⟩ => ⟨h₁, h₂, h₃, h₄, h₅⟩, fun ⟨h₁, h₂, h₃, h₄, h₅⟩ => ⟨h₁, h₂, h₃, h₄, h₅⟩⟩

/-- A bracket is closed in one place. -/
theorem ClosesBefore.unique {b' : Nat} (h : p.ClosesBefore a b) (h' : p.ClosesBefore a b') :
    b = b' := by
  -- the bracket that closes first would be inside the other pair
  have hnot : ∀ {d d'}, p.ClosesBefore a d → p.ClosesBefore a d' → ¬d < d' := by
    intro d d' hd hd' hlt
    have hgt := hd.lt
    have hkind : p.kindAt (a + (d - 1 - a)) = .bracketR := by
      rw [show a + (d - 1 - a) = d - 1 by omega]
      exact hd.kind_close
    have hinside := hd'.inside (d - 1 - a) (by omega) hkind
    have hdepth := hd.depth_close
    omega
  have hle := hnot h h'
  have hge := hnot h' h
  omega

end Program

namespace Lower

open ClassLayout

variable {plan : Plan} {w : Work} {last a : Nat}

theorem ends_computedNameEnd (hkind : plan.program.kindAt w.index = .bracketL) :
    Ends plan computedNameEnd w (fun stop w' => plan.program.ClosesBefore w.index w'.index
      ∧ stop = (plan.program.tokenAt (w'.index - 1)).stop) fun _ => True := by
  unfold computedNameEnd
  suffices hloop : Ends plan (loop (0, 0) _) w (fun s w' =>
      plan.program.ClosesBefore w.index w'.index
        ∧ s.2 = (plan.program.tokenAt (w'.index - 1)).stop) fun _ => True from
    hloop.bind fun _ _ h => h
  refine Ends.loop_partial (fun s v => ∃ n, v.index = w.index + n
    ∧ s.1 = plan.program.bracketDepth w.index n
    ∧ ∀ k, k < n → plan.program.kindAt (w.index + k) = .bracketR →
      1 < plan.program.bracketDepth w.index k) trivial ?_ ⟨0, rfl, rfl, nofun⟩
  rintro ⟨depth, stop⟩ v ⟨n, hindex, hdepth, hinside⟩
  dsimp only at hdepth
  subst hdepth
  rw [ends_bind, ends_cur]
  have hnext : ∀ m, plan.program.kindAt (w.index + n) ≠ .bracketR
      ∨ 1 < plan.program.bracketDepth w.index n → m = plan.program.bracketDepth w.index (n + 1) →
      ∃ n', (v.moveTo (v.index + 1)).index = w.index + n'
        ∧ m = plan.program.bracketDepth w.index n' ∧ ∀ k, k < n' →
          plan.program.kindAt (w.index + k) = .bracketR →
          1 < plan.program.bracketDepth w.index k := by
    intro m hor hm
    refine ⟨n + 1, by rw [Work.index_moveTo, hindex, Nat.add_assoc], hm, fun k hk hclose => ?_⟩
    rcases Nat.lt_or_eq_of_le (Nat.lt_succ_iff.mp hk) with hlt | rfl
    · exact hinside k hlt hclose
    · exact hor.resolve_left fun hne => hne hclose
  have hat : plan.program.kindAt (w.index + n) = (plan.program.tokenAt v.index).kind := by
    rw [hindex]
    rfl
  split
  · rename_i hopen
    rw [hopen] at hat
    rw [ends_bind, ends_skip]
    split
    · exact hnext _ (.inl (by rw [hat]; decide)) (by rw [Program.bracketDepth, hat])
    · exact trivial
  · rename_i hclose
    rw [hclose] at hat
    rw [ends_bind, ends_skip]
    split
    case isFalse => exact trivial
    refine Ends.ite (fun hle => ?_) fun hgt => ?_
    · have hpos : n ≠ 0 := by
        rintro rfl
        rw [Nat.add_zero, hkind] at hat
        cases hat
      refine ⟨⟨?_, hkind, ?_, ?_, ?_⟩, ?_⟩
      · rw [Work.index_moveTo]
        omega
      · rw [Work.index_moveTo, Nat.add_sub_cancel, hindex]
        exact hat
      · rw [Work.index_moveTo, Nat.add_sub_cancel, hindex, Nat.add_sub_cancel_left]
        exact hle
      · rw [Work.index_moveTo, Nat.add_sub_cancel, hindex, Nat.add_sub_cancel_left]
        exact hinside
      · rw [Work.index_moveTo, Nat.add_sub_cancel]
    · exact hnext _ (.inr (Nat.lt_of_not_le hgt)) (by rw [Program.bracketDepth, hat])
  · exact trivial
  · rename_i hopen hclose _
    rw [ends_bind, ends_skip]
    split
    · refine hnext _ (.inl (by rw [hat]; exact hclose)) ?_
      rw [Program.bracketDepth]
      split
      · rename_i hkind'
        exact absurd (hat.symm.trans hkind') hopen
      · rename_i hkind'
        exact absurd (hat.symm.trans hkind') hclose
      · rfl
    · exact trivial

/-! ## Types and partners -/

theorem ends_skipTypes :
    Ends plan skipTypes w (fun _ w' => w.index ≤ w'.index
      ∧ (∀ k, w.index ≤ k → k < w'.index → plan.program.isTypeAt k = true)
      ∧ plan.program.isTypeAt w'.index = false) fun _ => True := by
  unfold skipTypes repeatWhile
  refine Ends.loop_partial (fun _ v => w.index ≤ v.index
    ∧ ∀ k, w.index ≤ k → k < v.index → plan.program.isTypeAt k = true) trivial ?_
    ⟨Nat.le_refl _, fun k hk hlt => absurd hk (Nat.not_le_of_lt hlt)⟩
  rintro _ v ⟨hle, htypes⟩
  rw [ends_bind, ends_isType]
  refine Ends.ite (fun htype => ?_) fun htype => ⟨hle, htypes, Bool.eq_false_iff.mpr htype⟩
  rw [ends_bind, ends_skip]
  split
  · refine ⟨Nat.le_succ_of_le hle, fun k hk hlt => ?_⟩
    rw [Work.index_moveTo] at hlt
    rcases Nat.lt_or_eq_of_le (Nat.lt_succ_iff.mp hlt) with hlt | rfl
    · exact htypes k hk hlt
    · exact htype
  · exact trivial

/-- Passing tokens up to an index ends there. -/
theorem ends_repeatTo_skip (hle : w.index ≤ a) :
    Ends plan (repeatTo a skip) w (fun _ w' => w'.index = a) fun _ => True := by
  unfold repeatTo repeatWhile
  refine Ends.loop_partial (fun _ v => v.index ≤ a) trivial (fun _ v hv => ?_) hle
  rw [ends_bind, ends_bind, ends_index, ends_pure]
  refine Ends.ite (fun hlt => ?_) fun hge => ?_
  · rw [ends_bind, ends_skip]
    split
    · have hlt' : v.index < a := of_decide_eq_true hlt
      exact hlt'
    · exact trivial
  · have hge' : a ≤ v.index := by simpa using hge
    exact Nat.le_antisymm hv hge'

/-- Tokens that there are are passed without an error. -/
theorem ends_repeatTo_skip_of_le {E : Error → Prop} (hle : w.index ≤ a) (ha : a ≤ plan.program.count) :
    Ends plan (repeatTo a skip) w (fun _ w' => w'.index = a) E := by
  unfold repeatTo
  refine Ends.repeatWhile (fun v => v.index ≤ a) (fun v hv => ⟨Nat.le_trans hv ha, ?_⟩) hle
  rw [ends_bind, ends_index, ends_pure]
  split
  · rename_i hlt
    have hlt' : v.index < a := of_decide_eq_true hlt
    rw [ends_skip, if_pos (Nat.lt_of_lt_of_le hlt' ha)]
    exact ⟨hlt', Nat.lt_succ_self _⟩
  · rename_i hge
    have hge' : a ≤ v.index := by simpa using hge
    exact Nat.le_antisymm hv hge'

/-- Passing a token and its partner ends behind the partner. -/
theorem ends_skipContext (h : plan.program.matching? w.index = some last) :
    Ends plan skipContext w (fun _ w' => w'.index = last + 1) fun _ => True := by
  unfold skipContext skipThrough
  rw [ends_bind, ends_program, ends_bind, ends_index, ends_bind, ends_orBreach, h]
  exact ends_repeatTo_skip (Nat.le_succ_of_le (Nat.le_of_lt (Program.lt_of_matching? h)))

end Lower

end Downlevel
