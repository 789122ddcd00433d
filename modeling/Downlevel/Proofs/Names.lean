import Downlevel.Names
import Mathlib.Data.List.Nodup
import Mathlib.Data.List.Perm.Subperm

/-!
# Generated names are fresh

Of one number more than there are names, one makes a name that is free.
-/

namespace Downlevel.Names

variable {n : Names} {base : Text}

theorem numbered_inj {j k : Nat} (h : numbered base j = numbered base k) : j = k := by
  have hdigits : Nat.toDigits 10 j = Nat.toDigits 10 k := List.append_cancel_left h
  rw [← Nat.ofDigitChars_ten_toDigits (n := j), hdigits, Nat.ofDigitChars_ten_toDigits]

theorem isFree_iff {name : Text} : n.isFree name = true ↔ name ∉ n.used := by
  simp [isFree]

theorem findFree_not_mem (n : Names) (base : Text) : n.findFree base ∉ n.used := by
  unfold findFree
  split
  · rename_i hbase
    exact isFree_iff.mp hbase
  split
  · rename_i k hk
    have hfree := List.find?_some hk
    exact isFree_iff.mp hfree
  · -- more different names than are taken cannot all be taken
    rename_i hnone
    have htaken : ∀ name ∈ (List.range' 2 (n.used.length + 1)).map (numbered base),
        name ∈ n.used := by
      intro name hname
      obtain ⟨k, hk, rfl⟩ := List.mem_map.mp hname
      have hfree := List.find?_eq_none.mp hnone k hk
      rw [isFree_iff] at hfree
      exact Decidable.not_not.mp hfree
    have hnodup : ((List.range' 2 (n.used.length + 1)).map (numbered base)).Nodup :=
      List.Nodup.map (fun _ _ => numbered_inj) List.nodup_range'
    have hlength := (List.subperm_of_subset hnodup htaken).length_le
    rw [List.length_map, List.length_range'] at hlength
    omega

/-- A free name is its base with digits after it. -/
theorem exists_digits (n : Names) (base : Text) :
    ∃ digits : Text, n.findFree base = base ++ digits ∧ ∀ c ∈ digits, c.isDigit = true := by
  have hnone : ∃ digits : Text, base = base ++ digits ∧ ∀ c ∈ digits, c.isDigit = true :=
    ⟨[], (List.append_nil _).symm, nofun⟩
  unfold findFree
  split
  · exact hnone
  split
  · exact ⟨_, rfl, fun c hc => Nat.isDigit_of_mem_toDigits (by decide) (by decide) hc⟩
  · exact hnone

/-! ## Many names -/

/-- The name is the base if that is free, and otherwise the base with the least number from
two on that makes it free. -/
def IsFirstFree (n : Names) (base name : Text) : Prop :=
  name ∉ n.used ∧ (name = base
    ∨ base ∈ n.used ∧ ∃ k, 2 ≤ k ∧ name = numbered base k
      ∧ ∀ j, 2 ≤ j → j < k → numbered base j ∈ n.used)

theorem isFirstFree_claim (n : Names) (base : Text) : n.IsFirstFree base (n.claim base).1 := by
  refine ⟨n.findFree_not_mem base, ?_⟩
  change n.findFree base = base ∨ _ ∧ ∃ k, 2 ≤ k ∧ n.findFree base = _ ∧ _
  have hnot := n.findFree_not_mem base
  unfold findFree at hnot ⊢
  split
  · exact .inl rfl
  · rename_i hbase
    have hused : base ∈ n.used := Decidable.not_not.mp (isFree_iff.not.mp hbase)
    rw [if_neg hbase] at hnot
    split at hnot
    · rename_i k hk
      obtain ⟨-, i, hi, hget, hbefore⟩ := List.find?_eq_some_iff_getElem.mp hk
      rw [List.getElem_range'] at hget
      refine .inr ⟨hused, k, by omega, rfl, fun j hj hjk => ?_⟩
      have hfree := hbefore (j - 2) (by omega)
      rw [List.getElem_range', Bool.not_eq_true', ← Bool.not_eq_true, isFree_iff] at hfree
      have hindex : 2 + 1 * (j - 2) = j := by omega
      rw [hindex] at hfree
      exact Decidable.not_not.mp hfree
    · exact absurd hused hnot

/-- Takes free names for several bases, one after the other. -/
def claimAll (n : Names) : List Text → List Text × Names
  | [] => ([], n)
  | base :: bases =>
    ((n.claim base).1 :: ((n.claim base).2.claimAll bases).1, ((n.claim base).2.claimAll bases).2)

theorem claimAll_append (n : Names) (bases bases' : List Text) :
    n.claimAll (bases ++ bases')
      = ((n.claimAll bases).1 ++ ((n.claimAll bases).2.claimAll bases').1,
        ((n.claimAll bases).2.claimAll bases').2) := by
  induction bases generalizing n with
  | nil => rfl
  | cons base bases ih => simp [claimAll, ih]

/-- What is taken is kept. -/
theorem used_claimAll (n : Names) (bases : List Text) :
    (n.claimAll bases).2.used = (n.claimAll bases).1.reverse ++ n.used := by
  induction bases generalizing n with
  | nil => rfl
  | cons base bases ih => simp [claimAll, ih, claim]

theorem nodup_claimAll (n : Names) (bases : List Text) :
    (n.claimAll bases).1.Nodup ∧ ∀ name ∈ (n.claimAll bases).1, name ∉ n.used := by
  induction bases generalizing n with
  | nil => exact ⟨List.nodup_nil, nofun⟩
  | cons base bases ih =>
    obtain ⟨hnodup, hfree⟩ := ih (n.claim base).2
    have hrest : ∀ name ∈ ((n.claim base).2.claimAll bases).1,
        name ≠ (n.claim base).1 ∧ name ∉ n.used := by
      intro name hname
      exact not_or.mp fun h => hfree name hname (List.mem_cons.mpr h)
    rw [claimAll]
    refine ⟨List.nodup_cons.mpr ⟨fun hmem => (hrest _ hmem).1 rfl, hnodup⟩, ?_⟩
    intro name hname
    rcases List.mem_cons.mp hname with rfl | hname
    · exact n.findFree_not_mem base
    · exact (hrest name hname).2

end Downlevel.Names
