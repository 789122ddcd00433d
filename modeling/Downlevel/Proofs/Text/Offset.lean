import Mathlib.Data.List.TakeWhile
import Downlevel.Text.Line

/-!
# Byte offsets between characters

An offset between two characters splits a text in two, and the operations on
byte offsets give back the parts of a text that is put together.
-/

namespace Downlevel.Text

variable {c : Char} {t : Text}

@[simp] theorem size_nil : size [] = 0 := rfl

@[simp] theorem size_cons (c : Char) (cs : Text) : size (c :: cs) = c.utf8Size + size cs := rfl

@[simp] theorem size_append (s t : Text) : size (s ++ t) = size s + size t := by
  induction s with
  | nil => simp
  | cons c s ih => simp [ih, Nat.add_assoc]

theorem size_pos_iff : 0 < size t ↔ t ≠ [] := by
  cases t with
  | nil => simp
  | cons c t =>
    have := c.utf8Size_pos
    simp only [size_cons, ne_eq, reduceCtorEq, not_false_eq_true, iff_true]
    omega

theorem eq_nil_of_size (h : size t = 0) : t = [] :=
  Decidable.byContradiction fun ht => Nat.ne_of_gt (size_pos_iff.mpr ht) h

theorem dropBytes?_cons (c : Char) (cs : Text) (n : Nat) :
    dropBytes? (c :: cs) (c.utf8Size + n) = dropBytes? cs n := by
  obtain ⟨k, hk⟩ : ∃ k, c.utf8Size + n = k + 1 :=
    ⟨c.utf8Size + n - 1, by have := c.utf8Size_pos; omega⟩
  rw [hk, dropBytes?, if_pos (by omega), show k + 1 - c.utf8Size = n by omega]

@[simp] theorem dropBytes?_append (pre cs : Text) : dropBytes? (pre ++ cs) (size pre) = some cs := by
  induction pre with
  | nil => rw [size_nil, List.nil_append]; cases cs <;> rfl
  | cons c pre ih => rw [List.cons_append, size_cons, dropBytes?_cons, ih]

theorem dropBytes?_add {t cs : Text} {m : Nat} (n : Nat) (h : dropBytes? t m = some cs) :
    dropBytes? t (m + n) = dropBytes? cs n := by
  induction t generalizing m with
  | nil =>
    have hnil : ∀ k, dropBytes? [] k = some [] := fun k => by cases k <;> rfl
    rw [hnil] at h
    cases h
    rw [hnil, hnil]
  | cons c t ih =>
    have hpos := c.utf8Size_pos
    cases m with
    | zero =>
      cases h
      rw [Nat.zero_add]
    | succ m =>
      rw [dropBytes?] at h
      split at h
      case isFalse => cases h
      rename_i hle
      rw [Nat.succ_add, dropBytes?, if_pos (by omega), ← ih h]
      congr 1
      omega

@[simp] theorem dropBytes_append (pre cs : Text) : dropBytes (pre ++ cs) (size pre) = cs := by
  rw [dropBytes, dropBytes?_append, Option.getD_some]

theorem takeBytes_cons (c : Char) (cs : Text) (n : Nat) :
    takeBytes (c :: cs) (c.utf8Size + n) = c :: takeBytes cs n := by
  obtain ⟨k, hk⟩ : ∃ k, c.utf8Size + n = k + 1 :=
    ⟨c.utf8Size + n - 1, by have := c.utf8Size_pos; omega⟩
  rw [hk, takeBytes, show k + 1 - c.utf8Size = n by omega]

@[simp] theorem takeBytes_append (body rest : Text) :
    takeBytes (body ++ rest) (size body) = body := by
  induction body with
  | nil => rw [size_nil, List.nil_append]; cases rest <;> rfl
  | cons c body ih => rw [List.cons_append, size_cons, takeBytes_cons, ih]

/-- The slice between two offsets is what stands between them. -/
theorem slice_append (pre body rest : Text) :
    slice (pre ++ (body ++ rest)) (size pre) (size pre + size body) = body := by
  rw [slice, dropBytes_append, Nat.add_sub_cancel_left, takeBytes_append]

/-- The offset stands between two characters, or at one of the ends. -/
def IsBoundary (t : Text) (n : Nat) : Prop :=
  ∃ pre suf, t = pre ++ suf ∧ size pre = n

theorem IsBoundary.le {n : Nat} (h : IsBoundary t n) : n ≤ size t := by
  obtain ⟨pre, suf, rfl, rfl⟩ := h
  simp

/-! ## The first line -/

theorem eq_append_of_cut {t line rest : Text} (h : cut c t = (line, some rest)) :
    t = line ++ c :: rest := by
  induction t generalizing line with
  | nil => simp [cut] at h
  | cons d t ih =>
    rw [cut] at h
    by_cases hd : d = c
    · rw [if_pos hd] at h
      obtain ⟨rfl, ⟨rfl⟩⟩ := Prod.mk.inj h
      rw [hd, List.nil_append]
    · rw [if_neg hd] at h
      obtain ⟨rfl, hrest⟩ := Prod.mk.inj h
      rw [List.cons_append, ← ih (Prod.ext rfl hrest)]

theorem eq_of_cut {t line : Text} (h : cut c t = (line, none)) : t = line := by
  induction t generalizing line with
  | nil => exact (Prod.mk.inj h).1
  | cons d t ih =>
    rw [cut] at h
    by_cases hd : d = c
    · rw [if_pos hd] at h
      cases (Prod.mk.inj h).2
    · rw [if_neg hd] at h
      obtain ⟨rfl, hrest⟩ := Prod.mk.inj h
      exact congrArg (d :: ·) (ih (Prod.ext rfl hrest))

/-- A leading `#!` line ends between two characters. -/
theorem isBoundary_shebangSize (t : Text) : IsBoundary t (shebangSize t) := by
  unfold shebangSize
  split
  · split
    · rename_i line rest h
      exact ⟨line ++ ['\n'], rest, by rw [eq_append_of_cut h]; simp, by simp; rfl⟩
    · rename_i line h
      exact ⟨line, [], by rw [eq_of_cut h]; simp, rfl⟩
  · exact ⟨[], t, rfl, rfl⟩

theorem cut_append {s : Text} (h : c ∉ s) (t : Text) :
    cut c (s ++ c :: t) = (s, some t) := by
  induction s with
  | nil => rw [List.nil_append, cut, if_pos rfl]
  | cons d s ih =>
    rw [List.mem_cons, not_or] at h
    rw [List.cons_append, cut, if_neg (Ne.symm h.1), ih h.2]

theorem cut_eq (c : Char) (t : Text) :
    cut c t = (t.takeWhile (· != c), if c ∈ t then some (t.dropWhile (· != c)).tail else none) := by
  induction t with
  | nil => rfl
  | cons d t ih =>
    rw [cut]
    by_cases hd : d = c
    · simp [hd]
    · have hd' : ¬c = d := fun h => hd h.symm
      simp [hd, hd', ih]

theorem notMem_of_cut {t line : Text} {rest : Option Text} (h : cut c t = (line, rest)) :
    c ∉ line := by
  intro hmem
  rw [cut_eq, Prod.mk.injEq] at h
  have hne := List.mem_takeWhile_imp (h.1 ▸ hmem)
  rw [bne_self_eq_false] at hne
  cases hne

end Downlevel.Text
