import Downlevel.Proofs.Text.Offset
import Mathlib.Data.List.Induction

/-!
# Lines and columns, counted in bytes

Line and column of an offset are found by looking at characters.  At an offset
between characters they are what a count of the bytes of the UTF-8 encoding
gives: a line feed is one byte, and no other character has that byte in it.
-/

namespace Downlevel.Text

/-- The byte of a line feed. -/
def newlineByte : UInt8 := 10

/-- The UTF-8 encoding of a text. -/
def bytes (t : Text) : List UInt8 :=
  t.flatMap String.utf8EncodeChar

/-- The line of a byte offset: one more than the line feeds before it. -/
def byteLine (t : Text) (n : Nat) : Nat :=
  ((bytes t).take n).count newlineByte + 1

/-- The column of a byte offset: one more than the bytes between it and the last
line feed before it. -/
def byteColumn (t : Text) (n : Nat) : Nat :=
  (((bytes t).take n).reverse.takeWhile (· != newlineByte)).length + 1

theorem bytes_append (s t : Text) : bytes (s ++ t) = bytes s ++ bytes t :=
  List.flatMap_append

theorem bytes_singleton (c : Char) : bytes [c] = String.utf8EncodeChar c :=
  List.flatMap_singleton ..

theorem length_bytes (t : Text) : (bytes t).length = size t := by
  induction t with
  | nil => rfl
  | cons c t ih =>
    rw [← List.singleton_append, bytes_append, bytes_singleton, List.length_append, ih,
      String.length_utf8EncodeChar]
    rfl

/-- The bytes before an offset are those of the characters before it. -/
theorem take_bytes (pre suf : Text) : (bytes (pre ++ suf)).take (size pre) = bytes pre := by
  rw [bytes_append, ← length_bytes, List.take_left]

/-! ## Line feeds -/

/-- The bytes of a character outside ASCII are outside ASCII. -/
theorem le_toNat_of_mem {c : Char} (hc : 127 < c.val.toNat) :
    ∀ x ∈ String.utf8EncodeChar c, 128 ≤ x.toNat := by
  unfold String.utf8EncodeChar
  simp only
  rw [if_neg (by omega)]
  repeat' split
  all_goals simp only [List.forall_mem_cons, UInt8.toNat_ofNat', List.not_mem_nil, false_implies,
    implies_true, and_true]
  all_goals omega

/-- No character but the line feed has the byte of a line feed. -/
theorem newlineByte_notMem {c : Char} (hc : c ≠ '\n') :
    newlineByte ∉ String.utf8EncodeChar c := by
  have hval : c.val.toNat ≠ 10 := fun h => hc (Char.toNat_inj.mp h)
  intro hmem
  by_cases hsmall : c.val.toNat ≤ 127
  · unfold String.utf8EncodeChar at hmem
    simp only at hmem
    rw [if_pos hsmall, List.mem_singleton] at hmem
    have hnat : 10 = (UInt8.ofNat c.val.toNat).toNat := congrArg UInt8.toNat hmem
    rw [UInt8.toNat_ofNat'] at hnat
    omega
  · exact absurd (le_toNat_of_mem (by omega) _ hmem) (by decide)

theorem bytes_newline : bytes ['\n'] = [newlineByte] := rfl

/-- As many bytes as characters are line feeds. -/
theorem count_bytes (t : Text) : (bytes t).count newlineByte = t.count '\n' := by
  induction t with
  | nil => rfl
  | cons c t ih =>
    rw [← List.singleton_append, bytes_append, List.count_append, List.count_append, ih]
    by_cases hc : c = '\n'
    · rw [hc, bytes_newline]
      rfl
    · rw [bytes_singleton, List.count_eq_zero_of_not_mem (newlineByte_notMem hc),
        List.count_eq_zero_of_not_mem fun h => hc (List.mem_singleton.mp h).symm]

/-- What follows the last line feed has as many bytes however it is counted. -/
theorem length_takeWhile_bytes (t : Text) :
    ((bytes t).reverse.takeWhile (· != newlineByte)).length
      = size (t.reverse.takeWhile (· != '\n')) := by
  induction t using List.reverseRecOn with
  | nil => rfl
  | append_singleton t c ih =>
    rw [bytes_append, List.reverse_append, List.reverse_append]
    by_cases hc : c = '\n'
    · rw [hc, bytes_newline]
      rfl
    · have hbytes : ∀ x ∈ (bytes [c]).reverse, (x != newlineByte) = true := by
        intro x hx
        rw [bytes_singleton, List.mem_reverse] at hx
        rw [bne_iff_ne]
        rintro rfl
        exact newlineByte_notMem hc hx
      rw [List.takeWhile_append_of_pos hbytes, List.length_append, ih, List.length_reverse,
        length_bytes, List.reverse_singleton, List.singleton_append,
        List.takeWhile_cons_of_pos (by simpa using hc)]
      rfl

theorem size_reverse (t : Text) : size t.reverse = size t := by
  induction t with
  | nil => rfl
  | cons c t ih => simp [ih, Nat.add_comm]

theorem size_takeWhile_le (p : Char → Bool) (t : Text) : size (t.takeWhile p) ≤ size t := by
  have hsplit : size t = size (t.takeWhile p) + size (t.dropWhile p) := by
    rw [← size_append, List.takeWhile_append_dropWhile]
  omega

/-- **Line and column are counts of bytes.** -/
theorem lineAndColumn_of_isBoundary {t : Text} {n : Nat} (h : IsBoundary t n) :
    lineAndColumn t n = (byteLine t n, byteColumn t n) := by
  obtain ⟨pre, suf, rfl, rfl⟩ := h
  have hle := size_takeWhile_le (· != '\n') pre.reverse
  rw [size_reverse] at hle
  unfold lineAndColumn newlinesBefore lineStart byteLine byteColumn
  simp only [takeBytes_append, take_bytes, count_bytes, length_takeWhile_bytes, size_append]
  refine Prod.ext rfl ?_
  simp only
  omega

end Downlevel.Text
