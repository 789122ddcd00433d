import Downlevel.Proofs.Edit.Script
import Downlevel.Proofs.Text.Line

/-!
# Lines that are counted on

A draft counts the line of an offset on or back from the line that was asked for last.  That line
is right whatever was asked for, kept and put back before, so the next one is right as well.
-/

namespace Downlevel

namespace Text

/-- The line feeds before an offset are the bytes of line feeds before it, also inside a character. -/
theorem count_take_bytes (t : Text) (n : Nat) :
    ((bytes t).take n).count newlineByte = newlinesBefore t n := by
  unfold newlinesBefore
  induction t generalizing n with
  | nil => cases n <;> rfl
  | cons c t ih =>
    cases n with
    | zero => rfl
    | succ n =>
      rw [takeBytes, ← List.singleton_append, bytes_append, bytes_singleton, List.take_append,
        List.count_append, String.length_utf8EncodeChar, ih, List.count_cons]
      by_cases hc : c = '\n'
      · subst hc
        have htake : (String.utf8EncodeChar '\n').take (n + 1) = [newlineByte] := by
          rw [← bytes_singleton, bytes_newline, List.take_succ_cons, List.take_nil]
        rw [htake, Nat.add_comm]
        rfl
      · rw [List.count_eq_zero_of_not_mem fun h => newlineByte_notMem hc (List.mem_of_mem_take h)]
        simp [hc]

theorem newlinesBefore_min (t : Text) (n : Nat) : newlinesBefore t (min n (size t)) = newlinesBefore t n := by
  rw [← count_take_bytes, ← count_take_bytes, ← length_bytes, List.take_eq_take_min (i := n)]

theorem newlinesBefore_mono (t : Text) {m n : Nat} (h : m ≤ n) :
    newlinesBefore t m ≤ newlinesBefore t n := by
  rw [← count_take_bytes, ← count_take_bytes]
  exact (List.take_sublist_take_left h).count_le _

end Text

namespace Draft

/-- The line that was asked for last is the one of its offset. -/
structure LineRight (p : Program) (d : Draft) : Prop where
  le : d.lineOffset ≤ Text.size p.source
  line : d.line = Text.newlinesBefore p.source d.lineOffset + 1

/-- With another line that was asked for last. -/
def moveLine (d : Draft) (p : Program) (offset : Nat) : Draft :=
  { d with
    lineOffset := min offset (Text.size p.source)
    line := Text.newlinesBefore p.source offset + 1 }

variable {p : Program} {d : Draft}

theorem lineRight_moveLine (offset : Nat) : (d.moveLine p offset).LineRight p :=
  ⟨Nat.min_le_right _ _, by simp [moveLine, Text.newlinesBefore_min]⟩

/-- Lines are counted on and back alike. -/
theorem LineRight.lineAt (h : d.LineRight p) (offset : Nat) :
    Edit.lineAt offset p d
      = .ok (Text.newlinesBefore p.source offset + 1) (d.moveLine p offset) := by
  have hline : (if d.lineOffset ≤ min offset (Text.size p.source) then
        d.line + Text.newlinesBetween p.source d.lineOffset (min offset (Text.size p.source))
      else d.line - Text.newlinesBetween p.source (min offset (Text.size p.source)) d.lineOffset)
      = Text.newlinesBefore p.source offset + 1 := by
    rw [← Text.newlinesBefore_min p.source offset, h.line]
    unfold Text.newlinesBetween
    split
    · rename_i hle
      have := Text.newlinesBefore_mono p.source hle
      omega
    · rename_i hlt
      have := Text.newlinesBefore_mono p.source (Nat.le_of_not_le hlt)
      omega
  unfold moveLine
  rw [← hline]
  rfl

theorem LineRight.skip (h : d.LineRight p) (t : Text) :
    (stateAfter (Edit.skip p { d with out := t })).LineRight p := by
  rw [Edit.skip_apply]
  split <;> exact ⟨h.le, h.line⟩

/-- No operation puts the line wrong. -/
theorem LineRight.apply (h : d.LineRight p) (o : Operation) : (o.apply p d).LineRight p := by
  cases o with
  | copyExpected kind =>
    simp only [Operation.apply, Operation.edit, Edit.copyExpected_apply]
    split
    · exact h.skip _
    · exact h
  | append t => exact ⟨h.le, h.line⟩
  | lineAt offset =>
    have hdraft : (Operation.lineAt offset).apply p d = d.moveLine p offset := by
      simp only [Operation.apply, Operation.edit]
      change stateAfter (EStateM.map _ (Edit.lineAt offset p) d) = _
      rw [EStateM.map, h.lineAt]
      rfl
    rw [hdraft]
    exact lineRight_moveLine offset
  | _ => exact h.skip _

/-- A draft whose line is right is put back with it. -/
theorem LineRight.restore {d' : Draft} (h : d.LineRight p) : (d'.restore d.snapshot).LineRight p :=
  ⟨h.le, h.line⟩

end Draft

end Downlevel
