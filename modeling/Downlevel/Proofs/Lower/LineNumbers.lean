import Downlevel.Proofs.Lower.Progress
import Downlevel.Proofs.Lower.Trace

/-!
# Line numbers

A line that is counted on or back from the one asked for last is the line counted from the
start, so elements are written with the lines on which they start.
-/

namespace Downlevel

/-! ## Lookups -/

/-- What can happen before a line is looked up: an operation, which may be another lookup, or
a snapshot, or that the `k`th of the snapshots so far, the last one first, is put back. -/
inductive LineStep where
  | operation (o : Operation)
  | snapshot
  | restore (k : Nat)
  deriving Repr, DecidableEq, Inhabited

/-- A draft and the snapshots that were taken of it. -/
structure LineHistory where
  draft : Draft := {}
  taken : List Draft.Snapshot := []
  deriving Repr, DecidableEq, Inhabited

namespace LineHistory

/-- The history with one more step. -/
def add (p : Program) (h : LineHistory) : LineStep → LineHistory
  | .operation o => { h with draft := o.apply p h.draft }
  | .snapshot => { h with taken := h.draft.snapshot :: h.taken }
  | .restore k =>
    match h.taken[k]? with
    | some s => { h with draft := h.draft.restore s }
    | none => h

/-- The line is right, and so is the one of every snapshot. -/
structure Right (p : Program) (h : LineHistory) : Prop where
  draft : h.draft.LineRight p
  taken : ∀ s ∈ h.taken, ∀ d : Draft, (d.restore s).LineRight p

variable {p : Program} {h : LineHistory}

theorem Right.add (hr : h.Right p) (step : LineStep) : (h.add p step).Right p := by
  cases step with
  | operation o => exact ⟨hr.draft.apply o, hr.taken⟩
  | snapshot => exact ⟨hr.draft, List.forall_mem_cons.mpr ⟨fun _ => hr.draft.restore, hr.taken⟩⟩
  | restore k =>
    simp only [LineHistory.add]
    split
    · rename_i s hs
      exact ⟨hr.taken s (List.mem_of_getElem? hs) h.draft, hr.taken⟩
    · exact hr

theorem Right.foldl (hr : h.Right p) (steps : List LineStep) :
    (steps.foldl (LineHistory.add p) h).Right p := by
  induction steps generalizing h with
  | nil => exact hr
  | cons step steps ih => exact ih (hr.add step)

end LineHistory

theorem Draft.lineRight_empty (p : Program) : ({} : Draft).LineRight p :=
  ⟨Nat.zero_le _, by simp [Text.newlinesBefore, Text.takeBytes]⟩

/-! ## Whole programs -/

namespace Lower

/-- Lowers a source to plain code, with lines counted from the start. -/
def Counted.transform (source : Text) (o : Options) : Except Error Text := do
  o.validate
  let tokens ← Grammar.parse source o
  let (plan, work) ← Plan.prepare source tokens o
  match Counted.finish plan work with
  | .ok code _ => return code
  | .error e _ => throw e

end Lower

/-- **Lines are right.**  Whatever was looked up, written, remembered and put back before, the
line of an offset is one more than the line feeds before it, and counting back stays above
zero.  So a source is lowered as if the line of each element were counted from the start. -/
theorem line_eq_byteLine :
    (∀ (p : Program) (steps : List LineStep) (offset : Nat),
      let d := (steps.foldl (LineHistory.add p) {}).draft
      let stop := min offset (Text.size p.source)
      (∃ d', Edit.lineAt offset p d = .ok (Text.byteLine p.source stop) d')
        ∧ Text.newlinesBetween p.source stop d.lineOffset < d.line)
    ∧ ∀ (source : Text) (o : Options), transform source o = Lower.Counted.transform source o := by
  refine ⟨?_, ?_⟩
  · intro p steps offset
    have hr : (steps.foldl (LineHistory.add p) {}).Right p :=
      LineHistory.Right.foldl ⟨Draft.lineRight_empty p, by simp⟩ steps
    dsimp only
    constructor
    · rw [hr.draft.lineAt, Text.byteLine, Text.count_take_bytes, Text.newlinesBefore_min]
      exact ⟨_, rfl⟩
    · rw [hr.draft.line]
      unfold Text.newlinesBetween
      omega
  · intro source o
    have hbind {α β : Type} {x : Except Error α} {f g : α → Except Error β}
        (h : ∀ a, x = .ok a → f a = g a) : x >>= f = x >>= g := by
      cases x with
      | error e => rfl
      | ok a => exact h a rfl
    refine hbind fun _ _ => hbind fun tokens _ => hbind fun prepared hprepare => ?_
    obtain ⟨plan, w⟩ := prepared
    have hright : w.draft.LineRight plan.program := by
      rw [(made_of_prepare hprepare).2.2]
      exact Draft.lineRight_empty _
    have hfinish : Lower.Traced plan Lower.finish Lower.Counted.finish := inferInstance
    cases hrun : Lower.Counted.finish plan w <;> simp only [hfinish.same w hright, hrun]

end Downlevel
