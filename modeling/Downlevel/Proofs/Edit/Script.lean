import Downlevel.Proofs.Lower.Ends
import Downlevel.Proofs.Text.Offset

/-!
# Scripts of edits

A script is a sequence of edits in which some parts are tried out: the draft is
remembered before such a part and put back after it.  A draft only grows at its
end, whatever is done to it, so a snapshot, which keeps the length of the output
and not the output, is enough to come back to a draft.
-/

namespace Downlevel

/-- The state at the end of a run, also if the run fails. -/
def stateAfter {ε σ α : Type} : EStateM.Result ε σ α → σ
  | .ok _ s => s
  | .error _ s => s

/-- An operation on a draft. -/
inductive Operation where
  | skip
  | copy
  | copyExpected (kind : Kind)
  | replace (t : Text)
  | replaceTrimmed (t : Text)
  | remove
  | removeInitial
  | append (t : Text)
  | lineAt (offset : Nat)
  deriving Repr, DecidableEq, Inhabited

namespace Operation

/-- What an operation does. -/
def edit : Operation → Edit Unit
  | skip => Edit.skip
  | copy => Edit.copy
  | copyExpected kind => Edit.copyExpected kind
  | replace t => Edit.replace t
  | replaceTrimmed t => Edit.replaceTrimmed t
  | remove => Edit.remove
  | removeInitial => Edit.removeInitial
  | append t => Edit.append t
  | lineAt offset => discard (Edit.lineAt offset)

/-- The draft that an operation leaves, also if it fails. -/
def apply (p : Program) (o : Operation) (d : Draft) : Draft :=
  stateAfter (o.edit p d)

end Operation

/-- A sequence of operations, and of scripts that are tried out. -/
inductive Script where
  | done
  | step (o : Operation) (rest : Script)
  | preview (inner rest : Script)
  deriving Repr, DecidableEq, Inhabited

namespace Script

/-- The draft that a script leaves. -/
def run (p : Program) : Script → Draft → Draft
  | done, d => d
  | step o rest, d => rest.run p (o.apply p d)
  | preview inner rest, d => rest.run p ((inner.run p d).restore d.snapshot)

/-- One script after another. -/
def andThen : Script → Script → Script
  | done, t => t
  | step o rest, t => step o (rest.andThen t)
  | preview inner rest, t => preview inner (rest.andThen t)

theorem run_andThen (p : Program) (s t : Script) (d : Draft) :
    (s.andThen t).run p d = t.run p (s.run p d) := by
  induction s generalizing d with
  | done => rfl
  | step o rest ih => exact ih _
  | preview inner rest _ ih => exact ih _

end Script

/-! ## Coming back -/

theorem Draft.restore_snapshot {d d' : Draft} (h : d.out <+: d'.out) :
    d'.restore d.snapshot = d := by
  obtain ⟨t, ht⟩ := h
  unfold Draft.restore Draft.snapshot
  rw [← ht, Text.takeBytes_append]

namespace Operation

theorem prefix_out_of_skip (p : Program) (d : Draft) (t : Text) :
    d.out <+: (stateAfter (Edit.skip p { d with out := d.out ++ t })).out := by
  rw [Edit.skip_apply]
  split <;> exact List.prefix_append d.out t

/-- An operation writes at the end of the output. -/
theorem prefix_out_apply (p : Program) (o : Operation) (d : Draft) : d.out <+: (o.apply p d).out := by
  have hreplace (t : Text) : d.out <+: ((replace t).apply p d).out := by
    have h := prefix_out_of_skip p d (p.gapBefore d.index ++ t)
    rwa [← List.append_assoc] at h
  have htrimmed (t : Text) : d.out <+: ((replaceTrimmed t).apply p d).out := by
    have h := prefix_out_of_skip p d (Text.newlines (p.gapBefore d.index) ++ t)
    rwa [← List.append_assoc] at h
  have hcopy : d.out <+: (copy.apply p d).out := hreplace (p.textAt d.index)
  cases o with
  | skip =>
    have h := prefix_out_of_skip p d []
    rwa [List.append_nil] at h
  | copy => exact hcopy
  | copyExpected kind =>
    simp only [apply, edit, Edit.copyExpected_apply]
    split
    · exact hcopy
    · exact List.prefix_refl _
  | replace t => exact hreplace t
  | replaceTrimmed t => exact htrimmed t
  | remove => exact htrimmed []
  | removeInitial => exact hreplace []
  | append t => exact List.prefix_append d.out t
  | lineAt offset => exact List.prefix_refl d.out

end Operation

namespace Script

/-- A script writes at the end of the output. -/
theorem prefix_out_run (p : Program) (s : Script) (d : Draft) : d.out <+: (s.run p d).out := by
  induction s generalizing d with
  | done => exact List.prefix_refl d.out
  | step o rest ih => exact (o.prefix_out_apply p d).trans (ih _)
  | preview inner rest ihinner ih =>
    have h := ih ((inner.run p d).restore d.snapshot)
    rw [Draft.restore_snapshot (ihinner d)] at h
    rw [run, Draft.restore_snapshot (ihinner d)]
    exact h

/-- After a script the draft before it can be put back. -/
theorem restore_run (p : Program) (s : Script) (d : Draft) : (s.run p d).restore d.snapshot = d :=
  Draft.restore_snapshot (s.prefix_out_run p d)

end Script

end Downlevel
