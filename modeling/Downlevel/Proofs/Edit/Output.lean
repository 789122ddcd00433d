import Downlevel.Proofs.Edit.Script
import Downlevel.Proofs.Grammar.Lossless

/-!
# What a script writes

A script that treats every token once writes, token by token, the gap before the token and what it
makes of the token, and at the end what follows the last token.  Here this is said in terms of the
source alone: gaps and texts are the parts of the source between the offsets of the tokens.
-/

namespace Downlevel

variable {ts : List Token}

namespace Text

/-- The part of a text between two offsets. -/
def IsSlice (source : Text) (start stop : Nat) (t : Text) : Prop :=
  ∃ pre rest, source = pre ++ (t ++ rest) ∧ size pre = start ∧ start + size t = stop

section

variable {source s t : Text} {start mid stop : Nat}

/-- Between two offsets that stand between characters there is a part of the text. -/
theorem isSlice_slice (hstart : IsBoundary source start) (hstop : IsBoundary source stop)
    (hle : start ≤ stop) : IsSlice source start stop (slice source start stop) := by
  obtain ⟨pre, rest, hsource, rfl⟩ := hstart
  obtain ⟨pre', rest', hsource', rfl⟩ := hstop
  obtain ⟨body, rfl⟩ : pre <+: pre' := by
    rcases List.prefix_or_prefix_of_prefix ⟨rest, hsource.symm⟩ ⟨rest', hsource'.symm⟩ with h | h
    · exact h
    · obtain ⟨body, rfl⟩ := h
      rw [size_append] at hle
      exact ⟨[], by rw [eq_nil_of_size (t := body) (by omega), List.append_nil, List.append_nil]⟩
  rw [List.append_assoc] at hsource'
  rw [size_append, hsource', slice_append]
  exact ⟨pre, rest', rfl, rfl, rfl⟩

theorem IsSlice.append (hs : IsSlice source start mid s) (ht : IsSlice source mid stop t) :
    IsSlice source start stop (s ++ t) := by
  obtain ⟨pre, rest, rfl, rfl, rfl⟩ := hs
  obtain ⟨pre', rest', hsource, hpre, rfl⟩ := ht
  have hdrop := congrArg (dropBytes · (size (pre ++ s))) hsource
  simp only [← List.append_assoc, dropBytes_append] at hdrop
  rw [size_append, ← hpre, List.append_assoc, dropBytes_append] at hdrop
  exact ⟨pre, rest', by rw [hdrop, List.append_assoc], rfl, by rw [size_append, Nat.add_assoc]⟩

/-- The part up to the end is what an offset leaves. -/
theorem IsSlice.eq_dropBytes (h : IsSlice source start (size source) t) :
    t = dropBytes source start := by
  obtain ⟨pre, rest, rfl, rfl, hstop⟩ := h
  rw [size_append, size_append] at hstop
  rw [dropBytes_append, eq_nil_of_size (t := rest) (by omega), List.append_nil]

end

end Text

open Text (IsSlice IsBoundary)

/-- The tokens stand in the source one behind the other, from an offset on.  A token of the end of
the input holds no text. -/
inductive InOrder (source : Text) : Nat → List Token → Prop
  | nil {start : Nat} (hstart : IsBoundary source start) : InOrder source start []
  | cons {start : Nat} {t : Token} {ts : List Token} (hstart : IsBoundary source start)
      (hgap : start ≤ t.start) (ht : IsBoundary source t.start) (hle : t.start ≤ t.stop)
      (heof : t.kind = .eof → t.start = t.stop) (hts : InOrder source t.stop ts) :
      InOrder source start (t :: ts)

theorem InOrder.isBoundary {source : Text} {start : Nat} (h : InOrder source start ts) :
    IsBoundary source start := by
  cases h <;> assumption

namespace Operation

/-- What an operation that treats a token makes of the gap before it and of its text. -/
def treatment? : Operation → Option (Text → Text → Text)
  | copy => some fun gap text => gap ++ text
  | replace t => some fun gap _ => gap ++ t
  | replaceTrimmed t => some fun gap _ => Text.newlines gap ++ t
  | remove => some fun gap _ => Text.newlines gap
  | removeInitial => some fun gap _ => gap
  | _ => none

/-- Does an operation pass a token? -/
def passes : Operation → Bool
  | append _ | lineAt _ => false
  | _ => true

/-- Treats a token, or writes a text. -/
inductive IsPlain : Operation → Prop
  | treat {o : Operation} {f : Text → Text → Text} (h : o.treatment? = some f) : IsPlain o
  | append (t : Text) : IsPlain (.append t)

/-- Performs operations one after the other. -/
def perform : List Operation → Edit Unit
  | [] => pure ()
  | o :: ops => do
    o.edit
    perform ops

end Operation

/-- What operations write that treat the tokens, of which the first follows an offset. -/
inductive IsOutput (source : Text) : Nat → List Token → List Operation → Text → Prop
  | done {start : Nat} {tail : Text} (h : IsSlice source start (Text.size source) tail) :
      IsOutput source start [] [] tail
  | append {start : Nat} {ts : List Token} {ops : List Operation} {out : Text} (t : Text)
      (h : IsOutput source start ts ops out) : IsOutput source start ts (.append t :: ops) (t ++ out)
  | treat {start : Nat} {t : Token} {ts : List Token} {o : Operation} {ops : List Operation}
      {f : Text → Text → Text} {gap text out : Text} (ho : o.treatment? = some f)
      (hgap : IsSlice source start t.start gap) (htext : IsSlice source t.start t.stop text)
      (h : IsOutput source t.stop ts ops out) :
      IsOutput source start (t :: ts) (o :: ops) (f gap text ++ out)

namespace Operation

variable {p : Program} {d : Draft} {o : Operation} {ops : List Operation} {f : Text → Text → Text}

/-- How a treatment ends. -/
theorem edit_of_treatment? (h : o.treatment? = some f) :
    o.edit p d =
      let d' := { d with out := d.out ++ f (p.gapBefore d.index) (p.textAt d.index) }
      if d.index < p.count then .ok () { d' with index := d.index + 1 }
      else .error (.invariant .endOfInput) d' := by
  have hreplace (gap t : Text) : (do Edit.append gap; Edit.append t; Edit.skip : Edit Unit) p d =
      if d.index < p.count then .ok () { d with out := d.out ++ (gap ++ t), index := d.index + 1 }
      else .error (.invariant .endOfInput) { d with out := d.out ++ (gap ++ t) } := by
    rw [← List.append_assoc]
    exact Edit.skip_apply p { d with out := d.out ++ gap ++ t }
  cases o <;> cases h
  case copy => exact hreplace (p.gapBefore d.index) (p.textAt d.index)
  case replace t => exact hreplace (p.gapBefore d.index) t
  case replaceTrimmed t => exact hreplace (Text.newlines (p.gapBefore d.index)) t
  case remove =>
    have hremove := hreplace (Text.newlines (p.gapBefore d.index)) []
    rwa [List.append_nil] at hremove
  case removeInitial =>
    have hremove := hreplace (p.gapBefore d.index) []
    rwa [List.append_nil] at hremove

theorem passes_of_treatment? (h : o.treatment? = some f) : o.passes = true := by
  cases o <;> first | rfl | cases h

/-- Past the last token no operation passes a token. -/
theorem edit_eq_error (ho : o.passes = true) (hd : p.count ≤ d.index) :
    ∃ e d', o.edit p d = .error e d' := by
  have htreat {o : Operation} {f : Text → Text → Text} (h : o.treatment? = some f) :
      ∃ e d', o.edit p d = .error e d' := by
    rw [edit_of_treatment? h]
    exact ⟨_, _, if_neg (Nat.not_lt.mpr hd)⟩
  cases o with
  | append t => cases ho
  | lineAt offset => cases ho
  | skip => exact ⟨_, _, (Edit.skip_apply p d).trans (if_neg (Nat.not_lt.mpr hd))⟩
  | copyExpected kind =>
    rw [edit, Edit.copyExpected_apply]
    split
    · exact htreat (o := copy) rfl
    · exact ⟨_, _, rfl⟩
  | copy | replace | replaceTrimmed | remove | removeInitial => exact htreat rfl

/-- The gap before the next token and the token itself, where the tokens are in order. -/
theorem isSlice_of_inOrder {i start : Nat} {t : Token}
    (hstart : Grammar.gapStart p.source p.tokens i = start) (hts : p.tokens.toList.drop i = t :: ts)
    (h : InOrder p.source start (t :: ts)) :
    IsSlice p.source start t.start (p.gapBefore i) ∧ IsSlice p.source t.start t.stop (p.textAt i)
      ∧ Grammar.gapStart p.source p.tokens (i + 1) = t.stop := by
  obtain ⟨htoken, hlt, -⟩ := Program.tokenAt_of_drop hts
  have hget := Program.tokenAt_of_lt hlt
  rw [htoken] at hget
  cases h with
  | cons hboundary hgap ht hle heof hts =>
    have hslice : p.textAt i = Text.slice p.source t.start t.stop := by
      rw [Program.textAt, htoken, Token.text]
      split
      · rename_i hkind
        rw [heof hkind, Text.slice, Nat.sub_self]
        cases Text.dropBytes p.source t.stop <;> rfl
      · rfl
    refine ⟨?_, hslice ▸ Text.isSlice_slice ht hts.isBoundary hle, ?_⟩
    · have heq : p.gapBefore i = Text.slice p.source start t.start := by
        rw [← hstart]
        exact (Grammar.gapBefore_eq i).trans (by rw [hget, Option.elim_some])
      exact heq ▸ Text.isSlice_slice hboundary ht hgap
    · rw [Grammar.gapStart, hget, Option.elim_some]

/-- What a row of operations does from a place of the program on. -/
theorem perform_of_inOrder {start : Nat}
    (hstart : Grammar.gapStart p.source p.tokens d.index = start)
    (hts : p.tokens.toList.drop d.index = ts) (h : InOrder p.source start ts)
    (hops : ∀ o ∈ ops, o.IsPlain) (hcount : ops.countP passes ≤ ts.length) :
    ∃ d', perform ops p d = .ok () d' ∧ d'.index = d.index + ops.countP passes
      ∧ (ops.countP passes = ts.length → ∃ out, IsOutput p.source start ts ops out
        ∧ Edit.finish p d' = .ok (d.out ++ out) d') := by
  induction ops generalizing d start ts with
  | nil =>
    refine ⟨d, rfl, rfl, fun hlength => ?_⟩
    obtain rfl : ts = [] := List.length_eq_zero_iff.mp hlength.symm
    have hend : p.count ≤ d.index := List.drop_eq_nil_iff.mp hts
    have htail : p.gapBefore d.index = Text.slice p.source start (Text.size p.source) := by
      rw [← hstart]
      exact (Grammar.gapBefore_eq d.index).trans (by rw [Array.getElem?_eq_none hend]; rfl)
    refine ⟨p.gapBefore d.index, .done ?_, by rw [Edit.finish_apply, if_pos hend]⟩
    exact htail ▸ Text.isSlice_slice h.isBoundary ⟨p.source, [], by simp⟩ h.isBoundary.le
  | cons o ops ih =>
    rw [List.forall_mem_cons] at hops
    cases hops.1 with
    | append t =>
      obtain ⟨d', hrun, hindex, hout⟩ :=
        ih (d := { d with out := d.out ++ t }) hstart hts h hops.2 hcount
      refine ⟨d', hrun, hindex, fun hlength => ?_⟩
      obtain ⟨out, hout, hfinish⟩ := hout hlength
      exact ⟨t ++ out, hout.append t, by rw [hfinish, List.append_assoc]⟩
    | @treat _ f ho =>
      rw [List.countP_cons_of_pos (passes_of_treatment? ho)] at hcount ⊢
      cases ts with
      | nil => cases hcount
      | cons t ts =>
        obtain ⟨hgap, htext, hnext⟩ := isSlice_of_inOrder hstart hts h
        obtain ⟨-, hlt, hrest⟩ := Program.tokenAt_of_drop hts
        let d₁ : Draft :=
          { d with
            out := d.out ++ f (p.gapBefore d.index) (p.textAt d.index), index := d.index + 1 }
        have hedit : o.edit p d = .ok () d₁ := (edit_of_treatment? ho).trans (if_pos hlt)
        obtain ⟨d', hrun, hindex, hout⟩ := ih (d := d₁) hnext hrest
          (by cases h; assumption) hops.2 (Nat.le_of_succ_le_succ hcount)
        refine ⟨d', ?_, by rw [hindex, Nat.add_assoc, Nat.add_comm 1], fun hlength => ?_⟩
        · change EStateM.bind (o.edit p) (fun _ => perform ops p) d = _
          rw [EStateM.bind, hedit, ← hrun]
        · obtain ⟨out, hout, hfinish⟩ := hout (Nat.succ.inj hlength)
          exact ⟨_, hout.treat ho hgap htext, by rw [hfinish, List.append_assoc]⟩

end Operation

/-- Copying every token gives back what it started from. -/
theorem IsOutput.isSlice_of_copy {source out : Text} {start : Nat}
    (h : IsOutput source start ts (List.replicate ts.length .copy) out) :
    IsSlice source start (Text.size source) out := by
  induction ts generalizing start out with
  | nil =>
    cases h with
    | done h => exact h
  | cons t ts ih =>
    rw [List.length_cons, List.replicate_succ] at h
    cases h with
    | treat ho hgap htext h =>
      cases ho
      exact (hgap.append htext).append (ih h)

open Operation in
/-- **Scripts mean what they say.**  Take a program whose tokens stand in its source one behind the
other, behind a leading `#!` line.  Operations that treat each token once, with texts written
anywhere in between, go through, and the output is what they say, put together from the parts of
the source between the offsets of the tokens.  Fewer operations go through as well, but the output
can be finished only if no token is left, and past the last token no operation passes one.  If all
tokens are copied, the output is the source behind its `#!` line. -/
theorem output_of_inOrder (p : Program)
    (h : InOrder p.source (Text.shebangSize p.source) p.tokens.toList) :
    (∀ ops, (∀ o ∈ ops, IsPlain o) → ops.countP passes = p.count → ∃ out d,
      perform ops p {} = .ok () d ∧ Edit.finish p d = .ok out d
        ∧ IsOutput p.source (Text.shebangSize p.source) p.tokens.toList ops out)
    ∧ (∀ ops, (∀ o ∈ ops, IsPlain o) → ops.countP passes ≤ p.count → ∃ d,
      perform ops p {} = .ok () d ∧ d.index = ops.countP passes)
    ∧ (∀ d, (∃ e d', Edit.finish p d = .error e d') ↔ d.index < p.count)
    ∧ (∀ d o, passes o = true → p.count ≤ d.index → ∃ e d', o.edit p d = .error e d')
    ∧ ∃ d, perform (List.replicate p.count .copy) p {} = .ok () d
      ∧ Edit.finish p d = .ok (Text.dropBytes p.source (Text.shebangSize p.source)) d := by
  have hperform (ops : List Operation) (hops : ∀ o ∈ ops, IsPlain o)
      (hcount : ops.countP passes ≤ p.count) := perform_of_inOrder (p := p) (d := {}) rfl rfl h hops hcount
  have hall (ops : List Operation) (hops : ∀ o ∈ ops, IsPlain o)
      (hcount : ops.countP passes = p.count) : ∃ out d, perform ops p {} = .ok () d
        ∧ Edit.finish p d = .ok out d
        ∧ IsOutput p.source (Text.shebangSize p.source) p.tokens.toList ops out := by
    obtain ⟨d, hrun, -, hout⟩ := hperform ops hops (Nat.le_of_eq hcount)
    obtain ⟨out, hout, hfinish⟩ := hout hcount
    exact ⟨out, d, hrun, hfinish, hout⟩
  refine ⟨hall, fun ops hops hcount => ?_, fun d => ?_, fun d o => edit_eq_error, ?_⟩
  · obtain ⟨d, hrun, hindex, -⟩ := hperform ops hops hcount
    exact ⟨d, hrun, by rw [hindex, Nat.zero_add]⟩
  · rw [Edit.finish_apply]
    by_cases hend : p.count ≤ d.index
    · simp [hend]
    · simp [hend, Nat.lt_of_not_le hend]
  · obtain ⟨out, d, hrun, hfinish, hout⟩ := hall (List.replicate p.count .copy)
      (fun o ho => (List.mem_replicate.mp ho).2 ▸ .treat rfl)
      (List.countP_replicate.trans (if_pos rfl))
    exact ⟨d, hrun, by rw [hfinish, hout.isSlice_of_copy.eq_dropBytes]⟩

/-- A program with a `#!` line and a comment. -/
def commentedProgram : Program :=
  { source := "#!x\na /*é\n*/ b\n".toList
    tokens := #[{ kind := .name, start := 4, stop := 5 }, { kind := .name, start := 14, stop := 15 }] }

theorem output_of_commentedProgram :
    ∃ out d, Operation.perform [.append "(".toList, .replace "c".toList, .remove, .append ")".toList]
        commentedProgram {} = .ok () d
      ∧ Edit.finish commentedProgram d = .ok out d
      ∧ IsOutput commentedProgram.source 4 commentedProgram.tokens.toList
        [.append "(".toList, .replace "c".toList, .remove, .append ")".toList] out := by
  have hboundary (n : Nat) (pre suf : String) (h : "#!x\na /*é\n*/ b\n" = pre ++ suf)
      (hsize : Text.size pre.toList = n) : IsBoundary commentedProgram.source n :=
    ⟨pre.toList, suf.toList, by rw [← String.toList_append, ← h]; rfl, hsize⟩
  have horder : InOrder commentedProgram.source 4 commentedProgram.tokens.toList :=
    .cons (hboundary 4 "#!x\n" "a /*é\n*/ b\n" rfl rfl) (by decide)
      (hboundary 4 "#!x\n" "a /*é\n*/ b\n" rfl rfl) (by decide) nofun
      (.cons (hboundary 5 "#!x\na" " /*é\n*/ b\n" rfl rfl) (by decide)
        (hboundary 14 "#!x\na /*é\n*/ " "b\n" rfl rfl) (by decide) nofun
        (.nil (hboundary 15 "#!x\na /*é\n*/ b" "\n" rfl rfl)))
  exact (output_of_inOrder commentedProgram horder).1 _
    (by simp only [List.forall_mem_cons]; exact ⟨.append _, .treat rfl, .treat rfl, .append _, nofun⟩) rfl

end Downlevel
