import Downlevel.Proofs.Grammar.Progress.Parts
import Downlevel.Proofs.Lower.Rules

/-!
# Lowering makes progress

Tokens are lowered inside each other and over and over again, a class even from
its start, but a nested token always comes after the one it is nested in, and a
round of a loop after the round before.  So the bounds for both are never felt.
-/

set_option synthInstance.maxSize 1000000000

namespace Downlevel

variable {source : Text} {o : Options} {e : Error} {tokens : Array Token}

theorem Error.ne_noProgress (e : Error) (h : e.isFatal = false) : e ≠ .invariant .noProgress := by
  rintro rfl
  cases h

namespace Lower

namespace Advances

/-! ## Lowering tokens -/

section

variable {plan : Plan} {lo : Nat} {past : Bool} {p q : Lower Unit}

/-- Past a token means from the next one on. -/
theorem past_of_succ (h : Advances plan (lo + 1) false Always p q) :
    Advances plan lo true Always p q where
  same hw := h.same ⟨hw.gt rfl, by simp, hw.le⟩
  heads hw := h.heads ⟨hw.gt rfl, by simp, hw.le⟩

/-- Beyond the last token there is no work. -/
theorem of_count_lt (h : plan.program.count < lo) : Advances plan lo false Always p q where
  same hw := absurd (Nat.le_trans hw.ge hw.le) (Nat.not_le.mpr h)
  heads hw := absurd (Nat.le_trans hw.ge hw.le) (Nat.not_le.mpr h)

/-- All depths that leave one level for each token from `lo` on do the same. -/
theorem tokenWithin {depth depth' : Nat} (h : plan.program.count < depth + lo)
    (h' : plan.program.count < depth' + lo) :
    Advances plan lo false Always (Lower.tokenWithin depth) (Lower.tokenWithin depth') := by
  induction depth generalizing lo depth' with
  | zero => exact of_count_lt (by omega)
  | succ depth ih =>
    cases depth' with
    | zero => exact of_count_lt (by omega)
    | succ depth' =>
      -- a token inside the one here comes after it
      have hnested : Advances plan lo true Always (Lower.tokenWithin depth)
          (Lower.tokenWithin depth') := past_of_succ (ih (by omega) (by omega))
      exact tokenStep

theorem token_apply (plan : Plan) (w : Work) :
    Lower.token plan w = Lower.tokenWithin (plan.program.count + 2) plan w := by
  unfold Lower.token
  rw [bind_apply]
  rfl

theorem token_tokenWithin {depth : Nat} (h : plan.program.count < depth + lo) :
    Advances plan lo false Always Lower.token (Lower.tokenWithin depth) := by
  have hbound : Advances plan lo false Always (Lower.tokenWithin (plan.program.count + 2))
      (Lower.tokenWithin depth) := tokenWithin (by omega) h
  refine ⟨fun {w} hw => ?_, fun {w} hw => ?_⟩
  · rw [token_apply, hbound.same hw]
  · have hheads := hbound.heads hw
    unfold Heads Ends at hheads ⊢
    rwa [token_apply]

instance token : Advances plan lo past Always Lower.token Lower.token where
  same _ := rfl
  heads hw := by
    have hbound : Advances plan lo false Always Lower.token
        (Lower.tokenWithin (plan.program.count + 2)) := token_tokenWithin (by omega)
    exact hbound.heads ⟨hw.ge, nofun, hw.le⟩

end

/-! ## The whole program -/

section

variable {plan : Plan} {lo : Nat} {past : Bool}

instance : Mild .strayCloser := ⟨rfl⟩

instance : Advances plan lo past Never preamble preamble :=
  of_draft fun _ => rfl

instance : Advances plan lo past Never postamble postamble := by
  unfold postamble
  refine .after fun plan' => ?_
  split <;> infer_instance

instance : Advances plan lo past Never (edit Edit.finish) (edit Edit.finish) := by
  refine of_draft fun w => ?_
  rw [ends_finishDraft]
  split <;> rfl

instance : Advances plan lo past Never finish finish := by
  unfold finish
  infer_instance

end

end Advances

end Lower

namespace Linkage

variable {ts : List Token}

theorem isFatal_importOf (h : importOf source ts = .error e) : e.isFatal = false := by
  have hmalformed : e = .invariant .malformedImport := by
    unfold importOf at h
    grind
  rw [hmalformed]
  rfl

theorem isFatal_scan {ds : Dependencies} (h : Dependencies.scan source ds ts = .error e) :
    e.isFatal = false := by
  induction ts generalizing ds with
  | nil => cases h
  | cons t ts ih =>
    rw [Dependencies.scan] at h
    split at h
    · exact ih h
    split at h
    · split at h
      · exact ih h
      · rename_i e' himport
        cases h
        exact isFatal_importOf himport
    split at h
    · exact ih h
    · exact ih h

theorem isFatal_ofTokens {names : Names} (h : Bindings.ofTokens source ts o names = .error e) :
    e.isFatal = false := by
  unfold Bindings.ofTokens Dependencies.ofTokens at h
  cases hscan : Dependencies.scan source {} ts with
  | error e' =>
    rw [hscan] at h
    cases h
    exact isFatal_scan hscan
  | ok ds =>
    rw [hscan] at h
    cases h

end Linkage

theorem isFatal_prepare (h : Plan.prepare source tokens o = .error e) : e.isFatal = false := by
  unfold Plan.prepare at h
  dsimp only at h
  split at h
  · cases hbindings : Linkage.Bindings.ofTokens source tokens.toList o
        (Names.ofTokens source tokens.toList) with
    | error e' =>
      rw [hbindings] at h
      cases h
      exact Linkage.isFatal_ofTokens hbindings
    | ok found =>
      rw [hbindings] at h
      cases h
  · cases h

/-- A plan is for the program and the options that it is made of, and the work has taken names
and done nothing else. -/
theorem made_of_prepare {plan : Plan} {w : Work} (h : Plan.prepare source tokens o = .ok (plan, w)) :
    plan.program = { source, tokens } ∧ plan.options = o ∧ w = { names := w.names } := by
  unfold Plan.prepare at h
  dsimp only at h
  split at h
  · cases hbindings : Linkage.Bindings.ofTokens source tokens.toList o
        (Names.ofTokens source tokens.toList) with
    | error e' =>
      rw [hbindings] at h
      cases h
    | ok found =>
      rw [hbindings] at h
      obtain ⟨rfl, rfl⟩ := Prod.mk.inj (Except.ok.inj h)
      exact ⟨rfl, rfl, rfl⟩
  · obtain ⟨rfl, rfl⟩ := Prod.mk.inj (Except.ok.inj h)
    exact ⟨rfl, rfl, rfl⟩

theorem eq_of_prepare {plan : Plan} {w : Work} (h : Plan.prepare source tokens o = .ok (plan, w)) :
    plan.program = { source, tokens } ∧ plan.options = o ∧ w.index = 0 := by
  obtain ⟨hprogram, hoptions, hw⟩ := made_of_prepare h
  exact ⟨hprogram, hoptions, congrArg Work.index hw⟩

/-- Is there a plan for the source, and does it pass the test with the work that it
starts with? -/
def preparesWith (source : Text) (o : Options) (test : Plan → Work → Bool) : Bool :=
  match Grammar.parse source o with
  | .ok tokens =>
    match Plan.prepare source tokens o with
    | .ok (plan, start) => test plan start
    | .error _ => false
  | .error _ => false

theorem exists_of_preparesWith {test : Plan → Work → Bool} (h : preparesWith source o test = true) :
    ∃ tokens plan start, Grammar.parse source o = .ok tokens
      ∧ Plan.prepare source tokens o = .ok (plan, start) ∧ test plan start = true := by
  unfold preparesWith at h
  split at h
  case h_2 => cases h
  rename_i tokens hparse
  split at h
  case h_2 => cases h
  rename_i plan start hprepare
  exact ⟨tokens, plan, start, hparse, hprepare, h⟩

namespace Lower

section

variable {plan : Plan} {w : Work}

theorem reached_of_le (h : w.index ≤ plan.program.count) : Reached plan 0 false w :=
  ⟨Nat.zero_le _, nofun, h⟩

theorem heads_of_advances {α : Type} {R : α → Prop} {p : Lower α} [ha : Advances plan 0 false R p p]
    (h : w.index ≤ plan.program.count) : Heads plan R p w :=
  ha.heads (reached_of_le h)

theorem Heads.passes {α : Type} {p : Lower α} (h : Heads plan Always p w) :
    Ends plan p w (fun _ w' => w.index < w'.index ∧ w'.index ≤ plan.program.count
      ∧ w.draft.out <+: w'.draft.out) fun e => e ≠ .invariant .noProgress := by
  refine h.weaken (fun _ w' hw' => ?_) Error.ne_noProgress
  exact ⟨hw'.2 trivial, hw'.1.le_count, hw'.1.grows⟩

/-- The recursion of lowering does not come to its bound. -/
theorem token_eq_tokenStep (h : w.index ≤ plan.program.count) :
    token plan w = tokenStep token plan w := by
  have hnested : Advances plan 0 true Always token (tokenWithin (plan.program.count + 1)) :=
    .past_of_succ (.token_tokenWithin (by omega))
  have hstep : Advances plan 0 false Always (tokenStep token)
      (tokenStep (tokenWithin (plan.program.count + 1))) := inferInstance
  calc token plan w
      = tokenStep (tokenWithin (plan.program.count + 1)) plan w := Advances.token_apply plan w
    _ = tokenStep token plan w := (hstep.same (reached_of_le h)).symm

end

end Lower

theorem error_of_bind {α β : Type} {x : Except Error α} {f : α → Except Error β}
    (h : x >>= f = .error e) : x = .error e ∨ ∃ a, x = .ok a ∧ f a = .error e := by
  cases x with
  | error e' => exact .inl (congrArg Except.error (Except.error.inj h))
  | ok a => exact .inr ⟨a, rfl, h⟩

theorem isFatal_transform (h : transform source o = .error e) : e.isFatal = false := by
  unfold transform at h
  obtain hvalid | ⟨_, -, h⟩ := error_of_bind h
  · unfold Options.validate at hvalid
    grind [Error.isFatal]
  obtain hparse | ⟨tokens, -, h⟩ := error_of_bind h
  · exact (Grammar.located_of_parse hparse).isFatal
  obtain hprepare | ⟨⟨plan, w⟩, hprepare, h⟩ := error_of_bind h
  · exact isFatal_prepare hprepare
  have hindex : w.index = 0 := (eq_of_prepare hprepare).2.2
  have hheads : Lower.Heads plan Never Lower.finish w :=
    Lower.heads_of_advances (by omega)
  unfold Lower.Heads Lower.Ends at hheads
  dsimp only at h
  cases hfinish : Lower.finish plan w with
  | ok code w' =>
    rw [hfinish] at h
    cases h
  | error e' w' =>
    rw [hfinish] at h hheads
    cases h
    exact hheads

namespace Lower

/-- **Lowering makes progress.**  From every work whose next token is one of the
program, or the end, a token is lowered as the recursion says that has no bound,
and unless that fails the work has gone on past the token, is not past the end
and has added to the output.  Going through a class for its layout comes back to
the draft, lowering the class and lowering tokens up to a closing bracket go on,
and none of them, nor lowering a whole source, ends because it stood still. -/
theorem lowering_makes_progress :
    (∀ (plan : Plan) (w : Work), w.index ≤ plan.program.count →
      token plan w = tokenStep token plan w
      ∧ Ends plan token w
          (fun _ w' => w.index < w'.index ∧ w'.index ≤ plan.program.count
            ∧ w.draft.out <+: w'.draft.out)
          (fun e => e ≠ .invariant .noProgress)
      ∧ Ends plan (balanced token) w
          (fun _ w' => w.index ≤ w'.index ∧ w'.index ≤ plan.program.count
            ∧ w.draft.out <+: w'.draft.out)
          (fun e => e ≠ .invariant .noProgress)
      ∧ Ends plan (classLayout token) w (fun _ w' => w'.draft = w.draft)
          (fun e => e ≠ .invariant .noProgress)
      ∧ Ends plan (classRule token) w
          (fun _ w' => w.index < w'.index ∧ w'.index ≤ plan.program.count
            ∧ w.draft.out <+: w'.draft.out)
          (fun e => e ≠ .invariant .noProgress))
    ∧ ∀ (source : Text) (o : Options), transform source o ≠ .error (.invariant .noProgress) := by
  refine ⟨fun plan w h => ?_, fun source o htransform => nomatch isFatal_transform htransform⟩
  have htoken : Heads plan Always token w := heads_of_advances h
  have hbalanced : Heads plan Never (balanced token) w :=
    heads_of_advances h
  have hscan : Heads plan Always (scanClass token) w :=
    heads_of_advances h
  have hclass : Heads plan Always (classRule token) w :=
    heads_of_advances h
  refine ⟨token_eq_tokenStep h, htoken.passes, ?_, ?_, hclass.passes⟩
  · refine hbalanced.weaken (fun _ w' hw' => ?_) Error.ne_noProgress
    exact ⟨hw'.1.index_le, hw'.1.le_count, hw'.1.grows⟩
  · exact (Advances.ends_classLayout hscan).weaken (fun _ _ => id) Error.ne_noProgress

/-- A class whose field is a class with a field. -/
def nestedFieldSource : Text :=
  "class A \x7b x = class \x7b y = 1 \x7d \x7d".toList

theorem token_nestedFieldSource :
    ∃ tokens plan w, Grammar.parse nestedFieldSource {} = .ok tokens
      ∧ Plan.prepare nestedFieldSource tokens {} = .ok (plan, w)
      ∧ w.index < plan.program.count
      ∧ Ends plan token w
          (fun _ w' => w.index < w'.index ∧ w'.index ≤ plan.program.count
            ∧ w.draft.out <+: w'.draft.out)
          (fun e => e ≠ .invariant .noProgress) := by
  have h : preparesWith nestedFieldSource {}
      (fun plan w => decide (w.index < plan.program.count)) = true := by decide +kernel
  obtain ⟨tokens, plan, w, hparse, hprepare, htest⟩ := exists_of_preparesWith h
  have hlt : w.index < plan.program.count := of_decide_eq_true htest
  have hprogress := lowering_makes_progress.1 plan w (Nat.le_of_lt hlt)
  exact ⟨tokens, plan, w, hparse, hprepare, hlt, hprogress.2.1⟩

end Lower

end Downlevel
