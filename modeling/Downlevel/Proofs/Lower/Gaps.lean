import Downlevel.Proofs.Names
import Downlevel.Proofs.Lower.Progress

/-!
# Every token is lowered behind its gap

Whatever becomes of a token, the first thing that is written for it is the gap
before it.  Only the variable of a class with static fields comes before that.
-/

set_option synthInstance.maxSize 1000000000

namespace Downlevel.Lower

/-- The next token is passed, and the gap before it is written first. -/
structure OpensWithGap (plan : Plan) (w w' : Work) : Prop where
  lt : w.index < w'.index
  le : w'.index ≤ plan.program.count
  grows : w.draft.out ++ plan.program.gapBefore w.index <+: w'.draft.out

theorem OpensWithGap.onward {plan : Plan} {w w' w'' : Work} (h : OpensWithGap plan w w')
    (h' : Onward plan w' w'') : OpensWithGap plan w w'' :=
  ⟨Nat.lt_of_lt_of_le h.lt h'.index_le, h'.le_count, h.grows.trans h'.grows⟩

theorem index_of_draft {w w' : Work} (h : w'.draft = w.draft) : w'.index = w.index :=
  congrArg Draft.index h

theorem OpensWithGap.of_draft {plan : Plan} {w w' w'' : Work} (h : OpensWithGap plan w' w'')
    (heq : w'.draft = w.draft) : OpensWithGap plan w w'' := by
  have hindex : w'.index = w.index := index_of_draft heq
  obtain ⟨hlt, hle, hgrows⟩ := h
  rw [heq, hindex] at hgrows
  exact ⟨hindex ▸ hlt, hle, hgrows⟩

/-- A step that leaves the draft as it is. -/
class Still {α : Type} (plan : Plan) (p : Lower α) : Prop where
  ends : ∀ {w}, w.index ≤ plan.program.count →
    Ends plan p w (fun _ w' => w'.draft = w.draft) fun _ => True

/-- A step that writes the gap before the next token first, unless it leaves the
draft as it is and its result is not in `R`. -/
class Opens {α : Type} (plan : Plan) (R : α → Prop) (p : Lower α) : Prop where
  ends : ∀ {w}, w.index ≤ plan.program.count →
    Ends plan p w (fun a w' => OpensWithGap plan w w' ∨ ¬R a ∧ w'.draft = w.draft) fun _ => True

section

variable {α β : Type} {plan : Plan} {R : α → Prop} {R' : β → Prop} {p : Lower α} {f : α → Lower β}
  {q : Lower α} {w : Work}

/-! ## Looking -/

instance (priority := low) [Looks p] : Still plan p :=
  ⟨fun _ => .of_looks fun _ => rfl⟩

instance {o : Option α} {b : Breach} : Still plan (orBreach o b) where
  ends _ := by
    rw [ends_orBreach]
    cases o with
    | none => exact trivial
    | some a => rfl

instance Still.bind [hp : Still plan p] [hf : ∀ a, Still plan (f a)] : Still plan (p >>= f) where
  ends hw := by
    refine (hp.ends hw).bind fun a w' heq => ?_
    refine ((hf a).ends (index_of_draft heq ▸ hw)).mono fun _ w'' heq' => ?_
    exact heq'.trans heq

instance (priority := low) Still.of_unfolds [h : Unfolds p q] [hstill : Still plan q] :
    Still plan p := by
  rw [h.eq]
  exact hstill

/-! ## Writing -/

namespace Opens

theorem of_pass {p : Lower Unit} (t : Work → Text)
    (h : ∀ {w Q E}, Ends plan p w Q E ↔
      if w.index < plan.program.count then
        Q () ((w.write (plan.program.gapBefore w.index ++ t w)).moveTo (w.index + 1))
      else E (.invariant .endOfInput)) : Opens plan Always p where
  ends {w} _ := by
    rw [h]
    split
    · rename_i hlt
      refine .inl ⟨Nat.lt_succ_self _, hlt, t w, ?_⟩
      simp [Work.write, Work.moveTo]
    · exact trivial

instance {t : Text} : Opens plan Always (replace t) :=
  of_pass (fun _ => t) ends_replace

instance : Opens plan Always copy :=
  of_pass (fun w => plan.program.textAt w.index) ends_copy

instance : Opens plan Always removeInitial :=
  of_pass (fun _ => []) (by simp)

instance {kind : Kind} : Opens plan Always (copyExpected kind) where
  ends {w} hw := by
    rw [ends_copyExpected]
    split
    · exact ends hw
    · exact trivial

instance {b : Breach} : Opens plan R (breach b : Lower α) := ⟨fun _ => trivial⟩

instance : Opens plan Applied (pure false : Lower Bool) :=
  ⟨fun _ => .inr ⟨nofun, rfl⟩⟩

/-! ## Putting steps together -/

/-- The first step only looks. -/
instance bind_still [hp : Still plan p] [hf : ∀ a, Opens plan R' (f a)] :
    Opens plan R' (p >>= f) where
  ends {w} hw := by
    refine (hp.ends hw).bind fun a w' heq => ?_
    refine ((hf a).ends (index_of_draft heq ▸ hw)).mono fun b w'' hopens => ?_
    rcases hopens with hopens | ⟨hb, heq'⟩
    · exact .inl (hopens.of_draft heq)
    · exact .inr ⟨hb, heq'.trans heq⟩

/-- The first step writes the gap, and what comes after it goes on. -/
instance (priority := high) bind_onward [hp : Opens plan Always p]
    [hf : ∀ a, Advances plan 0 true Never (f a) (f a)] : Opens plan R' (p >>= f) where
  ends {w} hw := by
    refine (hp.ends hw).bind fun a w' hopens => ?_
    rcases hopens with hopens | ⟨hnot, -⟩
    · have hreached : Reached plan 0 true w' :=
        ⟨Nat.zero_le _, fun _ => Nat.zero_lt_of_lt hopens.lt, hopens.le⟩
      refine ((hf a).heads hreached).weaken (fun b w'' hw'' => ?_) fun _ _ => trivial
      exact .inl (hopens.onward hw''.1)
    · exact absurd trivial hnot

instance {P : Prop} [Decidable P] [hp : Opens plan R p] [hq : Opens plan R q] :
    Opens plan R (if P then p else q) := by
  split
  · exact hp
  · exact hq

theorem after [Still plan p] (hf : ∀ a, Opens plan R' (f a)) : Opens plan R' (p >>= f) :=
  bind_still

instance (priority := low) [h : Unfolds p q] [hopens : Opens plan R q] :
    Opens plan R p := by
  rw [h.eq]
  exact hopens

/-! ## Rules -/

instance : Opens plan Applied (componentRule token) := by
  unfold componentRule
  refine .after fun p => .after fun start => ?_
  split
  · split
    · refine .after fun code => ?_
      dsimp only
      split <;> infer_instance
    · infer_instance
  · infer_instance

instance : Opens plan Applied reference := by
  unfold reference
  refine .after fun t => ?_
  split
  · refine .after fun name => .after fun b => ?_
    split <;> infer_instance
  · infer_instance

instance : Opens plan Always (exportVariables token) := by
  unfold exportVariables
  refine .after fun p => .after fun start => .after fun t => ?_
  split <;> infer_instance

instance {defaultIndex : Nat} : Opens plan Always (exportDefault token defaultIndex) := by
  unfold exportDefault
  refine .after fun p => ?_
  dsimp only
  split <;> infer_instance

instance : Opens plan Always exportAll := by
  unfold exportAll
  refine .after fun p => .after fun i => .after fun name => ?_
  cases name <;> infer_instance

instance : Opens plan Always (exportDeclaration token) := by
  unfold exportDeclaration
  dsimp only
  refine .after fun p => .after fun i => ?_
  split <;> infer_instance

theorem firstOf {l : List (Lower Bool)} (h : ∀ rule ∈ l, Opens plan Applied rule)
    (hadvances : List.Forall₂ (Advances plan 0 true Applied) l l) :
    Opens plan Always (Lower.firstOf l) := by
  induction l with
  | nil => exact inferInstanceAs (Opens plan Always copy)
  | cons rule l ih =>
    obtain ⟨-, htail⟩ := List.forall₂_cons.mp hadvances
    refine ⟨fun {w} hw => ?_⟩
    refine ((h rule (List.mem_cons_self ..)).ends hw).bind fun b w' hb => ?_
    rcases hb with hopens | ⟨hb, heq⟩
    · have hreached : Reached plan 0 true w' :=
        ⟨Nat.zero_le _, fun _ => Nat.zero_lt_of_lt hopens.lt, hopens.le⟩
      have hrest : Advances plan 0 true Always (Lower.firstOf l) (Lower.firstOf l) :=
        Advances.firstOf htail
      cases b with
      | true => exact .inl hopens
      | false =>
        refine (hrest.heads hreached).weaken (fun _ w'' hw'' => ?_) fun _ _ => trivial
        exact .inl (hopens.onward hw''.1)
    · obtain rfl : b = false := Bool.eq_false_iff.mpr hb
      have hrest := ih (fun rule hmem => h rule (List.mem_cons_of_mem _ hmem)) htail
      refine (hrest.ends (index_of_draft heq ▸ hw)).mono fun _ w'' hw'' => ?_
      rcases hw'' with hopens | ⟨hnot, -⟩
      · exact .inl (hopens.of_draft heq)
      · exact absurd trivial hnot

theorem rules {o : Options} : ∀ rule ∈ Lower.rules o token, Opens plan Applied rule := by
  intro rule hrule
  simp only [Lower.rules, List.mem_append] at hrule
  rcases hrule with (((hrule | hrule) | hrule) | hrule) | hrule
  · split at hrule <;> simp only [List.mem_cons, List.not_mem_nil, or_false] at hrule
    rcases hrule with rfl | rfl <;> infer_instance
  · split at hrule <;> simp only [List.mem_cons, List.not_mem_nil, or_false] at hrule
    subst hrule
    infer_instance
  · split at hrule <;> simp only [List.mem_cons, List.not_mem_nil, or_false] at hrule
    rcases hrule with rfl | rfl <;> infer_instance
  · split at hrule <;> simp only [List.mem_cons, List.not_mem_nil, or_false] at hrule
    rcases hrule with rfl | rfl | rfl <;> infer_instance
  · simp only [List.mem_cons, List.not_mem_nil, or_false] at hrule
    rcases hrule with rfl | rfl <;> infer_instance

end Opens

/-! ## Tokens -/

/-- The text has no line terminator. -/
def IsUnbroken (t : Text) : Prop :=
  ∀ c ∈ t, Character.isLineTerminator c = false

instance (t : Text) : Decidable (IsUnbroken t) :=
  List.decidableBAll _ t

theorem isUnbroken_append {s t : Text} : IsUnbroken (s ++ t) ↔ IsUnbroken s ∧ IsUnbroken t := by
  simp only [IsUnbroken, List.mem_append]
  exact ⟨fun h => ⟨fun c hc => h c (.inl hc), fun c hc => h c (.inr hc)⟩,
    fun h c hc => hc.elim (h.1 c) (h.2 c)⟩

/-- What may be written before the gap of the next token: nothing, or the
variable that a class is assigned to. -/
def IsLead (plan : Plan) (w : Work) (lead : Text) : Prop :=
  IsUnbroken lead ∧ (plan.program.kindAt w.index ≠ .kwClass → lead = [])

theorem isUnbroken_claim {n : Names} {base : Text} (h : IsUnbroken base) :
    IsUnbroken (n.claim base).1 := by
  obtain ⟨digits, hname, hdigits⟩ := n.exists_digits base
  change IsUnbroken (n.findFree base)
  rw [hname, isUnbroken_append]
  refine ⟨h, fun c hc => Bool.eq_false_iff.mpr fun hbreak => ?_⟩
  have hdigit := hdigits c hc
  simp only [Character.isLineTerminator, Bool.or_eq_true, beq_iff_eq] at hbreak
  rcases hbreak with ((rfl | rfl) | rfl) | rfl <;> exact absurd hdigit (by decide)

theorem ends_staticsName {layout : ClassLayout} (hkind : plan.program.kindAt w.index = .kwClass) :
    Ends plan (staticsName layout) w
      (fun _ w' => ∃ lead, IsLead plan w lead ∧ w'.draft = (w.write lead).draft) fun _ => True := by
  unfold staticsName claim
  refine Ends.ite (fun _ => ?_) fun _ => ⟨[], ⟨nofun, fun _ => rfl⟩, by simp [Work.write]⟩
  refine ⟨_, ⟨?_, fun hne => absurd hkind hne⟩, rfl⟩
  have hname : IsUnbroken (w.names.claim "_class".toList).1 :=
    isUnbroken_claim (by decide)
  rw [isUnbroken_append, isUnbroken_append]
  exact ⟨⟨by decide, hname⟩, by decide⟩

/-- The class keyword is copied behind the lead, and all else goes on from there. -/
theorem ends_classRule_gap (hw : w.index ≤ plan.program.count)
    (hkind : plan.program.kindAt w.index = .kwClass) :
    Ends plan (classRule token) w (fun _ w' => ∃ lead, IsLead plan w lead
      ∧ w.draft.out ++ lead ++ plan.program.gapBefore w.index <+: w'.draft.out) fun _ => True := by
  have hscan : Heads plan Always (scanClass token) w := heads_of_advances hw
  have hlayout := (Advances.ends_classLayout hscan).weaken (fun _ _ => id) fun _ _ => trivial
  unfold classRule
  refine Ends.bind hlayout fun layout w₁ heq => ?_
  have hindex : w₁.index = w.index := index_of_draft heq
  refine (ends_staticsName (w := w₁) (hindex ▸ hkind)).bind fun name w₂ hw₂ => ?_
  obtain ⟨lead, hlead, hdraft⟩ := hw₂
  have hindex₂ : w₂.index = w.index := (index_of_draft hdraft).trans hindex
  have hopens : Opens plan Always (do
      let id ← orBreach (← cur).context .classContext
      copyExpected .kwClass
      repeatWhile (return !(← isInContext .braceL id)) do
        if ← atEnd then breach .classBody else token
      classBody token layout id
      if !layout.statics.isEmpty then
        let name ← orBreach name .className
        append (staticsCode name layout.head.isExpression layout.statics)) := inferInstance
  refine (hopens.ends (hindex₂ ▸ hw)).mono fun _ w₃ hw₃ => ?_
  rcases hw₃ with hgap | ⟨hnot, -⟩
  · have hgrows := hgap.grows
    rw [hdraft, hindex₂] at hgrows
    unfold IsLead at hlead ⊢
    rw [hindex] at hlead
    exact ⟨lead, hlead, heq ▸ hgrows⟩
  · exact absurd trivial hnot

/-- What is written for a token starts with the gap before it. -/
theorem ends_token_gap (hw : w.index ≤ plan.program.count) :
    Ends plan token w (fun _ w' => ∃ lead, IsLead plan w lead
      ∧ w.draft.out ++ lead ++ plan.program.gapBefore w.index <+: w'.draft.out) fun _ => True := by
  have hrules : Opens plan Always (firstOf (rules plan.options token)) :=
    .firstOf Opens.rules Advances.rules
  unfold Ends
  rw [token_eq_tokenStep hw]
  change Ends plan (tokenStep token) w _ _
  unfold tokenStep
  rw [ends_bind, ends_cur]
  refine Ends.ite (fun hclass => ?_) fun _ => ?_
  · simp only [Bool.and_eq_true, decide_eq_true_eq] at hclass
    exact ends_classRule_gap hw hclass.1
  · rw [ends_bind, ends_read]
    refine (hrules.ends hw).mono fun _ w' hw' => ?_
    rcases hw' with hopens | ⟨hnot, -⟩
    · exact ⟨[], ⟨nofun, fun _ => rfl⟩, by simpa using hopens.grows⟩
    · exact absurd trivial hnot

end

end Downlevel.Lower
