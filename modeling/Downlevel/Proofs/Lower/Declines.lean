import Downlevel.Proofs.Lower.Ends

/-!
# Rules that do not apply

Each rule looks for something at the next token, and does nothing if that is not
there.  A token that all rules decline is copied.
-/

namespace Downlevel.Lower

/-- The rule does not apply to the next token. -/
def Declines (plan : Plan) (w : Work) (rule : Lower Bool) : Prop :=
  Ends plan rule w (fun b w' => b = false ∧ w' = w) fun _ => False

section

variable {plan : Plan} {w : Work} {rule : Lower Bool} {l l' : List (Lower Bool)}
  {Q : Unit → Work → Prop} {E : Error → Prop}

theorem ends_firstOf_cons (hrule : Ends plan rule w (fun b w' => if b then Q () w' else w' = w) E)
    (hrest : Ends plan (firstOf l) w Q E) : Ends plan (firstOf (rule :: l)) w Q E := by
  rw [firstOf]
  refine hrule.bind fun b w' hb => ?_
  cases b with
  | true => exact hb
  | false =>
    obtain rfl : w' = w := hb
    exact hrest

theorem Declines.ends_firstOf (h : Declines plan w rule) (hrest : Ends plan (firstOf l) w Q E) :
    Ends plan (firstOf (rule :: l)) w Q E := by
  refine ends_firstOf_cons (h.weaken ?_ fun _ => False.elim) hrest
  rintro b w' ⟨rfl, rfl⟩
  rfl

/-- Each rule does what is wanted or declines, and copying does it. -/
theorem ends_firstOf (h : ∀ rule ∈ l, Ends plan rule w (fun b w' => if b then Q () w' else w' = w) E)
    (hcopy : Ends plan copy w Q E) : Ends plan (firstOf l) w Q E := by
  induction l with
  | nil => exact hcopy
  | cons rule l ih =>
    exact ends_firstOf_cons (h rule (List.mem_cons_self ..))
      (ih fun rule hmem => h rule (List.mem_cons_of_mem _ hmem))

theorem ends_firstOf_append (h : ∀ rule ∈ l, Declines plan w rule)
    (h' : Ends plan (firstOf l') w Q E) : Ends plan (firstOf (l ++ l')) w Q E := by
  induction l with
  | nil => exact h'
  | cons rule l ih =>
    exact (h rule (List.mem_cons_self ..)).ends_firstOf
      (ih fun rule hmem => h rule (List.mem_cons_of_mem _ hmem))

end

/-! ## What each rule looks for -/

theorem mem_rules {o : Options} {token : Lower Unit} {rule : Lower Bool} (h : rule ∈ rules o token) :
    rule = elementRule token ∨ rule = componentRule token ∨ rule = moduleRule token
      ∨ rule = arrowParametersEnd ∨ rule = asyncTypeParameters token ∨ rule = typeRun
      ∨ rule = numericSeparators ∨ rule = catchBinding := by
  simp only [rules, List.mem_append] at h
  grind

section

variable {plan : Plan} {token : Lower Unit} {w : Work}

theorem declines_elementRule (h : plan.program.kindAt w.index ≠ .jsxTagStart) :
    Declines plan w (elementRule token) := by
  unfold Declines elementRule
  rw [ends_bind, ends_is, decide_eq_false h, if_neg Bool.false_ne_true]
  exact ⟨rfl, rfl⟩

theorem declines_componentRule
    (h : plan.program.kindAt w.index = .name → plan.program.isTypeAt w.index = false →
      plan.program.nameAt w.index ≠ "createReactClass".toList
      ∧ (plan.program.matchesAt w.index [.name, .dot, .name] = true →
        plan.program.nameAt w.index = "React".toList →
        plan.program.nameAt (w.index + 2) ≠ "createClass".toList)) :
    Declines plan w (componentRule token) := by
  unfold Declines componentRule
  rw [ends_bind, ends_program, ends_bind, ends_index]
  refine Ends.ite (fun hname => ?_) fun _ => ⟨rfl, rfl⟩
  simp only [Bool.and_eq_true, decide_eq_true_eq, Bool.not_eq_true'] at hname
  obtain ⟨hclass, hreact⟩ := h hname.1 hname.2
  rw [if_neg hclass]
  refine Ends.ite (fun hcall => ?_) fun _ => ⟨rfl, rfl⟩
  simp only [Bool.and_eq_true, decide_eq_true_eq] at hcall
  exact absurd hcall.2 (hreact hcall.1.1 hcall.1.2)

theorem declines_reference_of_none (h : (plan.program.tokenAt w.index).isReference = true →
      plan.bindings.map (·.replacement? (plan.program.nameAt w.index)) = some none) :
    Declines plan w reference := by
  unfold Declines reference
  rw [ends_bind, ends_cur]
  refine Ends.ite (fun hreference => ?_) fun _ => ⟨rfl, rfl⟩
  obtain ⟨b, hbindings, hnone⟩ := Option.map_eq_some_iff.mp (h hreference)
  rw [ends_bind, ends_curName, ends_bind]
  unfold bindings
  rw [ends_bind, ends_read, hbindings, ends_orBreach, Option.elim_some, hnone]
  exact ⟨rfl, rfl⟩

theorem declines_reference {b : Linkage.Bindings} (hbindings : plan.bindings = some b)
    (hnone : b.replacements = []) : Declines plan w reference := by
  refine declines_reference_of_none fun _ => ?_
  rw [hbindings, Option.map_some, Linkage.Bindings.replacement?, hnone]
  rfl

theorem declines_moduleRule_of_depth
    (h : plan.program.isTypeAt w.index = false →
      (plan.program.kindAt w.index = .kwImport ∨ plan.program.kindAt w.index = .kwExport →
        (plan.program.tokenAt w.index).depth ≠ 0)
      ∧ (plan.program.kindAt w.index = .name ∨ plan.program.kindAt w.index = .jsxName →
        Declines plan w reference)) :
    Declines plan w (moduleRule token) := by
  unfold Declines moduleRule
  rw [ends_bind, ends_cur]
  refine Ends.ite (fun _ => ⟨rfl, rfl⟩) fun htype => ?_
  obtain ⟨hdepth, hname⟩ := h (by simpa [Program.isTypeAt] using htype)
  refine Ends.ite (fun himport => ?_) fun _ => Ends.ite (fun hexport => ?_) fun _ => ?_
  · simp only [Bool.and_eq_true, decide_eq_true_eq] at himport
    exact absurd himport.2 (hdepth (.inl himport.1))
  · simp only [Bool.and_eq_true, decide_eq_true_eq] at hexport
    exact absurd hexport.2 (hdepth (.inr hexport.1))
  · refine Ends.ite (fun hkind => hname ?_) fun _ => ⟨rfl, rfl⟩
    simpa [Program.kindAt] using hkind

theorem declines_moduleRule
    (h : plan.program.isTypeAt w.index = false →
      plan.program.kindAt w.index ≠ .kwImport ∧ plan.program.kindAt w.index ≠ .kwExport
      ∧ (plan.program.kindAt w.index = .name ∨ plan.program.kindAt w.index = .jsxName →
        Declines plan w reference)) :
    Declines plan w (moduleRule token) := by
  refine declines_moduleRule_of_depth fun htype => ?_
  obtain ⟨himport, hexport, hname⟩ := h htype
  exact ⟨fun hkind => (hkind.elim himport hexport).elim, hname⟩

theorem declines_arrowParametersEnd_of_ne
    (h : plan.program.matchesAt w.index [.parenR, .colon] = true →
      plan.program.isTypeAt (w.index + 1) = true →
      plan.program.kindAt (plan.program.skipTypes (w.index + 1)) ≠ .arrow) :
    Declines plan w arrowParametersEnd := by
  unfold Declines arrowParametersEnd
  rw [ends_bind, ends_program, ends_bind, ends_index]
  refine Ends.ite (fun hparen => ?_) fun _ => ⟨rfl, rfl⟩
  obtain ⟨hmatches, htype⟩ := Bool.and_eq_true_iff.mp hparen
  exact Ends.ite (fun harrow => absurd harrow (h hmatches htype)) fun _ => ⟨rfl, rfl⟩

theorem declines_arrowParametersEnd
    (h : plan.program.kindAt w.index = .parenR → plan.program.isTypeAt (w.index + 1) = false) :
    Declines plan w arrowParametersEnd := by
  refine declines_arrowParametersEnd_of_ne fun hmatches htype => ?_
  rw [h (Program.kindAt_of_matchesAt hmatches)] at htype
  cases htype

theorem declines_asyncTypeParameters_of_name
    (h : plan.program.isNameAt w.index "async".toList = true →
      plan.program.isTypeAt w.index = false → plan.program.kindAt (w.index + 1) = .lessThan →
      plan.program.isTypeAt (w.index + 1) = false) :
    Declines plan w (asyncTypeParameters token) := by
  unfold Declines asyncTypeParameters
  rw [ends_bind, ends_program, ends_bind, ends_index]
  refine Ends.ite (fun hasync => ?_) fun _ => ⟨rfl, rfl⟩
  simp only [Bool.and_eq_true, decide_eq_true_eq, Bool.not_eq_true'] at hasync
  obtain ⟨⟨⟨hname, hvalue⟩, hless⟩, htype⟩ := hasync
  rw [h hname hvalue hless] at htype
  cases htype

theorem declines_asyncTypeParameters
    (h : plan.program.kindAt w.index = .name → plan.program.isTypeAt w.index = false →
      plan.program.isTypeAt (w.index + 1) = false) :
    Declines plan w (asyncTypeParameters token) := by
  exact declines_asyncTypeParameters_of_name
    fun hname hvalue _ => h (Program.isNameAt_iff.mp hname).1 hvalue

theorem declines_typeRun (h : plan.program.isTypeAt w.index = false) :
    Declines plan w typeRun := by
  unfold Declines typeRun
  rw [ends_bind, ends_isType, h, if_neg Bool.false_ne_true]
  exact ⟨rfl, rfl⟩

theorem declines_numericSeparators
    (h : plan.program.kindAt w.index = .num ∨ plan.program.kindAt w.index = .bigInt →
      (plan.program.textAt w.index).contains '_' = false) :
    Declines plan w numericSeparators := by
  unfold Declines numericSeparators
  simp only [ends_bind, ends_is]
  refine Ends.ite (fun hkind => ?_) fun _ => ⟨rfl, rfl⟩
  rw [ends_bind, ends_curText, h (by simpa using hkind), if_neg Bool.false_ne_true]
  exact ⟨rfl, rfl⟩

theorem declines_catchBinding (h : plan.program.matchesAt w.index [.kwCatch, .braceL] = false) :
    Declines plan w catchBinding := by
  unfold Declines catchBinding
  rw [ends_bind, ends_comes, h, if_neg Bool.false_ne_true]
  exact ⟨rfl, rfl⟩

end

end Downlevel.Lower
