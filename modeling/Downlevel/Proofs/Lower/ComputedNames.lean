import Downlevel.Proofs.Lower.FieldRanges
import Downlevel.Proofs.Lower.Unchanged

/-!
# Computed names of fields

A field becomes an assignment to a property.  Its value is lowered, but its name is not: a computed
name stands in the assignment as it is written in the source, with all types and number separators.
What lowering would write for the name is the same only if nothing of it is to be erased.
-/

namespace Downlevel

open Grammar

/-! ## What is written in the source -/

theorem Text.append_inj_of_size {s s' t t' : Text} (h : s ++ t = s' ++ t')
    (hsize : size s = size s') : s = s' ∧ t = t' := by
  have ht : t = t' := by
    rw [← dropBytes_append s t, ← dropBytes_append s' t', h, hsize]
  subst ht
  exact ⟨List.append_cancel_right h, rfl⟩

namespace Program

section

variable {p : Program} {o : Options} {a b i : Nat}

/-- The tokens up to an index and the gaps before them end where the gap before the next one
starts. -/
theorem exists_eq_append_copied (hparse : parse p.source o = .ok p.tokens) :
    ∃ line, ∀ i ≤ p.count, (∃ rest, p.source = line ++ p.copied i ++ rest)
      ∧ Text.size (line ++ p.copied i) = gapStart p.source p.tokens i := by
  obtain ⟨hplaced, -⟩ := placed_of_parse hparse
  obtain ⟨line, all, hall, hline⟩ := Text.isBoundary_shebangSize p.source
  refine ⟨line, fun i hi => ?_⟩
  induction i with
  | zero =>
    exact ⟨⟨all, by simpa [copied] using hall⟩, by simpa [copied, gapStart] using hline⟩
  | succ i ih =>
    obtain ⟨⟨rest, hsource⟩, hsize⟩ := ih (Nat.le_of_succ_le hi)
    have ht := Array.getElem?_eq_getElem hi
    obtain ⟨pre, rest', hsource', hpos, -, hstop⟩ := exists_of_placed ht (hplaced i _ ht)
    obtain ⟨rfl, -⟩ := Text.append_inj_of_size (hsource.symm.trans hsource') (hsize.trans hpos.symm)
    refine ⟨⟨rest', ?_⟩, ?_⟩
    · rw [copied]
      simpa only [List.append_assoc] using hsource'
    · rw [copied, gapStart, ht, Option.elim_some, hstop]
      simp only [List.append_assoc]

theorem exists_copied_append (h : a ≤ b) : ∃ t, p.copied b = p.copied a ++ t := by
  induction h with
  | refl => exact ⟨[], (List.append_nil _).symm⟩
  | step _ ih =>
    obtain ⟨t, ht⟩ := ih
    exact ⟨_, by rw [copied, ht, List.append_assoc]⟩

/-- What stands in the source from the first to the last of some tokens are these tokens and the
gaps between them. -/
theorem copied_eq_append (hparse : parse p.source o = .ok p.tokens) (hab : a < b)
    (hb : b ≤ p.count) : p.copied b = p.copied a
      ++ (p.gapBefore a ++ Text.slice p.source (p.tokenAt a).start (p.tokenAt (b - 1)).stop) := by
  obtain ⟨t, ht⟩ := exists_copied_append (p := p) (show a + 1 ≤ b from hab)
  rw [copied, List.append_assoc, List.append_assoc] at ht
  obtain ⟨hplaced, -⟩ := placed_of_parse hparse
  obtain ⟨line, hline⟩ := exists_eq_append_copied hparse
  have hstart : (p.tokenAt a).start = Text.size (line ++ p.copied a ++ p.gapBefore a) := by
    have hlt : a < p.tokens.size := Nat.lt_of_lt_of_le hab hb
    have ha := Array.getElem?_eq_getElem hlt
    obtain ⟨⟨rest, hsource⟩, hsize⟩ := hline a (Nat.le_of_lt hlt)
    obtain ⟨pre, rest', hsource', hpos, hstart, -⟩ := exists_of_placed ha (hplaced a _ ha)
    obtain ⟨rfl, -⟩ := Text.append_inj_of_size (hsource.symm.trans hsource') (hsize.trans hpos.symm)
    rw [tokenAt, ha, Option.getD_some, hstart]
  obtain ⟨⟨rest, hsource⟩, hsize⟩ := hline b hb
  have hstop : (p.tokenAt (b - 1)).stop = Text.size (line ++ p.copied b) := by
    have hlt : b - 1 < p.tokens.size := by
      have hle : b ≤ p.tokens.size := hb
      omega
    rw [hsize, show b = b - 1 + 1 by omega, gapStart, Nat.add_sub_cancel,
      Array.getElem?_eq_getElem hlt, Option.elim_some, tokenAt, Array.getElem?_eq_getElem hlt,
      Option.getD_some]
  have hsource' : p.source = line ++ p.copied a ++ p.gapBefore a ++ (p.textAt a ++ t ++ rest) := by
    simpa only [ht, List.append_assoc] using hsource
  have hslice := Text.slice_append (line ++ p.copied a ++ p.gapBefore a) (p.textAt a ++ t) rest
  rw [← hsource', ← Text.size_append] at hslice
  rw [hstart, hstop, ht]
  simp only [List.append_assoc] at hslice ⊢
  rw [hslice]

end

end Program

/-! ## What lowering writes -/

namespace Plan

/-- A token is lowered by itself, or erased, and left as it is otherwise. -/
def IsPlainAt (plan : Plan) (i : Nat) : Prop :=
  plan.program.IsNarrowAt i ∧ (plan.program.isTypeAt i = true → plan.program.textAt i ≠ [])
    ∧ (plan.options.has .imports = true → (plan.program.tokenAt i).isReference = true →
      plan.bindings.map (·.replacement? (plan.program.nameAt i)) = some none)
    ∧ (plan.program.matchesAt i [.parenR, .colon] = true → plan.program.isTypeAt (i + 1) = true →
      plan.program.kindAt (plan.program.skipTypes (i + 1)) ≠ .arrow)
    ∧ plan.program.matchesAt i [.kwCatch, .braceL] = false

instance (plan : Plan) (i : Nat) : Decidable (plan.IsPlainAt i) := by
  unfold IsPlainAt
  infer_instance

/-- A type that is erased. -/
def IsErasedTypeAt (plan : Plan) (i : Nat) : Prop :=
  (plan.options.has .typescript = true ∨ plan.options.has .flow = true)
    ∧ plan.program.isTypeAt i = true

/-- A number with separators. -/
def IsSeparatedAt (plan : Plan) (i : Nat) : Prop :=
  (plan.program.kindAt i = .num ∨ plan.program.kindAt i = .bigInt)
    ∧ '_' ∈ plan.program.textAt i

/-- A token of which something is erased: a type, or a number with separators. -/
def IsErasedAt (plan : Plan) (i : Nat) : Prop :=
  plan.IsErasedTypeAt i ∨ plan.IsSeparatedAt i

instance (plan : Plan) (i : Nat) : Decidable (plan.IsErasedAt i) := by
  unfold IsErasedAt IsErasedTypeAt IsSeparatedAt
  infer_instance

end Plan

/-- What is written for the tokens from `a` up to `b`: what stands in the source if nothing of them
is erased, and less than that if something is. -/
structure Spells (plan : Plan) (a b : Nat) (written : Text) : Prop where
  kept : (∀ k, a ≤ k → k < b → ¬plan.IsErasedAt k) →
    plan.program.copied b = plan.program.copied a ++ written
  less : ∀ k, a ≤ k → k < b → plan.IsErasedAt k →
    (plan.program.copied a ++ written).length < (plan.program.copied b).length

namespace Spells

variable {plan : Plan} {a b d i : Nat} {s t : Text}

theorem refl : Spells plan a a [] :=
  ⟨fun _ => (List.append_nil _).symm, fun _ hk hk' => absurd hk (Nat.not_le_of_lt hk')⟩

theorem le (h : Spells plan a b s) :
    (plan.program.copied a ++ s).length ≤ (plan.program.copied b).length := by
  by_cases hkept : ∀ k, a ≤ k → k < b → ¬plan.IsErasedAt k
  · exact Nat.le_of_eq (congrArg List.length (h.kept hkept).symm)
  · simp only [not_forall, not_not] at hkept
    obtain ⟨k, hk, hkb, herased⟩ := hkept
    exact Nat.le_of_lt (h.less k hk hkb herased)

theorem trans (h : Spells plan a b s) (h' : Spells plan b d t) (hab : a ≤ b) (hbd : b ≤ d) :
    Spells plan a d (s ++ t) := by
  have hle := h.le
  have hle' := h'.le
  refine ⟨fun hkept => ?_, fun k hk hkd herased => ?_⟩
  · rw [h'.kept fun k hk hkd => hkept k (Nat.le_trans hab hk) hkd,
      h.kept fun k hk hkb => hkept k hk (Nat.lt_of_lt_of_le hkb hbd), List.append_assoc]
  · simp only [List.length_append] at hle hle' ⊢
    rcases Nat.lt_or_ge k b with hkb | hbk
    · have hless := h.less k hk hkb herased
      rw [List.length_append] at hless
      omega
    · have hless := h'.less k hbk hkd herased
      rw [List.length_append] at hless
      omega

theorem copy (h : ¬plan.IsErasedAt i) :
    Spells plan i (i + 1) (plan.program.gapBefore i ++ plan.program.textAt i) := by
  refine ⟨fun _ => rfl, fun k hk hki herased => ?_⟩
  obtain rfl : k = i := by omega
  exact absurd herased h

/-- A token of which something is erased gets shorter. -/
theorem erase (h : plan.IsErasedAt i)
    (ht : t.length < (plan.program.gapBefore i ++ plan.program.textAt i).length) :
    Spells plan i (i + 1) t := by
  refine ⟨fun hkept => absurd h (hkept i (Nat.le_refl _) (Nat.lt_succ_self _)), fun _ _ _ _ => ?_⟩
  rw [Program.copied]
  simp only [List.length_append] at ht ⊢
  omega

/-- Types leave their first gap and line feeds. -/
theorem types (hab : a < b)
    (h : ∀ k, a ≤ k → k < b → plan.IsErasedAt k ∧ plan.program.textAt k ≠ []) :
    Spells plan a b (plan.program.typeTrace a b) := by
  have hpos : ∀ k, a ≤ k → k < b → 0 < (plan.program.textAt k).length :=
    fun k hk hkb => List.length_pos_iff.mpr (h k hk hkb).2
  induction hab with
  | refl =>
    have ha := hpos a (Nat.le_refl _) (Nat.lt_succ_self _)
    rw [Program.typeTrace, Program.lineFeeds_self, List.append_nil]
    refine erase (h a (Nat.le_refl _) (Nat.lt_succ_self _)).1 ?_
    rw [List.length_append]
    omega
  | @step b hab ih =>
    have hlt : a < b := hab
    have hb := hpos b (by omega) (Nat.lt_succ_self _)
    have hinit := ih (fun k hk hkb => h k hk (by omega)) fun k hk hkb => hpos k hk (by omega)
    have hlast : Spells plan b (b + 1) (Text.newlines (plan.program.gapBefore b)) := by
      refine erase (h b (by omega) (Nat.lt_succ_self _)).1 ?_
      have hle : (Text.newlines (plan.program.gapBefore b)).length
        ≤ (plan.program.gapBefore b).length := List.length_filter_le ..
      rw [List.length_append]
      omega
    rw [Program.typeTrace, plan.program.lineFeeds_succ hab, ← List.append_assoc]
    exact hinit.trans hlast (by omega) (Nat.le_succ _)

end Spells

namespace Lower

section

variable {plan : Plan} {w : Work} {a b : Nat}

/-- A number is written without separators. -/
theorem ends_numericSeparators_separated (h : plan.IsSeparatedAt w.index)
    (hlt : w.index < plan.program.count) {Q : Bool → Work → Prop} {E : Error → Prop}
    (hQ : Q true ((w.write (plan.program.gapBefore w.index
      ++ (plan.program.textAt w.index).filter (· != '_'))).moveTo (w.index + 1))) :
    Ends plan numericSeparators w Q E := by
  have hkind : (decide (plan.program.kindAt w.index = .num)
      || decide (plan.program.kindAt w.index = .bigInt)) = true := by simpa using h.1
  have hcontains : (plan.program.textAt w.index).contains '_' = true := by simpa using h.2
  unfold numericSeparators
  simp only [ends_bind, ends_is]
  rw [if_pos hkind, ends_bind, ends_curText, if_pos hcontains, ends_bind, ends_replace, if_pos hlt]
  exact hQ

/-- Only the rule for numbers applies to a plain token that is no erased type. -/
theorem ends_firstOf_isPlainAt (hlt : w.index < plan.program.count)
    (h : plan.IsPlainAt w.index) (htype : ¬plan.IsErasedTypeAt w.index) :
    Ends plan (firstOf (rules plan.options token)) w (fun _ w' => ∃ written,
      w'.draft.out = w.draft.out ++ written ∧ w'.index = w.index + 1
      ∧ Spells plan w.index w'.index written) fun _ => False := by
  obtain ⟨⟨htag, hvalue⟩, -, hreference, harrow, hcatch⟩ := h
  refine ends_firstOf_append (fun rule hrule => ?_) ?_
  · have hnot : plan.options.has .typescript = true ∨ plan.options.has .flow = true →
        Declines plan w typeRun :=
      fun hhas => declines_typeRun (Bool.eq_false_iff.mpr fun h => htype ⟨hhas, h⟩)
    simp only [List.mem_append] at hrule
    rcases hrule with ((hrule | hrule) | hrule) | hrule <;> split at hrule <;> rename_i hhas <;>
      simp only [List.mem_cons, List.not_mem_nil, or_false] at hrule
    · rcases hrule with rfl | rfl
      · exact declines_elementRule htag
      · exact declines_componentRule_of_isWideNameAt fun h => (hvalue h).2.2
    · subst hrule
      exact declines_moduleRule_of_depth fun h =>
        ⟨(hvalue h).2.1, fun _ => declines_reference_of_none (hreference hhas)⟩
    · rcases hrule with rfl | rfl
      · exact declines_arrowParametersEnd_of_ne harrow
      · exact hnot (.inr hhas)
    · rcases hrule with rfl | rfl | rfl
      · exact declines_arrowParametersEnd_of_ne harrow
      · exact declines_asyncTypeParameters_of_isWideNameAt fun h => (hvalue h).2.2
      · exact hnot (.inl hhas)
  · by_cases hseparated : plan.IsSeparatedAt w.index
    · rw [firstOf, ends_bind]
      refine ends_numericSeparators_separated hseparated hlt ⟨_, rfl, rfl, ?_⟩
      refine Spells.erase (.inr hseparated) ?_
      have hless : ((plan.program.textAt w.index).filter (· != '_')).length
          < (plan.program.textAt w.index).length :=
        List.length_filter_lt_length_iff_exists.mpr ⟨'_', hseparated.2, by decide⟩
      simp only [List.length_append]
      omega
    · have hdeclines : Declines plan w numericSeparators :=
        declines_numericSeparators fun hkind => by
          simpa using fun hmem => hseparated ⟨hkind, hmem⟩
      refine hdeclines.ends_firstOf ((declines_catchBinding hcatch).ends_firstOf ?_)
      rw [firstOf, ends_copy, if_pos hlt]
      exact ⟨_, rfl, rfl, Spells.copy fun herased => herased.elim htype hseparated⟩

/-- **One step.**  A plain token is passed alone, or as the first of a run of types. -/
theorem ends_token_isPlainAt (hlt : w.index < plan.program.count)
    (h : ∀ k, w.index ≤ k → k < plan.program.skipTypes w.index ∨ k = w.index → plan.IsPlainAt k) :
    Ends plan token w (fun _ w' => ∃ written, w'.draft.out = w.draft.out ++ written
      ∧ Spells plan w.index w'.index written
      ∧ (w'.index = w.index + 1 ∨ w.index < w'.index ∧ ∀ k, w.index ≤ k → k < w'.index →
        plan.program.isTypeAt k = true)) fun _ => False := by
  have hplain := h w.index (Nat.le_refl _) (.inr rfl)
  by_cases htype : plan.IsErasedTypeAt w.index
  · have hnext : w.index < plan.program.skipTypes w.index := by
      rw [Program.skipTypes_succ htype.2]
      exact Program.le_seek
    have htypes : ∀ k, w.index ≤ k → k < plan.program.skipTypes w.index →
        plan.program.isTypeAt k = true := fun k hk hks => Program.isTypeAt_of_lt_skipTypes hk hks
    rw [ends_of_eq (token_of_isType_of_ne htype.1 htype.2 hplain.2.2.2.1 hplain.1.1)]
    refine ⟨_, rfl, Spells.types hnext fun k hk hks => ?_, .inr ⟨hnext, htypes⟩⟩
    exact ⟨.inl ⟨htype.1, htypes k hk hks⟩, (h k hk (.inl hks)).2.1 (htypes k hk hks)⟩
  · unfold Ends
    rw [token_eq_tokenStep (Nat.le_of_lt hlt)]
    change Ends plan (tokenStep token) w _ _
    unfold tokenStep
    rw [ends_bind, ends_cur]
    refine Ends.ite (fun hclass => ?_) fun _ => ?_
    · simp only [Bool.and_eq_true, decide_eq_true_eq, Bool.not_eq_true'] at hclass
      exact absurd hclass.1 (hplain.1.2 hclass.2).1
    · rw [ends_bind, ends_read]
      refine (ends_firstOf_isPlainAt hlt hplain htype).mono fun _ w' hw' => ?_
      obtain ⟨written, hout, hindex, hspells⟩ := hw'
      exact ⟨written, hout, hspells, .inl hindex⟩

/-- Plain tokens are all lowered, and written as they are if nothing of them is erased. -/
theorem ends_repeatTo_isPlainAt (hw : w.index = a) (hab : a < b) (hb : b ≤ plan.program.count)
    (hvalue : plan.program.isTypeAt (b - 1) = false)
    (h : ∀ k, a ≤ k → k < b → plan.IsPlainAt k) :
    Ends plan (repeatTo b token) w (fun _ w' => w'.index = b ∧ ∃ written,
      w'.draft.out = w.draft.out ++ written ∧ Spells plan a b written) fun _ => False := by
  unfold repeatTo
  refine Ends.repeatWhile (fun v => a ≤ v.index ∧ v.index ≤ b ∧ ∃ written,
    v.draft.out = w.draft.out ++ written ∧ Spells plan a v.index written) ?_ ?_
  · rintro v ⟨hge, hle, written, hout, hspells⟩
    refine ⟨Nat.le_trans hle hb, ?_⟩
    rw [ends_bind, ends_index, ends_pure]
    split
    · rename_i hlt
      have hlt' : v.index < b := of_decide_eq_true hlt
      have hskip : plan.program.skipTypes v.index ≤ b - 1 := by
        refine Nat.le_of_not_lt fun hgt => ?_
        rw [Program.isTypeAt_of_lt_skipTypes (by omega) hgt] at hvalue
        cases hvalue
      refine (ends_token_isPlainAt (by omega) fun k hk hks => h k (by omega) (by omega)).mono
        fun _ v' hv' => ?_
      obtain ⟨more, hout', hspells', hindex⟩ := hv'
      have hgt : v.index < v'.index := by omega
      have hle' : v'.index ≤ b := by
        rcases hindex with hindex | ⟨-, htypes⟩
        · omega
        · refine Nat.le_of_not_lt fun hgt => ?_
          rw [htypes (b - 1) (by omega) (by omega)] at hvalue
          cases hvalue
      refine ⟨⟨by omega, hle', written ++ more, ?_, ?_⟩, hgt⟩
      · rw [hout', hout, List.append_assoc]
      · exact hspells.trans hspells' hge (Nat.le_of_lt hgt)
    · rename_i hge'
      obtain rfl : v.index = b := by
        simp only [decide_eq_true_eq, Nat.not_lt] at hge'
        omega
      exact ⟨rfl, written, hout, hspells⟩
  · exact ⟨by omega, by omega, [], (List.append_nil _).symm, hw ▸ Spells.refl⟩

end

/-! ## Fields and their assignments -/

/-- The assignment of a field: it is accessed by its name, and gets what its value is lowered to. -/
def IsFieldAssignment (plan : Plan) (t : Text) : Prop :=
  ∃ name nameEnd equals stop value, IsFieldAt plan.program name nameEnd equals stop
    ∧ Writes plan (equals + 1) stop value
    ∧ t = plan.program.accessText name nameEnd ++ " = ".toList ++ value

/-- The assignments of a class: first those of parameters, then those of fields. -/
def HasAssignments (plan : Plan) (layout : ClassLayout) : Prop :=
  ∃ names rest : List Text, layout.initializers
      = names.map ClassLayout.parameterAssignment ++ rest.map ("this".toList ++ ·)
    ∧ ∀ t ∈ rest ++ layout.statics, IsFieldAssignment plan t

section

variable {plan : Plan} {w z : Work} {layout l : ClassLayout} {source : Text}
  {tokens : Array Token} {o : Options} {start : Work} {name nameEnd : Nat}

theorem HasAssignments.extend (h : HasAssignments plan layout) (hl : Extends plan layout l) :
    HasAssignments plan l := by
  obtain ⟨names, rest, hinitializers, hall⟩ := h
  cases hl with
  | same h h' => exact ⟨names, rest, h ▸ hinitializers, h' ▸ hall⟩
  | @parameters names' h' h =>
    refine ⟨names' ++ names, rest, ?_, h' ▸ hall⟩
    rw [h, hinitializers, List.map_append, List.append_assoc]
  | @field name nameEnd equals stop value hfield hvalue h =>
    have hnew : ∀ t ∈ rest ++ layout.statics
        ++ [plan.program.accessText name nameEnd ++ " = ".toList ++ value],
        IsFieldAssignment plan t := by
      intro t ht
      rcases List.mem_append.mp ht with ht | ht
      · exact hall t ht
      · exact ⟨name, nameEnd, equals, stop, value, hfield, hvalue, List.mem_singleton.mp ht⟩
    rcases h with ⟨h, h'⟩ | ⟨h, h'⟩
    · refine ⟨names, rest ++ [plan.program.accessText name nameEnd ++ " = ".toList ++ value], ?_,
        fun t ht => hnew t ?_⟩
      · rw [h, hinitializers, List.map_append, List.append_assoc]
        rfl
      · rw [h'] at ht
        simp only [List.mem_append] at ht ⊢
        exact or_right_comm.mp ht
    · refine ⟨names, rest, h ▸ hinitializers, fun t ht => hnew t ?_⟩
      rwa [h', ← List.append_assoc] at ht

theorem hasAssignments_of_classLayout (h : classLayout token plan w = .ok layout z) :
    HasAssignments plan layout := by
  have hscan : Ends plan (scanClass token) w (fun l _ => HasAssignments plan l) fun _ => True := by
    refine (ends_scanClass_of (I := fun _ _ l _ => HasAssignments plan l) ?_ ?_).mono
      fun l w' hw' => ?_
    · intro b id head v _ _
      exact ⟨[], [], rfl, nofun⟩
    · intro b id l v hle _ _ hl
      exact (ends_memberLayout_extends hle).mono fun l' _ hextends => hl.extend hextends
    · obtain ⟨-, -, -, -, -, -, hl⟩ := hw'
      exact hl
  obtain ⟨-, hlayout, -⟩ := hscan.classLayout.of_ok h
  exact hlayout

/-- A computed name is written as in the source. -/
theorem copied_accessText (hparse : parse plan.program.source o = .ok plan.program.tokens)
    (h : plan.program.ClosesBefore name nameEnd) : plan.program.copied nameEnd
      = plan.program.copied name
        ++ (plan.program.gapBefore name ++ plan.program.accessText name nameEnd) := by
  have hle : nameEnd ≤ plan.program.count := by
    have hlt := Program.lt_count_of_kindAt h.kind_close (by decide)
    omega
  rw [Program.accessText, h.kind_open]
  exact Program.copied_eq_append hparse h.lt hle

/-- **Computed names are not lowered.**  Each assignment of a class that is gone through is that of
a parameter or a field, and accesses the field by its name and assigns what its value is lowered to.
All fields with values are assigned if the members can be told apart.  A computed name stands there
as it is written in the source, with its tokens and the gaps between them, whatever lowering would
make of it.  If its tokens are plain, lowering them goes through, and writes the same exactly if
none of them is a type that is erased or a number with separators. -/
theorem computed_names_of_class (hparse : parse source o = .ok tokens)
    (hprepare : Plan.prepare source tokens o = .ok (plan, start))
    (hlayout : classLayout token plan w = .ok layout z) :
    HasAssignments plan layout
    ∧ (∀ b e ms, ClassForm source tokens w.index b e ms → (∀ m ∈ ms, IsClear plan m) →
      ∀ m ∈ ms, IsAssigned plan layout m)
    ∧ ∀ name nameEnd, plan.program.ClosesBefore name nameEnd →
      plan.program.copied nameEnd = plan.program.copied name
        ++ (plan.program.gapBefore name ++ plan.program.accessText name nameEnd)
      ∧ (plan.program.isTypeAt (nameEnd - 1) = false →
        (∀ k, name ≤ k → k < nameEnd → plan.IsPlainAt k) → ∀ v : Work, v.index = name →
          ∃ v' written, repeatTo nameEnd token plan v = .ok () v' ∧ v'.index = nameEnd
            ∧ v'.draft.out = v.draft.out ++ written
            ∧ (written = plan.program.gapBefore name ++ plan.program.accessText name nameEnd
              ↔ ∀ k, name ≤ k → k < nameEnd → ¬plan.IsErasedAt k)) := by
  obtain ⟨hprogram, -, -⟩ := eq_of_prepare hprepare
  have hparse' : parse plan.program.source o = .ok plan.program.tokens := by
    rw [hprogram]
    exact hparse
  refine ⟨hasAssignments_of_classLayout hlayout, fun b e ms hform hclear => ?_,
    fun name nameEnd hname => ?_⟩
  · have hform' : ClassForm plan.program.source plan.program.tokens w.index b e ms := by
      rw [hprogram]
      exact hform
    exact (layout_of_classForm hparse' hform' hclear hlayout).2.2
  have hcopied := copied_accessText hparse' hname
  refine ⟨hcopied, fun hvalue hplain v hv => ?_⟩
  have hle : nameEnd ≤ plan.program.count := by
    have hlt := Program.lt_count_of_kindAt hname.kind_close (by decide)
    omega
  have hends := ends_repeatTo_isPlainAt hv hname.lt hle hvalue hplain
  unfold Ends at hends
  cases hrun : repeatTo nameEnd token plan v with
  | error e v' =>
    rw [hrun] at hends
    exact hends.elim
  | ok u v' =>
    rw [hrun] at hends
    obtain ⟨hindex, written, hout, hspells⟩ := hends
    refine ⟨v', written, rfl, hindex, hout, fun hsame k hk hkn herased => ?_, fun hkept => ?_⟩
    · have hless := hspells.less k hk hkn herased
      rw [hcopied, hsame] at hless
      exact absurd hless (Nat.lt_irrefl _)
    · exact List.append_cancel_left ((hspells.kept hkept).symm.trans hcopied)

end

/-- A class with computed names, of which one has a type. -/
def typedNameSource : Text :=
  "class A \x7b ['x' + 1] = 2_0; [b as T] = 3 \x7d".toList

/-- The values are lowered and the names are left as they are, although lowering the second would
not leave it so. -/
theorem computed_names_of_typedNameSource : ∃ tokens plan start layout z,
    parse typedNameSource typedOptions = .ok tokens
    ∧ Plan.prepare typedNameSource tokens typedOptions = .ok (plan, start)
    ∧ classLayout token plan start = .ok layout z
    ∧ layout.initializers = ["this['x' + 1] = 20".toList, "this[b as T] = 3".toList]
    ∧ (∃ w', repeatTo 8 token plan (start.moveTo 3) = .ok () w'
      ∧ w'.draft.out = start.draft.out ++ " ['x' + 1]".toList)
    ∧ ∃ w' written, repeatTo 16 token plan (start.moveTo 11) = .ok () w'
      ∧ w'.draft.out = start.draft.out ++ written ∧ written ≠ " [b as T]".toList := by
  have h : preparesWith typedNameSource typedOptions (fun plan start =>
      okWith (classLayout token plan start) fun layout _ =>
        decide (layout.initializers = ["this['x' + 1] = 20".toList, "this[b as T] = 3".toList])
        && decide (plan.program.ClosesBefore 3 8 ∧ plan.program.ClosesBefore 11 16)
        && decide (plan.program.isTypeAt 7 = false ∧ plan.program.isTypeAt 15 = false)
        && decide (∀ k : Fin 16, 3 ≤ k.val → plan.IsPlainAt k)
        && decide (∀ k : Fin 8, 3 ≤ k.val → ¬plan.IsErasedAt k) && decide (plan.IsErasedAt 13)
        && decide (plan.program.gapBefore 3 ++ plan.program.accessText 3 8 = " ['x' + 1]".toList)
        && decide (plan.program.gapBefore 11 ++ plan.program.accessText 11 16
          = " [b as T]".toList)) = true := by decide +kernel
  obtain ⟨tokens, plan, start, hparse, hprepare, htest⟩ := exists_of_preparesWith h
  obtain ⟨layout, z, hlayout, htest⟩ := exists_of_okWith htest
  simp only [Bool.and_eq_true, decide_eq_true_eq] at htest
  obtain ⟨⟨⟨⟨⟨⟨⟨hinitializers, hfirst, hsecond⟩, hvalue, hvalue'⟩, hplain⟩, hkept⟩, herased⟩,
    htext⟩, htext'⟩ := htest
  obtain ⟨-, -, hnames⟩ := computed_names_of_class hparse hprepare hlayout
  obtain ⟨w₁, written₁, hrun₁, -, hout₁, hsame₁⟩ := (hnames 3 8 hfirst).2 hvalue
    (fun k hk hk8 => hplain ⟨k, by omega⟩ hk) (start.moveTo 3) rfl
  obtain ⟨w₂, written₂, hrun₂, -, hout₂, hsame₂⟩ := (hnames 11 16 hsecond).2 hvalue'
    (fun k hk hk16 => hplain ⟨k, hk16⟩ (by dsimp only; omega)) (start.moveTo 11) rfl
  refine ⟨tokens, plan, start, layout, z, hparse, hprepare, hlayout, hinitializers,
    ⟨w₁, hrun₁, ?_⟩, w₂, written₂, hrun₂, hout₂, fun hsame => ?_⟩
  · rw [hout₁, hsame₁.mpr fun k hk hk8 => hkept ⟨k, hk8⟩ hk, htext]
    rfl
  · rw [← htext'] at hsame
    exact hsame₂.mp hsame 13 (by decide) (by decide) herased

/-- A class with a number with separators in a computed name. -/
def separatedNameSource : Text :=
  "class A \x7b [1_0] = 1 \x7d".toList

/-- Lowering the name would take out the separator, which the assignment keeps. -/
theorem computed_name_kept : ∃ tokens plan start layout z w',
    parse separatedNameSource {} = .ok tokens
    ∧ Plan.prepare separatedNameSource tokens {} = .ok (plan, start)
    ∧ classLayout token plan start = .ok layout z
    ∧ layout.initializers = ["this[1_0] = 1".toList]
    ∧ repeatTo 6 token plan (start.moveTo 3) = .ok () w' ∧ w'.draft.out = " [10]".toList := by
  have h : preparesWith separatedNameSource {} (fun plan start =>
      okWith (classLayout token plan start) fun layout _ =>
        okWith (repeatTo 6 token plan (start.moveTo 3)) fun _ w' =>
          decide (layout.initializers = ["this[1_0] = 1".toList]
            ∧ w'.draft.out = " [10]".toList)) = true := by decide +kernel
  obtain ⟨tokens, plan, start, hparse, hprepare, htest⟩ := exists_of_preparesWith h
  obtain ⟨layout, z, hlayout, htest⟩ := exists_of_okWith htest
  obtain ⟨_, w', hrun, htest⟩ := exists_of_okWith htest
  obtain ⟨hinitializers, hout⟩ := of_decide_eq_true htest
  exact ⟨tokens, plan, start, layout, z, w', hparse, hprepare, hlayout, hinitializers, hrun, hout⟩

end Lower

end Downlevel
