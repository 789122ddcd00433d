import Downlevel.Proofs.Lower.Initializers
import Downlevel.Proofs.Lower.MemberScan
import Downlevel.Proofs.Lower.Operand

/-!
# Fields are taken out

A class is gone through once to find its fields, and a second time to take them out.  The second
time goes on in rounds, and a round can pass more than one token.  So all fields are taken out
unless the first token of one is passed in the middle of a round.
-/

namespace Downlevel

/-! ## Tokens that are lowered with others -/

namespace Program

variable {p : Program} {i : Nat}

theorem stop_eq_false_of_lt_search {stop : Nat → Bool} {n k : Nat} (hik : i ≤ k)
    (hk : k < search stop n i) : stop k = false := by
  induction n generalizing i with
  | zero => exact absurd hk (Nat.not_lt_of_le hik)
  | succ n ih =>
    rw [search] at hk
    split at hk
    · exact absurd hk (Nat.not_lt_of_le hik)
    · rename_i hstop
      rcases Nat.lt_or_eq_of_le hik with hlt | rfl
      · exact ih hlt hk
      · exact Bool.eq_false_iff.mpr hstop

theorem isTypeAt_of_lt_skipTypes {k : Nat} (hik : i ≤ k) (hk : k < p.skipTypes i) :
    p.isTypeAt k = true := by
  simpa using stop_eq_false_of_lt_search hik hk

/-- A name that is lowered together with arguments or parameters behind it. -/
def IsWideNameAt (p : Program) (i : Nat) : Prop :=
  p.kindAt i = .name ∧ (p.nameAt i = "createReactClass".toList
    ∨ p.nameAt i = "React".toList ∧ p.nameAt (i + 2) = "createClass".toList
    ∨ p.isNameAt i "async".toList = true ∧ p.kindAt (i + 1) = .lessThan
      ∧ p.isTypeAt (i + 1) = true)

instance (p : Program) (i : Nat) : Decidable (p.IsWideNameAt i) := by
  unfold IsWideNameAt
  infer_instance

/-- A token that is lowered by itself, or with types behind it and an arrow behind those. -/
def IsNarrowAt (p : Program) (i : Nat) : Prop :=
  p.kindAt i ≠ .jsxTagStart ∧ (p.isTypeAt i = false → p.kindAt i ≠ .kwClass
    ∧ (p.kindAt i = .kwImport ∨ p.kindAt i = .kwExport → (p.tokenAt i).depth ≠ 0)
    ∧ ¬p.IsWideNameAt i)

instance (p : Program) (i : Nat) : Decidable (p.IsNarrowAt i) := by
  unfold IsNarrowAt
  infer_instance

/-- All that stands between two indices are types and arrows. -/
def IsThinBetween (p : Program) (i j : Nat) : Prop :=
  ∀ k, i < k → k < j → p.isTypeAt k = true ∨ p.kindAt k = .arrow

/-- The token of an index may be lowered together with that of a later one.  A class is passed up
to its last brace, and what is lowered by itself passes no more than types and an arrow. -/
def MayPassOver (p : Program) (k i : Nat) : Prop :=
  if p.kindAt k = .kwClass ∧ p.isTypeAt k = false then
    ∃ e id, (p.tokenAt k).context = some id ∧ p.kindAt e = .braceR
      ∧ (p.tokenAt e).context = some id ∧ i ≤ e
  else ¬p.IsNarrowAt k ∨ p.kindAt i = .arrow

end Program

namespace Lower

open ClassLayout

/-! ## Tokens that are passed with types only -/

section

variable {plan : Plan} {w : Work}

/-- A rule passes a token with types and arrows only, or declines. -/
abbrev PassesThinly (plan : Plan) (w : Work) (rule : Lower Bool) : Prop :=
  Ends plan rule w (fun b w' => if b then plan.program.IsThinBetween w.index w'.index else w' = w)
    fun _ => True

theorem PassesOne.passesThinly {rule : Lower Bool} (h : PassesOne plan w rule) :
    PassesThinly plan w rule := by
  refine h.weaken (fun b w' hb => ?_) fun _ _ => trivial
  cases b with
  | false => exact hb
  | true =>
    have hindex : w'.index = w.index + 1 := hb
    intro k hk hkw
    omega

theorem passesThinly_moduleRule (h : plan.program.isTypeAt w.index = false →
      plan.program.kindAt w.index = .kwImport ∨ plan.program.kindAt w.index = .kwExport →
        (plan.program.tokenAt w.index).depth ≠ 0) : PassesThinly plan w (moduleRule token) := by
  unfold PassesThinly moduleRule
  rw [ends_bind, ends_cur]
  refine Ends.ite (fun _ => rfl) fun htype => ?_
  have hdepth := h (by simpa [Program.isTypeAt] using htype)
  refine Ends.ite (fun himport => ?_) fun _ => Ends.ite (fun hexport => ?_) fun _ => ?_
  · simp only [Bool.and_eq_true, decide_eq_true_eq] at himport
    exact absurd himport.2 (hdepth (.inl himport.1))
  · simp only [Bool.and_eq_true, decide_eq_true_eq] at hexport
    exact absurd hexport.2 (hdepth (.inr hexport.1))
  · exact Ends.ite (fun _ => passesOne_reference.passesThinly) fun _ => rfl

theorem passesThinly_arrowParametersEnd : PassesThinly plan w arrowParametersEnd := by
  unfold PassesThinly arrowParametersEnd
  rw [ends_bind, ends_program, ends_bind, ends_index]
  refine Ends.ite (fun _ => ?_) fun _ => rfl
  refine Ends.ite (fun harrow => ?_) fun _ => rfl
  have hle : w.index + 1 ≤ plan.program.skipTypes (w.index + 1) := Program.le_seek
  have hremove : Ends plan (do removeInitial; repeatTo (plan.program.skipTypes (w.index + 1)) remove) w
      (fun _ w' => w'.index = plan.program.skipTypes (w.index + 1)) fun _ => True := ends_removeTo hle
  simp only [ends_bind] at hremove ⊢
  refine hremove.mono fun _ w₁ h₁ => h₁.mono fun _ w₂ h₂ => ?_
  rw [ends_replaceTrimmed]
  split
  · intro k hk hk₂
    rw [Work.index_moveTo, h₂] at hk₂
    rcases Nat.lt_or_eq_of_le (Nat.lt_succ_iff.mp hk₂) with hlt | rfl
    · exact .inl (Program.isTypeAt_of_lt_skipTypes hk hlt)
    · exact .inr harrow
  · exact trivial

theorem declines_asyncTypeParameters_of_isWideNameAt (h : plan.program.isTypeAt w.index = false →
      ¬plan.program.IsWideNameAt w.index) : Declines plan w (asyncTypeParameters token) := by
  refine declines_asyncTypeParameters_of_name fun hname hvalue hless => ?_
  exact Bool.eq_false_iff.mpr fun htype =>
    h hvalue ⟨(Program.isNameAt_iff.mp hname).1, .inr (.inr ⟨hname, hless, htype⟩)⟩

theorem declines_componentRule_of_isWideNameAt (h : plan.program.isTypeAt w.index = false →
      ¬plan.program.IsWideNameAt w.index) : Declines plan w (componentRule token) := by
  refine declines_componentRule fun hkind hvalue => ?_
  exact ⟨fun hcreate => h hvalue ⟨hkind, .inl hcreate⟩,
    fun _ hreact hclass => h hvalue ⟨hkind, .inr (.inl ⟨hreact, hclass⟩)⟩⟩

theorem passesThinly_typeRun : PassesThinly plan w typeRun := by
  by_cases htype : plan.program.isTypeAt w.index = true
  · refine (ends_typeRun htype).weaken (fun b w' hb => ?_) fun _ hfalse => hfalse.elim
    obtain ⟨rfl, rfl⟩ := hb
    exact fun k hk hk' => .inl (Program.isTypeAt_of_lt_skipTypes (Nat.le_of_lt hk) hk')
  · exact (declines_typeRun (Bool.eq_false_iff.mpr htype)).passesOne.passesThinly

theorem ends_token_isNarrowAt (hw : w.index ≤ plan.program.count)
    (h : plan.program.IsNarrowAt w.index) :
    Ends plan token w (fun _ w' => plan.program.IsThinBetween w.index w'.index) fun _ => True := by
  obtain ⟨htag, hvalue⟩ := h
  have hrules : ∀ rule ∈ rules plan.options token, PassesThinly plan w rule := by
    intro rule hrule
    rcases mem_rules hrule with rfl | rfl | rfl | rfl | rfl | rfl | rfl | rfl
    · exact (declines_elementRule htag).passesOne.passesThinly
    · exact (declines_componentRule_of_isWideNameAt
        fun htype => (hvalue htype).2.2).passesOne.passesThinly
    · exact passesThinly_moduleRule fun htype => (hvalue htype).2.1
    · exact passesThinly_arrowParametersEnd
    · exact (declines_asyncTypeParameters_of_isWideNameAt
        fun htype => (hvalue htype).2.2).passesOne.passesThinly
    · exact passesThinly_typeRun
    · exact passesOne_numericSeparators.passesThinly
    · exact passesOne_catchBinding.passesThinly
  unfold Ends
  rw [token_eq_tokenStep hw]
  change Ends plan (tokenStep token) w _ _
  unfold tokenStep
  rw [ends_bind, ends_cur]
  refine Ends.ite (fun hclass => ?_) fun _ => ?_
  · simp only [Bool.and_eq_true, decide_eq_true_eq, Bool.not_eq_true'] at hclass
    exact absurd hclass.1 (hvalue hclass.2).1
  · rw [ends_bind, ends_read]
    refine ends_firstOf hrules ?_
    rw [ends_copy]
    split
    · intro k hk hk'
      rw [Work.index_copyNext] at hk'
      omega
    · exact trivial

end

/-! ## Rounds -/

/-- The token of an index is passed in a round. -/
def Round.Holds (r : Round) (k : Nat) : Prop :=
  r.start ≤ k ∧ k < r.stop

/-- The index is passed in the middle of a round that lowers tokens. -/
def Round.PassesOver (r : Round) (k : Nat) : Prop :=
  r.isField = false ∧ r.start < k ∧ k < r.stop

/-- What is taken out in rounds. -/
def removed (rs : List Round) : List (Nat × Nat) :=
  (rs.filter (·.isField)).map fun r => (r.start, r.stop)

section

variable {plan : Plan} {layout : ClassLayout} {rs : List Round} {r r' : Round}
  {s t u : List (Nat × Nat) × Work} {w w' x v : Work} {k id stop : Nat}

/-- Rounds follow each other without a gap. -/
theorem Rounds.bounds (h : Rounds plan layout rs s t) (hs : s.2.index ≤ plan.program.count) :
    s.2.index ≤ t.2.index
      ∧ ∀ r ∈ rs, s.2.index ≤ r.start ∧ r.start < r.stop ∧ r.stop ≤ t.2.index := by
  induction h with
  | nil => exact ⟨Nat.le_refl _, nofun⟩
  | cons h _ ih =>
    obtain ⟨hstart, hlt, hstop, hle⟩ := h.onward hs
    obtain ⟨hle', hrest⟩ := ih hle
    refine ⟨by omega, fun r hr => ?_⟩
    rcases List.mem_cons.mp hr with rfl | hr
    · omega
    · have hbounds := hrest r hr
      omega

/-- Every token is passed in one round. -/
theorem Rounds.existsUnique (h : Rounds plan layout rs s t) (hs : s.2.index ≤ plan.program.count)
    (hk : s.2.index ≤ k) (hkt : k < t.2.index) : ∃! r, r ∈ rs ∧ r.Holds k := by
  induction h with
  | nil => omega
  | @cons r rs s t u h hrest ih =>
    obtain ⟨hstart, hlt, hstop, hle⟩ := h.onward hs
    have hbounds := (hrest.bounds hle).2
    by_cases hfirst : k < r.stop
    · refine ⟨r, ⟨List.mem_cons_self .., by omega, hfirst⟩, fun r' hr' => ?_⟩
      rcases List.mem_cons.mp hr'.1 with rfl | hmem
      · rfl
      · have hafter := hbounds r' hmem
        have hholds := hr'.2.1
        omega
    · obtain ⟨r', ⟨hmem, hholds⟩, hunique⟩ := ih hle (by omega) hkt
      refine ⟨r', ⟨List.mem_cons_of_mem _ hmem, hholds⟩, fun r'' hr'' => ?_⟩
      rcases List.mem_cons.mp hr''.1 with rfl | hmem'
      · exact absurd hr''.2.2 hfirst
      · exact hunique r'' ⟨hmem', hr''.2⟩

/-- Fields are taken out from the first one on. -/
theorem Rounds.removed_append (h : Rounds plan layout rs s t) (hfields : ∀ f ∈ s.1, f.1 < f.2) :
    removed rs ++ t.1 = s.1 := by
  induction h with
  | nil => rfl
  | cons h _ ih =>
    cases h with
    | @field start stop rest w w' hstart h =>
      subst hstart
      have hlt := hfields _ (List.mem_cons_self ..)
      have hindex : w'.index = stop := Ends.of_ok (ends_removeTo hlt) h
      have hrest := ih fun f hf => hfields f (List.mem_cons_of_mem _ hf)
      exact hindex ▸ congrArg (_ :: ·) hrest
    | member => exact ih hfields

/-- If no round passes over the start of a field, all of them are taken out. -/
theorem Rounds.eq_nil (h : Rounds plan layout rs s t) (hs : s.2.index ≤ plan.program.count)
    (hsorted : s.1.Pairwise fun f g => f.2 ≤ g.1)
    (hfields : ∀ f ∈ s.1, s.2.index ≤ f.1 ∧ f.1 < f.2 ∧ f.2 ≤ t.2.index)
    (hover : ∀ r ∈ rs, (∀ f ∈ s.1, ¬(f.1 ≤ r.start ∧ r.start < f.2)) →
      ∀ f ∈ s.1, ¬r.PassesOver f.1) : t.1 = [] := by
  induction h with
  | @nil s =>
    refine List.eq_nil_iff_forall_not_mem.mpr fun f hf => ?_
    have hbounds := hfields f hf
    omega
  | @cons r rs s t u h hrest ih =>
    obtain ⟨-, hlt, -, hle⟩ := h.onward hs
    have hafter := (hrest.bounds hle).2
    cases h with
    | @field start stop rest w w' hstart h =>
      subst hstart
      obtain ⟨hfirst, hsorted'⟩ := List.pairwise_cons.mp hsorted
      have hfield := hfields _ (List.mem_cons_self ..)
      have hindex : w'.index = stop := Ends.of_ok (ends_removeTo hfield.2.1) h
      refine ih hle hsorted' (fun f hf => ?_) fun r hr hnone f hf => ?_
      · have hbounds := hfields f (List.mem_cons_of_mem _ hf)
        exact ⟨hindex ▸ hfirst f hf, hbounds.2⟩
      · refine hover r (List.mem_cons_of_mem _ hr) (fun g hg => ?_) f (List.mem_cons_of_mem _ hf)
        rcases List.mem_cons.mp hg with rfl | hg
        · have hge := (hafter r hr).1
          dsimp only at hge ⊢
          omega
        · exact hnone g hg
    | @member fields w w' hfield h =>
      -- the next field does not begin here, so it begins behind the round
      have hne : ∀ f ∈ fields, w.index < f.1 := by
        intro f hf
        cases fields with
        | nil => cases hf
        | cons g rest =>
          have hhead := hfield g rfl
          have hg := hfields g (List.mem_cons_self ..)
          rcases List.mem_cons.mp hf with rfl | hmem
          · exact Nat.lt_of_le_of_ne hg.1 (Ne.symm hhead)
          · have hgf := (List.pairwise_cons.mp hsorted).1 f hmem
            have hle := hg.1
            dsimp only at hle
            omega
      have hbehind : ∀ f ∈ fields, w'.index ≤ f.1 := by
        intro f hf
        refine Nat.le_of_not_lt fun hbefore => ?_
        refine hover _ (List.mem_cons_self ..) (fun g hg hin => ?_) f hf ⟨rfl, hne f hf, hbefore⟩
        exact Nat.not_le_of_lt (hne g hg) hin.1
      refine ih hle hsorted (fun f hf => ⟨hbehind f hf, (hfields f hf).2⟩) fun r hr => ?_
      exact hover r (List.mem_cons_of_mem _ hr)

/-- All fields are taken out exactly if no round passes over the start of one. -/
theorem Rounds.eq_nil_iff (h : Rounds plan layout rs s t) (hs : s.2.index ≤ plan.program.count)
    (hsorted : s.1.Pairwise fun f g => f.2 ≤ g.1)
    (hfields : ∀ f ∈ s.1, s.2.index ≤ f.1 ∧ f.1 < f.2 ∧ f.2 ≤ t.2.index) :
    t.1 = [] ↔ ∀ r ∈ rs, ∀ f ∈ s.1, ¬r.PassesOver f.1 := by
  constructor
  · intro hnil r hr f hf hover
    have hremoved := h.removed_append fun f hf => (hfields f hf).2.1
    rw [hnil, List.append_nil] at hremoved
    obtain ⟨r', hr', rfl⟩ := List.mem_map.mp (hremoved ▸ hf)
    obtain ⟨hmem, hisField⟩ := List.mem_filter.mp hr'
    have hbounds := hfields _ hf
    -- the token would be passed in two rounds
    have hunique := h.existsUnique hs hbounds.1 (Nat.lt_of_lt_of_le hbounds.2.1 hbounds.2.2)
    have heq := hunique.unique ⟨hr, Nat.le_of_lt hover.2.1, hover.2.2⟩
      ⟨hmem, Nat.le_refl _, hbounds.2.1⟩
    rw [← heq, hover.1] at hisField
    cases hisField
  · intro hover
    exact h.eq_nil hs hsorted hfields fun r hr _ => hover r hr

end

/-! ## Rounds that pass over a token -/

section

variable {plan : Plan} {layout : ClassLayout} {rs : List Round} {r : Round}
  {s t : List (Nat × Nat) × Work} {w w' : Work} {i : Nat}

theorem ends_token_passesOver (hw : w.index ≤ plan.program.count)
    (hvalue : plan.program.isTypeAt i = false) (hi : w.index < i) :
    Ends plan token w (fun _ w' => i < w'.index → plan.program.MayPassOver w.index i)
      fun _ => True := by
  unfold Program.MayPassOver
  split
  · rename_i hclass
    obtain ⟨hkind, hvalue⟩ := hclass
    unfold Program.kindAt at hkind
    unfold Program.isTypeAt at hvalue
    unfold Ends
    rw [token_eq_tokenStep hw]
    change Ends plan (tokenStep token) w _ _
    unfold tokenStep
    rw [ends_bind, ends_cur, if_pos (by simp [hkind, hvalue])]
    refine ends_classRule_run.mono fun _ w' hrun hlt => ?_
    obtain ⟨layout, b, id, u, x, v, hrun⟩ := hrun
    obtain ⟨statics, rfl, -⟩ := hrun.after
    rw [Work.index_write, Work.index_copyNext] at hlt
    exact ⟨v.index, id, hrun.body.context, hrun.members.kind, hrun.members.context,
      Nat.lt_succ_iff.mp hlt⟩
  · by_cases hnarrow : plan.program.IsNarrowAt w.index
    · refine (ends_token_isNarrowAt hw hnarrow).mono fun _ w' hthin hlt => .inr ?_
      refine (hthin i hi hlt).resolve_left fun htype => ?_
      rw [hvalue] at htype
      cases htype
    · exact Ends.trivial.mono fun _ _ _ _ => .inl hnarrow

theorem IsRound.mayPassOver (h : IsRound plan layout r s t) (hs : s.2.index ≤ plan.program.count)
    (hvalue : plan.program.isTypeAt i = false) (hover : r.PassesOver i) :
    plan.program.MayPassOver r.start i := by
  obtain ⟨hmember, hi, hlt⟩ := hover
  cases h with
  | field => cases hmember
  | @member fields w w' hfield h =>
    have hends : Ends plan (memberAt layout w.index) w
        (fun _ w' => i < w'.index → plan.program.MayPassOver w.index i) fun _ => True := by
      unfold memberAt classMembers.member
      refine Ends.ite (fun _ => ?_) fun _ => ends_token_passesOver hs hvalue hi
      -- a copied token is passed alone
      have hnot : i < w.index + 1 → plan.program.MayPassOver w.index i :=
        fun hle => absurd (Nat.lt_succ_iff.mp hle) (Nat.not_le_of_lt hi)
      rw [ends_bind, ends_copy]
      split
      · exact Ends.ite (fun _ => hnot) fun _ => hnot
      · exact trivial
    exact Ends.of_ok hends h hlt

theorem Rounds.mayPassOver (h : Rounds plan layout rs s t) (hs : s.2.index ≤ plan.program.count)
    (hvalue : plan.program.isTypeAt i = false) (hr : r ∈ rs) (hover : r.PassesOver i) :
    plan.program.MayPassOver r.start i := by
  induction h with
  | nil => cases hr
  | cons h _ ih =>
    rcases List.mem_cons.mp hr with rfl | hr
    · exact h.mayPassOver hs hvalue hover
    · exact ih (h.onward hs).2.2.2 hr

end

/-! ## Classes -/

/-- The class at an index has its braces at two others, and no more braces in its context. -/
structure HasBraces (p : Program) (i b e id : Nat) : Prop where
  body : IsBodyAt p i b id
  lt : b < e
  kind_close : p.kindAt e = .braceR
  context_close : (p.tokenAt e).context = some id
  unique_open : ∀ k, p.kindAt k = .braceL → (p.tokenAt k).context = some id → k = b
  unique_close : ∀ k, p.kindAt k = .braceR → (p.tokenAt k).context = some id → k = e

/-- The fields of a layout follow each other between two braces, apart from the place of the
initializers. -/
structure FieldsBetween (p : Program) (b e : Nat) (layout : ClassLayout) : Prop where
  sorted : layout.fields.Pairwise fun f g => f.2 ≤ g.1
  bounds : ∀ f ∈ layout.fields, b < f.1 ∧ f.1 < f.2 ∧ f.2 ≤ e
  value : ∀ f ∈ layout.fields, p.isTypeAt f.1 = false
  apart : ∀ pos, layout.insertPos = some pos → ∀ f ∈ layout.fields, pos < f.1 ∨ f.2 ≤ pos

/-- The token of an index is in no field. -/
def IsLeft (layout : ClassLayout) (k : Nat) : Prop :=
  ∀ f ∈ layout.fields, ¬(f.1 ≤ k ∧ k < f.2)

/-- The members of a class are lowered in rounds from one brace to the other.  Each token is
passed in one round, and fields are taken out from the first one on, up to some that are left. -/
structure LowersInRounds (plan : Plan) (layout : ClassLayout) (b e : Nat) (rs : List Round)
    (left : List (Nat × Nat)) : Prop where
  run : ∃ x v : Work, x.index = b + 1 ∧ v.index = e
    ∧ Rounds plan layout rs (layout.fields, x) (left, v)
  once : ∀ k, b < k → k < e → ∃! r, r ∈ rs ∧ r.Holds k
  removed_append : removed rs ++ left = layout.fields

section

variable {plan : Plan} {layout : ClassLayout} {o : Options} {w u z w' : Work} {b e id : Nat}
  {source : Text} {tokens : Array Token} {start : Work}

/-- A class that is gone through has fields between its own braces. -/
theorem exists_fieldsBetween (hparse : Grammar.parse plan.program.source o = .ok plan.program.tokens)
    (h : classLayout token plan w = .ok layout z) :
    ∃ b e id, HasBraces plan.program w.index b e id ∧ FieldsBetween plan.program b e layout := by
  have hmember : ∀ (b id : Nat) (l : ClassLayout) (v : Work), v.index ≤ plan.program.count →
      b < v.index → ¬(plan.program.kindAt v.index = .braceR
        ∧ (plan.program.tokenAt v.index).context = some id) →
      (Tidy plan.program (b + 1) v.index l
        ∧ ∀ f ∈ l.fields, plan.program.isTypeAt f.1 = false) →
      Ends plan (memberLayout token l) v (fun l' v' => Tidy plan.program (b + 1) v'.index l'
        ∧ ∀ f ∈ l'.fields, plan.program.isTypeAt f.1 = false) fun _ => True := by
    rintro b id l v hle hge - ⟨htidy, hvalues⟩
    refine ((ends_memberLayout_tidy hle hge htidy).and ends_memberLayout_starts).weaken
      (fun l' v' hl' => ⟨hl'.1, fun f hf => ?_⟩) fun _ _ => trivial
    rcases hl'.2 f hf with hf | ⟨hstart, hvalue⟩
    · exact hvalues f hf
    · exact hstart ▸ hvalue
  have hscan : Ends plan (scanClass token) w _ _ := ends_scanClass_of
    (I := fun b _ l v => Tidy plan.program (b + 1) v.index l
      ∧ ∀ f ∈ l.fields, plan.program.isTypeAt f.1 = false)
    (fun b id head v _ _ => ⟨⟨.nil, nofun, nofun, [], [], rfl, .refl _⟩, nofun⟩) hmember
  obtain ⟨v, ⟨b, id, hbody, hlt, hkind, hcontext, htidy, hvalues⟩, -⟩ := hscan.classLayout.of_ok h
  refine ⟨b, v.index, id, ⟨hbody, hlt, hkind, hcontext, fun k hk hid => ?_, fun k hk hid => ?_⟩,
    ⟨htidy.sorted, htidy.bounds, hvalues, fun pos hpos f => htidy.notMem_field hpos⟩⟩
  · exact Program.index_eq_of_brace hparse (.inl rfl) hk hid hbody.kind_brace hbody.context_brace
  · exact Program.index_eq_of_brace hparse (.inr rfl) hk hid hkind hcontext

/-- The body of a class is lowered in rounds. -/
theorem exists_lowersInRounds (hbraces : HasBraces plan.program w.index b e id)
    (hfields : FieldsBetween plan.program b e layout) (hu : u.index = b)
    (h : classBody token layout id plan u = .ok () w') :
    ∃ rs left, LowersInRounds plan layout b e rs left
      ∧ (left = [] ↔ ∀ r ∈ rs, ∀ f ∈ layout.fields, ¬r.PassesOver f.1)
      ∧ ((∀ f ∈ layout.fields, ∀ k, b < k → k < f.1 → IsLeft layout k →
        ¬plan.program.MayPassOver k f.1) → left = []) := by
  have hbody : Ends plan (classBody token layout id) u (fun _ _ => ∃ x v rs left,
      x.index = b + 1 ∧ v.index = e ∧ Rounds plan layout rs (layout.fields, x) (left, v))
      fun _ => True := by
    unfold classBody
    rw [ends_bind, ends_copyExpected]
    split
    case isFalse => exact trivial
    rw [ends_copy]
    split
    case isFalse => exact trivial
    rename_i hlt
    have hmembers : ∀ x : Work, x.index = b + 1 → Ends plan (do
        classMembers token layout (Text.join ";".toList layout.initializers) id
        copyExpected .braceR) x (fun _ _ => ∃ x v rs left, x.index = b + 1 ∧ v.index = e
        ∧ Rounds plan layout rs (layout.fields, x) (left, v)) fun _ => True := by
      intro x hx
      refine (ends_classMembers_rounds (by omega)).bind fun _ v hv => ?_
      obtain ⟨hkind, hcontext, rs, left, hrs⟩ := hv
      exact Ends.trivial.mono fun _ _ _ =>
        ⟨x, v, rs, left, hx, hbraces.unique_close v.index hkind hcontext, hrs⟩
    refine Ends.ite (fun hnew => ?_) fun _ => hmembers _ (congrArg (· + 1) hu)
    refine (ends_constructorCode hnew).bind fun code x hx => ?_
    rw [ends_bind, ends_append]
    refine hmembers _ ?_
    rw [Work.index_write, Work.index, hx.2]
    exact congrArg (· + 1) hu
  obtain ⟨x, v, rs, left, hx, hv, hrs⟩ := Ends.of_ok hbody h
  have hcount : x.index ≤ plan.program.count := by
    have hlt := hbraces.lt
    have he : e < plan.program.count := Program.lt_count_of_kindAt hbraces.kind_close (by decide)
    omega
  have hbounds : ∀ f ∈ layout.fields, x.index ≤ f.1 ∧ f.1 < f.2 ∧ f.2 ≤ v.index := by
    intro f hf
    have hbetween := hfields.bounds f hf
    omega
  refine ⟨rs, left, ⟨⟨x, v, hx, hv, hrs⟩, fun k hk hke => ?_, ?_⟩, ?_, fun hnot => ?_⟩
  · exact hrs.existsUnique hcount (by dsimp only; omega) (by dsimp only; omega)
  · exact hrs.removed_append fun f hf => (hbounds f hf).2.1
  · exact hrs.eq_nil_iff hcount hfields.sorted hbounds
  · refine hrs.eq_nil hcount hfields.sorted hbounds fun r hr hleft f hf hover => ?_
    have hge : x.index ≤ r.start := ((hrs.bounds hcount).2 r hr).1
    have hmay := hrs.mayPassOver hcount (hfields.value f hf) hr hover
    exact hnot f hf r.start (by omega) hover.2.1 hleft hmay

end

/-- A class with a method between two fields. -/
def methodBetweenSource : Text :=
  "class A \x7b x = 1; m(a) \x7b return a; \x7d y \x7d".toList

/-- A class with a field that is named like a modifier and stands before a static block. -/
def asyncFieldSource : Text :=
  "class A \x7b async\n static \x7b a, (b): T => c; \x7d x = 1; \x7d".toList

end Lower

end Downlevel
