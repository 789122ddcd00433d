import Downlevel.Proofs.Lower.Declines
import Downlevel.Proofs.Lower.Members

/-!
# Initializers end up in the constructor

The place of the initializers is found by going through the tokens of the
constructor, and used when the members are lowered.  Lowering a member can pass
more than one token, a nested class for example.  So the initializers are
written unless the token that they go after is passed as a part of something
else.
-/

namespace Downlevel

namespace Program

/-- A token that is lowered by itself, without what comes after it. -/
def IsSingleAt (p : Program) (i : Nat) : Prop :=
  p.isTypeAt i = false
    ∧ p.kindAt i ∉ [.kwClass, .jsxTagStart, .kwImport, .kwExport]
    ∧ (p.kindAt i = .parenR ∨ p.kindAt i = .name → p.isTypeAt (i + 1) = false)
    ∧ (p.kindAt i = .name → p.nameAt i ≠ "createReactClass".toList
      ∧ (p.nameAt i = "React".toList → p.nameAt (i + 2) ≠ "createClass".toList))

instance (p : Program) (i : Nat) : Decidable (p.IsSingleAt i) := by
  unfold IsSingleAt
  infer_instance

end Program

namespace Lower

open Relation ClassLayout

/-! ## Tokens that are lowered one by one -/

section

variable {plan : Plan} {w : Work} {b : Bool}

/-- A rule passes one token, or declines. -/
abbrev PassesOne (plan : Plan) (w : Work) (rule : Lower Bool) : Prop :=
  Ends plan rule w (fun b w' => if b then w'.index = w.index + 1 else w' = w) fun _ => True

theorem Declines.passesOne {rule : Lower Bool} (h : Declines plan w rule) :
    PassesOne plan w rule := by
  refine h.weaken ?_ fun _ _ => trivial
  rintro b w' ⟨rfl, rfl⟩
  rfl

theorem passesOne_replace {t : Text} :
    PassesOne plan w (do replace t; return true) := by
  rw [PassesOne, ends_bind, ends_replace]
  split
  · rfl
  · exact trivial

theorem passesOne_reference : PassesOne plan w reference := by
  unfold PassesOne reference bindings
  rw [ends_bind, ends_cur]
  refine Ends.ite (fun _ => ?_) fun _ => rfl
  rw [ends_bind, ends_curName, ends_bind, ends_bind, ends_read, ends_orBreach]
  cases plan.bindings with
  | none => exact trivial
  | some b =>
    rw [Option.elim_some]
    split
    · rfl
    · refine Ends.ite (fun _ => passesOne_replace) fun _ => ?_
      rw [ends_bind, ends_program, ends_bind, ends_index]
      exact Ends.ite (fun _ => passesOne_replace) fun _ => passesOne_replace

theorem passesOne_numericSeparators : PassesOne plan w numericSeparators := by
  unfold PassesOne numericSeparators
  simp only [ends_bind, ends_is]
  refine Ends.ite (fun _ => ?_) fun _ => rfl
  rw [ends_bind, ends_curText]
  exact Ends.ite (fun _ => passesOne_replace) fun _ => rfl

theorem passesOne_catchBinding : PassesOne plan w catchBinding := by
  unfold PassesOne catchBinding claim
  rw [ends_bind, ends_comes]
  refine Ends.ite (fun _ => ?_) fun _ => rfl
  rw [ends_bind, ends_copy]
  split
  · exact rfl
  · exact trivial

theorem passesOne_moduleRule (himport : plan.program.kindAt w.index ≠ .kwImport)
    (hexport : plan.program.kindAt w.index ≠ .kwExport) : PassesOne plan w (moduleRule token) := by
  unfold PassesOne moduleRule
  unfold Program.kindAt at himport hexport
  rw [ends_bind, ends_cur]
  refine Ends.ite (fun _ => rfl) fun _ => ?_
  rw [decide_eq_false himport, Bool.false_and, if_neg Bool.false_ne_true,
    decide_eq_false hexport, Bool.false_and, if_neg Bool.false_ne_true]
  exact Ends.ite (fun _ => passesOne_reference) fun _ => rfl

theorem ends_token_isSingleAt (hw : w.index ≤ plan.program.count)
    (h : plan.program.IsSingleAt w.index) :
    Ends plan token w (fun _ w' => w'.index = w.index + 1) fun _ => True := by
  obtain ⟨htype, hkind, hnext, hname⟩ := h
  simp only [List.mem_cons, List.not_mem_nil, or_false, not_or] at hkind
  obtain ⟨hclass, htag, himport, hexport⟩ := hkind
  have hrules : ∀ rule ∈ rules plan.options token, PassesOne plan w rule := by
    intro rule hrule
    rcases mem_rules hrule with rfl | rfl | rfl | rfl | rfl | rfl | rfl | rfl
    · exact (declines_elementRule htag).passesOne
    · refine (declines_componentRule fun hkind _ => ?_).passesOne
      exact ⟨(hname hkind).1, fun _ => (hname hkind).2⟩
    · exact passesOne_moduleRule himport hexport
    · exact (declines_arrowParametersEnd fun hkind => hnext (.inl hkind)).passesOne
    · exact (declines_asyncTypeParameters fun hkind _ => hnext (.inr hkind)).passesOne
    · exact (declines_typeRun htype).passesOne
    · exact passesOne_numericSeparators
    · exact passesOne_catchBinding
  unfold Ends
  rw [token_eq_tokenStep hw]
  change Ends plan (tokenStep token) w _ _
  unfold tokenStep
  unfold Program.kindAt at hclass
  rw [ends_bind, ends_cur, decide_eq_false hclass, Bool.false_and, if_neg Bool.false_ne_true,
    ends_bind, ends_read]
  refine ends_firstOf hrules ?_
  rw [ends_copy]
  split
  · rfl
  · exact trivial

end

/-! ## Rounds that come to the place of the initializers -/

section

variable {plan : Plan} {layout : ClassLayout} {w x v : Work} {pos start stop : Nat}

theorem ends_removeTo (h : w.index < stop) :
    Ends plan (do removeInitial; repeatTo stop remove : Lower Unit) w
      (fun _ w' => w'.index = stop) fun _ => True := by
  rw [ends_bind, ends_removeInitial]
  split
  · unfold repeatTo repeatWhile
    refine Ends.loop_partial (fun _ v => v.index ≤ stop) trivial (fun _ v hv => ?_) h
    rw [ends_bind, ends_bind, ends_index, ends_pure]
    refine Ends.ite (fun hlt => ?_) fun hge => ?_
    · have hnext : v.index < stop := of_decide_eq_true hlt
      rw [ends_bind, ends_remove]
      split
      · exact hnext
      · exact trivial
    · have hle : stop ≤ v.index := by simpa using hge
      exact Nat.le_antisymm hv hle
  · exact trivial

/-- The fields that are still to come at an index: those before it are gone. -/
structure Splits (layout : ClassLayout) (fields : List (Nat × Nat)) (i : Nat) : Prop where
  suffix : fields <:+ layout.fields
  done : ∀ f ∈ layout.fields, f ∈ fields ∨ f.2 ≤ i
  ahead : ∀ f ∈ fields, i ≤ f.1

/-- Up to an index, each token is lowered by itself or is a part of a field. -/
def IsSingleTo (p : Program) (layout : ClassLayout) (i pos : Nat) : Prop :=
  ∀ k < pos, i ≤ k → p.IsSingleAt k ∨ ∃ f ∈ layout.fields, f.1 ≤ k ∧ k < f.2

section

variable {lo hi : Nat} {fields fields' : List (Nat × Nat)}

/-- A field that starts here is the first of those to come. -/
theorem Splits.ne_start (h : Splits layout fields w.index) (htidy : Tidy plan.program lo hi layout)
    (hhead : ∀ f ∈ fields.head?, f.1 ≠ w.index) : ∀ f ∈ fields, f.1 ≠ w.index := by
  intro f hf heq
  cases fields with
  | nil => cases hf
  | cons g rest =>
    have hsorted := List.pairwise_cons.mp (htidy.sorted.sublist h.suffix.sublist)
    have hg : g ∈ layout.fields := h.suffix.subset (List.mem_cons_self ..)
    have hbounds := htidy.bounds g hg
    have hahead := h.ahead g (List.mem_cons_self ..)
    rcases List.mem_cons.mp hf with rfl | hmem
    · exact hhead f rfl heq
    · have hafter := hsorted.1 f hmem
      omega

/-- A round from before the place of the initializers comes at most to it. -/
theorem MemberStep.splits (h : MemberStep plan layout (fields, w) (fields', v))
    (hw : w.index ≤ plan.program.count) (hsplits : Splits layout fields w.index)
    (htidy : Tidy plan.program lo hi layout) (hpos : layout.insertPos = some pos)
    (hsingle : IsSingleTo plan.program layout w.index pos) (hlt : w.index < pos) :
    v.index ≤ pos ∧ Splits layout fields' v.index := by
  cases h with
  | @field start stop rest w w' hstart h =>
    subst hstart
    have hmem : (w.index, stop) ∈ layout.fields := hsplits.suffix.subset (List.mem_cons_self ..)
    have hfield : w.index < stop := (htidy.bounds _ hmem).2.1
    have hindex : v.index = stop := Ends.of_ok (ends_removeTo hfield) h
    have hsorted := List.pairwise_cons.mp (htidy.sorted.sublist hsplits.suffix.sublist)
    refine ⟨?_, (List.suffix_cons ..).trans hsplits.suffix, fun f hf => ?_, fun f hf => ?_⟩
    · rcases htidy.notMem_field hpos hmem with hbefore | hbehind
      · exact absurd hlt (Nat.lt_asymm hbefore)
      · exact hindex ▸ hbehind
    · rcases hsplits.done f hf with hmem | hdone
      · rcases List.mem_cons.mp hmem with rfl | hmem
        · exact .inr (Nat.le_of_eq hindex.symm)
        · exact .inl hmem
      · exact .inr (by omega)
    · exact hindex ▸ hsorted.1 f hf
  | token hhead _ h =>
    have hstart := hsplits.ne_start htidy hhead
    have hat : plan.program.IsSingleAt w.index := by
      rcases hsingle w.index hlt (Nat.le_refl _) with hat | ⟨f, hf, hle, hgt⟩
      · exact hat
      · rcases hsplits.done f hf with hmem | hdone
        · exact absurd (Nat.le_antisymm hle (hsplits.ahead f hmem)) (hstart f hmem)
        · exact absurd hgt (Nat.not_lt_of_le hdone)
    have hindex : v.index = w.index + 1 := Ends.of_ok (ends_token_isSingleAt hw hat) h
    refine ⟨by omega, hsplits.suffix, fun f hf => ?_, fun f hf => ?_⟩
    · exact (hsplits.done f hf).imp_right fun hdone => by omega
    · have hne := hstart f hf
      have hahead := hsplits.ahead f hf
      omega

theorem MemberSteps.splits {s : List (Nat × Nat) × Work}
    (h : MemberSteps plan layout (layout.fields, x) s) (hx : x.index ≤ plan.program.count)
    (htidy : Tidy plan.program lo hi layout) (hpos : layout.insertPos = some pos)
    (hfields : ∀ f ∈ layout.fields, x.index ≤ f.1)
    (hsingle : IsSingleTo plan.program layout x.index pos) (hs : s.2.index ≤ pos) :
    Splits layout s.1 s.2.index := by
  induction h with
  | refl => exact ⟨List.suffix_refl _, fun f hf => .inl hf, hfields⟩
  | @tail t u hsteps hstep ih =>
    have honward : x.index ≤ t.2.index ∧ _ := MemberSteps.onward hsteps hx
    obtain ⟨hle, hcount⟩ := honward
    have hlt : t.2.index < u.2.index := (hstep.onward hcount).1
    have hsplits := ih (by omega)
    exact (hstep.splits hcount hsplits htidy hpos (fun k hk hge => hsingle k hk (by omega))
      (by omega)).2

/-- Tokens that are lowered by themselves do not pass over the place of the
initializers. -/
theorem not_passesOver_of_isSingleTo (hx : x.index ≤ plan.program.count)
    (htidy : Tidy plan.program lo hi layout) (hpos : layout.insertPos = some pos)
    (hfields : ∀ f ∈ layout.fields, x.index ≤ f.1)
    (hsingle : IsSingleTo plan.program layout x.index pos) : ¬PassesOver plan layout x pos v := by
  rintro ⟨s, t, -, hxs, hst, -, hs, ht⟩
  have honward : x.index ≤ s.2.index ∧ _ := hxs.onward hx
  obtain ⟨hle, hcount⟩ := honward
  have hsplits := hxs.splits hx htidy hpos hfields hsingle (Nat.le_of_lt hs)
  have hto := (hst.splits hcount hsplits htidy hpos (fun k hk hge => hsingle k hk (by omega)) hs).1
  omega

end

end

/-! ## Lowering a class -/

/-- What is written after the opening brace of a class: a constructor with the
initializers, if there are any and the class has no constructor. -/
def IsPrologue (layout : ClassLayout) (code : Text) : Prop :=
  if layout.insertPos.isNone && !layout.initializers.isEmpty then
    if layout.head.hasSuperclass then
      ∃ arguments, code = "constructor(...".toList ++ arguments ++ ") \x7b super(...".toList
        ++ arguments ++ "); ".toList ++ Text.join ";".toList layout.initializers ++ "; \x7d".toList
    else code = "constructor() \x7b ".toList ++ Text.join ";".toList layout.initializers
      ++ "; \x7d".toList
  else code = []

/-- A class is lowered from `w` to `w'`.  Its layout is found first, with the body
at `b`.  Then the head is lowered up to the brace at `u`.  After that and a
constructor, if the class needs a new one, the members are lowered from `x` up to
the brace at `v`.  Only static fields come after it. -/
structure ClassRun (plan : Plan) (layout : ClassLayout) (b id : Nat) (w u x v w' : Work) :
    Prop where
  layout_eq : ∃ z, classLayout token plan w = .ok layout z
  body : IsBodyAt plan.program w.index b id
  tidy : ∃ hi, Tidy plan.program (b + 1) hi layout
  le_open : b ≤ u.index
  kind_open : plan.program.kindAt u.index = .braceL
  context_open : (plan.program.tokenAt u.index).context = some id
  head : (∀ k < b, w.index < k → plan.program.IsSingleAt k) → u.index = b
  prologue : ∃ code, IsPrologue layout code
    ∧ x.draft = ((u.copyNext plan.program).write code).draft
  members : MembersRun plan layout id x v
  after : ∃ statics, w' = (v.copyNext plan.program).write statics
    ∧ (layout.statics = [] → statics = [])

section

variable {plan : Plan} {layout : ClassLayout} {w x u v w' z : Work} {pos b id : Nat}

theorem ends_constructorCode
    (h : (layout.insertPos.isNone && !layout.initializers.isEmpty) = true) :
    Ends plan (constructorCode layout.head.hasSuperclass
      (Text.join ";".toList layout.initializers)) w
      (fun code w' => IsPrologue layout code ∧ w'.draft = w.draft) fun _ => True := by
  unfold constructorCode IsPrologue claim
  simp only [h, if_true]
  refine Ends.ite (fun hsuper => ?_) fun hsuper => ?_
  · simp only [hsuper, if_true]
    exact ⟨⟨_, rfl⟩, rfl⟩
  · simp only [hsuper]
    exact ⟨rfl, rfl⟩

/-- The head of a class is lowered up to its brace, if no token of it is lowered
together with the brace. -/
theorem ends_classHead_single (hz : z.index ≤ plan.program.count) (hle : z.index ≤ b)
    (hkind : plan.program.kindAt b = .braceL)
    (hcontext : (plan.program.tokenAt b).context = some id) :
    Ends plan (repeatWhile (return !(← isInContext .braceL id)) do
        if ← atEnd then breach .classBody else token) z
      (fun _ u => z.index ≤ u.index ∧ u.index ≤ plan.program.count
        ∧ plan.program.kindAt u.index = .braceL
        ∧ (plan.program.tokenAt u.index).context = some id
        ∧ ((∀ k < b, z.index ≤ k → plan.program.IsSingleAt k) → u.index ≤ b)) fun _ => True := by
  unfold repeatWhile
  refine Ends.loop_partial (fun _ v => z.index ≤ v.index ∧ v.index ≤ plan.program.count
    ∧ ((∀ k < b, z.index ≤ k → plan.program.IsSingleAt k) → v.index ≤ b)) trivial ?_
    ⟨Nat.le_refl _, hz, fun _ => hle⟩
  rintro _ v ⟨hge, hcount, hsingle⟩
  rw [ends_bind, ends_bind, ends_isInContext, ends_pure]
  refine Ends.ite (fun hnot => ?_) fun hbody => ?_
  · rw [ends_bind, ends_bind, ends_atEnd]
    refine Ends.ite (fun _ => trivial) fun _ => ?_
    have hheads : Heads plan Always token v := heads_of_advances hcount
    have hone : Ends plan token v (fun _ v' => plan.program.IsSingleAt v.index →
        v'.index = v.index + 1) fun _ => True := by
      by_cases hat : plan.program.IsSingleAt v.index
      · exact (ends_token_isSingleAt hcount hat).weaken (fun _ _ heq _ => heq) fun _ _ => trivial
      · exact Ends.trivial.weaken (fun _ _ _ hat' => absurd hat' hat) fun _ _ => trivial
    refine (hheads.and hone).weaken (fun _ v' hv' => ?_) fun _ _ => trivial
    obtain ⟨⟨honward, -⟩, hnext⟩ := hv'
    refine ⟨Nat.le_trans hge honward.index_le, honward.le_count, fun hall => ?_⟩
    have hne : v.index ≠ b := by
      rintro rfl
      simp [hkind, hcontext] at hnot
    have hlt : v.index < b := Nat.lt_of_le_of_ne (hsingle hall) hne
    rw [hnext (hall _ hlt hge)]
    exact hlt
  · have hat : plan.program.kindAt v.index = .braceL
        ∧ (plan.program.tokenAt v.index).context = some id := by simpa using hbody
    exact ⟨hge, hcount, hat.1, hat.2, hsingle⟩

/-- The members of a class come after its opening brace and a constructor, if that
is new. -/
theorem ends_classBody_run :
    Ends plan (classBody token layout id) u (fun _ w' => ∃ x v code, IsPrologue layout code
      ∧ x.draft = ((u.copyNext plan.program).write code).draft
      ∧ MembersRun plan layout id x v ∧ w' = v.copyNext plan.program) fun _ => True := by
  unfold classBody
  rw [ends_bind, ends_copyExpected]
  split
  case isFalse => exact trivial
  rw [ends_copy]
  split
  case isFalse => exact trivial
  rename_i hlt
  -- the same comes after the brace, whatever is written there
  have hmembers : ∀ x code, x.draft = ((u.copyNext plan.program).write code).draft →
      IsPrologue layout code → Ends plan (do
        classMembers token layout (Text.join ";".toList layout.initializers) id
        copyExpected .braceR) x (fun _ w' => ∃ x v code, IsPrologue layout code
        ∧ x.draft = ((u.copyNext plan.program).write code).draft
        ∧ MembersRun plan layout id x v ∧ w' = v.copyNext plan.program) fun _ => True := by
    intro x code hx hcode
    have hindex : x.index = u.index + 1 := congrArg (·.index) hx
    refine (ends_classMembers_run (by omega)).bind fun _ v hv => ?_
    rw [ends_copyExpected, if_pos hv.kind, ends_copy]
    split
    · exact ⟨x, v, code, hcode, hx, hv, rfl⟩
    · exact trivial
  refine Ends.ite (fun hnew => ?_) fun hnone => ?_
  · refine (ends_constructorCode hnew).bind fun code z hz => ?_
    obtain ⟨hcode, hdraft⟩ := hz
    rw [ends_bind, ends_append]
    refine hmembers _ code ?_ hcode
    simp only [Work.write, hdraft]
  · refine hmembers _ [] (by rw [Work.write_nil]) ?_
    rw [IsPrologue, if_neg hnone]

theorem ends_staticsName_index :
    Ends plan (staticsName layout) w (fun _ w' => w'.index = w.index) fun _ => True := by
  unfold staticsName claim
  exact Ends.ite (fun _ => rfl) fun _ => rfl

theorem ends_classRule_run :
    Ends plan (classRule token) w
      (fun _ w' => ∃ layout b id u x v, ClassRun plan layout b id w u x v w') fun _ => True := by
  unfold classRule
  refine ((Ends.self.and ends_classLayout_tidy).weaken (fun _ _ => And.imp_right id)
    fun _ _ => trivial).bind fun layout z hz => ?_
  obtain ⟨hlayout, hindex, b, id, hi, hbody, htidy⟩ := hz
  have hcount : b < plan.program.count := Program.lt_count_of_kindAt hbody.kind_brace (by decide)
  have hlt := hbody.lt
  refine ends_staticsName_index.bind fun name z' hz' => ?_
  have hindex' : z'.index = w.index := hz'.trans hindex
  rw [ends_bind, ends_cur, ends_bind, hindex', hbody.context, ends_orBreach, Option.elim_some,
    ends_bind, ends_copyExpected]
  split
  case isFalse => exact trivial
  rw [ends_copy]
  split
  case isFalse => exact trivial
  refine (ends_classHead_single (z := z'.copyNext plan.program) (b := b) ?_ ?_ hbody.kind_brace
    hbody.context_brace).bind fun _ u hu => ?_
  · rw [Work.index_copyNext, hindex']
    omega
  · rw [Work.index_copyNext, hindex']
    omega
  obtain ⟨hge, hle, hkind, hcontext, hsingle⟩ := hu
  rw [Work.index_copyNext, hindex'] at hge hsingle
  refine ends_classBody_run.bind fun _ w₁ hw₁ => ?_
  obtain ⟨x, v, code, hcode, hx, hrun, rfl⟩ := hw₁
  have hopen : b ≤ u.index := by
    refine Nat.le_of_not_lt fun hbefore => ?_
    exact hbody.first u.index hge hbefore ⟨hkind, hcontext⟩
  have hclass : ∀ w' statics, w' = (v.copyNext plan.program).write statics →
      (layout.statics = [] → statics = []) → ClassRun plan layout b id w u x v w' := by
    intro w' statics hw' hstatics
    refine ⟨⟨z, hlayout⟩, hbody, ⟨hi, htidy⟩, hopen, hkind, hcontext, fun hall => ?_,
      ⟨code, hcode, hx⟩, hrun, statics, hw', hstatics⟩
    exact Nat.le_antisymm (hsingle hall) hopen
  refine Ends.ite (fun hsome => ?_) fun hnone => ?_
  · rw [ends_bind, ends_orBreach]
    cases name with
    | none => exact trivial
    | some name =>
      rw [Option.elim_some, ends_append]
      exact ⟨layout, b, id, u, x, v, hclass _ _ rfl fun hnil => by simp [hnil] at hsome⟩
  · exact ⟨layout, b, id, u, x, v, hclass _ [] (by rw [Work.write_nil]) fun _ => rfl⟩

/-! ## Initializers -/

namespace ClassRun

variable (h : ClassRun plan layout b id w u x v w')
include h

theorem index_start : x.index = u.index + 1 := by
  obtain ⟨code, -, hx⟩ := h.prologue
  exact congrArg (·.index) hx

theorem start_le : x.index ≤ plan.program.count := by
  have hlt : u.index < plan.program.count := Program.lt_count_of_kindAt h.kind_open (by decide)
  have hindex := h.index_start
  omega

theorem lowersWithout (hpos : layout.insertPos = none) :
    LowersWithout plan layout x v := by
  rcases h.members.cases with hwithout | ⟨pos, hsome, -⟩
  · exact hwithout
  · rw [hpos] at hsome
    cases hsome

theorem insertsAfter_or (hpos : layout.insertPos = some pos) :
    InsertsAfter plan layout x pos v ∨ LowersWithout plan layout x v := by
  rcases h.members.cases with hwithout | ⟨pos', hpos', hinserts⟩
  · exact .inr hwithout
  · obtain rfl := Option.some.inj (hpos'.symm.trans hpos)
    exact .inl hinserts

theorem lowersWithout_iff (hpos : layout.insertPos = some pos) (hgt : u.index < pos)
    (hlt : pos < v.index) :
    LowersWithout plan layout x v ↔ PassesOver plan layout x pos v := by
  obtain ⟨hi, htidy⟩ := h.tidy
  constructor
  · intro hwithout
    refine hwithout.passesOver hpos (fun f hf heq => ?_) (h.index_start ▸ hgt) hlt
    have hbounds := htidy.bounds f hf
    have hnot := htidy.notMem_field hpos hf
    omega
  · rintro ⟨s, t, fields, hxs, hst, htv, -⟩
    exact ⟨fields, (hxs.tail hst).trans htv⟩

theorem insertsAfter_iff (hpos : layout.insertPos = some pos) (hgt : u.index < pos)
    (hlt : pos < v.index) :
    InsertsAfter plan layout x pos v ↔ ¬PassesOver plan layout x pos v := by
  constructor
  · exact fun hinserts => hinserts.not_passesOver hpos h.start_le
  · intro hnot
    rcases h.insertsAfter_or hpos with hinserts | hwithout
    · exact hinserts
    · exact absurd ((h.lowersWithout_iff hpos hgt hlt).mp hwithout) hnot

/-- The place of the initializers comes after the brace. -/
theorem body_lt (hpos : layout.insertPos = some pos) :
    b < pos := by
  obtain ⟨hi, htidy⟩ := h.tidy
  obtain ⟨bodyStart, bodyEnd, hstart, -, hmatching, rfl, -⟩ := htidy.place pos hpos
  have hmem : bodyStart ≤ insertionPoint plan.program bodyStart bodyEnd ∧ _ :=
    insertionPoint_mem (Program.lt_of_matching? hmatching)
  omega

/-- The members are lowered from the brace on, and come to the place of the
initializers if the tokens before it are lowered by themselves. -/
theorem insertsAfter (hpos : layout.insertPos = some pos) (hhead : ∀ k < b, w.index < k → plan.program.IsSingleAt k)
    (hsingle : IsSingleTo plan.program layout (b + 1) pos)
    (hclose : ∀ k ≤ pos, b < k → ¬(plan.program.kindAt k = .braceR
      ∧ (plan.program.tokenAt k).context = some id)) : InsertsAfter plan layout x pos v := by
  obtain ⟨hi, htidy⟩ := h.tidy
  have hopen : u.index = b := h.head hhead
  have hindex : x.index = b + 1 := hopen ▸ h.index_start
  have hle := h.members.le
  have hlt : pos < v.index := by
    refine Nat.lt_of_not_le fun hbefore => ?_
    exact hclose v.index hbefore (by omega) ⟨h.members.kind, h.members.context⟩
  refine (h.insertsAfter_iff hpos (hopen ▸ h.body_lt hpos) hlt).mpr ?_
  refine not_passesOver_of_isSingleTo h.start_le htidy hpos (fun f hf => ?_) (hindex ▸ hsingle)
  exact hindex ▸ (htidy.bounds f hf).1

end ClassRun

end

/-- A field and a constructor that calls the one of the superclass. -/
def derivedSource : Text :=
  "class A extends B \x7b x = 1; constructor(y) \x7b super(y); \x7d \x7d".toList

/-- A class with a field, and a constructor that holds a class whose constructor
calls the one of its superclass. -/
def nestedConstructorSource : Text :=
  ("class A \x7b x = 1; constructor() "
    ++ "\x7b class B extends C \x7b constructor() \x7b super(); \x7d \x7d \x7d \x7d").toList

end Lower

end Downlevel
