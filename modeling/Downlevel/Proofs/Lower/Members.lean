import Downlevel.Proofs.Lower.Layout
import Mathlib.Logic.Relation

/-!
# Lowering the members of a class

The members of a class are lowered in rounds.  A round takes out a field, lowers
a token, or copies the token that the initializers go after and writes them.  The
rounds of the first two kinds are the steps of `MemberStep`; there is at most one
of the third kind, since no round goes back.
-/

namespace Downlevel.Lower

open Relation

/-- A round that writes no initializers, from the fields that are still to come and
the work to those after it. -/
inductive MemberStep (plan : Plan) (layout : ClassLayout) :
    List (Nat × Nat) × Work → List (Nat × Nat) × Work → Prop
  | field {start stop : Nat} {rest : List (Nat × Nat)} {w w' : Work} (hstart : start = w.index)
      (h : (do removeInitial; repeatTo stop remove : Lower Unit) plan w = .ok () w') :
      MemberStep plan layout ((start, stop) :: rest, w) (rest, w')
  | token {fields : List (Nat × Nat)} {w w' : Work} (hfield : ∀ f ∈ fields.head?, f.1 ≠ w.index)
      (hpos : layout.insertPos ≠ some w.index) (h : token plan w = .ok () w') :
      MemberStep plan layout (fields, w) (fields, w')

/-- A round passes the tokens from one index up to another.  They are taken out as a field, or
lowered. -/
structure Round where
  isField : Bool
  start : Nat
  stop : Nat
  deriving Repr, DecidableEq

/-- What is done at the token of an index that begins no field. -/
abbrev memberAt (layout : ClassLayout) (i : Nat) : Lower Unit :=
  classMembers.member token layout (Text.join ";".toList layout.initializers) i

/-- One round, from the fields that are still to come and the work to those after it. -/
inductive IsRound (plan : Plan) (layout : ClassLayout) :
    Round → List (Nat × Nat) × Work → List (Nat × Nat) × Work → Prop
  | field {start stop : Nat} {rest : List (Nat × Nat)} {w w' : Work} (hstart : start = w.index)
      (h : (do removeInitial; repeatTo stop remove : Lower Unit) plan w = .ok () w') :
      IsRound plan layout ⟨true, w.index, w'.index⟩ ((start, stop) :: rest, w) (rest, w')
  | member {fields : List (Nat × Nat)} {w w' : Work} (hfield : ∀ f ∈ fields.head?, f.1 ≠ w.index)
      (h : memberAt layout w.index plan w = .ok () w') :
      IsRound plan layout ⟨false, w.index, w'.index⟩ (fields, w) (fields, w')

/-- Rounds that follow each other. -/
inductive Rounds (plan : Plan) (layout : ClassLayout) :
    List Round → List (Nat × Nat) × Work → List (Nat × Nat) × Work → Prop
  | nil {s : List (Nat × Nat) × Work} : Rounds plan layout [] s s
  | cons {r : Round} {rs : List Round} {s t u : List (Nat × Nat) × Work}
      (h : IsRound plan layout r s t) (hrest : Rounds plan layout rs t u) :
      Rounds plan layout (r :: rs) s u

/-- Rounds that write no initializers. -/
abbrev MemberSteps (plan : Plan) (layout : ClassLayout) :
    List (Nat × Nat) × Work → List (Nat × Nat) × Work → Prop :=
  ReflTransGen (MemberStep plan layout)

/-- What is written after the token that the initializers go after. -/
def insertedCode (layout : ClassLayout) : Text :=
  if layout.initializers.isEmpty then []
  else ";".toList ++ Text.join ";".toList layout.initializers ++ ";".toList

/-- The members are lowered from `x` up to `v`, and the initializers are written
nowhere. -/
def LowersWithout (plan : Plan) (layout : ClassLayout) (x v : Work) : Prop :=
  ∃ fields, MemberSteps plan layout (layout.fields, x) (fields, v)

/-- The members are lowered from `x` up to `v`, and the initializers are written
once, after the token of an index. -/
def InsertsAfter (plan : Plan) (layout : ClassLayout) (x : Work) (pos : Nat) (v : Work) : Prop :=
  ∃ fields w fields', w.index = pos ∧ (∀ f ∈ fields.head?, f.1 ≠ pos)
    ∧ MemberSteps plan layout (layout.fields, x) (fields, w)
    ∧ MemberSteps plan layout
      (fields, (w.copyNext plan.program).write (insertedCode layout)) (fields', v)

/-- The members are lowered from `x` up to `v`, and one round goes from before an
index to behind it. -/
def PassesOver (plan : Plan) (layout : ClassLayout) (x : Work) (pos : Nat) (v : Work) : Prop :=
  ∃ s t fields, MemberSteps plan layout (layout.fields, x) s ∧ MemberStep plan layout s t
    ∧ MemberSteps plan layout t (fields, v) ∧ s.2.index < pos ∧ pos < t.2.index

section

variable {plan : Plan} {layout : ClassLayout} {s t u : List (Nat × Nat) × Work} {x v w : Work}
  {pos id : Nat} {fields : List (Nat × Nat)} {r : Round} {rs : List Round}

/-! ## Steps -/

theorem lt_of_advances {p : Lower Unit} {w' : Work} [Advances plan 0 false Always p p]
    (h : p plan w = .ok () w') (hw : w.index ≤ plan.program.count) :
    w.index < w'.index ∧ w'.index ≤ plan.program.count := by
  have hheads : Heads plan Always p w := heads_of_advances hw
  obtain ⟨honward, hlt⟩ := hheads.of_ok h
  exact ⟨hlt trivial, honward.le_count⟩

theorem MemberStep.onward (h : MemberStep plan layout s t) (hs : s.2.index ≤ plan.program.count) :
    s.2.index < t.2.index ∧ t.2.index ≤ plan.program.count := by
  cases h with
  | field _ h => exact lt_of_advances h hs
  | token _ _ h => exact lt_of_advances h hs

theorem MemberSteps.onward (h : MemberSteps plan layout s t)
    (hs : s.2.index ≤ plan.program.count) :
    s.2.index ≤ t.2.index ∧ t.2.index ≤ plan.program.count := by
  induction h with
  | refl => exact ⟨Nat.le_refl _, hs⟩
  | tail _ hstep ih =>
    obtain ⟨hlt, hle⟩ := hstep.onward ih.2
    exact ⟨Nat.le_of_lt (Nat.lt_of_le_of_lt ih.1 hlt), hle⟩

/-- Fields are taken out in their order. -/
theorem MemberSteps.suffix (h : MemberSteps plan layout s t) : t.1 <:+ s.1 := by
  induction h with
  | refl => exact List.suffix_refl _
  | tail _ hstep ih =>
    cases hstep with
    | field _ _ => exact (List.suffix_cons ..).trans ih
    | token _ _ _ => exact ih

theorem memberStep_rightUnique : Relator.RightUnique (MemberStep plan layout) := by
  intro s t u hst hsu
  cases hst with
  | field hstart h =>
    cases hsu with
    | field _ h' =>
      obtain ⟨-, rfl⟩ := EStateM.Result.ok.inj (h.symm.trans h')
      rfl
    | token hfield _ _ => exact absurd hstart (hfield _ rfl)
  | token hfield _ h =>
    cases hsu with
    | field hstart _ => exact absurd hstart (hfield _ rfl)
    | token _ _ h' =>
      obtain ⟨-, rfl⟩ := EStateM.Result.ok.inj (h.symm.trans h')
      rfl

/-! ## Rounds -/

instance {n k : Nat} : Advances plan n false Always (memberAt layout k) (memberAt layout k) := by
  unfold memberAt classMembers.member
  infer_instance

theorem IsRound.onward (h : IsRound plan layout r s t) (hs : s.2.index ≤ plan.program.count) :
    s.2.index = r.start ∧ r.start < r.stop ∧ r.stop = t.2.index
      ∧ t.2.index ≤ plan.program.count := by
  cases h with
  | field _ h =>
    obtain ⟨hlt, hle⟩ := lt_of_advances h hs
    exact ⟨rfl, hlt, rfl, hle⟩
  | member _ h =>
    obtain ⟨hlt, hle⟩ := lt_of_advances h hs
    exact ⟨rfl, hlt, rfl, hle⟩

theorem Rounds.concat (h : Rounds plan layout rs s t) (h' : IsRound plan layout r t u) :
    Rounds plan layout (rs ++ [r]) s u := by
  induction h with
  | nil => exact .cons h' .nil
  | cons h _ ih => exact .cons h (ih h')

/-- The members of a class are lowered in rounds up to a brace in its context. -/
theorem ends_classMembers_rounds (hx : x.index ≤ plan.program.count) :
    Ends plan (classMembers token layout (Text.join ";".toList layout.initializers) id) x
      (fun _ v => plan.program.kindAt v.index = .braceR
        ∧ (plan.program.tokenAt v.index).context = some id
        ∧ ∃ rs left, Rounds plan layout rs (layout.fields, x) (left, v)) fun _ => True := by
  unfold classMembers
  suffices hloop : Ends plan (loop layout.fields _) x (fun left v =>
      plan.program.kindAt v.index = .braceR ∧ (plan.program.tokenAt v.index).context = some id
      ∧ ∃ rs, Rounds plan layout rs (layout.fields, x) (left, v)) fun _ => True from
    hloop.bind fun left _ ⟨hkind, hcontext, rs, hrs⟩ => ⟨hkind, hcontext, rs, left, hrs⟩
  refine Ends.loop_partial (fun fields v => v.index ≤ plan.program.count
    ∧ ∃ rs, Rounds plan layout rs (layout.fields, x) (fields, v)) trivial ?_ ⟨hx, [], .nil⟩
  rintro fields w ⟨hw, rs, hrs⟩
  rw [ends_bind, ends_isInContext]
  refine Ends.ite (fun hclose => ?_) fun _ => ?_
  · obtain ⟨hkind, hcontext⟩ := of_decide_eq_true hclose
    exact ⟨hkind, hcontext, rs, hrs⟩
  rw [ends_bind, ends_atEnd]
  refine Ends.ite (fun _ => trivial) fun _ => ?_
  rw [ends_bind, ends_index]
  have hround : ∀ {r fields' v}, IsRound plan layout r (fields, w) (fields', v) →
      v.index ≤ plan.program.count ∧ ∃ rs, Rounds plan layout rs (layout.fields, x) (fields', v) :=
    fun hr => ⟨(hr.onward hw).2.2.2, _, hrs.concat hr⟩
  cases fields with
  | nil => exact Ends.self.bind fun _ v hv => hround (.member nofun hv)
  | cons f rest =>
    refine Ends.ite (fun hstart => ?_) fun hstart => ?_
    · have hremove : Ends plan (do removeInitial; repeatTo f.2 remove : Lower Unit) w _ _ :=
        Ends.self.mono fun _ v hv => hround (.field hstart hv)
      simp only [ends_bind] at hremove ⊢
      exact hremove
    · refine Ends.self.bind fun _ v hv => hround (.member (fun g hg => ?_) hv)
      cases hg
      exact hstart

/-! ## The place of the initializers -/

/-- The rounds so far, with the initializers written at most once. -/
def LowersTo (plan : Plan) (layout : ClassLayout) (x : Work) (fields : List (Nat × Nat))
    (v : Work) : Prop :=
  MemberSteps plan layout (layout.fields, x) (fields, v)
    ∨ ∃ fields₁ w, layout.insertPos = some w.index ∧ w.index < v.index
      ∧ (∀ f ∈ fields₁.head?, f.1 ≠ w.index) ∧ MemberSteps plan layout (layout.fields, x) (fields₁, w)
      ∧ MemberSteps plan layout
        (fields₁, (w.copyNext plan.program).write (insertedCode layout)) (fields, v)

theorem LowersTo.step {fields fields' : List (Nat × Nat)} (h : LowersTo plan layout x fields w)
    (hstep : MemberStep plan layout (fields, w) (fields', v)) (hlt : w.index < v.index) :
    LowersTo plan layout x fields' v := by
  rcases h with h | ⟨fields₁, w₁, hpos, hlt₁, hfield, hbefore, hafter⟩
  · exact .inl (h.tail hstep)
  · exact .inr ⟨fields₁, w₁, hpos, Nat.lt_trans hlt₁ hlt, hfield, hbefore, hafter.tail hstep⟩

/-- The token that the initializers go after is come to once, since no round goes back. -/
theorem LowersTo.insert (h : LowersTo plan layout x fields w)
    (hfield : ∀ f ∈ fields.head?, f.1 ≠ w.index) (hpos : layout.insertPos = some w.index) :
    LowersTo plan layout x fields ((w.copyNext plan.program).write (insertedCode layout)) := by
  rcases h with h | ⟨fields₁, w₁, hpos₁, hlt, -⟩
  · exact .inr ⟨fields, w, hpos, Nat.lt_succ_self _, hfield, h, .refl⟩
  · have heq : w₁.index = w.index := Option.some.inj (hpos₁.symm.trans hpos)
    omega

theorem LowersTo.member (h : LowersTo plan layout x fields w)
    (hfield : ∀ f ∈ fields.head?, f.1 ≠ w.index) (hlt : w.index < v.index)
    (hrun : memberAt layout w.index plan w = .ok () v) : LowersTo plan layout x fields v := by
  unfold memberAt classMembers.member at hrun
  split at hrun
  case isFalse hpos => exact h.step (.token hfield hpos hrun) hlt
  rename_i hpos
  have hinsert := h.insert hfield hpos
  refine Ends.of_ok (Q := fun _ v => LowersTo plan layout x fields v) (E := fun _ => True) ?_ hrun
  rw [ends_bind, ends_copy]
  split
  case isFalse => exact trivial
  refine Ends.ite (fun hsome => ?_) fun hnone => ?_
  · have hcode : insertedCode layout
        = ";".toList ++ Text.join ";".toList layout.initializers ++ ";".toList := by
      rw [insertedCode, if_neg (by simpa using hsome)]
    rw [ends_append]
    exact hcode ▸ hinsert
  · have hcode : insertedCode layout = [] := by
      rw [insertedCode, if_pos (by simpa using hnone)]
    rwa [hcode, Work.write_nil] at hinsert

theorem Rounds.lowersTo (h : Rounds plan layout rs s t) (hs : s.2.index ≤ plan.program.count)
    (hbefore : LowersTo plan layout x s.1 s.2) :
    LowersTo plan layout x t.1 t.2 ∧ t.2.index ≤ plan.program.count := by
  induction h with
  | nil => exact ⟨hbefore, hs⟩
  | cons hround _ ih =>
    obtain ⟨hstart, hlt, hstop, hle⟩ := hround.onward hs
    refine ih hle ?_
    rw [← hstart, hstop] at hlt
    cases hround with
    | field hfield hrun => exact hbefore.step (.field hfield hrun) hlt
    | member hfield hrun => exact hbefore.member hfield hlt hrun

/-- The members of a class are lowered from `x` up to the closing brace at `v`, and
the initializers are written nowhere or at their place. -/
structure MembersRun (plan : Plan) (layout : ClassLayout) (id : Nat) (x v : Work) : Prop where
  le : x.index ≤ v.index
  le_count : v.index ≤ plan.program.count
  kind : plan.program.kindAt v.index = .braceR
  context : (plan.program.tokenAt v.index).context = some id
  cases : LowersWithout plan layout x v
    ∨ ∃ pos, layout.insertPos = some pos ∧ InsertsAfter plan layout x pos v

theorem LowersTo.membersRun (h : LowersTo plan layout x fields v)
    (hx : x.index ≤ plan.program.count) (hv : v.index ≤ plan.program.count)
    (hkind : plan.program.kindAt v.index = .braceR)
    (hcontext : (plan.program.tokenAt v.index).context = some id) :
    MembersRun plan layout id x v := by
  rcases h with h | ⟨fields₁, w, hpos, hlt, hfield, hbefore, hafter⟩
  · exact ⟨(h.onward hx).1, hv, hkind, hcontext, .inl ⟨fields, h⟩⟩
  · have hle : x.index ≤ w.index := (hbefore.onward hx).1
    refine ⟨Nat.le_trans hle (Nat.le_of_lt hlt), hv, hkind, hcontext, .inr ⟨w.index, hpos, ?_⟩⟩
    exact ⟨fields₁, w, fields, rfl, hfield, hbefore, hafter⟩

theorem ends_classMembers_run (hx : x.index ≤ plan.program.count) :
    Ends plan (classMembers token layout (Text.join ";".toList layout.initializers) id) x
      (fun _ v => MembersRun plan layout id x v) fun _ => True := by
  refine (ends_classMembers_rounds hx).mono fun _ v hv => ?_
  obtain ⟨hkind, hcontext, rs, left, hrs⟩ := hv
  obtain ⟨hlowers, hle⟩ := hrs.lowersTo hx (.inl .refl)
  exact hlowers.membersRun hx hle hkind hcontext

theorem MemberSteps.crosses (h : MemberSteps plan layout s u) (hs : s.2.index ≤ pos)
    (hu : pos < u.2.index) : ∃ a b, MemberSteps plan layout s a ∧ MemberStep plan layout a b
      ∧ MemberSteps plan layout b u ∧ a.2.index ≤ pos ∧ pos < b.2.index := by
  induction h with
  | refl => omega
  | @tail t u hsteps hstep ih =>
    by_cases ht : pos < t.2.index
    · obtain ⟨a, b, hsa, hab, hbt, ha, hb⟩ := ih ht
      exact ⟨a, b, hsa, hab, hbt.tail hstep, ha, hb⟩
    · exact ⟨t, u, hsteps, hstep, .refl, Nat.le_of_not_lt ht, hu⟩

/-- A step from the token that the initializers go after would take out a field. -/
theorem MemberStep.exists_field (h : MemberStep plan layout s t)
    (hpos : layout.insertPos = some s.2.index) : ∃ f ∈ s.1.head?, f.1 = s.2.index := by
  cases h with
  | @field start stop rest w w' hstart _ => exact ⟨(start, stop), rfl, hstart⟩
  | token _ hne _ => exact absurd hpos hne

/-- Initializers that are not written have been passed over. -/
theorem LowersWithout.passesOver (h : LowersWithout plan layout x v)
    (hpos : layout.insertPos = some pos) (hfields : ∀ f ∈ layout.fields, f.1 ≠ pos)
    (hx : x.index ≤ pos) (hv : pos < v.index) : PassesOver plan layout x pos v := by
  obtain ⟨fields, hsteps⟩ := h
  obtain ⟨a, b, hxa, hab, hbv, ha, hb⟩ := hsteps.crosses hx hv
  refine ⟨a, b, fields, hxa, hab, hbv, Nat.lt_of_le_of_ne ha fun heq => ?_, hb⟩
  obtain ⟨f, hf, hstart⟩ := hab.exists_field (heq ▸ hpos)
  have hmem : f ∈ layout.fields := hxa.suffix.subset (List.mem_of_mem_head? hf)
  exact hfields f hmem (hstart.trans heq)

/-- Initializers that are written have not been passed over: both runs are the same
up to the token that they go after. -/
theorem InsertsAfter.not_passesOver (h : InsertsAfter plan layout x pos v)
    (hpos : layout.insertPos = some pos) (hx : x.index ≤ plan.program.count) :
    ¬PassesOver plan layout x pos v := by
  rintro ⟨s, t, -, hxs, hst, -, hs, ht⟩
  obtain ⟨fields, w, -, rfl, hfield, hxw, -⟩ := h
  have htotal := ReflTransGen.total_of_right_unique memberStep_rightUnique hxw (hxs.tail hst)
  rcases htotal with hwt | htw
  · obtain heq | ⟨u, hwu, -⟩ := hwt.cases_head
    · exact Nat.ne_of_lt ht (congrArg (·.2.index) heq)
    · obtain ⟨f, hf, hstart⟩ := hwu.exists_field hpos
      exact hfield f hf hstart
  · have hle := (MemberSteps.onward (hxs.tail hst) hx).2
    have hback : t.2.index ≤ w.index := (MemberSteps.onward htw hle).1
    omega

end

end Downlevel.Lower
