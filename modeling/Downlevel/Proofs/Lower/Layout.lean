import Downlevel.Proofs.Lower.Progress

/-!
# Where fields and constructors are

A class is gone through member by member.  So the fields that are found follow
each other, and the body of the constructor that the initializers go into is
apart from all of them.
-/

set_option synthInstance.maxSize 1000000000

namespace Downlevel

namespace Program

variable {p : Program} {i j : Nat} {stop : Nat → Bool}

theorem le_search {n : Nat} : i ≤ search stop n i := by
  induction n generalizing i with
  | zero => exact Nat.le_refl _
  | succ n ih =>
    rw [search]
    split
    · exact Nat.le_refl _
    · exact Nat.le_trans (Nat.le_succ i) ih

theorem le_seek : i ≤ p.seek i stop :=
  le_search

/-- The partner of a token comes after it. -/
theorem lt_of_matching? (h : p.matching? i = some j) : i < j := by
  unfold matching? at h
  split at h
  · cases h
  split at h
  · cases h
  · dsimp only at h
    split at h
    · cases h
      exact le_seek
    · cases h

end Program

namespace ClassLayout

variable {p : Program} {layout : ClassLayout} {lo hi stop start n depth i : Nat}

theorem closingParen_le (hi : i ≤ stop) :
    i ≤ closingParen p stop n depth i ∧ closingParen p stop n depth i ≤ stop := by
  induction n generalizing depth i with
  | zero => exact ⟨hi, Nat.le_refl _⟩
  | succ n ih =>
    rw [closingParen]
    by_cases hstop : stop ≤ i
    · rw [if_pos hstop]
      exact ⟨hi, Nat.le_refl _⟩
    · have hnext : ∀ d, i ≤ closingParen p stop n d (i + 1)
          ∧ closingParen p stop n d (i + 1) ≤ stop := by
        intro d
        have hle : i + 1 ≤ closingParen p stop n d (i + 1)
          ∧ closingParen p stop n d (i + 1) ≤ stop := ih (by omega)
        exact ⟨by omega, hle.2⟩
      rw [if_neg hstop]
      split
      · exact hnext _
      · split
        · exact ⟨Nat.le_refl _, hi⟩
        · exact hnext _
      · exact hnext _

/-- Initializers go into the body of the constructor. -/
theorem insertionPoint_mem {bodyStart bodyEnd : Nat} (h : bodyStart < bodyEnd) :
    bodyStart ≤ insertionPoint p bodyStart bodyEnd
      ∧ insertionPoint p bodyStart bodyEnd ≤ bodyEnd := by
  have hseek : bodyStart + 1 ≤ p.seek (bodyStart + 1) fun j =>
      bodyEnd ≤ j || p.matchesAt j [.kwSuper, .parenL] := Program.le_seek
  unfold insertionPoint
  dsimp only
  generalize (p.seek (bodyStart + 1) fun j =>
    bodyEnd ≤ j || p.matchesAt j [.kwSuper, .parenL]) = i at hseek ⊢
  split
  · rename_i hlt
    have hparen : i + 1 ≤ closingParen p bodyEnd (bodyEnd - i) 0 (i + 1)
        ∧ closingParen p bodyEnd (bodyEnd - i) 0 (i + 1) ≤ bodyEnd := closingParen_le hlt
    exact ⟨by omega, hparen.2⟩
  · exact ⟨Nat.le_refl _, Nat.le_of_lt h⟩

/-- A layout of members between two indices.  The fields follow each other, and
the initializers go into the body of a constructor apart from them.  First come
those of parameters, then those of fields in their order. -/
structure Tidy (p : Program) (lo hi : Nat) (layout : ClassLayout) : Prop where
  sorted : layout.fields.Pairwise fun f g => f.2 ≤ g.1
  bounds : ∀ f ∈ layout.fields, lo ≤ f.1 ∧ f.1 < f.2 ∧ f.2 ≤ hi
  place : ∀ pos, layout.insertPos = some pos → ∃ bodyStart bodyEnd, lo ≤ bodyStart ∧ bodyEnd < hi
    ∧ p.matching? bodyStart = some bodyEnd ∧ pos = insertionPoint p bodyStart bodyEnd
    ∧ ∀ f ∈ layout.fields, f.2 ≤ bodyStart ∨ bodyEnd < f.1
  order : ∃ (names : List Text) (values : List ((Nat × Nat) × Text)),
    layout.initializers = names.map parameterAssignment ++ values.map ("this".toList ++ ·.2)
    ∧ (values.map (·.1)).Sublist layout.fields

namespace Tidy

theorem mono {hi' : Nat} (h : Tidy p lo hi layout) (hle : hi ≤ hi') : Tidy p lo hi' layout := by
  refine ⟨h.sorted, fun f hf => ?_, fun pos hpos => ?_, h.order⟩
  · obtain ⟨hlo, hlt, hhi⟩ := h.bounds f hf
    exact ⟨hlo, hlt, Nat.le_trans hhi hle⟩
  · obtain ⟨bodyStart, bodyEnd, hstart, hend, hrest⟩ := h.place pos hpos
    exact ⟨bodyStart, bodyEnd, hstart, Nat.lt_of_lt_of_le hend hle, hrest⟩

theorem field {layout' : ClassLayout} (h : Tidy p lo hi layout) (hlo : lo ≤ hi) (hstart : hi ≤ start)
    (hstop : start < stop) (hfields : layout'.fields = layout.fields ++ [(start, stop)])
    (hplace : layout'.insertPos = layout.insertPos)
    (hinitializers : layout'.initializers = layout.initializers
      ∨ ∃ value, layout'.initializers = layout.initializers ++ ["this".toList ++ value]) :
    Tidy p lo stop layout' := by
  refine ⟨?_, fun f hf => ?_, fun pos hpos => ?_, ?_⟩
  · rw [hfields, List.pairwise_append]
    refine ⟨h.sorted, List.pairwise_singleton .., fun f hf g hg => ?_⟩
    obtain rfl := List.mem_singleton.mp hg
    exact Nat.le_trans (h.bounds f hf).2.2 hstart
  · rcases List.mem_append.mp (hfields ▸ hf) with hf | hf
    · obtain ⟨hlo', hlt, hhi⟩ := h.bounds f hf
      exact ⟨hlo', hlt, by omega⟩
    · obtain rfl := List.mem_singleton.mp hf
      exact ⟨Nat.le_trans hlo hstart, hstop, Nat.le_refl _⟩
  · obtain ⟨bodyStart, bodyEnd, hbody, hend, hmatching, heq, hapart⟩ := h.place pos (hplace ▸ hpos)
    refine ⟨bodyStart, bodyEnd, hbody, by omega, hmatching, heq, fun f hf => ?_⟩
    rcases List.mem_append.mp (hfields ▸ hf) with hf | hf
    · exact hapart f hf
    · obtain rfl := List.mem_singleton.mp hf
      exact .inr (Nat.lt_of_lt_of_le hend hstart)
  · obtain ⟨names, values, heq, hvalues⟩ := h.order
    rw [hfields]
    rcases hinitializers with hsame | ⟨value, hmore⟩
    · exact ⟨names, values, hsame.trans heq, hvalues.trans (List.sublist_append_left ..)⟩
    · refine ⟨names, values ++ [((start, stop), value)], ?_, ?_⟩
      · rw [hmore, heq, List.map_append, List.append_assoc, List.map_singleton]
      · rw [List.map_append, List.map_singleton]
        exact hvalues.append (List.Sublist.refl _)

theorem constructor_ {layout' : ClassLayout} {names : List Text} {bodyStart bodyEnd hi' : Nat}
    (h : Tidy p lo hi layout) (hlo : lo ≤ hi) (hstart : hi ≤ bodyStart)
    (hmatching : p.matching? bodyStart = some bodyEnd) (hend : bodyEnd < hi')
    (hfields : layout'.fields = layout.fields)
    (hplace : layout'.insertPos = some (insertionPoint p bodyStart bodyEnd))
    (hinitializers : layout'.initializers = names.map parameterAssignment ++ layout.initializers) :
    Tidy p lo hi' layout' := by
  have hlt := Program.lt_of_matching? hmatching
  have hbounds := (h.mono (Nat.le_of_lt (Nat.lt_of_le_of_lt hstart (Nat.lt_trans hlt hend)))).bounds
  refine ⟨hfields ▸ h.sorted, hfields ▸ hbounds, fun pos hpos => ?_, ?_⟩
  · obtain rfl := Option.some.inj (hplace.symm.trans hpos)
    refine ⟨bodyStart, bodyEnd, Nat.le_trans hlo hstart, hend, hmatching, rfl, fun f hf => ?_⟩
    exact .inl (Nat.le_trans (h.bounds f (hfields ▸ hf)).2.2 hstart)
  · obtain ⟨names', values, heq, hvalues⟩ := h.order
    refine ⟨names ++ names', values, ?_, hfields ▸ hvalues⟩
    rw [hinitializers, heq, List.map_append, List.append_assoc]

/-- The place of the initializers is in no field. -/
theorem notMem_field {pos : Nat} {f : Nat × Nat} (h : Tidy p lo hi layout)
    (hpos : layout.insertPos = some pos) (hf : f ∈ layout.fields) : pos < f.1 ∨ f.2 ≤ pos := by
  obtain ⟨bodyStart, bodyEnd, -, -, hmatching, rfl, hapart⟩ := h.place pos hpos
  have hmem : bodyStart ≤ insertionPoint p bodyStart bodyEnd
      ∧ insertionPoint p bodyStart bodyEnd ≤ bodyEnd :=
    insertionPoint_mem (Program.lt_of_matching? hmatching)
  rcases hapart f hf with hbefore | hbehind
  · exact .inr (by omega)
  · exact .inl (by omega)

end Tidy

end ClassLayout

namespace Lower

open ClassLayout

/-! ## Going through members -/

section

variable {α β : Type} {plan : Plan} {w : Work} {p : Lower α} {f : α → Lower β}
  {M : β → Work → Prop} {layout : ClassLayout} {lo start stop : Nat} {isStatic : Bool}
  {access : Text}

/-- What comes after a step is run from a later work. -/
theorem Ends.onward [Advances plan 0 false Never p p] (hw : w.index ≤ plan.program.count)
    (hf : ∀ a w', Onward plan w w' → Ends plan (f a) w' M fun _ => True) :
    Ends plan (p >>= f) w M fun _ => True := by
  have hp : Heads plan Never p w := heads_of_advances hw
  refine Ends.bind (Q := fun _ w' => Onward plan w w') ?_ hf
  exact hp.weaken (fun _ _ hw' => hw'.1) fun _ _ => True.intro

theorem Ends.passing [Advances plan 0 false Always p p] (hw : w.index ≤ plan.program.count)
    (hf : ∀ a w', w.index < w'.index → w'.index ≤ plan.program.count →
      Ends plan (f a) w' M fun _ => True) :
    Ends plan (p >>= f) w M fun _ => True := by
  have hp : Heads plan Always p w := heads_of_advances hw
  refine Ends.bind (Q := fun _ w' => w.index < w'.index ∧ w'.index ≤ plan.program.count) ?_
    fun a w' hw' => hf a w' hw'.1 hw'.2
  exact hp.weaken (fun _ _ hw' => ⟨hw'.2 True.intro, hw'.1.le_count⟩) fun _ _ => True.intro

theorem ends_repeatTo {body : Lower Unit} :
    Ends plan (repeatTo stop body) w (fun _ w' => stop ≤ w'.index) fun _ => True := by
  unfold repeatTo repeatWhile
  refine Ends.loop_partial (fun _ _ => True) trivial (fun _ w _ => ?_) trivial
  simp only [ends_bind, ends_index, ends_pure]
  refine Ends.ite (fun _ => Ends.trivial.bind fun _ _ _ => trivial) fun hstop => ?_
  simpa using hstop

theorem ends_constructorLayout_place (hw : w.index ≤ plan.program.count) :
    Ends plan constructorLayout w (fun r w' => ∃ (names : List Text) (bodyStart bodyEnd : Nat),
      w.index ≤ bodyStart ∧ bodyEnd < w'.index ∧ plan.program.matching? bodyStart = some bodyEnd
      ∧ r = (names.map parameterAssignment, insertionPoint plan.program bodyStart bodyEnd))
      fun _ => True := by
  unfold constructorLayout
  refine Ends.passing hw fun _ w₁ hlt hle => Ends.onward hle fun _ w₂ h₂ => ?_
  rw [ends_bind, ends_program]
  refine Ends.onward h₂.le_count fun open_ w₃ h₃ => Ends.onward h₃.le_count fun close w₄ h₄ => ?_
  have hrest : ∀ names : List Text, Ends plan (do
      skipThrough close
      skipTypes
      let bodyStart ← index
      let bodyEnd ← orBreach (plan.program.matching? bodyStart) .constructorBody
      skipThrough bodyEnd
      return (names.map parameterAssignment, insertionPoint plan.program bodyStart bodyEnd)) w₄
      (fun r w' => ∃ (names : List Text) (bodyStart bodyEnd : Nat), w.index ≤ bodyStart
        ∧ bodyEnd < w'.index ∧ plan.program.matching? bodyStart = some bodyEnd
        ∧ r = (names.map parameterAssignment, insertionPoint plan.program bodyStart bodyEnd))
      fun _ => True := by
    intro names
    refine Ends.onward h₄.le_count fun _ w₅ h₅ => Ends.onward h₅.le_count fun _ w₆ h₆ => ?_
    rw [ends_bind, ends_index, ends_bind, ends_orBreach]
    cases hmatching : plan.program.matching? w₆.index with
    | none => exact trivial
    | some bodyEnd =>
      refine ends_repeatTo.bind fun _ w₇ h₇ => ?_
      have hle₆ : w₁.index ≤ w₆.index :=
        ((((h₂.trans h₃).trans h₄).trans h₅).trans h₆).index_le
      exact ⟨names, w₆.index, bodyEnd, by omega, h₇, hmatching, rfl⟩
  split
  · rename_i names hnames
    rw [ends_bind, ends_pure]
    exact hrest names
  · exact trivial

/-- A constructor is passed behind the modifiers. -/
theorem ends_constructorLayout_step {v w' : Work} {r : List Text × Nat}
    (hw : w.index ≤ plan.program.count) (hmodifiers : skipModifiers plan w = .ok isStatic v)
    (hrun : constructorLayout plan v = .ok r w') :
    ∃ (names : List Text) (bodyStart bodyEnd : Nat), w.index ≤ bodyStart ∧ bodyEnd < w'.index
      ∧ plan.program.matching? bodyStart = some bodyEnd
      ∧ r = (names.map parameterAssignment, insertionPoint plan.program bodyStart bodyEnd) := by
  have hheads : Heads plan Never skipModifiers w := heads_of_advances hw
  have honward := (hheads.of_ok hmodifiers).1
  obtain ⟨names, bodyStart, bodyEnd, hstart, hrest⟩ :=
    (ends_constructorLayout_place honward.le_count).of_ok hrun
  exact ⟨names, bodyStart, bodyEnd, Nat.le_trans honward.index_le hstart, hrest⟩

/-- Passing a member keeps a layout tidy. -/
theorem ends_memberLayout_tidy (hw : w.index ≤ plan.program.count) (hlo : lo ≤ w.index)
    (h : Tidy plan.program lo w.index layout) :
    Ends plan (memberLayout token layout) w
      (fun l w' => Tidy plan.program lo w'.index l) fun _ => True := by
  have hheads : Heads plan Always (memberLayout token layout) w := heads_of_advances hw
  refine (hheads.and ends_memberLayout_step).weaken (fun l w' hl => ?_) fun _ _ => trivial
  obtain ⟨⟨honward, hlt⟩, hstep⟩ := hl
  cases hstep with
  | same => exact h.mono honward.index_le
  | semicolon _ hw' =>
    rw [hw']
    exact h.field hlo (Nat.le_refl _) (Nat.lt_succ_self _) rfl rfl (.inl rfl)
  | constructor_ hmodifiers hrun =>
    obtain ⟨names, bodyStart, bodyEnd, hstart, hend, hmatching, heq⟩ :=
      ends_constructorLayout_step hw hmodifiers hrun
    cases heq
    exact h.constructor_ hlo hstart hmatching hend rfl rfl rfl
  | field _ _ _ hrun =>
    obtain ⟨hfields, hplace, hinitializers⟩ := ends_fieldLayout_fields.of_ok hrun
    exact h.field hlo (Nat.le_refl _) (hlt trivial) hfields hplace hinitializers

/-- A field that is found begins here, and not with a type. -/
theorem ends_memberLayout_starts :
    Ends plan (memberLayout token layout) w
      (fun l _ => ∀ f ∈ l.fields, f ∈ layout.fields
        ∨ f.1 = w.index ∧ plan.program.isTypeAt w.index = false) fun _ => True := by
  refine ends_memberLayout_step.mono fun l w' hstep f hf => ?_
  have hnew : ∀ {stop}, plan.program.isTypeAt w.index = false →
      f ∈ layout.fields ++ [(w.index, stop)] →
      f ∈ layout.fields ∨ f.1 = w.index ∧ plan.program.isTypeAt w.index = false := by
    intro stop hvalue hf
    rcases List.mem_append.mp hf with hf | hf
    · exact .inl hf
    · obtain rfl := List.mem_singleton.mp hf
      exact .inr ⟨rfl, hvalue⟩
  cases hstep with
  | same => exact .inl hf
  | semicolon hvalue => exact hnew hvalue hf
  | constructor_ => exact .inl hf
  | field hvalue _ _ hrun => exact hnew hvalue ((ends_fieldLayout_fields.of_ok hrun).1 ▸ hf)

/-- A class ends at a brace in its context.  What holds behind the opening brace, and is kept by
passing a member, holds there. -/
theorem ends_scanClass_of {I : Nat → Nat → ClassLayout → Work → Prop}
    (hstart : ∀ b id head v, IsBodyAt plan.program w.index b id → v.index = b + 1 →
      I b id { head } v)
    (hmember : ∀ b id l v, v.index ≤ plan.program.count → b < v.index →
      ¬(plan.program.kindAt v.index = .braceR
        ∧ (plan.program.tokenAt v.index).context = some id) → I b id l v →
      Ends plan (memberLayout token l) v (fun l' v' => I b id l' v') fun _ => True) :
    Ends plan (scanClass token) w (fun l w' => ∃ b id, IsBodyAt plan.program w.index b id
      ∧ b < w'.index ∧ plan.program.kindAt w'.index = .braceR
      ∧ (plan.program.tokenAt w'.index).context = some id ∧ I b id l w') fun _ => True := by
  unfold scanClass
  refine (ends_classHead_body.weaken (fun _ _ h => h) fun _ _ => trivial).bind fun head w₁ h₁ => ?_
  obtain ⟨hle₁, id, hbody⟩ := h₁
  have hlt₁ : w₁.index < plan.program.count :=
    Program.lt_count_of_kindAt hbody.kind_brace (by decide)
  rw [ends_bind, ends_cur, ends_bind, ends_orBreach, hbody.context_brace, Option.elim_some,
    ends_bind, ends_skip, if_pos hlt₁]
  refine Ends.loop_partial (fun l v => w₁.index < v.index ∧ v.index ≤ plan.program.count
    ∧ I w₁.index id l v) trivial ?_ ⟨Nat.lt_succ_self _, hlt₁, hstart _ _ _ _ hbody rfl⟩
  rintro l v ⟨hge, hle, hI⟩
  rw [ends_bind, ends_isInContext]
  refine Ends.ite (fun hclose => ?_) fun hopen => ?_
  · obtain ⟨hkind, hcontext⟩ := of_decide_eq_true hclose
    exact ⟨w₁.index, id, hbody, hge, hkind, hcontext, hI⟩
  rw [ends_bind, ends_atEnd]
  refine Ends.ite (fun _ => trivial) fun _ => ?_
  have hheads : Heads plan Always (memberLayout token l) v := heads_of_advances hle
  rw [ends_bind]
  refine (hheads.and (hmember _ _ _ _ hle hge (by simpa using hopen) hI)).weaken
    (fun l' v' hv' => ?_) fun _ _ => trivial
  obtain ⟨⟨honward, hlt⟩, hI'⟩ := hv'
  exact ⟨Nat.lt_trans hge (hlt trivial), honward.le_count, hI'⟩

/-- Going through a class gives a tidy layout, from its brace on. -/
theorem ends_scanClass_tidy :
    Ends plan (scanClass token) w (fun l w' => ∃ b id, IsBodyAt plan.program w.index b id
      ∧ Tidy plan.program (b + 1) w'.index l) fun _ => True := by
  refine (ends_scanClass_of (I := fun b _ l v => Tidy plan.program (b + 1) v.index l)
    (fun b id head v _ _ => ?_) fun b id l v hle hge _ htidy => ?_).mono fun l w' hw' => ?_
  · exact ⟨List.Pairwise.nil, nofun, nofun, [], [], rfl, List.Sublist.refl _⟩
  · exact ends_memberLayout_tidy hle hge htidy
  · obtain ⟨b, id, hbody, -, -, -, htidy⟩ := hw'
    exact ⟨b, id, hbody, htidy⟩

theorem ends_classLayout_tidy :
    Ends plan (classLayout token) w (fun l w' => w'.index = w.index
      ∧ ∃ b id hi, IsBodyAt plan.program w.index b id ∧ Tidy plan.program (b + 1) hi l)
      fun _ => True := by
  refine ends_scanClass_tidy.classLayout.mono fun l w' hl => ?_
  obtain ⟨v, ⟨b, id, hbody, htidy⟩, rfl⟩ := hl
  exact ⟨rfl, b, id, v.index, hbody, htidy⟩

end

end Lower

end Downlevel
