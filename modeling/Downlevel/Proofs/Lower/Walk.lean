import Downlevel.Proofs.Grammar.ClassNesting
import Downlevel.Proofs.Lower.ClassScan

/-!
# Going through a program

In a program without types every token is lowered for itself, except that a
`class` is lowered together with its whole class.  Since brackets match, going
through a program does not stop before its end.
-/

namespace Downlevel.Lower

open Grammar

theorem kindAt_of_beginsClass {plan : Plan} {i : Nat}
    (h : BeginsClass plan.program.tokens i) :
    plan.program.kindAt i = .kwClass := by
  obtain ⟨t, id, ht, hkind, -⟩ := h
  rw [Program.kindAt, Program.tokenAt, ht, Option.getD_some, hkind]

/-- A program whose tokens can be lowered one after the other.  `I` holds of the
work between tokens, and `E` of the errors of a `class` that begins no class. -/
structure Walkable (plan : Plan) (I : Work → Prop) (E : Error → Prop) : Prop where
  nested : IsNested plan.program.tokens
  untyped : ∀ i, plan.program.isTypeAt i = false
  plain : ∀ (token : Lower Unit) (w : Work), I w → w.index < plan.program.count →
    plan.program.kindAt w.index ≠ .kwClass →
    Ends plan (firstOf (rules plan.options token)) w
      (fun _ w' => I w' ∧ w'.index = w.index + 1) E
  fieldless : ∀ i, BeginsClass plan.program.tokens i → ∃ layout, IsFieldless plan i layout
  copy : ∀ w, I w → w.index < plan.program.count →
    (plan.program.kindAt w.index = .kwClass → BeginsClass plan.program.tokens w.index) →
    I (w.copyNext plan.program)
  insert : ∀ i layout, BeginsClass plan.program.tokens i → IsFieldless plan i layout →
    ∀ w, I w → w.index < plan.program.count → layout.insertPos = some w.index →
    I (w.copyNext plan.program)
  stray : ∀ i, plan.program.kindAt i = .kwClass → ¬BeginsClass plan.program.tokens i →
    E (.invariant .classContext) ∧ E (.invariant .classBody)

/-- The work after the token of an index is lowered. -/
structure Passed (plan : Plan) (I : Work → Prop) (i : Nat) (w : Work) : Prop where
  holds : I w
  lt : i < w.index
  le : w.index ≤ plan.program.count
  eq_succ : plan.program.kindAt i ≠ .kwClass → w.index = i + 1
  nested : plan.program.kindAt i = .kwClass → ∃ s s', NestedAt plan.program.tokens i s
    ∧ NestedAt plan.program.tokens w.index s' ∧ s'.brackets = s.brackets

/-! ## Inside a class -/

/-- A place inside a bracket. -/
def Inside (plan : Plan) (b : Bracket) (base : List Bracket) (i : Nat) : Prop :=
  ∃ s above, NestedAt plan.program.tokens i s ∧ s.brackets = above ++ b :: base

namespace Inside

variable {plan : Plan} {I : Work → Prop} {b : Bracket} {base : List Bracket} {i id : Nat} {w : Work}

theorem lt_count (h : Inside plan b base i) (hn : IsNested plan.program.tokens)
    (hi : i ≤ plan.program.count) : i < plan.program.count := by
  obtain ⟨s, above, hs, hbrackets⟩ := h
  exact hs.lt_size hn hi (by simp [hbrackets])

/-- A token that does not turn the bracket is inside, and so is what follows it. -/
theorem succ (h : Inside plan b base i) (hn : IsNested plan.program.tokens)
    (hi : i < plan.program.count)
    (hstays : ∀ {above brackets mark}, mark.context = (plan.program.tokenAt i).context →
      Turns (plan.program.kindAt i) mark (above ++ b :: base) brackets →
      ∃ above', brackets = above' ++ b :: base) :
    Inside plan b base (i + 1) := by
  obtain ⟨s, above, hs, hbrackets⟩ := h
  obtain ⟨s', hpass, hs'⟩ := hs.succ hn (Program.tokenAt_of_lt hi)
  have hturns := (Nesting.turns_of_pass? hpass).1
  rw [hbrackets] at hturns
  obtain ⟨above', habove⟩ := hstays (Nesting.context_mark ..) hturns
  exact ⟨s', above', hs', habove⟩

theorem head_succ (h : Inside plan (.head id) base i) (hn : IsNested plan.program.tokens)
    (hi : i < plan.program.count)
    (hbody : ¬(plan.program.kindAt i = .braceL
      ∧ (plan.program.tokenAt i).context = some id)) :
    Inside plan (.head id) base (i + 1) := by
  refine h.succ hn hi fun hmark hturns => hturns.head_stays ?_
  rintro ⟨hkind, rfl⟩
  exact hbody ⟨hkind, hmark.symm⟩

theorem body_succ (h : Inside plan (.body id) base i) (hn : IsNested plan.program.tokens)
    (hi : i < plan.program.count)
    (hend : ¬(plan.program.kindAt i = .braceR
      ∧ (plan.program.tokenAt i).context = some id)) :
    Inside plan (.body id) base (i + 1) := by
  refine h.succ hn hi fun hmark hturns => hturns.body_stays ?_
  rintro ⟨hkind, rfl⟩
  exact hend ⟨hkind, hmark.symm⟩

/-- A token in the context of a bracket around it is marked as inside the context. -/
theorem turns_inside (h : Inside plan b base i) (hn : IsNested plan.program.tokens)
    (hi : i < plan.program.count) (hb : b.context = some id)
    (hid : (plan.program.tokenAt i).context = some id) :
    ∃ (s : Nesting) (above : List Bracket) (s' : Nesting), s.WellFormed ∧ s.brackets = above ++ b :: base
      ∧ NestedAt plan.program.tokens (i + 1) s'
      ∧ Turns (plan.program.kindAt i) (.inside id) s.brackets s'.brackets := by
  obtain ⟨s, above, hs, hbrackets⟩ := h
  obtain ⟨s', hpass, hs'⟩ := hs.succ hn (Program.tokenAt_of_lt hi)
  have hmem : id ∈ s.contexts := by
    rw [Nesting.contexts, hbrackets]
    exact List.mem_filterMap.mpr ⟨b, by simp, hb⟩
  have hturns := (Nesting.turns_of_pass? hpass).1
  rw [Nesting.mark_eq_inside_iff.mpr ⟨hid, hs.wellFormed.lt_bound id hmem⟩] at hturns
  exact ⟨s, above, s', hs.wellFormed, hbrackets, hs', hturns⟩

/-- The brace of the body leads from the head of a class into its body. -/
theorem enter_body (h : Inside plan (.head id) base i) (hn : IsNested plan.program.tokens)
    (hi : i < plan.program.count) (hkind : plan.program.kindAt i = .braceL)
    (hid : (plan.program.tokenAt i).context = some id) :
    Inside plan (.body id) base (i + 1) := by
  obtain ⟨s, above, s', hwf, hbrackets, hs', hturns⟩ := h.turns_inside hn hi rfl hid
  exact ⟨s', [], hs', hwf.turns_body hbrackets (hkind ▸ hturns)⟩

/-- The closing brace leads out of the body of a class. -/
theorem leave_body (h : Inside plan (.body id) base i) (hn : IsNested plan.program.tokens)
    (hi : i < plan.program.count) (hkind : plan.program.kindAt i = .braceR)
    (hid : (plan.program.tokenAt i).context = some id) :
    ∃ s', NestedAt plan.program.tokens (i + 1) s' ∧ s'.brackets = base := by
  obtain ⟨s, above, s', hwf, hbrackets, hs', hturns⟩ := h.turns_inside hn hi rfl hid
  exact ⟨s', hs', hwf.turns_end hbrackets (hkind ▸ hturns)⟩

/-- A class that is passed was inside as a whole. -/
theorem passed (h : Inside plan b base i) (hp : Passed plan I i w)
    (hsucc : Inside plan b base (i + 1)) : Inside plan b base w.index := by
  by_cases hkind : plan.program.kindAt i = .kwClass
  · obtain ⟨s, s', hs, hs', heq⟩ := hp.nested hkind
    obtain ⟨s₀, above, hs₀, hbrackets⟩ := h
    obtain rfl := hs₀.unique hs
    exact ⟨s', above, hs', heq.trans hbrackets⟩
  · rw [hp.eq_succ hkind]
    exact hsucc

end Inside

/-! ## Lowering a class -/

/-- A place in a class: the work holds, and the class that starts at an index goes on. -/
structure Within (plan : Plan) (I : Work → Prop) (i : Nat) (b : Bracket) (base : List Bracket)
    (w : Work) : Prop where
  holds : I w
  lt : i < w.index
  le : w.index ≤ plan.program.count
  inside : Inside plan b base w.index

/-- Tokens behind an index are lowered to where the walk goes on. -/
def WalksBehind (plan : Plan) (I : Work → Prop) (E : Error → Prop) (token : Lower Unit) (i : Nat) :
    Prop :=
  ∀ w, I w → i < w.index → w.index < plan.program.count →
    Ends plan token w (fun _ w' => Passed plan I w.index w') E

section

variable {plan : Plan} {I : Work → Prop} {E : Error → Prop} {token : Lower Unit} {i id : Nat}
  {base : List Bracket} {layout : ClassLayout} {w : Work} {initializers : Text}

/-- The head of a class is lowered up to the brace of its body. -/
theorem ends_classHeadTokens (hw : Walkable plan I E) (htoken : WalksBehind plan I E token i)
    (h : Within plan I i (.head id) base w) :
    Ends plan (repeatWhile (return !(← isInContext .braceL id)) do
        if ← atEnd then breach .classBody else token) w
      (fun _ w' => Within plan I i (.head id) base w' ∧ plan.program.kindAt w'.index = .braceL
        ∧ (plan.program.tokenAt w'.index).context = some id) E := by
  refine Ends.repeatWhile (Within plan I i (.head id) base) (fun w h => ⟨h.le, ?_⟩) h
  have hlt := h.inside.lt_count hw.nested h.le
  rw [ends_bind, ends_isInContext, ends_pure]
  by_cases hbody : plan.program.kindAt w.index = .braceL
      ∧ (plan.program.tokenAt w.index).context = some id
  · rw [decide_eq_true hbody]
    exact ⟨h, hbody⟩
  · rw [decide_eq_false hbody, Bool.not_false, if_pos rfl, ends_bind, ends_atEnd,
      decide_eq_false (Nat.not_le.mpr hlt), if_neg Bool.false_ne_true]
    refine (htoken w h.holds h.lt hlt).mono fun _ w' hp => ⟨?_, hp.lt⟩
    refine ⟨hp.holds, Nat.lt_trans h.lt hp.lt, hp.le, ?_⟩
    exact h.inside.passed hp (h.inside.head_succ hw.nested hlt hbody)

/-- A member of a class without fields is lowered token by token. -/
theorem ends_member (hw : Walkable plan I E) (htoken : WalksBehind plan I E token i)
    (hbegins : BeginsClass plan.program.tokens i) (hlayout : IsFieldless plan i layout)
    (hinitializers : layout.initializers = [])
    (h : Within plan I i (.body id) base w)
    (hend : ¬(plan.program.kindAt w.index = .braceR
      ∧ (plan.program.tokenAt w.index).context = some id)) :
    Ends plan (classMembers.member token layout initializers w.index) w
      (fun _ w' => Within plan I i (.body id) base w' ∧ w.index < w'.index) E := by
  have hlt := h.inside.lt_count hw.nested h.le
  have hsucc := h.inside.body_succ hw.nested hlt hend
  unfold classMembers.member
  refine Ends.ite (fun hinsert => ?_) fun _ => ?_
  · rw [ends_bind, ends_copy, if_pos hlt, hinitializers]
    exact ⟨⟨hw.insert i layout hbegins hlayout w h.holds hlt hinsert, Nat.lt_succ_of_lt h.lt, hlt,
      hsucc⟩, Nat.lt_succ_self _⟩
  · refine (htoken w h.holds h.lt hlt).mono fun _ w' hp => ⟨?_, hp.lt⟩
    exact ⟨hp.holds, Nat.lt_trans h.lt hp.lt, hp.le, h.inside.passed hp hsucc⟩

theorem ends_classMembers (hw : Walkable plan I E) (htoken : WalksBehind plan I E token i)
    (hbegins : BeginsClass plan.program.tokens i) (hlayout : IsFieldless plan i layout)
    (hinitializers : layout.initializers = [])
    (h : Within plan I i (.body id) base w) :
    Ends plan (classMembers token layout initializers id) w
      (fun _ w' => Within plan I i (.body id) base w' ∧ plan.program.kindAt w'.index = .braceR
        ∧ (plan.program.tokenAt w'.index).context = some id) E := by
  unfold classMembers
  rw [ends_bind]
  refine Ends.loop (fun fields w => fields = [] ∧ Within plan I i (.body id) base w)
    (fun fields w hI => ⟨hI.2.le, ?_⟩) ⟨hlayout.1, h⟩
  obtain ⟨rfl, h⟩ := hI
  have hlt := h.inside.lt_count hw.nested h.le
  rw [ends_bind, ends_isInContext]
  by_cases hend : plan.program.kindAt w.index = .braceR
      ∧ (plan.program.tokenAt w.index).context = some id
  · rw [decide_eq_true hend]
    exact ⟨h, hend⟩
  · rw [decide_eq_false hend, if_neg Bool.false_ne_true, ends_bind, ends_atEnd,
      decide_eq_false (Nat.not_le.mpr hlt), if_neg Bool.false_ne_true, ends_bind, ends_index]
    refine (ends_member hw htoken hbegins hlayout hinitializers h hend).bind fun _ w' hw' => ?_
    exact ⟨⟨rfl, hw'.1⟩, hw'.2⟩

theorem ends_classBody (hw : Walkable plan I E) (htoken : WalksBehind plan I E token i)
    (hbegins : BeginsClass plan.program.tokens i) (hlayout : IsFieldless plan i layout)
    (hinitializers : layout.initializers = []) (h : Within plan I i (.head id) base w)
    (hkind : plan.program.kindAt w.index = .braceL)
    (hid : (plan.program.tokenAt w.index).context = some id) :
    Ends plan (classBody token layout id) w
      (fun _ w' => I w' ∧ i < w'.index ∧ w'.index ≤ plan.program.count
        ∧ ∃ s', NestedAt plan.program.tokens w'.index s' ∧ s'.brackets = base) E := by
  have hlt := h.inside.lt_count hw.nested h.le
  have hbody : Within plan I i (.body id) base (w.copyNext plan.program) :=
    ⟨hw.copy w h.holds hlt (by rw [hkind]; exact nofun), Nat.lt_succ_of_lt h.lt, hlt,
      h.inside.enter_body hw.nested hlt hkind hid⟩
  unfold classBody
  rw [ends_bind, ends_copyExpected, if_pos hkind, ends_copy, if_pos hlt, hinitializers]
  simp only [List.isEmpty_nil, Bool.not_true, Bool.and_false, Bool.false_eq_true, if_false]
  refine (ends_classMembers hw htoken hbegins hlayout hinitializers hbody).bind fun _ w' hw' => ?_
  obtain ⟨h', hkind', hid'⟩ := hw'
  have hlt' := h'.inside.lt_count hw.nested h'.le
  rw [ends_copyExpected, if_pos hkind', ends_copy, if_pos hlt']
  exact ⟨hw.copy w' h'.holds hlt' (by rw [hkind']; exact nofun), Nat.lt_succ_of_lt h'.lt, hlt',
    h'.inside.leave_body hw.nested hlt' hkind' hid'⟩

/-- A class without fields is lowered token by token, up to its closing brace. -/
theorem ends_classRule (hw : Walkable plan I E) (htoken : WalksBehind plan I E token w.index)
    (hbegins : BeginsClass plan.program.tokens w.index) (hI : I w) :
    Ends plan (classRule token) w (fun _ w' => Passed plan I w.index w') E := by
  obtain ⟨layout, hlayout⟩ := hw.fieldless w.index hbegins
  obtain ⟨heq, hinitializers, hstatics⟩ := hlayout.classLayout_eq hw.untyped
  have hbegins' := hbegins
  obtain ⟨t, -, ht, hkind, -, -⟩ := hbegins'
  have hlt : w.index < plan.program.count := (Array.getElem?_eq_some_iff.mp ht).1
  obtain rfl : plan.program.tokenAt w.index = t :=
    Option.some.inj ((Program.tokenAt_of_lt hlt).symm.trans ht)
  obtain ⟨s, hs⟩ := NestedAt.exists_of_le hw.nested (Nat.le_of_lt hlt)
  obtain ⟨s', hpass, hs'⟩ := hs.succ hw.nested ht
  obtain ⟨id, hid, hbrackets⟩ := hs.brackets_of_beginsClass ht hbegins hpass
  have hhead : Within plan I w.index (.head id) s.brackets (w.copyNext plan.program) :=
    ⟨hw.copy w hI hlt fun _ => hbegins, Nat.lt_succ_self _, hlt, s', [], hs', hbrackets⟩
  unfold classRule staticsName
  rw [ends_bind, ends_of_eq heq]
  simp only [hstatics, List.isEmpty_nil, Bool.not_true, Bool.and_false, Bool.false_eq_true,
    if_false]
  rw [ends_bind, ends_pure, ends_bind, ends_cur, ends_bind, ends_orBreach, hid, Option.elim_some,
    ends_bind, ends_copyExpected, if_pos (show plan.program.kindAt w.index = _ from hkind),
    ends_copy, if_pos hlt]
  refine (ends_classHeadTokens hw htoken hhead).bind fun _ w₁ h₁ => ?_
  refine (ends_classBody hw htoken hbegins hlayout hinitializers h₁.1 h₁.2.1 h₁.2.2).bind
    fun _ w₂ h₂ => ?_
  obtain ⟨hI₂, hlt₂, hle₂, s₂, hs₂, hbase⟩ := h₂
  exact ⟨hI₂, hlt₂, hle₂, fun hne => absurd hkind hne, fun _ => ⟨s, s₂, hs, hs₂, hbase⟩⟩

/-- A `class` that begins no class has no layout. -/
theorem ends_classLayout_stray (hn : IsNested plan.program.tokens)
    (hkind : plan.program.kindAt w.index = .kwClass)
    (hbegins : ¬BeginsClass plan.program.tokens w.index) :
    Ends plan (classLayout token) w (fun _ _ => False)
      fun e => e = .invariant .classContext ∨ e = .invariant .classBody := by
  have hlt : w.index < plan.program.count := Program.lt_count_of_kindAt hkind (by decide)
  obtain ⟨s, hs⟩ := NestedAt.exists_of_le hn (Nat.le_of_lt hlt)
  refine ends_classLayout_bodiless fun id hid j hj hbrace => ?_
  have hj' : j < plan.program.count := Program.lt_count_of_kindAt hbrace (by decide)
  exact hs.bodiless hn (Program.tokenAt_of_lt hlt) hkind hbegins hid hj
    (Program.tokenAt_of_lt hj') hbrace

/-- A `class` that begins no class cannot be lowered. -/
theorem ends_classRule_stray (hw : Walkable plan I E)
    (hkind : plan.program.kindAt w.index = .kwClass)
    (hbegins : ¬BeginsClass plan.program.tokens w.index) :
    Ends plan (classRule token) w (fun _ _ => False) E := by
  obtain ⟨hcontext, hbody⟩ := hw.stray w.index hkind hbegins
  unfold classRule
  refine Ends.bind (Q := fun _ _ => False) ?_ fun _ _ => False.elim
  refine (ends_classLayout_stray hw.nested hkind hbegins).weaken (fun _ _ => id) ?_
  rintro e (rfl | rfl)
  · exact hcontext
  · exact hbody

/-! ## Lowering tokens -/

/-- Lowering a token passes it, or the class that it begins. -/
theorem ends_tokenWithin (hw : Walkable plan I E) {depth : Nat}
    (hdepth : plan.program.count < depth + w.index) (hI : I w)
    (hlt : w.index < plan.program.count) :
    Ends plan (tokenWithin depth) w (fun _ w' => Passed plan I w.index w') E := by
  induction depth generalizing w with
  | zero => omega
  | succ depth ih =>
    have htoken : ∀ v, I v → w.index < v.index → v.index < plan.program.count →
        Ends plan (tokenWithin depth) v (fun _ w' => Passed plan I v.index w') E :=
      fun v hv hlt' hcount => ih (by omega) hv hcount
    have hisType : (plan.program.tokenAt w.index).isType = false := hw.untyped w.index
    unfold tokenWithin tokenStep
    rw [ends_bind, ends_cur, hisType]
    by_cases hkind : plan.program.kindAt w.index = .kwClass
    · rw [if_pos (by simpa [Program.kindAt] using hkind)]
      by_cases hbegins : BeginsClass plan.program.tokens w.index
      · exact ends_classRule hw htoken hbegins hI
      · exact (ends_classRule_stray hw hkind hbegins).mono fun _ _ => False.elim
    · rw [if_neg (by simpa [Program.kindAt] using hkind), ends_bind, ends_read]
      refine (hw.plain _ w hI hlt hkind).mono fun _ w' hw' => ?_
      obtain ⟨hI', hindex⟩ := hw'
      exact ⟨hI', by omega, by omega, fun _ => hindex, fun h => absurd h hkind⟩

theorem ends_token (hw : Walkable plan I E) (hI : I w) (hlt : w.index < plan.program.count) :
    Ends plan Lower.token w (fun _ w' => Passed plan I w.index w') E := by
  unfold Lower.token
  rw [ends_bind, ends_read]
  exact ends_tokenWithin hw (by omega) hI hlt

end

/-! ## The whole program -/

/-- A place outside all classes, with its numbers of open braces and parentheses. -/
structure Outside (plan : Plan) (I : Work → Prop) (depth : Nat × Nat) (w : Work) : Prop where
  holds : I w
  le : w.index ≤ plan.program.count
  nested : ∃ s, NestedAt plan.program.tokens w.index s ∧ (∀ b ∈ s.brackets, b.isPlain = true)
    ∧ bracketDepth s.brackets = depth

section

variable {plan : Plan} {I : Work → Prop} {E : Error → Prop} {w : Work} {depth : Nat × Nat}

theorem Outside.passed {w' : Work} (h : Outside plan I depth w)
    (hn : IsNested plan.program.tokens) (hlt : w.index < plan.program.count)
    (hp : Passed plan I w.index w') :
    Outside plan I (depthAfter (plan.program.kindAt w.index) depth) w' := by
  refine ⟨hp.holds, hp.le, ?_⟩
  obtain ⟨s, hs, hplain, rfl⟩ := h.nested
  by_cases hkind : plan.program.kindAt w.index = .kwClass
  · obtain ⟨s₀, s', hs₀, hs', heq⟩ := hp.nested hkind
    obtain rfl := hs.unique hs₀
    exact ⟨s', hs', heq ▸ hplain, by rw [heq, hkind]; rfl⟩
  · obtain ⟨s', hpass, hs'⟩ := hs.succ hn (Program.tokenAt_of_lt hlt)
    rw [← hp.eq_succ hkind] at hs'
    obtain ⟨hplain', hdepth, -⟩ := (Nesting.turns_of_pass? hpass).1.depth hplain hkind
    exact ⟨s', hs', hplain', hdepth⟩

/-- A closing bracket closes something. -/
theorem Outside.pos (h : Outside plan I depth w) (hn : IsNested plan.program.tokens)
    (hlt : w.index < plan.program.count) :
    (plan.program.kindAt w.index = .braceR → 0 < depth.1)
      ∧ (plan.program.kindAt w.index = .parenR → 0 < depth.2) := by
  obtain ⟨s, hs, hplain, rfl⟩ := h.nested
  obtain ⟨s', hpass, -⟩ := hs.succ hn (Program.tokenAt_of_lt hlt)
  by_cases hkind : plan.program.kindAt w.index = .kwClass
  · rw [hkind]
    exact ⟨nofun, nofun⟩
  · exact ((Nesting.turns_of_pass? hpass).1.depth hplain hkind).2.2

/-- Going through a program does not stop before its end. -/
theorem ends_balanced (hw : Walkable plan I E) (hI : I w) (hstart : w.index = 0) :
    Ends plan (balanced token) w (fun _ w' => I w' ∧ w'.index = plan.program.count) E := by
  have h : Outside plan I (0, 0) w := by
    refine ⟨hI, by omega, {}, ?_, nofun, rfl⟩
    rw [hstart]
    exact NestedAt.zero
  unfold balanced
  rw [ends_bind]
  refine Ends.loop (Outside plan I) (fun depth w h => ⟨h.le, ?_⟩) h
  obtain ⟨braces, parens⟩ := depth
  rw [ends_bind, ends_atEnd]
  refine Ends.ite (fun hend => ?_) fun hnext => ?_
  · exact ⟨h.holds, Nat.le_antisymm h.le (of_decide_eq_true hend)⟩
  have hlt : w.index < plan.program.count := by simpa using hnext
  have hpos := h.pos hw.nested hlt
  have htoken := (ends_token hw h.holds hlt).mono fun _ w' hp =>
    (⟨h.passed hw.nested hlt hp, hp.lt⟩ :
      Outside plan I (depthAfter (plan.program.kindAt w.index) (braces, parens)) w'
        ∧ w.index < w'.index)
  rw [ends_bind, ends_cur]
  split
  case h_6 h₁ h₂ h₃ h₄ h₅ =>
    have hneutral : isNeutral (plan.program.kindAt w.index) = true := by
      simpa [isNeutral] using ⟨h₄, h₅, h₁, h₃, h₂⟩
    rw [depthAfter_neutral hneutral] at htoken
    exact htoken.bind fun _ w' hw' => hw'
  all_goals
    rename_i hkind
    rw [show plan.program.kindAt w.index = _ from hkind] at htoken hpos
  case h_3 =>
    rw [if_neg (Nat.ne_of_gt (hpos.1 rfl))]
    exact htoken.bind fun _ w' hw' => hw'
  case h_5 =>
    rw [if_neg (Nat.ne_of_gt (hpos.2 rfl))]
    exact htoken.bind fun _ w' hw' => hw'
  all_goals exact htoken.bind fun _ w' hw' => hw'

end

end Downlevel.Lower
