import Downlevel.Proofs.Lower.Constructors

/-!
# Parameters that are properties

A constructor assigns those of its parameters that have modifiers to properties.  The modifiers are
looked for on the tokens between the parentheses, where a word of a type is marked like a modifier.
So what is found are the names behind words that look like modifiers: the parameters with modifiers
are among them, and are all of them if no other word between the parentheses looks like one.
-/

namespace Downlevel

open Grammar

/-- Is the token of an index a name outside of types? -/
def Program.isValueNameAt (p : Program) (i : Nat) : Bool :=
  p.kindAt i = .name && !p.isTypeAt i

namespace ClassLayout

/-! ## Words that look like modifiers -/

/-- The names between two indices that a word in front of them makes properties. -/
def propertyNames (p : Program) (a b : Nat) : List Nat :=
  (List.range' a (b - a)).filter fun k => isPropertyModifierAt p (k - 1) && p.isValueNameAt k

/-- Words between two indices that look like modifiers stand in front of names. -/
def ModifiersLead (p : Program) (a b : Nat) : Prop :=
  ∀ k, a ≤ k → k < b → isPropertyModifierAt p k = true →
    isPropertyModifierAt p (k + 1) = true ∨ p.isValueNameAt (k + 1) = true

section

variable {p : Program} {a b d i n : Nat}

theorem isTypeAt_of_isPropertyModifierAt (h : isPropertyModifierAt p i = true) :
    p.isTypeAt i = true :=
  (Bool.and_eq_true_iff.mp h).1

theorem isPropertyModifierAt_of_value (h : p.isTypeAt i = false) :
    isPropertyModifierAt p i = false := by
  rw [isPropertyModifierAt, h, Bool.false_and]

theorem isValueNameAt_of_type (h : p.isTypeAt i = true) : p.isValueNameAt i = false := by
  rw [Program.isValueNameAt, h, Bool.not_true, Bool.and_false]

theorem mem_propertyNames {k : Nat} : k ∈ propertyNames p a b ↔
    a ≤ k ∧ k < b ∧ isPropertyModifierAt p (k - 1) = true ∧ p.isValueNameAt k = true := by
  simp only [propertyNames, List.mem_filter, List.mem_range'_1, Bool.and_eq_true]
  constructor
  · rintro ⟨⟨hak, hkb⟩, h⟩
    exact ⟨hak, by omega, h⟩
  · rintro ⟨hak, hkb, h⟩
    exact ⟨⟨hak, by omega⟩, h⟩

theorem propertyNames_append (hab : a ≤ b) (hbd : b ≤ d) :
    propertyNames p a d = propertyNames p a b ++ propertyNames p b d := by
  have hlen : d - a = (b - a) + (d - b) := by omega
  have hstart : a + (b - a) = b := by omega
  rw [propertyNames, propertyNames, propertyNames, ← List.filter_append, hlen,
    ← List.range'_append_1, hstart]

theorem propertyNames_eq_nil (h : ∀ k, a ≤ k → k < b →
    isPropertyModifierAt p (k - 1) = true → p.isValueNameAt k = false) : propertyNames p a b = [] := by
  refine List.eq_nil_iff_forall_not_mem.mpr fun k hk => ?_
  obtain ⟨hak, hkb, hmodifier, hname⟩ := mem_propertyNames.mp hk
  rw [h k hak hkb hmodifier] at hname
  cases hname

theorem propertyNames_succ (h : isPropertyModifierAt p (a - 1) = true)
    (hname : p.isValueNameAt a = true) : propertyNames p a (a + 1) = [a] := by
  have hlen : a + 1 - a = 1 := by omega
  simp [propertyNames, hlen, h, hname]

/-- Where modifiers end: all tokens up to there look like modifiers, and the one there does not. -/
theorem seek_isPropertyModifierAt (h : isPropertyModifierAt p i = true) :
    i < p.seek i (fun j => !isPropertyModifierAt p j)
      ∧ (∀ k, i ≤ k → k < p.seek i (fun j => !isPropertyModifierAt p j) →
        isPropertyModifierAt p k = true)
      ∧ isPropertyModifierAt p (p.seek i fun j => !isPropertyModifierAt p j) = false := by
  have hbefore : ∀ k, i ≤ k → k < p.seek i (fun j => !isPropertyModifierAt p j) →
      isPropertyModifierAt p k = true := by
    intro k hik hk
    have hstop := Program.stop_eq_false_of_lt_search hik hk
    simpa using hstop
  have hcount := Program.lt_count_of_isTypeAt (isTypeAt_of_isPropertyModifierAt h)
  have hle : i ≤ p.seek i fun j => !isPropertyModifierAt p j := Program.le_seek
  have hend : isPropertyModifierAt p (p.seek i fun j => !isPropertyModifierAt p j) = false := by
    by_cases hlt : p.seek i (fun j => !isPropertyModifierAt p j) < i + (p.count - i)
    · have hstop : (!isPropertyModifierAt p (p.seek i fun j => !isPropertyModifierAt p j)) = true :=
        Program.stop_search hlt
      simpa using hstop
    · refine isPropertyModifierAt_of_value ?_
      refine Bool.eq_false_iff.mpr fun htype => ?_
      have hlt' := Program.lt_count_of_isTypeAt htype
      omega
  refine ⟨Nat.lt_of_le_of_ne hle fun heq => ?_, hbefore, hend⟩
  rw [← heq, h] at hend
  cases hend

theorem modifiersLead_of_le (h : b ≤ a) : ModifiersLead p a b :=
  fun _ hk hkb => absurd (Nat.lt_of_lt_of_le hkb h) (Nat.not_lt_of_le hk)

theorem propertyNames_of_le (h : b ≤ a) : propertyNames p a b = [] :=
  propertyNames_eq_nil fun _ hk hkb => absurd (Nat.lt_of_lt_of_le hkb h) (Nat.not_lt_of_le hk)

/-- A word that does not look like a modifier need not be in front of a name. -/
theorem modifiersLead_succ (h : isPropertyModifierAt p a = false) :
    ModifiersLead p (a + 1) b ↔ ModifiersLead p a b := by
  refine ⟨fun hlead k hk hkb hmodifier => ?_, fun hlead k hk => hlead k (Nat.le_of_succ_le hk)⟩
  by_cases heq : k = a
  · rw [heq, h] at hmodifier
    cases hmodifier
  · exact hlead k (by omega) hkb hmodifier

theorem propertyNames_of_not (h : isPropertyModifierAt p (a - 1) = false) (hab : a < b) :
    propertyNames p a b = propertyNames p (a + 1) b := by
  rw [propertyNames_append (Nat.le_succ a) hab, propertyNames_eq_nil, List.nil_append]
  intro k hk hka hmodifier
  obtain rfl : k = a := by omega
  rw [h] at hmodifier
  cases hmodifier

/-- Modifiers up to a name stand in front of it. -/
theorem modifiersLead_of_name (hbefore : ∀ k, a ≤ k → k < i → isPropertyModifierAt p k = true)
    (hend : isPropertyModifierAt p i = false) (hname : p.isValueNameAt i = true) (hai : a ≤ i) :
    ModifiersLead p (i + 1) b ↔ ModifiersLead p a b := by
  rw [modifiersLead_succ hend]
  refine ⟨fun hlead k hk hkb hmodifier => ?_, fun hlead k hk => hlead k (Nat.le_trans hai hk)⟩
  by_cases hki : k + 1 < i
  · exact .inl (hbefore _ (by omega) hki)
  by_cases heq : k + 1 = i
  · exact .inr (heq ▸ hname)
  · exact hlead k (by omega) hkb hmodifier

theorem propertyNames_of_name (hbefore : ∀ k, a ≤ k → k < i → isPropertyModifierAt p k = true)
    (hname : p.isValueNameAt i = true) (hai : a < i) (hib : i < b) :
    propertyNames p a b = i :: propertyNames p (i + 1) b := by
  have htypes : propertyNames p a i = [] := propertyNames_eq_nil fun k hk hki _ =>
    isValueNameAt_of_type (isTypeAt_of_isPropertyModifierAt (hbefore k hk hki))
  rw [propertyNames_append (Nat.le_of_lt hai) (Nat.le_of_lt hib), htypes, List.nil_append,
    propertyNames_append (Nat.le_succ i) hib,
    propertyNames_succ (hbefore (i - 1) (by omega) (by omega)) hname, List.singleton_append]

/-- The names that are found are those behind words that look like modifiers.  Nothing is found if
such a word is in front of something else. -/
theorem parameterProperties_eq (hn : b ≤ n + a) (hstop : isPropertyModifierAt p b = false)
    (hclose : p.isValueNameAt b = false) (hstart : isPropertyModifierAt p (a - 1) = false) :
    (ModifiersLead p a b → parameterProperties p b n a = .ok ((propertyNames p a b).map p.nameAt))
    ∧ (¬ModifiersLead p a b → parameterProperties p b n a = .error (.invariant .parameterName)) := by
  induction n generalizing a with
  | zero =>
    rw [propertyNames_of_le (by omega)]
    exact ⟨fun _ => rfl, fun hnot => absurd (modifiersLead_of_le (by omega)) hnot⟩
  | succ n ih =>
    rw [parameterProperties]
    by_cases hle : b ≤ a
    · rw [if_pos hle, propertyNames_of_le hle]
      exact ⟨fun _ => rfl, fun hnot => absurd (modifiersLead_of_le hle) hnot⟩
    rw [if_neg hle]
    by_cases hmodifier : isPropertyModifierAt p a = true
    · rw [if_pos hmodifier]
      dsimp only
      obtain ⟨hlt, hbefore, hend⟩ := seek_isPropertyModifierAt hmodifier
      generalize p.seek a (fun j => !isPropertyModifierAt p j) = i at hlt hbefore hend ⊢
      have hib : i ≤ b := by
        refine Nat.le_of_not_lt fun hbi => ?_
        rw [hbefore b (by omega) hbi] at hstop
        cases hstop
      rw [← Program.isValueNameAt]
      by_cases hname : p.isValueNameAt i = true
      · have hne : i ≠ b := by
          rintro rfl
          rw [hname] at hclose
          cases hclose
        obtain ⟨hok, herror⟩ := ih (a := i + 1) (by omega) hend
        rw [← modifiersLead_of_name hbefore hend hname (Nat.le_of_lt hlt),
          propertyNames_of_name hbefore hname hlt (by omega), if_pos hname]
        refine ⟨fun h => ?_, fun h => ?_⟩
        · rw [hok h]
          rfl
        · rw [herror h]
          rfl
      · have hnot : ¬ModifiersLead p a b := by
          intro h
          have hnext := h (i - 1) (by omega) (by omega) (hbefore _ (by omega) (by omega))
          rw [Nat.sub_add_cancel (by omega), hend] at hnext
          exact hname (hnext.resolve_left Bool.false_ne_true)
        rw [if_neg hname]
        exact ⟨fun h => absurd h hnot, fun _ => rfl⟩
    · have hplain := Bool.eq_false_iff.mpr hmodifier
      rw [if_neg hmodifier, ← modifiersLead_succ hplain, propertyNames_of_not hstart (by omega)]
      exact ih (by omega) hplain

/-! ## Modifiers of parameters -/

variable {source : Text} {ts : Array Token} {q : Parameter} {qs : List Parameter} {e : Nat}

/-- The word belongs to the modifiers of one of the parameters. -/
def IsOwnModifier (qs : List Parameter) (k : Nat) : Prop :=
  ∃ q ∈ qs, q.start ≤ k ∧ k < q.binding

theorem isPropertyModifierAt_of_propertiesBetween (h : PropertiesBetween p.source p.tokens a b)
    (ha : a ≤ i) (hb : i < b) : isPropertyModifierAt p i = true := by
  obtain ⟨htype, hword⟩ := HasAt.tokenAt (h i ha hb)
  have hmem : p.textAt i ∈ parameterModifiers.map String.toList := by
    refine List.mem_map.mpr ⟨_, hword.2, ?_⟩
    exact String.toList_ofList
  rw [isPropertyModifierAt, Program.isTypeAt, htype, Bool.true_and]
  exact List.contains_iff_mem.mpr hmem

/-- The bindings of the parameters that have modifiers. -/
def modifiedBindings (qs : List Parameter) : List Nat :=
  (qs.filter Parameter.isModified).map Parameter.binding

/-- No modifiers are in front of a pattern. -/
def ModifiesNames (p : Program) (qs : List Parameter) : Prop :=
  ∀ q ∈ qs, q.isModified = true → p.kindAt q.binding ≠ .bracketL ∧ p.kindAt q.binding ≠ .braceL

theorem isValueNameAt_of_stands (hq : q.Stands p.source p.tokens) (hmodified : q.isModified = true)
    (hkind : p.kindAt q.binding ≠ .bracketL ∧ p.kindAt q.binding ≠ .braceL) :
    p.isValueNameAt q.binding = true := by
  obtain ⟨hvalue, hstarts⟩ := HasAt.tokenAt (hq.binding hmodified).2
  have hname : p.kindAt q.binding = .name := by
    have hmem : p.kindAt q.binding ∈ [.name, .bracketL, .braceL] := List.contains_iff_mem.mp hstarts
    simpa [hkind] using hmem
  rw [Program.isValueNameAt, hname, Program.isTypeAt, hvalue]
  rfl

/-- A parameter that has modifiers is found. -/
theorem mem_propertyNames_of_stands (hq : q.Stands p.source p.tokens)
    (hmodified : q.isModified = true)
    (hkind : p.kindAt q.binding ≠ .bracketL ∧ p.kindAt q.binding ≠ .braceL) :
    q.binding ∈ propertyNames p q.start q.stop := by
  have hlt : q.start < q.binding := of_decide_eq_true hmodified
  refine mem_propertyNames.mpr ⟨hq.le, (hq.binding hmodified).1, ?_,
    isValueNameAt_of_stands hq hmodified hkind⟩
  exact isPropertyModifierAt_of_propertiesBetween hq.modifiers (by omega) (by omega)

/-- The parameters that have modifiers are found in their order. -/
theorem sublist_propertyNames (hrow : ParametersInRow p.source p.tokens a qs e)
    (hnames : ModifiesNames p qs) :
    (modifiedBindings qs).Sublist (propertyNames p a e) := by
  induction hrow with
  | nil => exact List.nil_sublist _
  | @cons q qs e hq hqs ih =>
    have ih := ih fun q' hq' => hnames q' (List.mem_cons_of_mem _ hq')
    rw [propertyNames_append (Nat.le_trans hq.le hq.binding_le) hqs.le, modifiedBindings, List.filter_cons]
    split
    · rename_i hmodified
      have hmem := mem_propertyNames_of_stands hq hmodified (hnames q (List.mem_cons_self ..) hmodified)
      exact (List.singleton_sublist.mpr hmem).append ih
    · exact ih.trans (List.sublist_append_right _ _)

theorem ParametersInRow.le_start (h : ParametersInRow source ts a qs e) (hq : q ∈ qs) :
    a ≤ q.start := by
  induction h with
  | nil => cases hq
  | cons hfirst hqs ih =>
    rcases List.mem_cons.mp hq with rfl | hq
    · exact Nat.le_refl _
    · exact Nat.le_trans (Nat.le_trans hfirst.le hfirst.binding_le) (ih hq)

theorem ParametersInRow.stands (h : ParametersInRow source ts a qs e) (hq : q ∈ qs) :
    q.Stands source ts := by
  induction h with
  | nil => cases hq
  | cons hfirst hqs ih =>
    rcases List.mem_cons.mp hq with rfl | hq
    · exact hfirst
    · exact ih hq

/-- If nothing but the modifiers of parameters looks like a modifier, they are in front of names. -/
theorem modifiersLead_of_isOwnModifier (hrow : ParametersInRow p.source p.tokens a qs e)
    (hnames : ModifiesNames p qs) (hown : ∀ k, a ≤ k → k < e → isPropertyModifierAt p k = true →
      IsOwnModifier qs k) : ModifiersLead p a e := by
  intro k hk hke hmodifier
  obtain ⟨q, hq, hstart, hlt⟩ := hown k hk hke hmodifier
  have hstands := ParametersInRow.stands hrow hq
  by_cases hnext : k + 1 < q.binding
  · exact .inl (isPropertyModifierAt_of_propertiesBetween hstands.modifiers (by omega) hnext)
  · have hmodified : q.isModified = true := decide_eq_true (by omega)
    obtain heq : k + 1 = q.binding := by omega
    exact .inr (heq ▸ isValueNameAt_of_stands hstands hmodified (hnames q hq hmodified))

/-- The names of one parameter, of which only its modifiers look like modifiers. -/
theorem propertyNames_of_stands (hq : q.Stands p.source p.tokens)
    (hstart : isPropertyModifierAt p (q.start - 1) = false)
    (hkind : q.isModified = true →
      p.kindAt q.binding ≠ .bracketL ∧ p.kindAt q.binding ≠ .braceL)
    (hown : ∀ k, q.start ≤ k → k < q.stop → isPropertyModifierAt p k = true → k < q.binding) :
    propertyNames p q.start q.stop = if q.isModified then [q.binding] else [] := by
  have hbehind : ∀ k, q.binding < k → k < q.stop → isPropertyModifierAt p (k - 1) = false := by
    intro k hk hks
    refine Bool.eq_false_iff.mpr fun hmodifier => ?_
    have hle := hq.le
    have hlt := hown (k - 1) (by omega) (by omega) hmodifier
    omega
  have hrest : propertyNames p (q.binding + 1) q.stop = [] := by
    refine propertyNames_eq_nil fun k hk hks hmodifier => ?_
    rw [hbehind k hk hks] at hmodifier
    cases hmodifier
  split
  · rename_i hmodified
    have hbefore : ∀ k, q.start ≤ k → k < q.binding → isPropertyModifierAt p k = true :=
      fun k hk hkb => isPropertyModifierAt_of_propertiesBetween hq.modifiers hk hkb
    rw [propertyNames_of_name hbefore (isValueNameAt_of_stands hq hmodified (hkind hmodified))
      (of_decide_eq_true hmodified) (hq.binding hmodified).1, hrest]
  · rename_i hplain
    have heq : q.start = q.binding :=
      Nat.le_antisymm hq.le (Nat.le_of_not_lt fun hlt => hplain (decide_eq_true hlt))
    by_cases hlt : q.start < q.stop
    · rw [propertyNames_of_not hstart hlt, heq, hrest]
    · exact propertyNames_of_le (Nat.le_of_not_lt hlt)

/-- If nothing but the modifiers of parameters looks like a modifier, then just the parameters that
have modifiers are found. -/
theorem propertyNames_of_isOwnModifier (hrow : ParametersInRow p.source p.tokens a qs e)
    (hnames : ModifiesNames p qs) (hstart : isPropertyModifierAt p (a - 1) = false)
    (hown : ∀ k, a ≤ k → k < e → isPropertyModifierAt p k = true → IsOwnModifier qs k) :
    propertyNames p a e = modifiedBindings qs := by
  induction hrow with
  | nil => exact propertyNames_of_le (Nat.le_refl _)
  | @cons q qs e hq hqs ih =>
    have hle := hq.le
    have hle' := hq.binding_le
    have hqse := hqs.le
    -- up to the end of the parameter a modifier is one of its own, and behind it one of the others
    have hfirst : ∀ k, q.start ≤ k → k < q.stop → isPropertyModifierAt p k = true →
        k < q.binding := by
      intro k hk hks hmodifier
      obtain ⟨q', hq', hstart', hlt⟩ := hown k hk (by omega) hmodifier
      rcases List.mem_cons.mp hq' with rfl | hq'
      · exact hlt
      · have hge := ParametersInRow.le_start hqs hq'
        omega
    have hothers : ∀ k, q.stop ≤ k → k < e → isPropertyModifierAt p k = true →
        IsOwnModifier qs k := by
      intro k hk hke hmodifier
      obtain ⟨q', hq', hstart', hlt⟩ := hown k (by omega) hke hmodifier
      rcases List.mem_cons.mp hq' with rfl | hq'
      · omega
      · exact ⟨q', hq', hstart', hlt⟩
    have hlast : isPropertyModifierAt p (q.stop - 1) = false := by
      by_cases hempty : q.stop = q.start
      · rw [hempty]
        exact hstart
      refine Bool.eq_false_iff.mpr fun hmodifier => ?_
      have hlt := hfirst (q.stop - 1) (by omega) (by omega) hmodifier
      have hbinding := (hq.binding (decide_eq_true (by omega))).1
      omega
    rw [propertyNames_append (by omega) hqse,
      propertyNames_of_stands hq hstart (hnames q (List.mem_cons_self ..)) hfirst,
      ih (fun q' hq' => hnames q' (List.mem_cons_of_mem _ hq')) hlast hothers,
      modifiedBindings, modifiedBindings, List.filter_cons]
    split <;> rfl

end

end ClassLayout

namespace Lower

open ClassLayout

section

variable {plan : Plan} {o : Options} {source : Text} {tokens : Array Token} {start w : Work}
  {p : Program} {m : Member} {a b d e : Nat}

/-- The assignments of the parameters of these names to properties. -/
def assignments (p : Program) (names : List Nat) : List Text :=
  names.map fun k => parameterAssignment (p.nameAt k)

/-- A constructor is passed exactly if all words between its parentheses that look like modifiers are
in front of names.  Those are assigned. -/
theorem constructorLayout_eq (h : IsMethodAt plan.program a b d e)
    (htypes : TypesBetween plan.program.tokens (w.index + 1) a) (hlt : w.index < a)
    (hclose : plan.program.kindAt b = .parenR ∧ plan.program.isTypeAt b = false) :
    (ModifiersLead plan.program (a + 1) b → ∃ z, constructorLayout plan w
      = .ok (assignments plan.program (propertyNames plan.program (a + 1) b),
        insertionPoint plan.program d e) z ∧ z.index = e + 1)
    ∧ (¬ModifiersLead plan.program (a + 1) b →
      ∃ z, constructorLayout plan w = .error (.invariant .parameterName) z) := by
  have hname : plan.program.isValueNameAt b = false := by
    rw [Program.isValueNameAt, hclose.1]
    rfl
  obtain ⟨hok, herror⟩ := parameterProperties_eq (n := b - a) (a := a + 1) (by omega)
    (isPropertyModifierAt_of_value hclose.2) hname (isPropertyModifierAt_of_value h.value_paren)
  have hends := ends_constructorLayout_method h htypes hlt
  unfold Ends at hends
  refine ⟨fun hlead => ?_, fun hnot => ?_⟩
  · split at hends
    · rename_i r z hrun
      obtain ⟨hindex, hplace, names, hnames, hassign⟩ := hends
      rw [hok hlead] at hnames
      cases hnames
      refine ⟨z, hrun.trans ?_, hindex⟩
      congr 1
      refine Prod.ext ?_ hplace
      rw [hassign, List.map_map]
      rfl
    · rw [hok hlead] at hends
      cases hends
  · split at hends
    · obtain ⟨-, -, names, hnames, -⟩ := hends
      rw [herror hnot] at hnames
      cases hnames
    · rename_i err z hrun
      rw [herror hnot] at hends
      cases hends
      exact ⟨z, hrun⟩

/-- A method that is read has parameters, and a body. -/
theorem exists_of_method {name nameEnd paren brace : Nat} (hm : m.Stands p.source p.tokens)
    (hshape : m.shape = .method name nameEnd paren brace) :
    ∃ close, IsMethodAt p paren close brace (m.stop - 1)
      ∧ HeadStands p.source p.tokens m.start name nameEnd paren
      ∧ (p.kindAt close = .parenR ∧ p.isTypeAt close = false)
      ∧ ∃ qs, ParametersStand p.source p.tokens (paren + 1) close qs := by
  cases hm with
  | @method a _ _ _ parenEnd _ e _ head hparen hparameters hitems hreturn hlt hbrace hbody =>
    cases hshape
    obtain ⟨hmatching, hkind, -⟩ := hparameters.matching?
    obtain ⟨hmatching', hkind', -⟩ := hbody.matching?
    obtain ⟨qs, hqs⟩ := hitems
    exact ⟨parenEnd, ⟨hkind, hparen.tokenAt, hmatching, hlt, hreturn, hkind', hbrace.tokenAt,
      hmatching'⟩, head, hqs.2.tokenAt, qs, hqs⟩
  | _ => cases hshape

/-- **The properties of a constructor are its parameters that have modifiers.**  A class that is read
has its members one after the other, and the constructors among them have parameters.  Between the
parentheses words can look like modifiers.  If each of them is in front of a name or of another one,
then the constructor is passed, and just the names behind them are assigned.  If not, then it is not
passed.  The parameters that have modifiers are among those names in their order, unless one is a
pattern.  And if only their own modifiers look like modifiers, then the constructor is passed and
just those parameters are assigned. -/
theorem parameter_properties_of_class {i j : Nat}
    (hprepare : Plan.prepare source tokens o = .ok (plan, start))
    (hclass : ClassStands (.ofOptions source o) tokens i j) :
    (∃ b e ms, ClassForm source tokens i b e ms)
    ∧ ∀ b e ms, ClassForm source tokens i b e ms → ∀ m ∈ ms, ∀ name nameEnd paren brace,
      m.shape = .method name nameEnd paren brace →
      plan.program.isNameAt name "constructor".toList = true →
      ∃ close, plan.program.matching? paren = some close
        ∧ (∃ qs, ParametersStand source tokens (paren + 1) close qs)
        ∧ ∀ w : Work, w.index = name →
          (ModifiersLead plan.program (paren + 1) close → ∃ z, constructorLayout plan w
            = .ok (assignments plan.program (propertyNames plan.program (paren + 1) close),
              insertionPoint plan.program brace (m.stop - 1)) z ∧ z.index = m.stop)
          ∧ (¬ModifiersLead plan.program (paren + 1) close →
            ∃ z, constructorLayout plan w = .error (.invariant .parameterName) z)
          ∧ ∀ qs, ParametersStand source tokens (paren + 1) close qs →
            ModifiesNames plan.program qs →
            (modifiedBindings qs).Sublist (propertyNames plan.program (paren + 1) close)
            ∧ ((∀ k, paren + 1 ≤ k → k < close → isPropertyModifierAt plan.program k = true →
                IsOwnModifier qs k) →
              ∃ z, constructorLayout plan w = .ok (assignments plan.program (modifiedBindings qs),
                insertionPoint plan.program brace (m.stop - 1)) z ∧ z.index = m.stop) := by
  obtain ⟨hprogram, -, -⟩ := eq_of_prepare hprepare
  obtain ⟨b, e, ms, hform, -⟩ := hclass.form
  refine ⟨⟨b, e, ms, hform⟩, fun b e ms hform m hm name nameEnd paren brace hshape hname => ?_⟩
  have hstands : m.Stands plan.program.source plan.program.tokens := by
    rw [hprogram]
    exact hform.members.stands hm
  obtain ⟨close, hmethod, head, hclose, hitems⟩ := exists_of_method hstands hshape
  have hlast : m.stop - 1 + 1 = m.stop := by
    have hlt := hstands.brace_lt hshape
    omega
  have hend : nameEnd = name + 1 := by
    refine head.name.eq_succ ?_
    rw [(Program.isNameAt_iff.mp hname).1]
    decide
  have hle := head.end_le
  have heq : ∀ qs, ParametersStand source tokens (paren + 1) close qs →
      ParametersInRow plan.program.source plan.program.tokens (paren + 1) qs close := by
    rw [hprogram]
    exact fun qs hqs => hqs.inRow
  have hparen := isPropertyModifierAt_of_value hmethod.value_paren
  refine ⟨close, hmethod.parameters, by rw [hprogram] at hitems; exact hitems, ?_⟩
  rintro w rfl
  obtain ⟨hok, herror⟩ := constructorLayout_eq hmethod (hend ▸ head.types) (by omega) hclose
  rw [hlast] at hok
  refine ⟨hok, herror, fun qs hqs hnames => ⟨sublist_propertyNames (heq qs hqs) hnames, ?_⟩⟩
  intro hown
  rw [← propertyNames_of_isOwnModifier (heq qs hqs) hnames hparen hown]
  exact hok (modifiersLead_of_isOwnModifier (heq qs hqs) hnames hown)

end

/-- A class whose constructor has parameters with and without modifiers. -/
def modifiedParametersSource : Text :=
  "class A \x7b constructor(private readonly x: number, y = x, public z?) \x7b\x7d \x7d".toList

/-- Its tokens. -/
def modifiedParametersTokens : Array Token :=
  #[{ kind := .kwClass, start := 0, stop := 5, context := some 1 },
    { kind := .name, start := 6, stop := 7, role := some .blockScoped },
    { kind := .braceL, start := 8, stop := 9, context := some 1 },
    { kind := .name, start := 10, stop := 21, depth := 1 },
    { kind := .parenL, start := 21, stop := 22, context := some 2, depth := 2 },
    { kind := .name, start := 22, stop := 29, isType := true, depth := 2 },
    { kind := .name, start := 30, stop := 38, isType := true, depth := 2 },
    { kind := .name, start := 39, stop := 40, role := some .functionScoped, depth := 2 },
    { kind := .colon, start := 40, stop := 41, isType := true, depth := 2 },
    { kind := .name, start := 42, stop := 48, isType := true, depth := 2 },
    { kind := .comma, start := 48, stop := 49, depth := 2 },
    { kind := .name, start := 50, stop := 51, role := some .functionScoped, depth := 2 },
    { kind := .eq, start := 52, stop := 53, depth := 2 },
    { kind := .name, start := 54, stop := 55, role := some .access, depth := 2 },
    { kind := .comma, start := 55, stop := 56, depth := 2 },
    { kind := .name, start := 57, stop := 63, isType := true, depth := 2 },
    { kind := .name, start := 64, stop := 65, role := some .functionScoped, depth := 2 },
    { kind := .question, start := 65, stop := 66, isType := true, depth := 2 },
    { kind := .parenR, start := 66, stop := 67, context := some 2, depth := 2 },
    { kind := .braceL, start := 68, stop := 69, context := some 3, depth := 2 },
    { kind := .braceR, start := 69, stop := 70, context := some 3, depth := 2 },
    { kind := .braceR, start := 71, stop := 72, context := some 1 }]

/-- Its parameters: the first and the last have modifiers. -/
def modifiedParameters : List Parameter :=
  [⟨5, 7, 11⟩, ⟨11, 11, 15⟩, ⟨15, 16, 18⟩]

theorem parametersStand_modifiedParameters :
    ParametersStand modifiedParametersSource modifiedParametersTokens 5 18 modifiedParameters := by
  let o : Options := { transforms := [.imports, .typescript] }
  let st : State :=
    { pos := 29, tokens := modifiedParametersTokens.take 5, isType := false, depth := 2,
      cur := { kind := .name, start := 22, stop := 29 }, nextContext := 3, contexts := [2, 1] }
  have h : (match parametersFrom (.ofOptions modifiedParametersSource o) true 4 st with
      | some (qs, st') => decide (qs = modifiedParameters ∧ st'.tokens.size = 18
          ∧ ∀ i : Fin 13, modifiedParametersTokens[5 + i.val]? = st'.tokens[5 + i.val]?)
      | none => false) = true := by decide +kernel
  split at h
  case h_2 => cases h
  rename_i qs st' hreads
  obtain ⟨rfl, hsize, hsame⟩ := of_decide_eq_true h
  refine ⟨⟨_, true, st, st', rfl, ⟨rfl, rfl⟩, rfl, readsParameters_of_parametersFrom hreads, rfl,
    hsize, fun i hi hi' => ?_⟩, _, rfl, rfl, rfl⟩
  have hat := hsame ⟨i - 5, by omega⟩
  rwa [Nat.add_sub_cancel' hi] at hat

theorem classForm_modifiedParameters :
    ClassForm modifiedParametersSource modifiedParametersTokens 0 2 21
      [⟨3, 21, .method 3 4 4 19⟩] := by
  have htypes : ∀ i, TypesBetween modifiedParametersTokens i i :=
    fun i k hk hki => absurd hk (Nat.not_le_of_lt hki)
  have hparameters : (FunctionPart.parameters true).Delimited modifiedParametersTokens 4 18 := by
    refine ⟨by decide, 2, ⟨_, rfl, rfl, rfl⟩, ⟨_, rfl, rfl, rfl⟩, fun i t hi hi' ht => ?_⟩
    have hall : ∀ k : Fin 13, ∀ t ∈ modifiedParametersTokens[5 + k.val]?, t.context ≠ some 2 := by
      decide
    refine hall ⟨i - 5, by omega⟩ t ?_
    rwa [Nat.add_sub_cancel' hi]
  have hbody : FunctionPart.body.Delimited modifiedParametersTokens 19 20 :=
    ⟨by decide, 3, ⟨_, rfl, rfl, rfl⟩, ⟨_, rfl, rfl, rfl⟩, fun i t hi hi' => by omega⟩
  have hmethod : HeadStands modifiedParametersSource modifiedParametersTokens 3 3 4 4 :=
    ⟨by decide, fun i hi hi' => by omega,
      ⟨⟨_, rfl, rfl, rfl⟩, .inl ⟨rfl, _, rfl, by decide⟩⟩, htypes 4, by decide⟩
  refine ⟨by decide, ⟨1, ⟨_, rfl, rfl, rfl⟩, ⟨_, rfl, rfl, rfl⟩, ⟨_, rfl, rfl, rfl, rfl⟩⟩, ?_⟩
  exact .cons (.method hmethod ⟨_, rfl, rfl⟩ hparameters
    ⟨_, parametersStand_modifiedParameters⟩ (htypes 19) (by decide) ⟨_, rfl, rfl⟩ hbody) .nil

/-- The first and the last parameter are assigned. -/
theorem parameter_properties_of_modifiedParametersSource : ∃ plan start z,
    Plan.prepare modifiedParametersSource modifiedParametersTokens
      { transforms := [.imports, .typescript] } = .ok (plan, start)
    ∧ constructorLayout plan (start.moveTo 3)
      = .ok (["this.x = x".toList, "this.z = z".toList], 19) z ∧ z.index = 21 := by
  have h : preparesWith modifiedParametersSource { transforms := [.imports, .typescript] }
      (fun plan _ => decide (plan.program.tokens = modifiedParametersTokens
        ∧ plan.program.isNameAt 3 "constructor".toList = true
        ∧ (∀ q ∈ modifiedParameters, q.isModified = true →
          plan.program.kindAt q.binding ≠ .bracketL ∧ plan.program.kindAt q.binding ≠ .braceL)
        ∧ (∀ k : Fin 18, isPropertyModifierAt plan.program k = true → k.val = 5 ∨ k.val = 6 ∨ k.val = 15)
        ∧ assignments plan.program (modifiedBindings modifiedParameters)
          = ["this.x = x".toList, "this.z = z".toList]
        ∧ insertionPoint plan.program 19 20 = 19
        ∧ plan.program.matching? 4 = some 18
        ∧ readsFirst .kwClass (Grammar.classRule run true)
          (.ofOptions modifiedParametersSource { transforms := [.imports, .typescript] })
          plan.program.tokens 22 = true)) = true := by decide +kernel
  obtain ⟨tokens, plan, start, hparse, hprepare, htest⟩ := exists_of_preparesWith h
  obtain ⟨htokens, hname, hnames, hmodifiers, hassign, hplace, hmatching, hreads⟩ :=
    of_decide_eq_true htest
  obtain ⟨hprogram, -, -⟩ := eq_of_prepare hprepare
  obtain rfl : tokens = modifiedParametersTokens := by rw [← htokens, hprogram]
  have hclass : ClassStands (.ofOptions modifiedParametersSource
      { transforms := [.imports, .typescript] }) modifiedParametersTokens 0 22 := by
    rw [← htokens]
    exact classStands_of_readsFirst hreads
  obtain ⟨-, hall⟩ := parameter_properties_of_class hprepare hclass
  obtain ⟨close, hclose, -, hlayout⟩ := hall 2 21 _ classForm_modifiedParameters _
    (List.mem_singleton.mpr rfl) 3 4 4 19 rfl hname
  obtain rfl : 18 = close := Option.some.inj (hmatching.symm.trans hclose)
  obtain ⟨-, -, hown⟩ := hlayout (start.moveTo 3) rfl
  obtain ⟨-, hpass⟩ := hown modifiedParameters parametersStand_modifiedParameters hnames
  obtain ⟨z, hz, hindex⟩ := hpass fun k hk hk' hmodifier => by
    rcases hmodifiers ⟨k, hk'⟩ hmodifier with rfl | rfl | rfl
    · exact ⟨⟨5, 7, 11⟩, by decide, by decide, by decide⟩
    · exact ⟨⟨5, 7, 11⟩, by decide, by decide, by decide⟩
    · exact ⟨⟨15, 16, 18⟩, by decide, by decide, by decide⟩
  have hz' : constructorLayout plan (start.moveTo 3)
      = .ok (assignments plan.program (modifiedBindings modifiedParameters),
        insertionPoint plan.program 19 20) z := hz
  rw [hassign, hplace] at hz'
  exact ⟨plan, start, z, hprepare, hz', hindex⟩

/-- A class whose constructor has a parameter of a type that begins with `readonly`. -/
def readonlyTypeSource : Text :=
  "class A \x7b constructor(x: readonly string[]) \x7b\x7d \x7d".toList

/-- The word of the type is taken for a modifier, and there is no name behind it. -/
theorem readonly_type_not_passed : ∃ tokens plan start z,
    parse readonlyTypeSource { transforms := [.imports, .typescript] } = .ok tokens
    ∧ Plan.prepare readonlyTypeSource tokens { transforms := [.imports, .typescript] }
      = .ok (plan, start)
    ∧ plan.program.isNameAt 3 "constructor".toList = true
    ∧ constructorLayout plan (start.moveTo 3) = .error (.invariant .parameterName) z
    ∧ transform readonlyTypeSource { transforms := [.imports, .typescript] }
      = .error (.invariant .parameterName) := by
  have h : preparesWith readonlyTypeSource { transforms := [.imports, .typescript] }
      (fun plan start =>
        match constructorLayout plan (start.moveTo 3) with
        | .ok _ _ => false
        | .error e _ => decide (plan.program.isNameAt 3 "constructor".toList = true
            ∧ e = .invariant .parameterName)) = true := by decide +kernel
  obtain ⟨tokens, plan, start, hparse, hprepare, htest⟩ := exists_of_preparesWith h
  split at htest
  case h_1 => cases htest
  rename_i e z hlayout
  obtain ⟨hname, rfl⟩ := of_decide_eq_true htest
  exact ⟨tokens, plan, start, z, hparse, hprepare, hname, hlayout, by decide +kernel⟩

end Lower

end Downlevel
