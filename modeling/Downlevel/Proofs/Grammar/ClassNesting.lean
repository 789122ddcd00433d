import Downlevel.Proofs.Grammar.Nesting

/-!
# Classes among brackets

A class is open from its keyword up to the closing brace of its body, and its
context belongs to it alone.  Going past a class therefore leaves the brackets
around it as they are, and a `class` that begins no class has no body.
-/

namespace Downlevel.Grammar

/-- Is this a parenthesis? -/
def Bracket.isParen : Bracket → Bool
  | .paren _ => true
  | _ => false

/-- Is this a brace that is not part of a class? -/
def Bracket.isBrace : Bracket → Bool
  | .brace _ => true
  | _ => false

/-- Is this no part of a class? -/
def Bracket.isPlain (b : Bracket) : Bool :=
  b.isParen || b.isBrace

/-- The numbers of open braces and parentheses. -/
def bracketDepth (brackets : List Bracket) : Nat × Nat :=
  (brackets.countP Bracket.isBrace, brackets.countP Bracket.isParen)

/-- The numbers of open braces and parentheses after a token, outside classes. -/
def depthAfter (kind : Kind) (depth : Nat × Nat) : Nat × Nat :=
  match kind with
  | .braceL | .dollarBraceL => (depth.1 + 1, depth.2)
  | .braceR => (depth.1 - 1, depth.2)
  | .parenL => (depth.1, depth.2 + 1)
  | .parenR => (depth.1, depth.2 - 1)
  | _ => depth

@[simp] theorem bracketDepth_paren (x : Option Nat) (l : List Bracket) :
    bracketDepth (.paren x :: l) = ((bracketDepth l).1, (bracketDepth l).2 + 1) := by
  simp [bracketDepth, List.countP_cons, Bracket.isBrace, Bracket.isParen]

@[simp] theorem bracketDepth_brace (x : Option Nat) (l : List Bracket) :
    bracketDepth (.brace x :: l) = ((bracketDepth l).1 + 1, (bracketDepth l).2) := by
  simp [bracketDepth, List.countP_cons, Bracket.isBrace, Bracket.isParen]

theorem depthAfter_neutral {kind : Kind} (h : isNeutral kind = true) (depth : Nat × Nat) :
    depthAfter kind depth = depth := by
  cases kind <;> first | rfl | simp [isNeutral] at h

/-- Outside classes a token changes the number of the brackets it is made of, and
a bracket that is closed was open. -/
theorem Turns.depth {kind : Kind} {mark : Mark} {open_ brackets : List Bracket}
    (h : Turns kind mark open_ brackets) (hplain : ∀ b ∈ open_, b.isPlain = true)
    (hclass : kind ≠ .kwClass) :
    (∀ b ∈ brackets, b.isPlain = true)
      ∧ bracketDepth brackets = depthAfter kind (bracketDepth open_)
      ∧ (kind = .braceR → 0 < (bracketDepth open_).1)
      ∧ (kind = .parenR → 0 < (bracketDepth open_).2) := by
  have hcons : ∀ {b : Bracket}, b.isPlain = true → ∀ b' ∈ b :: open_, b'.isPlain = true := by
    intro b hb b' hmem
    rcases List.mem_cons.mp hmem with rfl | hmem
    · exact hb
    · exact hplain b' hmem
  cases h with
  | paren hkind =>
    subst hkind
    exact ⟨hcons rfl, by simp [depthAfter], nofun, nofun⟩
  | brace hkind =>
    rcases hkind with rfl | ⟨rfl, -⟩
    · exact ⟨hcons rfl, by simp [depthAfter], nofun, nofun⟩
    · exact ⟨hcons rfl, by simp [depthAfter], nofun, nofun⟩
  | body => cases hplain _ (List.mem_cons_self ..)
  | unbody => cases hplain _ (List.mem_cons_self ..)
  | head hkind => exact absurd hkind hclass
  | unparen hkind =>
    subst hkind
    exact ⟨fun b hb => hplain b (List.mem_cons_of_mem _ hb), by simp [depthAfter], nofun, by simp⟩
  | unbrace hkind =>
    subst hkind
    exact ⟨fun b hb => hplain b (List.mem_cons_of_mem _ hb), by simp [depthAfter], by simp, nofun⟩
  | none hneutral =>
    refine ⟨hplain, (depthAfter_neutral hneutral _).symm, ?_, ?_⟩ <;> rintro rfl <;> cases hneutral
  | inside hneutral =>
    refine ⟨hplain, (depthAfter_neutral hneutral _).symm, ?_, ?_⟩ <;> rintro rfl <;> cases hneutral

/-! ## What is open in front of a token -/

/-- What is open in front of the token of an index. -/
def NestedAt (tokens : Array Token) (i : Nat) (s : Nesting) : Prop :=
  ({} : Nesting).passAll? (tokens.toList.take i) = some s

/-- Every token of the program can stand where it does, and nothing is left open. -/
def IsNested (tokens : Array Token) : Prop :=
  ∃ s, ({} : Nesting).passAll? tokens.toList = some s ∧ s.brackets = []

namespace NestedAt

variable {tokens : Array Token} {i : Nat} {s s' : Nesting} {t : Token}

theorem zero : NestedAt tokens 0 {} := rfl

theorem wellFormed (h : NestedAt tokens i s) : s.WellFormed :=
  Nesting.wellFormed_start.passAll? h

theorem succ (h : NestedAt tokens i s) (hn : IsNested tokens) (ht : tokens[i]? = some t) :
    ∃ s', s.pass? t = some s' ∧ NestedAt tokens (i + 1) s' := by
  obtain ⟨e, he, -⟩ := hn
  have htake : tokens.toList.take (i + 1) = tokens.toList.take i ++ [t] := by
    rw [List.take_add_one, Array.getElem?_toList, ht, Option.toList_some]
  have hnext := Nesting.passAll?_concat h t
  rw [← htake] at hnext
  rw [← List.take_append_drop (i + 1) tokens.toList, Nesting.passAll?, List.foldlM_append] at he
  obtain ⟨s', hs', -⟩ := Option.bind_eq_some_iff.mp he
  exact ⟨s', hnext ▸ hs', hs'⟩

theorem unique (h : NestedAt tokens i s) (h' : NestedAt tokens i s') : s = s' :=
  Option.some.inj (h.symm.trans h')

theorem exists_of_le (hn : IsNested tokens) (hi : i ≤ tokens.size) : ∃ s, NestedAt tokens i s := by
  induction i with
  | zero => exact ⟨{}, zero⟩
  | succ i ih =>
    obtain ⟨s, hs⟩ := ih (Nat.le_of_succ_le hi)
    obtain ⟨s', -, hs'⟩ := hs.succ hn (Array.getElem?_eq_getElem hi)
    exact ⟨s', hs'⟩

/-- Where something is open there are more tokens. -/
theorem lt_size (h : NestedAt tokens i s) (hn : IsNested tokens) (hi : i ≤ tokens.size)
    (hopen : s.brackets ≠ []) : i < tokens.size := by
  obtain ⟨e, he, hempty⟩ := hn
  refine Nat.lt_of_le_of_ne hi fun heq => hopen ?_
  subst heq
  unfold NestedAt at h
  rw [← Array.length_toList, List.take_length, he] at h
  rw [← Option.some.inj h, hempty]

end NestedAt

/-! ## Classes -/

section

variable {kind : Kind} {mark : Mark} {id : Nat} {b top : Bracket}
  {above base brackets : List Bracket} {s : Nesting}

/-- A token turns at most the innermost bracket. -/
theorem Turns.stays (h : Turns kind mark (top :: (above ++ b :: base)) brackets) :
    ∃ above', brackets = above' ++ b :: base := by
  cases h with
  | paren | brace | head => exact ⟨_ :: top :: above, rfl⟩
  | body => exact ⟨_ :: above, rfl⟩
  | unparen | unbrace | unbody => exact ⟨above, rfl⟩
  | none => exact ⟨top :: above, rfl⟩
  | inside => exact ⟨_ :: above, rfl⟩

/-- The head of a class stays open up to the brace of its body. -/
theorem Turns.head_stays (h : Turns kind mark (above ++ .head id :: base) brackets)
    (hbody : ¬(kind = .braceL ∧ mark = .inside id)) :
    ∃ above', brackets = above' ++ .head id :: base := by
  cases above with
  | cons top above => exact h.stays
  | nil =>
    cases h with
    | paren | brace | head => exact ⟨[_], rfl⟩
    | body hkind hmark => exact absurd ⟨hkind, hmark⟩ hbody
    | none => exact ⟨[], rfl⟩

/-- The body of a class stays open up to its closing brace. -/
theorem Turns.body_stays (h : Turns kind mark (above ++ .body id :: base) brackets)
    (hend : ¬(kind = .braceR ∧ mark = .inside id)) :
    ∃ above', brackets = above' ++ .body id :: base := by
  cases above with
  | cons top above => exact h.stays
  | nil =>
    cases h with
    | paren | brace | head => exact ⟨[_], rfl⟩
    | unbody hkind hmark => exact absurd ⟨hkind, hmark⟩ hend
    | none => exact ⟨[], rfl⟩

/-- A context is open once. -/
theorem Nesting.WellFormed.eq_nil {a : Bracket} (h : s.WellFormed)
    (hbrackets : s.brackets = above ++ b :: base) (hb : b.context = some id)
    (ha : a.context = some id) {rest : List Bracket} (htop : s.brackets = a :: rest) :
    above = [] := by
  cases above with
  | nil => rfl
  | cons top above =>
    rw [hbrackets] at htop
    obtain ⟨rfl, -⟩ := List.cons.inj htop
    have hnodup := h.nodup
    rw [Nesting.contexts, hbrackets, List.cons_append, List.filterMap_cons_some ha,
      List.nodup_cons] at hnodup
    exact absurd (List.mem_filterMap.mpr ⟨b, by simp, hb⟩) hnodup.1

/-- The brace of the body of a class comes when all inside its head is closed. -/
theorem Nesting.WellFormed.turns_body (h : s.WellFormed)
    (hbrackets : s.brackets = above ++ .head id :: base)
    (hturns : Turns .braceL (.inside id) s.brackets brackets) : brackets = .body id :: base := by
  have hnil : ∀ {a rest}, a.context = some id → s.brackets = a :: rest → above = [] :=
    fun ha htop => h.eq_nil hbrackets rfl ha htop
  generalize hopen : s.brackets = open_ at hturns
  cases hturns with
  | brace _ hx => cases hx
  | @body id' _ _ hmark =>
    cases hmark
    obtain rfl := hnil rfl hopen
    rw [hbrackets, List.nil_append] at hopen
    cases hopen
    rfl
  | _ => contradiction

/-- The closing brace of a class comes when all inside its body is closed. -/
theorem Nesting.WellFormed.turns_end (h : s.WellFormed)
    (hbrackets : s.brackets = above ++ .body id :: base)
    (hturns : Turns .braceR (.inside id) s.brackets brackets) : brackets = base := by
  have hnil : ∀ {a rest}, a.context = some id → s.brackets = a :: rest → above = [] :=
    fun ha htop => h.eq_nil hbrackets rfl ha htop
  generalize hopen : s.brackets = open_ at hturns
  cases hturns with
  | unbrace _ hx =>
    cases hx
    obtain rfl := hnil rfl hopen
    rw [hbrackets, List.nil_append] at hopen
    cases hopen
  | @unbody id' _ _ hmark =>
    cases hmark
    obtain rfl := hnil rfl hopen
    rw [hbrackets, List.nil_append] at hopen
    cases hopen
    rfl
  | _ => contradiction

end

/-! ## Contexts come from tokens -/

namespace Nesting

variable {s s' : Nesting} {t : Token} {ts : List Token} {id : Nat}

theorem mem_contexts_of_pass? (h : s.pass? t = some s') (hid : id ∈ s'.contexts) :
    id ∈ s.contexts ∨ t.context = some id := by
  obtain ⟨hturns, -⟩ := turns_of_pass? h
  obtain ⟨bound, brackets⟩ := s
  obtain ⟨bound', brackets'⟩ := s'
  have hopens : ∀ {b : Bracket} {x}, (Nesting.mark ⟨bound, brackets⟩ t).opens = some x →
      b.context = x → id ∈ Nesting.contexts ⟨bound', b :: brackets⟩ →
      id ∈ Nesting.contexts ⟨bound, brackets⟩ ∨ t.context = some id := by
    intro b x hx hb hmem
    rcases Mark.opens_eq_some hx with ⟨-, rfl⟩ | ⟨id', hmark, rfl⟩
    · left
      rwa [contexts, List.filterMap_cons_none hb] at hmem
    · rw [contexts, List.filterMap_cons_some hb] at hmem
      rcases List.mem_cons.mp hmem with rfl | hmem
      · exact .inr (mark_eq_opening_iff.mp hmark).1
      · exact .inl hmem
  have hcons : ∀ {b : Bracket} {rest : List Bracket},
      id ∈ Nesting.contexts ⟨bound', rest⟩ → id ∈ Nesting.contexts ⟨bound, b :: rest⟩ :=
    fun hmem => ((List.sublist_cons_self _ _).filterMap _).subset hmem
  cases hturns with
  | paren _ hx => exact hopens hx rfl hid
  | brace _ hx => exact hopens hx rfl hid
  | head _ hmark => exact hopens (x := some _) (by rw [hmark]; rfl) rfl hid
  | unparen => exact .inl (hcons hid)
  | unbrace => exact .inl (hcons hid)
  | unbody => exact .inl (hcons hid)
  | body => exact .inl hid
  | none => exact .inl hid
  | inside => exact .inl hid

theorem mem_contexts_of_passAll? (h : s.passAll? ts = some s') (hid : id ∈ s'.contexts) :
    id ∈ s.contexts ∨ ∃ t ∈ ts, t.context = some id := by
  induction ts generalizing s with
  | nil =>
    cases h
    exact .inl hid
  | cons t ts ih =>
    obtain ⟨s₁, hs₁, hrest⟩ := Option.bind_eq_some_iff.mp h
    rcases ih hrest with hmem | ⟨u, hu, hcontext⟩
    · rcases mem_contexts_of_pass? hs₁ hmem with hmem | hcontext
      · exact .inl hmem
      · exact .inr ⟨t, List.mem_cons_self .., hcontext⟩
    · exact .inr ⟨u, List.mem_cons_of_mem t hu, hcontext⟩

theorem bound_le_of_passAll? (h : s.passAll? ts = some s') : s.bound ≤ s'.bound := by
  induction ts generalizing s with
  | nil =>
    cases h
    exact Nat.le_refl _
  | cons t ts ih =>
    obtain ⟨s₁, hs₁, hrest⟩ := Option.bind_eq_some_iff.mp h
    exact Nat.le_trans (bound_le_of_pass? hs₁) (ih hrest)

theorem lt_bound_of_passAll? (h : s.passAll? ts = some s') (ht : t ∈ ts)
    (hid : t.context = some id) : id < s'.bound := by
  induction ts generalizing s with
  | nil => cases ht
  | cons u ts ih =>
    obtain ⟨s₁, hs₁, hrest⟩ := Option.bind_eq_some_iff.mp h
    rcases List.mem_cons.mp ht with rfl | ht
    · exact Nat.lt_of_lt_of_le (lt_bound_of_pass? hs₁ hid) (bound_le_of_passAll? hrest)
    · exact ih hrest ht

end Nesting

/-- The token of an index is a `class`, and no token before it is in its context. -/
def BeginsClass (tokens : Array Token) (i : Nat) : Prop :=
  ∃ t id, tokens[i]? = some t ∧ t.kind = .kwClass ∧ t.context = some id
    ∧ ∀ (j : Nat) (u : Token), j < i → tokens[j]? = some u → u.context ≠ some id

namespace NestedAt

variable {tokens : Array Token} {i : Nat} {s s' : Nesting} {t : Token} {id : Nat}

theorem mem_take_iff {u : Token} :
    u ∈ tokens.toList.take i ↔ ∃ j, j < i ∧ tokens[j]? = some u := by
  rw [List.mem_iff_getElem?]
  constructor
  · rintro ⟨j, hj⟩
    rw [List.getElem?_take] at hj
    split at hj
    · rename_i hlt
      exact ⟨j, hlt, Array.getElem?_toList ▸ hj⟩
    · cases hj
  · rintro ⟨j, hlt, hget⟩
    exact ⟨j, by rw [List.getElem?_take, if_pos hlt, Array.getElem?_toList, hget]⟩

/-- A token that begins a class opens its head. -/
theorem brackets_of_beginsClass (h : NestedAt tokens i s) (ht : tokens[i]? = some t)
    (hbegins : BeginsClass tokens i) (hpass : s.pass? t = some s') :
    ∃ id, t.context = some id ∧ s'.brackets = .head id :: s.brackets := by
  obtain ⟨t', id, ht', hkind, hid, hnew⟩ := hbegins
  obtain rfl : t' = t := Option.some.inj (ht'.symm.trans ht)
  refine ⟨id, hid, ?_⟩
  have hturns := (Nesting.turns_of_pass? hpass).1
  rw [hkind] at hturns
  have hmark : s.mark t' = .opening id := by
    refine Nesting.mark_eq_opening_iff.mpr ⟨hid, Nat.le_of_not_lt fun hlt => ?_⟩
    rw [Nesting.mark_eq_inside_iff.mpr ⟨hid, hlt⟩] at hturns
    rcases Nesting.mem_contexts_of_passAll? h (Nesting.mem_contexts_of_turns hturns) with
      hmem | ⟨u, hu, hcontext⟩
    · cases hmem
    · obtain ⟨j, hj, hget⟩ := mem_take_iff.mp hu
      exact hnew j u hj hget hcontext
  rw [hmark] at hturns
  generalize s.brackets = open_, s'.brackets = brackets at hturns
  cases hturns with
  | head _ hid' =>
    cases hid'
    rfl
  | brace hbrace => simp at hbrace
  | _ => contradiction

/-- The head of a class of this context cannot come any more. -/
def Headless (id : Nat) (s : Nesting) : Prop :=
  id < s.bound ∧ Bracket.head id ∉ s.brackets

theorem headless_of_pass? (h : Headless id s) (hpass : s.pass? t = some s') : Headless id s' := by
  refine ⟨Nat.lt_of_lt_of_le h.1 (Nesting.bound_le_of_pass? hpass), ?_⟩
  have hhead := h.2
  have hnew : ∀ {id'}, s.mark t = .opening id' → id' ≠ id := by
    rintro id' hmark rfl
    exact Nat.not_lt.mpr (Nesting.mark_eq_opening_iff.mp hmark).2 h.1
  have hturns := (Nesting.turns_of_pass? hpass).1
  generalize s.brackets = open_, s'.brackets = brackets at hturns hhead
  cases hturns with
  | head _ hmark => simpa [hhead] using (hnew hmark).symm
  | _ => simp_all

/-- A `class` in a context that was met before stands in an object of the context. -/
theorem head_notMem (h : NestedAt tokens i s) (hn : IsNested tokens) (ht : tokens[i]? = some t)
    (hkind : t.kind = .kwClass) (hid : t.context = some id) (hlt : id < s.bound) :
    Bracket.head id ∉ s.brackets := by
  obtain ⟨s', hpass, -⟩ := h.succ hn ht
  have hturns := (Nesting.turns_of_pass? hpass).1
  rw [hkind, Nesting.mark_eq_inside_iff.mpr ⟨hid, hlt⟩] at hturns
  have htop : ∃ rest, s.brackets = .brace (some id) :: rest := by
    generalize s.brackets = open_, s'.brackets = brackets at hturns
    cases hturns with
    | inside _ hmark =>
      cases hmark
      exact ⟨_, rfl⟩
    | _ => contradiction
  obtain ⟨rest, htop⟩ := htop
  intro hmem
  obtain ⟨above, base, hbrackets⟩ := List.append_of_mem hmem
  obtain rfl := h.wellFormed.eq_nil hbrackets rfl rfl htop
  rw [htop, List.nil_append] at hbrackets
  cases hbrackets

/-- A `class` in a context that was met before has no body in this context. -/
theorem bodiless (h : NestedAt tokens i s) (hn : IsNested tokens) (ht : tokens[i]? = some t)
    (hkind : t.kind = .kwClass) (hbegins : ¬BeginsClass tokens i) (hid : t.context = some id)
    {j : Nat} {u : Token} (hj : i < j) (hu : tokens[j]? = some u) (hbrace : u.kind = .braceL) :
    u.context ≠ some id := by
  have hlt : id < s.bound := Classical.byContradiction fun hnot =>
    hbegins ⟨t, id, ht, hkind, hid, fun k v hk hv hcontext =>
      hnot (Nesting.lt_bound_of_passAll? h (mem_take_iff.mpr ⟨k, hk, hv⟩) hcontext)⟩
  have hreach : ∀ k, i + k ≤ tokens.size → ∃ e, NestedAt tokens (i + k) e ∧ Headless id e := by
    intro k
    induction k with
    | zero => exact fun _ => ⟨s, h, hlt, h.head_notMem hn ht hkind hid hlt⟩
    | succ k ih =>
      intro hk
      obtain ⟨e, he, hheadless⟩ := ih (Nat.le_of_succ_le hk)
      obtain ⟨e', hpass, he'⟩ := he.succ hn (Array.getElem?_eq_getElem hk)
      exact ⟨e', he', headless_of_pass? hheadless hpass⟩
  intro hcontext
  have hsize : j < tokens.size := (Array.getElem?_eq_some_iff.mp hu).1
  obtain ⟨e, he, hheadless⟩ := hreach (j - i) (by omega)
  rw [Nat.add_sub_cancel' (Nat.le_of_lt hj)] at he
  obtain ⟨e', hpass, -⟩ := he.succ hn hu
  have hturns := (Nesting.turns_of_pass? hpass).1
  rw [hbrace, Nesting.mark_eq_inside_iff.mpr ⟨hcontext, hheadless.1⟩] at hturns
  have hhead := hheadless.2
  generalize e.brackets = open_, e'.brackets = brackets at hturns hhead
  cases hturns with
  | brace _ hx => cases hx
  | body _ hmark =>
    cases hmark
    exact hhead (List.mem_cons_self ..)
  | _ => contradiction

end NestedAt

end Downlevel.Grammar
