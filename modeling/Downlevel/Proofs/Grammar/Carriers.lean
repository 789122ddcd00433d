import Downlevel.Proofs.Grammar.ClassNesting
import Mathlib.Data.List.Induction

/-!
# The tokens of a context

Tokens whose brackets match give every context the tokens of one construct: the
parentheses of parameters, the braces of a body, an object with its keys, or a
class (`Shaped`).  Two contexts never cross: a context that is opened inside
another one is closed before the next token of the outer one (`eq_of_crossing`).
-/

namespace Downlevel.Grammar

variable {rest : List Bracket} {ts : List Token}

/-- The tokens in a context. -/
def carriers (ts : List Token) (id : Nat) : List Token :=
  ts.filter fun t => t.context == some id

/-- The tokens of one construct that share its context. -/
inductive IsConstruct : List Token → Prop
  | parens {o c : Token} : o.kind = .parenL → c.kind = .parenR → IsConstruct [o, c]
  /-- A body has no keys, and an object all its plain ones. -/
  | braces {o c : Token} {keys : List Token} :
      o.kind = .braceL → (∀ k ∈ keys, IsKey k) → c.kind = .braceR → IsConstruct (o :: keys ++ [c])
  | ofClass {k o c : Token} :
      k.kind = .kwClass → o.kind = .braceL → c.kind = .braceR → IsConstruct [k, o, c]

/-- The tokens of a construct up to a place where it is open. -/
inductive Bracket.IsBegun : Bracket → List Token → Prop
  | paren {x : Option Nat} {o : Token} : o.kind = .parenL → IsBegun (.paren x) [o]
  | brace {x : Option Nat} {o : Token} {keys : List Token} :
      o.kind = .braceL → (∀ k ∈ keys, IsKey k) → IsBegun (.brace x) (o :: keys)
  | head {id : Nat} {k : Token} : k.kind = .kwClass → IsBegun (.head id) [k]
  | body {id : Nat} {k o : Token} : k.kind = .kwClass → o.kind = .braceL → IsBegun (.body id) [k, o]

section

variable {ts : List Token} {t : Token} {id : Nat}

theorem carriers_concat (h : t.context = some id) : carriers (ts ++ [t]) id = carriers ts id ++ [t] := by
  simp [carriers, h]

theorem carriers_concat_of_ne (h : t.context ≠ some id) : carriers (ts ++ [t]) id = carriers ts id := by
  simp [carriers, h]

theorem carriers_eq_nil_iff : carriers ts id = [] ↔ ∀ t ∈ ts, t.context ≠ some id := by
  simp [carriers, List.filter_eq_nil_iff]

end

/-! ## Shapes -/

/-- The innermost bracket is the only one of its context. -/
theorem Nesting.WellFormed.context_ne {s : Nesting} {b b' : Bracket} {id : Nat} (hwf : s.WellFormed)
    (hopen : s.brackets = b :: rest) (hb : b.context = some id) (hb' : b' ∈ rest) :
    b'.context ≠ some id := by
  intro hid
  have hnodup := hwf.nodup
  rw [Nesting.contexts, hopen, List.filterMap_cons_some hb, List.nodup_cons] at hnodup
  exact hnodup.1 (List.mem_filterMap.mpr ⟨b', hb', hid⟩)

/-- Contexts that are open have the tokens of an open construct, and contexts
that were closed those of a whole one. -/
structure Shaped (s : Nesting) (ts : List Token) : Prop where
  fresh : ∀ id, s.bound ≤ id → carriers ts id = []
  begun : ∀ b ∈ s.brackets, ∀ id, b.context = some id → b.IsBegun (carriers ts id)
  closed : ∀ id, id ∉ s.contexts → carriers ts id = [] ∨ IsConstruct (carriers ts id)

namespace Shaped

variable {s s' : Nesting} {ts : List Token} {t : Token}

theorem start : Shaped {} [] :=
  ⟨fun _ _ => rfl, nofun, fun _ _ => .inl rfl⟩

/-- Only the context of the next token changes. -/
theorem concat (h : Shaped s ts) (hpass : s.pass? t = some s')
    (hbegun : ∀ b ∈ s'.brackets, ∀ id, b.context = some id →
      b ∈ s.brackets ∧ t.context ≠ some id
        ∨ t.context = some id ∧ b.IsBegun (carriers ts id ++ [t]))
    (hclosed : ∀ id, id ∉ s'.contexts →
      id ∉ s.contexts ∧ t.context ≠ some id
        ∨ t.context = some id ∧ IsConstruct (carriers ts id ++ [t])) :
    Shaped s' (ts ++ [t]) := by
  constructor
  · intro id hid
    have hne : t.context ≠ some id := fun hcontext =>
      Nat.not_lt.mpr hid (Nesting.lt_bound_of_pass? hpass hcontext)
    rw [carriers_concat_of_ne hne]
    exact h.fresh id (Nat.le_trans (Nesting.bound_le_of_pass? hpass) hid)
  · intro b hb id hid
    rcases hbegun b hb id hid with ⟨hold, hne⟩ | ⟨hcontext, hnew⟩
    · rw [carriers_concat_of_ne hne]
      exact h.begun b hold id hid
    · rwa [carriers_concat hcontext]
  · intro id hid
    rcases hclosed id hid with ⟨hold, hne⟩ | ⟨hcontext, hnew⟩
    · rw [carriers_concat_of_ne hne]
      exact h.closed id hold
    · rw [carriers_concat hcontext]
      exact .inr hnew

/-- A token that opens a bracket is the first one of its construct. -/
theorem open_ {b : Bracket} {x : Option Nat} (h : Shaped s ts) (hwf : s.WellFormed)
    (hpass : s.pass? t = some s') (hx : (s.mark t).opens = some x) (hb : b.context = x)
    (hbrackets : s'.brackets = b :: s.brackets) (hbegun : x ≠ none → b.IsBegun [t]) :
    Shaped s' (ts ++ [t]) := by
  have hnew : ∀ {id}, t.context = some id → x = some id ∧ s.bound ≤ id := by
    intro id hid
    rcases Mark.opens_eq_some hx with ⟨hmark, -⟩ | ⟨id', hmark, rfl⟩
    · rw [Nesting.mark_eq_none_iff.mp hmark] at hid
      cases hid
    · obtain ⟨hid', hle⟩ := Nesting.mark_eq_opening_iff.mp hmark
      obtain rfl : id' = id := Option.some.inj (hid'.symm.trans hid)
      exact ⟨rfl, hle⟩
  have hold : ∀ {id}, id ∈ s.contexts → t.context ≠ some id := fun hmem hid =>
    Nat.not_lt.mpr (hnew hid).2 (hwf.lt_bound _ hmem)
  refine h.concat hpass (fun b' hb' id hid => ?_) fun id hid => .inl ⟨?_, fun hcontext => hid ?_⟩
  · rw [hbrackets] at hb'
    rcases List.mem_cons.mp hb' with rfl | hb'
    · right
      rw [hid] at hb
      subst hb
      rcases Mark.opens_eq_some hx with ⟨-, hx⟩ | ⟨id', hmark, hx⟩
      · cases hx
      · cases hx
        obtain ⟨hcontext, hle⟩ := Nesting.mark_eq_opening_iff.mp hmark
        rw [h.fresh id hle]
        exact ⟨hcontext, hbegun nofun⟩
    · exact .inl ⟨hb', hold (List.mem_filterMap.mpr ⟨b', hb', hid⟩)⟩
  · intro hmem
    refine hid ?_
    rw [Nesting.contexts, hbrackets]
    exact ((List.sublist_cons_self _ _).filterMap _).subset hmem
  · rw [Nesting.contexts, hbrackets]
    exact List.mem_filterMap.mpr ⟨b, List.mem_cons_self .., hb.trans (hnew hcontext).1⟩

/-- A token inside the innermost bracket goes on with its construct. -/
theorem turn {b b' : Bracket} {id : Nat} (h : Shaped s ts) (hwf : s.WellFormed)
    (hpass : s.pass? t = some s') (hmark : s.mark t = .inside id) (hopen : s.brackets = b :: rest)
    (hb : b.context = some id) (hbrackets : s'.brackets = b' :: rest) (hb' : b'.context = some id)
    (hbegun : ∀ l, b.IsBegun l → b'.IsBegun (l ++ [t])) : Shaped s' (ts ++ [t]) := by
  obtain ⟨hcontext, -⟩ := Nesting.mark_eq_inside_iff.mp hmark
  have hcontexts : s'.contexts = s.contexts := by
    rw [Nesting.contexts, Nesting.contexts, hopen, hbrackets, List.filterMap_cons_some hb,
      List.filterMap_cons_some hb']
  have hmem : id ∈ s.contexts := by
    rw [Nesting.contexts, hopen]
    exact List.mem_filterMap.mpr ⟨b, List.mem_cons_self .., hb⟩
  refine h.concat hpass (fun b'' hb'' id' hid' => ?_) fun id' hid' => .inl ?_
  · rw [hbrackets] at hb''
    rcases List.mem_cons.mp hb'' with rfl | hb''
    · obtain rfl : id = id' := Option.some.inj (hb'.symm.trans hid')
      exact .inr ⟨hcontext, hbegun _ (h.begun b (hopen ▸ List.mem_cons_self ..) id hb)⟩
    · refine .inl ⟨hopen ▸ List.mem_cons_of_mem b hb'', fun hid => ?_⟩
      exact hwf.context_ne hopen hb hb'' (hid'.trans (hid.symm.trans hcontext))
  · rw [hcontexts] at hid'
    refine ⟨hid', fun hid => hid' ?_⟩
    obtain rfl : id = id' := Option.some.inj (hcontext.symm.trans hid)
    exact hmem

/-- A token that closes the innermost bracket is the last one of its construct. -/
theorem close {b : Bracket} {x : Option Nat} (h : Shaped s ts) (hwf : s.WellFormed)
    (hpass : s.pass? t = some s') (hx : (s.mark t).closes = some x) (hopen : s.brackets = b :: rest)
    (hb : b.context = x) (hbrackets : s'.brackets = rest)
    (hconstruct : ∀ l, b.IsBegun l → IsConstruct (l ++ [t])) : Shaped s' (ts ++ [t]) := by
  have hmem : ∀ {b'}, b' ∈ rest → b' ∈ s.brackets := fun hb' => hopen ▸ List.mem_cons_of_mem b hb'
  rcases Mark.closes_eq_some hx with ⟨hmark, rfl⟩ | ⟨id, hmark, rfl⟩
  · have hne : ∀ id, t.context ≠ some id := by
      rw [Nesting.mark_eq_none_iff.mp hmark]
      exact nofun
    have hcontexts : s'.contexts = s.contexts := by
      rw [Nesting.contexts, Nesting.contexts, hopen, hbrackets, List.filterMap_cons_none hb]
    refine h.concat hpass (fun b' hb' id _ => .inl ⟨hmem (hbrackets ▸ hb'), hne id⟩) fun id hid => ?_
    exact .inl ⟨hcontexts ▸ hid, hne id⟩
  · obtain ⟨hcontext, -⟩ := Nesting.mark_eq_inside_iff.mp hmark
    have hcontexts : s.contexts = id :: s'.contexts := by
      rw [Nesting.contexts, Nesting.contexts, hopen, hbrackets, List.filterMap_cons_some hb]
    refine h.concat hpass (fun b' hb' id' hid' => .inl ⟨hmem (hbrackets ▸ hb'), fun hid => ?_⟩)
      fun id' hid' => ?_
    · exact hwf.context_ne hopen hb (hbrackets ▸ hb') (hid'.trans (hid.symm.trans hcontext))
    · by_cases heq : id' = id
      · subst heq
        exact .inr ⟨hcontext, hconstruct _ (h.begun b (hopen ▸ List.mem_cons_self ..) id' hb)⟩
      · refine .inl ⟨by simp [hcontexts, heq, hid'], fun hid => heq ?_⟩
        exact Option.some.inj (hid.symm.trans hcontext)

theorem pass? (h : Shaped s ts) (hwf : s.WellFormed) (hpass : s.pass? t = some s')
    (hkey : ∀ id, s.mark t = .inside id → isNeutral t.kind = true → IsKey t) :
    Shaped s' (ts ++ [t]) := by
  obtain ⟨hturns, -⟩ := Nesting.turns_of_pass? hpass
  generalize hopen : s.brackets = open_, hbrackets : s'.brackets = brackets at hturns
  cases hturns with
  | paren hkind hx => exact h.open_ hwf hpass hx rfl (hopen ▸ hbrackets) fun _ => .paren hkind
  | brace hkind hx =>
    refine h.open_ hwf hpass hx rfl (hopen ▸ hbrackets) fun hsome => ?_
    rcases hkind with hkind | ⟨-, hmark⟩
    · exact .brace hkind fun k hk => absurd hk List.not_mem_nil
    · rw [hmark] at hx
      exact absurd (Option.some.inj hx).symm hsome
  | head hkind hmark =>
    exact h.open_ (x := some _) hwf hpass (by rw [hmark]; rfl) rfl (hopen ▸ hbrackets)
      fun _ => .head hkind
  | body hkind hmark =>
    refine h.turn hwf hpass hmark hopen rfl hbrackets rfl fun l hl => ?_
    cases hl with
    | head hclass => exact .body hclass hkind
  | unparen hkind hx =>
    refine h.close hwf hpass hx hopen rfl hbrackets fun l hl => ?_
    cases hl with
    | paren hparen => exact .parens hparen hkind
  | unbrace hkind hx =>
    refine h.close hwf hpass hx hopen rfl hbrackets fun l hl => ?_
    cases hl with
    | brace hbrace hkeys => exact .braces hbrace hkeys hkind
  | unbody hkind hmark =>
    refine h.close (x := some _) hwf hpass (by rw [hmark]; rfl) hopen rfl hbrackets fun l hl => ?_
    cases hl with
    | body hclass hbrace => exact .ofClass hclass hbrace hkind
  | none _ hmark =>
    have hcontext := Nesting.mark_eq_none_iff.mp hmark
    refine h.concat hpass (fun b hb id _ => .inl ?_) fun id hid => .inl ?_
    · exact ⟨hopen ▸ hbrackets ▸ hb, by simp [hcontext]⟩
    · exact ⟨by simpa [Nesting.contexts, hopen, hbrackets] using hid, by simp [hcontext]⟩
  | inside hneutral hmark =>
    refine h.turn hwf hpass hmark hopen rfl hbrackets rfl fun l hl => ?_
    cases hl with
    | brace hbrace hkeys =>
      refine .brace hbrace fun k hk => ?_
      rcases List.mem_append.mp hk with hk | hk
      · exact hkeys k hk
      · rw [List.mem_singleton.mp hk]
        exact hkey _ hmark hneutral

end Shaped

theorem Nesting.passAll?_concat_eq_some {s s' : Nesting} {t : Token}
    (h : s.passAll? (ts ++ [t]) = some s') :
    ∃ s₁, s.passAll? ts = some s₁ ∧ s₁.pass? t = some s' := by
  unfold Nesting.passAll? at h
  rw [List.foldlM_append] at h
  obtain ⟨s₁, hs₁, hlast⟩ := Option.bind_eq_some_iff.mp h
  exact ⟨s₁, hs₁, by simpa using hlast⟩

section

variable {ts us l : List Token} {t u : Token}

/-- Tokens that follow each other by their indices. -/
theorem cons_sublist_drop {i n : Nat} (hi : n ≤ i) (ht : ts[i]? = some t)
    (hl : l.Sublist (ts.drop (i + 1))) : (t :: l).Sublist (ts.drop n) := by
  obtain ⟨hlt, rfl⟩ := List.getElem?_eq_some_iff.mp ht
  refine List.Sublist.trans ?_ (List.drop_sublist_drop_left ts hi)
  rw [List.drop_eq_getElem_cons hlt]
  exact hl.cons_cons _

theorem pair_sublist_iff :
    [t, u].Sublist ts ↔ ∃ i j : Nat, i < j ∧ ts[i]? = some t ∧ ts[j]? = some u := by
  constructor
  · intro hsub
    obtain ⟨r₁, r₂, rfl, ht, hu⟩ := List.cons_sublist_iff.mp hsub
    obtain ⟨i, hi⟩ := List.mem_iff_getElem?.mp ht
    obtain ⟨j, hj⟩ := List.mem_iff_getElem?.mp (List.singleton_sublist.mp hu)
    have hlt : i < r₁.length := (List.getElem?_eq_some_iff.mp hi).1
    refine ⟨i, r₁.length + j, by omega, ?_, ?_⟩
    · rw [List.getElem?_append_left hlt, hi]
    · rw [List.getElem?_append_right (by omega), Nat.add_sub_cancel_left, hj]
  · rintro ⟨i, j, hij, ht, hu⟩
    have hlast := cons_sublist_drop (n := i + 1) hij hu (List.nil_sublist _)
    simpa using cons_sublist_drop (Nat.zero_le i) ht hlast

/-- A token that is no bracket and not the first one of its context is a key. -/
def IsKeyed (ts : List Token) : Prop :=
  ∀ (t u : Token) (id : Nat), [t, u].Sublist ts → t.context = some id → u.context = some id →
    isNeutral u.kind = true → IsKey u

theorem IsKeyed.nil : IsKeyed [] := by
  intro t u id hsub
  cases hsub

theorem IsKeyed.of_sublist (h : IsKeyed us) (hsub : ts.Sublist us) : IsKeyed ts :=
  fun t u id htu => h t u id (htu.trans hsub)

theorem IsKeyed.concat (h : IsKeyed ts)
    (hkey : ∀ u ∈ ts, ∀ id, u.context = some id → t.context = some id → isNeutral t.kind = true →
      IsKey t) : IsKeyed (ts ++ [t]) := by
  intro u v id hsub hu hv hneutral
  obtain ⟨i, j, hij, hi, hj⟩ := pair_sublist_iff.mp hsub
  have hsize : j < (ts ++ [t]).length := (List.getElem?_eq_some_iff.mp hj).1
  rw [List.length_append, List.length_singleton] at hsize
  rw [List.getElem?_append_left (by omega)] at hi
  by_cases hlt : j < ts.length
  · rw [List.getElem?_append_left hlt] at hj
    exact h u v id (pair_sublist_iff.mpr ⟨i, j, hij, hi, hj⟩) hu hv hneutral
  · obtain rfl : v = t := by
      rw [show j = ts.length by omega, List.getElem?_concat_length] at hj
      exact (Option.some.inj hj).symm
    exact hkey u (List.mem_of_getElem? hi) id hu hv hneutral

end

theorem shaped_of_passAll? {s : Nesting} (hkeyed : IsKeyed ts)
    (h : ({} : Nesting).passAll? ts = some s) : Shaped s ts := by
  induction ts using List.reverseRecOn generalizing s with
  | nil =>
    cases h
    exact Shaped.start
  | append_singleton ts t ih =>
    obtain ⟨s₁, hs₁, hpass⟩ := Nesting.passAll?_concat_eq_some h
    have hshaped := ih (hkeyed.of_sublist (List.sublist_append_left ts [t])) hs₁
    refine hshaped.pass? (Nesting.wellFormed_start.passAll? hs₁) hpass fun id hmark hneutral => ?_
    have hturns := (Nesting.turns_of_pass? hpass).1
    rw [hmark] at hturns
    rcases Nesting.mem_contexts_of_passAll? hs₁ (Nesting.mem_contexts_of_turns hturns) with
      hmem | ⟨u, hu, hcontext⟩
    · cases hmem
    · refine hkeyed u t id ?_ hcontext (Nesting.mark_eq_inside_iff.mp hmark).1 hneutral
      exact (List.singleton_sublist.mpr hu).append (List.Sublist.refl [t])

/-! ## Crossings -/

namespace Nesting

variable {s s' s'' : Nesting} {t : Token} {id a b : Nat}

/-- One nesting comes after another. -/
def Leads (s s' : Nesting) : Prop :=
  ∃ ts, s.passAll? ts = some s'

theorem Leads.trans (h : s.Leads s') (h' : s'.Leads s'') : s.Leads s'' := by
  obtain ⟨ts, hts⟩ := h
  obtain ⟨us, hus⟩ := h'
  refine ⟨ts ++ us, ?_⟩
  rw [passAll?] at hts hus ⊢
  simp [List.foldlM_append, hts, hus]

theorem Leads.of_pass? (h : s.pass? t = some s') : s.Leads s' :=
  ⟨[t], by simp [passAll?, h]⟩

theorem Leads.wellFormed (h : s.Leads s') (hwf : s.WellFormed) : s'.WellFormed :=
  hwf.passAll? h.choose_spec

theorem Leads.bound_le (h : s.Leads s') : s.bound ≤ s'.bound :=
  bound_le_of_passAll? h.choose_spec

/-- What is passed while tokens come in a given order. -/
theorem exists_of_cons_sublist {ts l : List Token} (h : s.passAll? ts = some s')
    (hsub : (t :: l).Sublist ts) :
    ∃ s₁ s₂ rest, s.Leads s₁ ∧ s₁.pass? t = some s₂ ∧ s₂.passAll? rest = some s' ∧ l.Sublist rest := by
  induction ts generalizing s with
  | nil => cases hsub
  | cons u us ih =>
    obtain ⟨s₁, hs₁, hrest⟩ := Option.bind_eq_some_iff.mp h
    cases hsub with
    | cons _ hsub =>
      obtain ⟨s₂, s₃, rest, hleads, hfound⟩ := ih hrest hsub
      exact ⟨s₂, s₃, rest, (Leads.of_pass? hs₁).trans hleads, hfound⟩
    | cons_cons _ hsub => exact ⟨s, s₁, us, ⟨[], rfl⟩, hs₁, hrest, hsub⟩

/-- A token in a context that was met before stands where the context is open. -/
theorem mem_contexts_of_context (h : s.pass? t = some s') (hid : t.context = some id)
    (hlt : id < s.bound) : id ∈ s.contexts := by
  have hturns := (turns_of_pass? h).1
  rw [mark_eq_inside_iff.mpr ⟨hid, hlt⟩] at hturns
  exact mem_contexts_of_turns hturns

/-- A context is never opened again. -/
theorem mem_contexts_of_passAll?_of_lt {ts : List Token} (h : s.passAll? ts = some s')
    (hid : id ∈ s'.contexts) (hlt : id < s.bound) : id ∈ s.contexts := by
  induction ts generalizing s with
  | nil =>
    cases h
    exact hid
  | cons t ts ih =>
    obtain ⟨s₁, hs₁, hrest⟩ := Option.bind_eq_some_iff.mp h
    have hmem := ih hrest (Nat.lt_of_lt_of_le hlt (bound_le_of_pass? hs₁))
    rcases mem_contexts_of_pass? hs₁ hmem with hmem | hcontext
    · exact hmem
    · exact mem_contexts_of_context hs₁ hcontext hlt

theorem Leads.mem_contexts (h : s.Leads s') (hid : id ∈ s'.contexts) (hlt : id < s.bound) :
    id ∈ s.contexts :=
  mem_contexts_of_passAll?_of_lt h.choose_spec hid hlt

/-- Tokens that come where no context is open have only new ones. -/
theorem bound_le_of_mem {ts : List Token} (h : s.passAll? ts = some s') (hs : s.contexts = [])
    (ht : t ∈ ts) (hid : t.context = some id) : s.bound ≤ id := by
  obtain ⟨s₁, s₂, -, hleads, hpass, -⟩ := exists_of_cons_sublist h (List.singleton_sublist.mpr ht)
  by_contra hlt
  have hlt : id < s.bound := Nat.lt_of_not_le hlt
  have hmem : id ∈ s.contexts := hleads.mem_contexts
    (mem_contexts_of_context hpass hid (Nat.lt_of_lt_of_le hlt hleads.bound_le)) hlt
  rw [hs] at hmem
  cases hmem

/-- The context `a` is open below the context `b`. -/
def Covers (b a : Nat) (s : Nesting) : Prop :=
  ∃ above top base, s.brackets = above ++ top :: base ∧ top.context = some b
    ∧ a ∈ base.filterMap Bracket.context

theorem Covers.mem_contexts (h : Covers b a s) : b ∈ s.contexts ∧ a ∈ s.contexts := by
  obtain ⟨above, top, base, hopen, htop, ha⟩ := h
  simp [contexts, hopen, htop, ha]

/-- A token that leaves its context open leaves all others below it. -/
theorem covers_of_pass? (hwf : s.WellFormed) (h : s.pass? t = some s') (hcontext : t.context = some b)
    (hb : b ∈ s'.contexts) (ha : a ∈ s'.contexts) (hne : a ≠ b) : Covers b a s' := by
  have hcovers : ∀ {top base}, s'.brackets = top :: base → top.context = some b → Covers b a s' := by
    intro top base hbrackets htop
    refine ⟨[], top, base, hbrackets, htop, ?_⟩
    rw [contexts, hbrackets, List.filterMap_cons_some htop] at ha
    exact (List.mem_cons.mp ha).resolve_left hne
  -- a closed context is not open any more
  have hclosed : ∀ {top base}, s.brackets = top :: base → s'.brackets = base →
      top.context = some b → Covers b a s' := by
    intro top base hopen hbrackets htop
    rw [contexts, hbrackets] at hb
    obtain ⟨b', hb', hid⟩ := List.mem_filterMap.mp hb
    exact absurd hid (hwf.context_ne hopen htop hb')
  have hmark : (s.mark t).context = some b := (context_mark s t).trans hcontext
  have hturns := (turns_of_pass? h).1
  generalize hopen : s.brackets = open_, hbrackets : s'.brackets = brackets at hturns
  cases hturns with
  | paren _ hx | brace _ hx =>
    refine hcovers hbrackets ?_
    rcases Mark.opens_eq_some hx with ⟨hnone, -⟩ | ⟨id, hid, rfl⟩
    · rw [hnone] at hmark
      cases hmark
    · rwa [hid] at hmark
  | unparen _ hx | unbrace _ hx =>
    refine hclosed hopen hbrackets ?_
    rcases Mark.closes_eq_some hx with ⟨hnone, -⟩ | ⟨id, hid, rfl⟩
    · rw [hnone] at hmark
      cases hmark
    · rwa [hid] at hmark
  | unbody _ hid => exact hclosed hopen hbrackets (by rwa [hid] at hmark)
  | body _ hid | head _ hid | inside _ hid => exact hcovers hbrackets (by rwa [hid] at hmark)
  | none _ hid =>
    rw [hid] at hmark
    cases hmark

/-- What is below a context stays there while it is open. -/
theorem Covers.pass? (h : Covers b a s) (hwf : s.WellFormed) (hpass : s.pass? t = some s')
    (hb : b ∈ s'.contexts) : Covers b a s' := by
  obtain ⟨above, top, base, hopen, htop, ha⟩ := h
  have hturns := (turns_of_pass? hpass).1
  rw [hopen] at hturns
  cases above with
  | cons first above =>
    obtain ⟨above', hbrackets⟩ := hturns.stays
    exact ⟨above', top, base, hbrackets, htop, ha⟩
  | nil =>
    have hclosed : s'.brackets ≠ base := by
      intro hbrackets
      rw [contexts, hbrackets] at hb
      obtain ⟨b', hb', hid⟩ := List.mem_filterMap.mp hb
      exact hwf.context_ne hopen htop hb' hid
    generalize hbrackets : s'.brackets = brackets at hturns
    cases hturns with
    | paren | brace | head => exact ⟨[_], top, base, hbrackets, htop, ha⟩
    | body | none | inside => exact ⟨[], _, base, hbrackets, htop, ha⟩
    | unparen | unbrace | unbody => exact absurd hbrackets hclosed

theorem Covers.passAll? {ts : List Token} (h : Covers b a s) (hwf : s.WellFormed)
    (hpass : s.passAll? ts = some s') (hb : b ∈ s'.contexts) : Covers b a s' := by
  induction ts generalizing s with
  | nil =>
    cases hpass
    exact h
  | cons t ts ih =>
    obtain ⟨s₁, hs₁, hrest⟩ := Option.bind_eq_some_iff.mp hpass
    have hlt : b < s₁.bound :=
      Nat.lt_of_lt_of_le (hwf.lt_bound b h.mem_contexts.1) (bound_le_of_pass? hs₁)
    have hb₁ : b ∈ s₁.contexts := mem_contexts_of_passAll?_of_lt hrest hb hlt
    exact ih (h.pass? hwf hs₁ hb₁) (hwf.pass? hs₁) hrest

/-- No token of a context comes while it is below another one. -/
theorem Covers.context_ne (h : Covers b a s) (hwf : s.WellFormed) (hpass : s.pass? t = some s') :
    t.context ≠ some a := by
  intro hcontext
  have hlt := hwf.lt_bound a h.mem_contexts.2
  have hturns := (turns_of_pass? hpass).1
  rw [mark_eq_inside_iff.mpr ⟨hcontext, hlt⟩] at hturns
  obtain ⟨first, rest, hfirst, hid⟩ := exists_top_of_turns hturns
  obtain ⟨above, top, base, hopen, -, ha⟩ := h
  obtain ⟨b', hb', hid'⟩ := List.mem_filterMap.mp ha
  refine hwf.context_ne hfirst hid ?_ hid'
  rw [hfirst] at hopen
  cases above with
  | nil =>
    obtain ⟨-, rfl⟩ := List.cons.inj hopen
    exact hb'
  | cons first' above =>
    obtain ⟨-, rfl⟩ := List.cons.inj hopen
    simp [hb']

/-- Two contexts whose tokens alternate are one. -/
theorem eq_of_crossing {ts : List Token} {t₁ t₂ t₃ t₄ : Token} (hwf : s.WellFormed)
    (h : s.passAll? ts = some s') (hsub : [t₁, t₂, t₃, t₄].Sublist ts)
    (h₁ : t₁.context = some a) (h₂ : t₂.context = some b) (h₃ : t₃.context = some a)
    (h₄ : t₄.context = some b) : a = b := by
  obtain ⟨s₁, s₁', ts₁, hleads₁, hpass₁, hts₁, hsub⟩ := exists_of_cons_sublist h hsub
  obtain ⟨s₂, s₂', ts₂, hleads₂, hpass₂, hts₂, hsub⟩ := exists_of_cons_sublist hts₁ hsub
  obtain ⟨s₃, s₃', ts₃, hleads₃, hpass₃, hts₃, hsub⟩ := exists_of_cons_sublist hts₂ hsub
  obtain ⟨s₄, s₄', ts₄, hleads₄, hpass₄, -, -⟩ := exists_of_cons_sublist hts₃ hsub
  have hwf₂ : s₂.WellFormed :=
    hleads₂.wellFormed ((hleads₁.wellFormed hwf).pass? hpass₁)
  have hwf₂' := hwf₂.pass? hpass₂
  -- both contexts are open between the second and the third token
  have ha : a ∈ s₃.contexts := by
    refine mem_contexts_of_context hpass₃ h₃ ?_
    exact Nat.lt_of_lt_of_le (lt_bound_of_pass? hpass₁ h₁)
      ((hleads₂.trans (.of_pass? hpass₂)).trans hleads₃).bound_le
  have hb : b ∈ s₃.contexts := by
    have hleads : s₃.Leads s₄ := (Leads.of_pass? hpass₃).trans hleads₄
    have hlt : b < s₃.bound :=
      Nat.lt_of_lt_of_le (lt_bound_of_pass? hpass₂ h₂) hleads₃.bound_le
    refine hleads.mem_contexts (mem_contexts_of_context hpass₄ h₄ ?_) hlt
    exact Nat.lt_of_lt_of_le hlt hleads.bound_le
  by_contra hne
  have hcovers : Covers b a s₂' := by
    refine covers_of_pass? hwf₂ hpass₂ h₂
      (hleads₃.mem_contexts hb (lt_bound_of_pass? hpass₂ h₂)) (hleads₃.mem_contexts ha ?_) hne
    exact Nat.lt_of_lt_of_le (lt_bound_of_pass? hpass₁ h₁)
      (hleads₂.trans (.of_pass? hpass₂)).bound_le
  obtain ⟨us, hus⟩ := hleads₃
  exact (hcovers.passAll? hwf₂' hus hb).context_ne (hwf₂'.passAll? hus) hpass₃ h₃

end Nesting

end Downlevel.Grammar
