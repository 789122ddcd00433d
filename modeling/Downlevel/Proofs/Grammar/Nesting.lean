import Downlevel.Proofs.Grammar.Statement

/-!
# Brackets of a program match

The tokens of a program alone show which brackets are open at each place: the
first token of a context opens it, and later ones are inside.  For a program
without types, imports and exports this reading of the tokens never fails, and
nothing is open at the end (`nesting_of_parse`).
-/

namespace Downlevel.Grammar

variable {ts us : Array Token} {kind : Kind} {x : Option Nat} {m : Mark}
  {tokens : Array Token}

/-- What is open at a place of a program.  All contexts met so far are below the
bound. -/
structure Nesting where
  bound : Nat := 0
  brackets : List Bracket := []
  deriving Repr, DecidableEq

/-- The context of a bracket. -/
def Bracket.context : Bracket → Option Nat
  | .paren x | .brace x => x
  | .head id | .body id => some id

namespace Nesting

/-- How a token is marked.  Its context is new if it is not below the bound. -/
def mark (s : Nesting) (t : Token) : Mark :=
  match t.context with
  | none => .none
  | some id => if s.bound ≤ id then .opening id else .inside id

/-- The nesting after a token, if the token can stand there. -/
def pass? (s : Nesting) (t : Token) : Option Nesting :=
  (nest s.brackets t.kind (s.mark t)).map fun brackets =>
    { bound := t.context.elim s.bound fun id => max s.bound (id + 1), brackets }

/-- The nesting after some tokens, if each can stand where it does. -/
def passAll? (s : Nesting) (ts : List Token) : Option Nesting :=
  ts.foldlM pass? s

/-- The contexts of the open brackets. -/
def contexts (s : Nesting) : List Nat :=
  s.brackets.filterMap Bracket.context

/-- Every context is open at most once, and was met. -/
structure WellFormed (s : Nesting) : Prop where
  nodup : s.contexts.Nodup
  lt_bound : ∀ id ∈ s.contexts, id < s.bound

end Nesting

/-! ## What a token does to the brackets -/

/-- What a token can do to the open brackets. -/
inductive Turns (kind : Kind) (mark : Mark) : List Bracket → List Bracket → Prop
  | paren {x : Option Nat} {open_ : List Bracket} :
      kind = .parenL → mark.opens = some x → Turns kind mark open_ (.paren x :: open_)
  | brace {x : Option Nat} {open_ : List Bracket} :
      kind = .braceL ∨ kind = .dollarBraceL ∧ mark = .none → mark.opens = some x →
      Turns kind mark open_ (.brace x :: open_)
  | body {id : Nat} {open_ : List Bracket} :
      kind = .braceL → mark = .inside id → Turns kind mark (.head id :: open_) (.body id :: open_)
  | unparen {x : Option Nat} {open_ : List Bracket} :
      kind = .parenR → mark.closes = some x → Turns kind mark (.paren x :: open_) open_
  | unbrace {x : Option Nat} {open_ : List Bracket} :
      kind = .braceR → mark.closes = some x → Turns kind mark (.brace x :: open_) open_
  | unbody {id : Nat} {open_ : List Bracket} :
      kind = .braceR → mark = .inside id → Turns kind mark (.body id :: open_) open_
  | head {id : Nat} {open_ : List Bracket} :
      kind = .kwClass → mark = .opening id → Turns kind mark open_ (.head id :: open_)
  | none {open_ : List Bracket} :
      isNeutral kind = true → mark = .none → Turns kind mark open_ open_
  | inside {id : Nat} {open_ : List Bracket} :
      isNeutral kind = true → mark = .inside id →
      Turns kind mark (.brace (some id) :: open_) (.brace (some id) :: open_)

theorem turns_of_nest {mark : Mark} {open_ open_' : List Bracket}
    (h : nest open_ kind mark = some open_') : Turns kind mark open_ open_' := by
  unfold nest at h
  split at h
  · obtain ⟨x, hx, rfl⟩ := Option.map_eq_some_iff.mp h
    exact .paren rfl hx
  · split at h
    · rename_i hmark
      cases h
      exact .brace (.inr ⟨rfl, hmark⟩) (by rw [hmark]; rfl)
    · cases h
  · split at h
    · split at h
      · rename_i hid
        cases h
        subst hid
        exact .body rfl rfl
      · cases h
    · obtain ⟨x, hx, rfl⟩ := Option.map_eq_some_iff.mp h
      exact .brace (.inl rfl) hx
  · split at h
    · split at h
      · rename_i hx
        cases h
        exact .unparen rfl hx
      · cases h
    · cases h
  · split at h
    · split at h
      · rename_i hx
        cases h
        exact .unbrace rfl hx
      · cases h
    · split at h
      · rename_i hid
        cases h
        exact .unbody rfl hid
      · cases h
    · cases h
  · rename_i h₁ h₂ h₃ h₄ h₅
    have hneutral : isNeutral kind = true := by
      simpa [isNeutral] using ⟨h₁, h₄, h₃, h₅, h₂⟩
    split at h
    · cases h
      exact .none hneutral rfl
    · split at h
      · rename_i hkind
        cases h
        exact .head hkind rfl
      · cases h
    · split at h
      · rename_i id hhead
        cases h
        obtain ⟨tail, rfl⟩ := List.head?_eq_some_iff.mp hhead
        exact .inside hneutral rfl
      · cases h

theorem nest_of_turns {mark : Mark} {open_ open_' : List Bracket} (h : Turns kind mark open_ open_') :
    nest open_ kind mark = some open_' := by
  cases h with
  | paren hkind hx => simp [nest, hkind, hx]
  | brace hkind hx =>
    rcases hkind with rfl | ⟨rfl, rfl⟩
    · cases mark with
      | inside id => cases hx
      | _ => simp_all [nest]
    · cases hx
      rfl
  | body hkind hmark => simp [nest, hkind, hmark]
  | unparen hkind hx => simp [nest, hkind, hx]
  | unbrace hkind hx => simp [nest, hkind, hx]
  | unbody hkind hmark => simp [nest, hkind, hmark]
  | head hkind hmark => simp [nest, hkind, hmark]
  | none hneutral hmark => rw [hmark, nest_neutral hneutral]
  | inside hneutral hmark => cases kind <;> simp_all [nest, isNeutral]

theorem Mark.opens_eq_some (h : m.opens = some x) :
    m = .none ∧ x = .none ∨ ∃ id, m = .opening id ∧ x = some id := by
  cases m with
  | none => exact .inl ⟨rfl, (Option.some.inj h).symm⟩
  | opening id => exact .inr ⟨id, rfl, (Option.some.inj h).symm⟩
  | inside id => cases h

theorem Mark.closes_eq_some (h : m.closes = some x) :
    m = .none ∧ x = .none ∨ ∃ id, m = .inside id ∧ x = some id := by
  cases m with
  | none => exact .inl ⟨rfl, (Option.some.inj h).symm⟩
  | opening id => cases h
  | inside id => exact .inr ⟨id, rfl, (Option.some.inj h).symm⟩

namespace Nesting

variable {s s' : Nesting} {t : Token} {id : Nat} {brackets : List Bracket}

theorem context_mark (s : Nesting) (t : Token) : (s.mark t).context = t.context := by
  unfold mark
  split
  · simp [*, Mark.context]
  · split <;> simp [*, Mark.context]

theorem mark_eq_none_iff : s.mark t = .none ↔ t.context = none := by
  unfold mark
  split
  · simp [*]
  · split <;> simp [*]

theorem mark_eq_opening_iff : s.mark t = .opening id ↔ t.context = some id ∧ s.bound ≤ id := by
  unfold mark
  split
  · simp [*]
  · rename_i id' hid
    split <;> simp only [reduceCtorEq, Mark.opening.injEq, hid, Option.some.injEq] <;> grind

theorem mark_eq_inside_iff : s.mark t = .inside id ↔ t.context = some id ∧ id < s.bound := by
  unfold mark
  split
  · simp [*]
  · rename_i id' hid
    split <;> simp only [reduceCtorEq, Mark.inside.injEq, hid, Option.some.injEq] <;> grind

theorem turns_of_pass? (h : s.pass? t = some s') :
    Turns t.kind (s.mark t) s.brackets s'.brackets
      ∧ s'.bound = t.context.elim s.bound fun id => max s.bound (id + 1) := by
  obtain ⟨brackets, hnest, rfl⟩ := Option.map_eq_some_iff.mp h
  exact ⟨turns_of_nest hnest, rfl⟩

theorem bound_le_of_pass? (h : s.pass? t = some s') : s.bound ≤ s'.bound := by
  rw [(turns_of_pass? h).2]
  cases t.context with
  | none => exact Nat.le_refl _
  | some id => exact Nat.le_max_left _ _

theorem lt_bound_of_pass? (h : s.pass? t = some s') (hid : t.context = some id) : id < s'.bound := by
  rw [(turns_of_pass? h).2, hid]
  exact Nat.le_max_right _ _

theorem bound_le_of_context {k : Nat} (h : s.pass? t = some s') (hbound : s.bound ≤ k)
    (hcontext : ∀ id, t.context = some id → id < k) : s'.bound ≤ k := by
  rw [(turns_of_pass? h).2]
  cases hid : t.context with
  | none => exact hbound
  | some id => exact Nat.max_le.mpr ⟨hbound, hcontext id hid⟩

theorem WellFormed.of_sublist (h : s.WellFormed) (hsub : s'.contexts.Sublist s.contexts)
    (hbound : s.bound ≤ s'.bound) : s'.WellFormed :=
  ⟨hsub.nodup h.nodup, fun id hid => Nat.lt_of_lt_of_le (h.lt_bound id (hsub.subset hid)) hbound⟩

theorem WellFormed.cons (h : s.WellFormed) (hcontexts : s'.contexts = id :: s.contexts)
    (hnew : s.bound ≤ id) (hid : id < s'.bound) (hbound : s.bound ≤ s'.bound) : s'.WellFormed := by
  constructor
  · rw [hcontexts, List.nodup_cons]
    exact ⟨fun hmem => Nat.not_lt.mpr hnew (h.lt_bound id hmem), h.nodup⟩
  · rw [hcontexts]
    intro id' hmem
    rcases List.mem_cons.mp hmem with rfl | hmem
    · exact hid
    · exact Nat.lt_of_lt_of_le (h.lt_bound id' hmem) hbound

/-- A bracket that is opened has a new context or none. -/
theorem WellFormed.open_ {bracket : Bracket} (h : s.WellFormed) (hpass : s.pass? t = some s')
    (hx : (s.mark t).opens = some x) (hcontext : bracket.context = x)
    (hbrackets : s'.brackets = bracket :: s.brackets) : s'.WellFormed := by
  have hbound := bound_le_of_pass? hpass
  rcases Mark.opens_eq_some hx with ⟨-, rfl⟩ | ⟨id, hmark, rfl⟩
  · have hcontexts : s'.contexts = s.contexts := by
      rw [contexts, contexts, hbrackets, List.filterMap_cons_none hcontext]
    exact h.of_sublist (hcontexts ▸ List.Sublist.refl _) hbound
  · obtain ⟨hid, hnew⟩ := mark_eq_opening_iff.mp hmark
    refine h.cons ?_ hnew (lt_bound_of_pass? hpass hid) hbound
    rw [contexts, contexts, hbrackets, List.filterMap_cons_some hcontext]

theorem WellFormed.pass? (h : s.WellFormed) (hpass : s.pass? t = some s') : s'.WellFormed := by
  obtain ⟨hturns, -⟩ := turns_of_pass? hpass
  have hbound := bound_le_of_pass? hpass
  obtain ⟨bound, brackets⟩ := s
  obtain ⟨bound', brackets'⟩ := s'
  cases hturns with
  | paren _ hx => exact h.open_ hpass hx rfl rfl
  | brace _ hx => exact h.open_ hpass hx rfl rfl
  | head _ hmark => exact h.open_ (x := some _) hpass (by rw [hmark]; rfl) rfl rfl
  | body => exact h.of_sublist (List.Sublist.refl _) hbound
  | unparen => exact h.of_sublist ((List.sublist_cons_self _ _).filterMap _) hbound
  | unbrace => exact h.of_sublist ((List.sublist_cons_self _ _).filterMap _) hbound
  | unbody => exact h.of_sublist ((List.sublist_cons_self _ _).filterMap _) hbound
  | none => exact h.of_sublist (List.Sublist.refl _) hbound
  | inside => exact h.of_sublist (List.Sublist.refl _) hbound

theorem WellFormed.passAll? {ts : List Token} (h : s.WellFormed)
    (hpass : s.passAll? ts = some s') : s'.WellFormed := by
  induction ts generalizing s with
  | nil =>
    cases hpass
    exact h
  | cons t ts ih =>
    obtain ⟨s₁, hs₁, hrest⟩ := Option.bind_eq_some_iff.mp hpass
    exact ih (h.pass? hs₁) hrest

/-- Only what is directly inside an open context can be marked as inside it. -/
theorem exists_top_of_turns {open_ brackets : List Bracket}
    (h : Turns kind (.inside id) open_ brackets) :
    ∃ top rest, open_ = top :: rest ∧ top.context = some id := by
  generalize hmark : Mark.inside id = mark at h
  cases h with
  | paren _ hx | brace _ hx => rw [← hmark] at hx; cases hx
  | unparen _ hx | unbrace _ hx =>
    rw [← hmark] at hx
    cases hx
    exact ⟨_, _, rfl, rfl⟩
  | body _ hid | unbody _ hid | inside _ hid =>
    cases hmark.trans hid
    exact ⟨_, _, rfl, rfl⟩
  | head _ hid | none _ hid => cases hmark.trans hid

theorem mem_contexts_of_turns (h : Turns kind (.inside id) s.brackets brackets) :
    id ∈ s.contexts := by
  obtain ⟨top, rest, hopen, htop⟩ := exists_top_of_turns h
  rw [contexts, hopen]
  exact List.mem_filterMap.mpr ⟨top, List.mem_cons_self .., htop⟩

/-- The tokens show how a token was marked. -/
theorem mark_eq_of_nest (h : s.WellFormed) (hcontext : t.context = m.context)
    (hopening : ∀ id, m = .opening id → s.bound ≤ id)
    (hnest : nest s.brackets t.kind m = some brackets) : s.mark t = m := by
  cases m with
  | none => exact mark_eq_none_iff.mpr hcontext
  | opening id => exact mark_eq_opening_iff.mpr ⟨hcontext, hopening id rfl⟩
  | inside id =>
    have hmem : id ∈ s.contexts := mem_contexts_of_turns (turns_of_nest hnest)
    exact mark_eq_inside_iff.mpr ⟨hcontext, h.lt_bound id hmem⟩

/-- A token that can stand at a place is passed there, and no context but the
one it opens is new. -/
theorem exists_pass?_of_nest {k : Nat} (h : s.WellFormed) (hbound : s.bound ≤ k)
    (hcontext : t.context = m.context) (hopening : ∀ id, m = .opening id → s.bound ≤ id ∧ id < k)
    (hnest : nest s.brackets t.kind m = some brackets) :
    ∃ s', s.pass? t = some s' ∧ s'.brackets = brackets ∧ s'.bound ≤ k := by
  have hmark : s.mark t = m := mark_eq_of_nest h hcontext (fun id hid => (hopening id hid).1) hnest
  obtain ⟨s', hpass, rfl⟩ : ∃ s', s.pass? t = some s' ∧ s'.brackets = brackets :=
    ⟨_, Option.map_eq_some_iff.mpr ⟨brackets, hmark ▸ hnest, rfl⟩, rfl⟩
  refine ⟨s', hpass, rfl, bound_le_of_context hpass hbound fun id hid => ?_⟩
  rw [hcontext] at hid
  cases m with
  | none => cases hid
  | opening id' =>
    cases hid
    exact (hopening id rfl).2
  | inside id' =>
    cases hid
    exact Nat.lt_of_lt_of_le (mark_eq_inside_iff.mp hmark).2 hbound

theorem wellFormed_start : ({} : Nesting).WellFormed :=
  ⟨List.nodup_nil, nofun⟩

theorem passAll?_concat {ts : List Token} (h : s.passAll? ts = some s') (t : Token) :
    s.passAll? (ts ++ [t]) = s'.pass? t := by
  unfold passAll? at h ⊢
  simp [List.foldlM_append, h]

end Nesting

/-! ## What every step keeps -/

/-- No token belongs to a type, and none is an `import` or `export`. -/
def IsUntyped (tokens : Array Token) : Prop :=
  ∀ t ∈ tokens, t.isType = false ∧ t.kind ≠ .kwImport ∧ t.kind ≠ .kwExport

theorem IsUntyped.of_push {t : Token} (h : IsUntyped (tokens.push t)) : IsUntyped tokens :=
  fun u hu => h u (Array.mem_push_of_mem t hu)

theorem IsUntyped.of_reannotates (hr : Reannotates ts us) (h : IsUntyped us) : IsUntyped ts := by
  intro t ht
  obtain ⟨i, hi, rfl⟩ := Array.mem_iff_getElem.mp ht
  have hi' : i < us.size := hr.size ▸ hi
  obtain ⟨t', ht', ha⟩ := hr.annotates i us[i] (Array.getElem?_eq_getElem hi')
  rw [Array.getElem?_eq_getElem hi, Option.some.injEq] at ht'
  obtain ⟨htype, himport, hexport⟩ := h us[i] (Array.getElem_mem hi')
  rw [ha.kind, ← ht'] at himport hexport
  refine ⟨?_, himport, hexport⟩
  cases hts : ts[i].isType with
  | false => rfl
  | true => rw [ha.isType (ht' ▸ hts)] at htype; cases htype

theorem Nesting.pass?_congr {s : Nesting} {t u : Token} (hkind : u.kind = t.kind)
    (hcontext : u.context = t.context) : s.pass? u = s.pass? t := by
  unfold Nesting.pass? Nesting.mark
  rw [hkind, hcontext]

theorem Nesting.passAll?_congr {s : Nesting} {ts us : List Token}
    (h : us.map (fun t => (t.kind, t.context)) = ts.map fun t => (t.kind, t.context)) :
    s.passAll? us = s.passAll? ts := by
  induction ts generalizing us s with
  | nil => rw [List.map_eq_nil_iff.mp h]
  | cons t ts ih =>
    obtain ⟨u, us, rfl, hu, hus⟩ := List.map_eq_cons_iff.mp h
    obtain ⟨hkind, hcontext⟩ := Prod.mk.inj hu
    unfold Nesting.passAll?
    rw [List.foldlM_cons, List.foldlM_cons, Nesting.pass?_congr hkind hcontext]
    cases s.pass? t with
    | none => rfl
    | some s' => exact ih hus

theorem Reannotates.map_eq (hr : Reannotates ts us) :
    us.toList.map (fun t => (t.kind, t.context)) = ts.toList.map fun t => (t.kind, t.context) := by
  refine List.ext_getElem? fun i => ?_
  rw [List.getElem?_map, List.getElem?_map, Array.getElem?_toList, Array.getElem?_toList]
  cases hu : us[i]? with
  | none =>
    have hi : ts.size ≤ i := hr.size ▸ Array.getElem?_eq_none_iff.mp hu
    rw [Array.getElem?_eq_none hi]
  | some u =>
    obtain ⟨t, ht, ha⟩ := hr.annotates i u hu
    rw [ht, Option.map_some, Option.map_some, ha.kind, ha.context]

/-- What is open after tokens does not depend on how they are annotated otherwise. -/
theorem Reannotates.passAll?_eq (hr : Reannotates ts us) (s : Nesting) :
    s.passAll? us.toList = s.passAll? ts.toList :=
  Nesting.passAll?_congr hr.map_eq

/-- The finished tokens show the brackets of the stage, and the token ahead is
marked as the stage says.  A module declaration is part of no untyped program. -/
structure Nests (s : Stage) (st : State) : Prop where
  agrees : Agrees s st
  marked : st.cur.context = s.mark.context
  nested : IsUntyped st.tokens → s.frame.free = false
    ∧ ∃ n, ({} : Nesting).passAll? st.tokens.toList = some n ∧ n.brackets = s.frame.brackets
      ∧ n.bound ≤ st.nextContext
      ∧ ∀ id, s.mark = .opening id → n.bound ≤ id ∧ id < st.nextContext

namespace Nests

variable {s s' : Stage} {st st' : State}

/-- A step that finishes no token. -/
theorem of_tokens (h : Nests s st) (hagrees : Agrees s' st') (hmarked : st'.cur.context = s'.mark.context)
    (htokens : st'.tokens = st.tokens) (hnext : st.nextContext ≤ st'.nextContext)
    (hframe : s'.frame.free = true → s.frame.free = true)
    (hbrackets : s'.frame.brackets = s.frame.brackets)
    (hmark : ∀ id, s'.mark = .opening id →
      s.mark = .opening id ∨ st.nextContext = id ∧ id < st'.nextContext) :
    Nests s' st' := by
  refine ⟨hagrees, hmarked, fun huntyped => ?_⟩
  rw [htokens] at huntyped ⊢
  obtain ⟨hfree, n, hn, hopen, hbound, hopening⟩ := h.nested huntyped
  refine ⟨?_, n, hn, hopen.trans hbrackets.symm, Nat.le_trans hbound hnext, fun id hid => ?_⟩
  · cases hf : s'.frame.free with
    | false => rfl
    | true => rw [hframe hf] at hfree; cases hfree
  · rcases hmark id hid with hold | ⟨rfl, hlt⟩
    · obtain ⟨hle, hlt⟩ := hopening id hold
      exact ⟨hle, Nat.lt_of_lt_of_le hlt hnext⟩
    · exact ⟨hbound, hlt⟩

theorem reannotates {ts : Array Token} (h : Nests s st) (hr : Reannotates st.tokens ts) :
    Nests s { st with tokens := ts } := by
  refine ⟨⟨h.agrees.contexts, h.agrees.depth, h.agrees.isType⟩, h.marked, fun huntyped => ?_⟩
  obtain ⟨hfree, n, hn, hrest⟩ := h.nested (huntyped.of_reannotates hr)
  exact ⟨hfree, n, (hr.passAll?_eq _).trans hn, hrest⟩

/-- The token ahead is finished, with the brackets that the stage asks for. -/
theorem finish {f : Frame} {mode : Lexer.Mode} {token : Token} {pos : Nat} (h : Nests s st)
    (hcontext : token.context = none) (hp : Passes s.frame st.cur.kind s.mark f) :
    Nests (f.after mode) (st.finish token pos) := by
  have hagrees : Agrees (f.after mode) (st.finish token pos) :=
    ⟨h.agrees.contexts.trans hp.contexts.symm, h.agrees.depth.trans hp.depth.symm,
      h.agrees.isType.trans hp.isType.symm⟩
  refine ⟨hagrees, hcontext, fun huntyped => ?_⟩
  obtain ⟨hfree, n, hn, hopen, hbound, hopening⟩ := h.nested huntyped.of_push
  obtain ⟨htype, himport, hexport⟩ := huntyped _ (Array.mem_push_self ..)
  generalize hm : s.mark = mark at hp
  cases hp with
  | loose hloose =>
    rcases hloose with hloose | hloose
    · simp [State.finished, h.agrees.isType, hloose] at htype
    · rw [hloose] at hfree
      cases hfree
  | freed hkind =>
    rcases hkind with hkind | hkind
    · exact absurd hkind himport
    · exact absurd hkind hexport
  | @nested mark brackets hnest =>
    subst hm
    rw [← hopen] at hnest
    obtain ⟨n', hpass, hbrackets, hbound'⟩ := Nesting.exists_pass?_of_nest (t := st.finished)
      (Nesting.wellFormed_start.passAll? hn) hbound h.marked hopening hnest
    refine ⟨hfree, n', ?_, hbrackets, hbound', nofun⟩
    simp only [State.finish, Array.toList_push]
    rw [Nesting.passAll?_concat hn, hpass]

end Nests

theorem Step.nests {c : Setting} {n : Nat} {x y : Stage × State} (h : Step c n x y)
    (hn : Nests x.1 x.2) : Nests y.1 y.2 := by
  have hagrees := h.agrees hn.agrees
  have hmarked := hn.marked
  cases h with
  | finish hread _ _ hp => exact hn.finish (Lexer.context_of_read hread) hp
  | role r => exact hn.of_tokens hagrees hmarked rfl (Nat.le_refl _) id rfl fun _ => .inl
  | value b => exact hn.of_tokens hagrees hmarked rfl (Nat.le_refl _) id rfl fun _ => .inl
  | inside id' => exact hn.of_tokens hagrees rfl rfl (Nat.le_refl _) id rfl nofun
  | opening =>
    refine hn.of_tokens hagrees rfl rfl (Nat.le_succ _) id rfl fun id' hid => .inr ?_
    cases hid
    exact ⟨rfl, Nat.lt_succ_self _⟩
  | closing id' => exact hn.of_tokens hagrees rfl rfl (Nat.le_refl _) id rfl nofun
  | retag hkind => exact hn.of_tokens hagrees hmarked rfl (Nat.le_refl _) id rfl fun _ => .inl
  | regex hslash hread =>
    have hcontext := Lexer.context_of_regex hread
    exact hn.of_tokens hagrees hcontext rfl (Nat.le_refl _) id rfl nofun
  | annotate hi hg => exact hn.reannotates (.modify hg)
  | annotateFrom hi hg => exact hn.reannotates (.mapIdx hg)
  | enter => exact hn.of_tokens hagrees hmarked rfl (Nat.le_refl _) id rfl fun _ => .inl
  | leave => exact hn.of_tokens hagrees hmarked rfl (Nat.le_refl _) id rfl fun _ => .inl
  | setType b => exact hn.of_tokens hagrees hmarked rfl (Nat.le_refl _) id rfl fun _ => .inl
  | settle => exact hn.of_tokens hagrees hmarked rfl (Nat.le_refl _) (fun _ => rfl) rfl fun _ => .inl

theorem Steps.nests {c : Setting} {n : Nat} {x y : Stage × State} (h : Steps c n x y)
    (hn : Nests x.1 x.2) : Nests y.1 y.2 := by
  induction h with
  | refl => exact hn
  | tail _ hstep ih => exact hstep.nests ih

/-- In a program without types, imports and exports every bracket is closed by
its partner. -/
theorem nesting_of_parse {source : Text} {o : Options}
    (h : parse source o = .ok tokens) (huntyped : IsUntyped tokens) :
    ∃ s, ({} : Nesting).passAll? tokens.toList = some s ∧ s.brackets = [] := by
  obtain ⟨st, st', hinit, rfl, -, hsteps⟩ := steps_of_parse h
  have hstart : Nests Frame.outer.plain st := by
    obtain ⟨token, pos, hread, rfl⟩ := State.exists_of_initial hinit
    exact ⟨⟨rfl, rfl, rfl⟩, Lexer.context_of_read hread, fun _ =>
      ⟨rfl, {}, rfl, rfl, Nat.zero_le _, nofun⟩⟩
  obtain ⟨-, n, hn, hbrackets, -⟩ := (hsteps.nests hstart).nested huntyped
  exact ⟨n, hn, hbrackets⟩

end Downlevel.Grammar
