import Downlevel.Proofs.Edit.Program
import Downlevel.Proofs.Grammar.Carriers
import Downlevel.Proofs.Grammar.Speculation

/-!
# Contexts of a program

In types and in module declarations brackets need not match, but those in
contexts do.  So the tokens in contexts alone are nested like all tokens of an
untyped program are (`Links`), and the context of each of them belongs to one
construct.
-/

namespace Downlevel.Program

/-! ## Partners -/

/-- The partner of a token is the next one of its context. -/
theorem matching?_eq_some {p : Program} {i j id : Nat} {t u : Token} (hij : i < j)
    (hi : p.tokens[i]? = some t) (ht : t.context = some id) (hj : p.tokens[j]? = some u)
    (hu : u.context = some id)
    (hbetween : ∀ k v, i < k → k < j → p.tokens[k]? = some v → v.context ≠ some id) :
    p.matching? i = some j := by
  have hlt : j < p.tokens.size := (Array.getElem?_eq_some_iff.mp hj).1
  have hseek : (p.seek (i + 1) fun k => (p.tokenAt k).context == some id) = j := by
    refine search_eq hij (by unfold count; omega) (by simp [tokenAt, hj, hu]) fun k hk hkj => ?_
    have hget := Array.getElem?_eq_getElem (Nat.lt_trans hkj hlt)
    simpa [tokenAt, hget] using hbetween k _ hk hkj hget
  simp only [matching?, hi, ht, hseek]
  exact if_pos hlt

end Downlevel.Program

namespace Downlevel.Grammar

open Grammar.Parser

variable {f : Frame} {u : Unit} {i : Nat} {x y : Stage × State} {tokens : Array Token}
  {part : FunctionPart} {first last : Nat} {ts : List Token}

/-! ## Tokens in contexts -/

/-- The tokens from an index on that are in contexts. -/
def linked (tokens : Array Token) (n : Nat) : List Token :=
  (tokens.toList.drop n).filter fun t => t.context.isSome

/-- Is the bracket in a context? -/
def Bracket.isLinked (b : Bracket) : Bool :=
  b.context.isSome

section

variable {kind : Kind} {mark : Mark} {open_ brackets : List Bracket} {tokens : Array Token}
  {t : Token} {n : Nat}

theorem filter_isLinked_of_turns_none (h : Turns kind .none open_ brackets) :
    brackets.filter Bracket.isLinked = open_.filter Bracket.isLinked := by
  generalize hmark : Mark.none = mark at h
  cases h with
  | paren _ hx | brace _ hx | unparen _ hx | unbrace _ hx =>
    rw [← hmark] at hx
    cases hx
    simp [Bracket.isLinked, Bracket.context]
  | body _ hid | unbody _ hid | head _ hid | inside _ hid => cases hmark.trans hid
  | none => rfl

/-- A token in a context turns only brackets in contexts. -/
theorem Turns.filter_isLinked (h : Turns kind mark open_ brackets) (hmark : mark ≠ .none) :
    Turns kind mark (open_.filter Bracket.isLinked) (brackets.filter Bracket.isLinked) := by
  have hcons : ∀ {b : Bracket} {id : Nat} {rest : List Bracket}, b.context = some id →
      (b :: rest).filter Bracket.isLinked = b :: rest.filter Bracket.isLinked := by
    intro b id rest hb
    rw [List.filter_cons_of_pos]
    simp [Bracket.isLinked, hb]
  cases h with
  | paren hkind hx =>
    obtain ⟨id, -, rfl⟩ := (Mark.opens_eq_some hx).resolve_left fun hnone => hmark hnone.1
    rw [hcons rfl]
    exact .paren hkind hx
  | brace hkind hx =>
    obtain ⟨id, -, rfl⟩ := (Mark.opens_eq_some hx).resolve_left fun hnone => hmark hnone.1
    rw [hcons rfl]
    exact .brace hkind hx
  | unparen hkind hx =>
    obtain ⟨id, -, rfl⟩ := (Mark.closes_eq_some hx).resolve_left fun hnone => hmark hnone.1
    rw [hcons rfl]
    exact .unparen hkind hx
  | unbrace hkind hx =>
    obtain ⟨id, -, rfl⟩ := (Mark.closes_eq_some hx).resolve_left fun hnone => hmark hnone.1
    rw [hcons rfl]
    exact .unbrace hkind hx
  | body hkind hid =>
    rw [hcons rfl, hcons rfl]
    exact .body hkind hid
  | unbody hkind hid =>
    rw [hcons rfl]
    exact .unbody hkind hid
  | head hkind hid =>
    rw [hcons rfl]
    exact .head hkind hid
  | none _ hnone => exact absurd hnone hmark
  | inside hneutral hid =>
    rw [hcons rfl]
    exact .inside hneutral hid

theorem drop_toList_push (hn : n ≤ tokens.size) :
    (tokens.push t).toList.drop n = tokens.toList.drop n ++ [t] := by
  rw [Array.toList_push, List.drop_append_of_le_length (by simpa using hn)]

theorem linked_push_of_none (hn : n ≤ tokens.size) (ht : t.context = none) :
    linked (tokens.push t) n = linked tokens n := by
  rw [linked, drop_toList_push hn]
  simp [linked, ht]

theorem linked_push_of_some {id : Nat} (hn : n ≤ tokens.size) (ht : t.context = some id) :
    linked (tokens.push t) n = linked tokens n ++ [t] := by
  rw [linked, drop_toList_push hn]
  simp [linked, ht]

end

/-! ## What every step keeps -/

/-- The tokens in contexts from an index on show the brackets in contexts of the
stage, if `base` is open in front of them. -/
structure Links (base : Nesting) (n : Nat) (s : Stage) (st : State) : Prop where
  size : n ≤ st.tokens.size
  marked : st.cur.context = s.mark.context
  keyed : IsKeyed (st.tokens.toList.drop n)
  nested : ∃ e, base.passAll? (linked st.tokens n) = some e
    ∧ e.brackets = s.frame.brackets.filter Bracket.isLinked ∧ e.bound ≤ st.nextContext
    ∧ ∀ id, s.mark = .opening id → e.bound ≤ id ∧ id < st.nextContext

namespace Links

variable {base : Nesting} {n : Nat} {s s' : Stage} {st st' : State}

/-- A step that finishes no token. -/
theorem of_tokens (h : Links base n s st) (hmarked : st'.cur.context = s'.mark.context)
    (htokens : st'.tokens = st.tokens) (hnext : st.nextContext ≤ st'.nextContext)
    (hbrackets : s'.frame.brackets = s.frame.brackets)
    (hmark : ∀ id, s'.mark = .opening id →
      s.mark = .opening id ∨ st.nextContext = id ∧ id < st'.nextContext) :
    Links base n s' st' := by
  obtain ⟨e, he, hopen, hbound, hopening⟩ := h.nested
  refine ⟨htokens ▸ h.size, hmarked, htokens ▸ h.keyed, e, htokens ▸ he, hbrackets ▸ hopen,
    Nat.le_trans hbound hnext, fun id hid => ?_⟩
  rcases hmark id hid with hold | ⟨rfl, hlt⟩
  · obtain ⟨hle, hlt⟩ := hopening id hold
    exact ⟨hle, Nat.lt_of_lt_of_le hlt hnext⟩
  · exact ⟨hbound, hlt⟩

theorem reannotates {ts : Array Token} (h : Links base n s st) (hr : Reannotates st.tokens ts) :
    Links base n s { st with tokens := ts } := by
  obtain ⟨e, he, hrest⟩ := h.nested
  refine ⟨hr.size ▸ h.size, h.marked, ?_, e, ?_, hrest⟩
  · intro t' u' id hsub ht' hu' hneutral
    obtain ⟨i, j, hij, hi, hj⟩ := pair_sublist_iff.mp hsub
    rw [List.getElem?_drop, Array.getElem?_toList] at hi hj
    obtain ⟨t, ht, hat⟩ := hr.annotates _ t' hi
    obtain ⟨u, hu, hau⟩ := hr.annotates _ u' hj
    have hcontext : u.context = some id := hau.context ▸ hu'
    have hkey : IsKey u := by
      refine h.keyed t u id (pair_sublist_iff.mpr ⟨i, j, hij, ?_, ?_⟩) (hat.context ▸ ht') hcontext
        (hau.kind ▸ hneutral)
      · rw [List.getElem?_drop, Array.getElem?_toList, ht]
      · rw [List.getElem?_drop, Array.getElem?_toList, hu]
    unfold IsKey at hkey ⊢
    rwa [hau.kind, hau.role (by simp [hcontext])]
  · rw [← he]
    refine Nesting.passAll?_congr ?_
    have hfilter : ∀ tokens : Array Token, (linked tokens n).map (fun t => (t.kind, t.context)) =
        ((tokens.toList.map fun t => (t.kind, t.context)).drop n).filter fun x => x.2.isSome := by
      intro tokens
      rw [← List.map_drop, List.filter_map]
      rfl
    rw [hfilter, hfilter, hr.map_eq]

/-- A token that goes on with a context is a key, if it is no bracket. -/
theorem keyed_finish (h : Links base n s st)
    (hkey : ∀ id, s.mark = .inside id → isNeutral st.cur.kind = true → IsKey st.cur) :
    IsKeyed ((st.tokens.push st.finished).toList.drop n) := by
  obtain ⟨e, he, -, -, hopening⟩ := h.nested
  rw [drop_toList_push h.size]
  refine h.keyed.concat fun u hu id huid hid hneutral => ?_
  have hlt : id < e.bound := by
    refine Nesting.lt_bound_of_passAll? he (List.mem_filter.mpr ⟨hu, ?_⟩) huid
    simp [huid]
  have hcontext : s.mark.context = some id := h.marked.symm.trans hid
  cases hm : s.mark with
  | none => simp [hm, Mark.context] at hcontext
  | opening id' =>
    obtain rfl : id' = id := by simpa [hm, Mark.context] using hcontext
    exact absurd hlt (Nat.not_lt.mpr (hopening id' hm).1)
  | inside id' => exact hkey id' hm hneutral

/-- A token without a context changes no bracket that has one. -/
theorem filter_isLinked_of_passes {f f' : Frame} {kind : Kind} (hp : Passes f kind .none f') :
    f'.brackets.filter Bracket.isLinked = f.brackets.filter Bracket.isLinked := by
  cases hp with
  | nested hnest => exact filter_isLinked_of_turns_none (turns_of_nest hnest)
  | loose => rfl
  | freed => rfl

/-- A token in a context is passed among the tokens in contexts. -/
theorem exists_pass?_of_passes (h : Links base n s st) (hbase : base.WellFormed)
    (hmark : s.mark ≠ .none) (hp : Passes s.frame st.cur.kind s.mark f) :
    ∃ e', base.passAll? (linked (st.tokens.push st.finished) n) = some e'
      ∧ e'.brackets = f.brackets.filter Bracket.isLinked ∧ e'.bound ≤ st.nextContext := by
  obtain ⟨e, he, hopen, hbound, hopening⟩ := h.nested
  have hfinished : st.finished.context = s.mark.context := h.marked
  obtain ⟨id, hid⟩ : ∃ id, s.mark.context = some id := by
    cases hm : s.mark with
    | none => exact absurd hm hmark
    | opening id => exact ⟨id, rfl⟩
    | inside id => exact ⟨id, rfl⟩
  generalize hm : s.mark = mark at hp
  cases hp with
  | loose => exact absurd hm hmark
  | freed => exact absurd hm hmark
  | @nested mark brackets hnest =>
    subst hm
    have hturns := (turns_of_nest hnest).filter_isLinked hmark
    rw [← hopen] at hturns
    obtain ⟨e', hpass, hbrackets⟩ := Nesting.exists_pass?_of_nest (t := st.finished)
      (hbase.passAll? he) hbound hfinished hopening (nest_of_turns hturns)
    refine ⟨e', ?_, hbrackets⟩
    rw [linked_push_of_some h.size (hfinished.trans hid), Nesting.passAll?_concat he, hpass]

/-- The token ahead is finished, with the brackets that the stage asks for. -/
theorem finish {mode : Lexer.Mode} {token : Token} {pos : Nat} (h : Links base n s st)
    (hbase : base.WellFormed) (hcontext : token.context = none)
    (hkey : ∀ id, s.mark = .inside id → isNeutral st.cur.kind = true → IsKey st.cur)
    (hp : Passes s.frame st.cur.kind s.mark f) :
    Links base n (f.after mode) (st.finish token pos) := by
  have hsize : n ≤ (st.tokens.push st.finished).size :=
    Nat.le_trans h.size (by rw [Array.size_push]; exact Nat.le_succ _)
  refine ⟨hsize, hcontext, h.keyed_finish hkey, ?_⟩
  by_cases hmark : s.mark = .none
  · obtain ⟨e, he, hopen, hbound, -⟩ := h.nested
    have hfinished : st.finished.context = none := by
      rw [show st.finished.context = s.mark.context from h.marked, hmark]
      rfl
    rw [hmark] at hp
    refine ⟨e, ?_, hopen.trans (filter_isLinked_of_passes hp).symm, hbound, nofun⟩
    exact (congrArg base.passAll? (linked_push_of_none h.size hfinished)).trans he
  · obtain ⟨e', he', hopen', hbound'⟩ := h.exists_pass?_of_passes hbase hmark hp
    exact ⟨e', he', hopen', hbound', nofun⟩

end Links

theorem Step.links {c : Setting} {m n : Nat} {base : Nesting}
    (h : Step c m x y) (hbase : base.WellFormed) (hl : Links base n x.1 x.2) :
    Links base n y.1 y.2 := by
  have hmarked := hl.marked
  cases h with
  | finish hread _ hkey hp => exact hl.finish hbase (Lexer.context_of_read hread) hkey hp
  | role r => exact hl.of_tokens hmarked rfl (Nat.le_refl _) rfl fun _ => .inl
  | value b => exact hl.of_tokens hmarked rfl (Nat.le_refl _) rfl fun _ => .inl
  | inside id => exact hl.of_tokens rfl rfl (Nat.le_refl _) rfl nofun
  | opening =>
    refine hl.of_tokens rfl rfl (Nat.le_succ _) rfl fun id hid => .inr ?_
    cases hid
    exact ⟨rfl, Nat.lt_succ_self _⟩
  | closing id => exact hl.of_tokens rfl rfl (Nat.le_refl _) rfl nofun
  | retag hkind => exact hl.of_tokens hmarked rfl (Nat.le_refl _) rfl fun _ => .inl
  | regex hslash hread =>
    have hcontext := Lexer.context_of_regex hread
    exact hl.of_tokens hcontext rfl (Nat.le_refl _) rfl nofun
  | annotate hi hg => exact hl.reannotates (.modify hg)
  | annotateFrom hi hg => exact hl.reannotates (.mapIdx hg)
  | enter => exact hl.of_tokens hmarked rfl (Nat.le_refl _) rfl fun _ => .inl
  | leave => exact hl.of_tokens hmarked rfl (Nat.le_refl _) rfl fun _ => .inl
  | setType b => exact hl.of_tokens hmarked rfl (Nat.le_refl _) rfl fun _ => .inl
  | settle => exact hl.of_tokens hmarked rfl (Nat.le_refl _) rfl fun _ => .inl

theorem Steps.links {c : Setting} {m n : Nat} {base : Nesting}
    (h : Steps c m x y) (hbase : base.WellFormed) (hl : Links base n x.1 x.2) :
    Links base n y.1 y.2 := by
  induction h with
  | refl => exact hl
  | tail _ hstep ih => exact hstep.links hbase ih

/-! ## Whole programs -/

/-- The tokens in contexts of a program match, and those inside an object are its keys. -/
theorem links_of_parse {source : Text} {o : Options} (h : parse source o = .ok tokens) :
    IsKeyed tokens.toList
      ∧ ∃ e, ({} : Nesting).passAll? (linked tokens 0) = some e ∧ e.brackets = [] := by
  obtain ⟨st, st', hinit, rfl, -, hsteps⟩ := steps_of_parse h
  have hstart : Links {} 0 Frame.outer.plain st := by
    obtain ⟨token, pos, hread, rfl⟩ := State.exists_of_initial hinit
    exact ⟨Nat.zero_le _, Lexer.context_of_read hread, IsKeyed.nil, {}, rfl, rfl, Nat.zero_le _, nofun⟩
  obtain ⟨-, -, hkeyed, e, he, hopen, -⟩ := hsteps.links Nesting.wellFormed_start hstart
  exact ⟨hkeyed, e, he, hopen⟩

/-- The token of an index is in a context. -/
def Carries (tokens : Array Token) (id i : Nat) : Prop :=
  ∃ t, tokens[i]? = some t ∧ t.context = some id

/-- The indices of the first and the last token of a context. -/
structure Spans (tokens : Array Token) (id first last : Nat) : Prop where
  begins : Carries tokens id first
  ends : Carries tokens id last
  within : ∀ i, Carries tokens id i → first ≤ i ∧ i ≤ last

/-- The span of one context is strictly inside that of another, between two
tokens of the outer context that follow each other. -/
structure Encloses (tokens : Array Token) (id first last first' last' : Nat) : Prop where
  first_lt : first < first'
  lt_last : last' < last
  apart : ∀ i, Carries tokens id i → i < first' ∨ last' < i

section

variable {source : Text} {o : Options} {tokens : Array Token} {id a b : Nat}

theorem Carries.eq (ha : Carries tokens a i) (hb : Carries tokens b i) : a = b := by
  obtain ⟨t, ht, hta⟩ := ha
  obtain ⟨u, hu, hub⟩ := hb
  obtain rfl : t = u := Option.some.inj (ht.symm.trans hu)
  exact Option.some.inj (hta.symm.trans hub)

theorem isConstruct_of_parse (h : parse source o = .ok tokens) (hi : Carries tokens id i) :
    IsConstruct (carriers tokens.toList id) := by
  obtain ⟨hkeyed, e, he, hopen⟩ := links_of_parse h
  obtain ⟨t, ht, hid⟩ := hi
  have hlinked : carriers (linked tokens 0) id = carriers tokens.toList id := by
    rw [carriers, linked, List.filter_filter, List.drop_zero]
    refine List.filter_congr fun u _ => ?_
    cases u.context <;> simp
  have hshaped : Shaped e (linked tokens 0) :=
    shaped_of_passAll? (hkeyed.of_sublist (by simp [linked])) he
  have hclosed := hshaped.closed id (by simp [Nesting.contexts, hopen])
  rw [hlinked] at hclosed
  refine hclosed.resolve_left fun hnil => ?_
  exact carriers_eq_nil_iff.mp hnil t (List.mem_of_getElem? (by rw [Array.getElem?_toList, ht])) hid

theorem eq_of_carries_alternately {i j k l : Nat} (h : parse source o = .ok tokens) (hij : i < j)
    (hjk : j < k) (hkl : k < l) (hi : Carries tokens a i) (hj : Carries tokens b j)
    (hk : Carries tokens a k) (hl : Carries tokens b l) : a = b := by
  obtain ⟨t₁, ht₁, h₁⟩ := hi
  obtain ⟨t₂, ht₂, h₂⟩ := hj
  obtain ⟨t₃, ht₃, h₃⟩ := hk
  obtain ⟨t₄, ht₄, h₄⟩ := hl
  rw [← Array.getElem?_toList] at ht₁ ht₂ ht₃ ht₄
  have hsub : [t₁, t₂, t₃, t₄].Sublist (tokens.toList.drop 0) :=
    cons_sublist_drop (Nat.zero_le i) ht₁ <| cons_sublist_drop hij ht₂ <|
      cons_sublist_drop hjk ht₃ <| cons_sublist_drop hkl ht₄ <| List.nil_sublist _
  have hfilter := hsub.filter fun t => t.context.isSome
  simp only [List.filter_cons, h₁, h₂, h₃, h₄, Option.isSome_some, if_true, List.filter_nil] at hfilter
  obtain ⟨-, e, he, -⟩ := links_of_parse h
  exact Nesting.eq_of_crossing Nesting.wellFormed_start he hfilter h₁ h₂ h₃ h₄

/-- What begins inside a context ends inside it, too. -/
theorem encloses_of_lt {first last first' last' : Nat} (h : parse source o = .ok tokens)
    (hne : a ≠ b) (ha : Spans tokens a first last) (hb : Spans tokens b first' last')
    (hlt : first < first') (hle : first' ≤ last) : Encloses tokens a first last first' last' := by
  have hcross : ∀ {k l}, first' < k → k < l → Carries tokens a k → ¬Carries tokens b l :=
    fun hk hl hka hlb => hne (eq_of_carries_alternately h hlt hk hl ha.begins hb.begins hka hlb)
  have hapart : ∀ i, Carries tokens a i → i < first' ∨ last' < i := by
    intro i hi
    have hfirst : i ≠ first' := fun heq => hne (hi.eq (heq ▸ hb.begins))
    have hlast : i ≠ last' := fun heq => hne (hi.eq (heq ▸ hb.ends))
    by_contra hnot
    exact hcross (by omega) (by omega) hi hb.ends
  exact ⟨hlt, (hapart last ha.ends).resolve_left (by omega), hapart⟩

end

/-! ## Functions -/

/-- The parts of a function that have a context of their own. -/
inductive FunctionPart where
  | parameters (modifiers : Bool)
  | body
  deriving Repr, DecidableEq

namespace FunctionPart

/-- How a part is parsed. -/
def parser : FunctionPart → Parser Unit
  | parameters modifiers => Grammar.parameters run modifiers
  | body => functionBody run

/-- The kind of the first token of a part. -/
def opener : FunctionPart → Kind
  | parameters _ => .parenL
  | body => .braceL

/-- The kind of the last token of a part. -/
def closer : FunctionPart → Kind
  | parameters _ => .parenR
  | body => .braceR

/-- What stands between the first and the last token of a part. -/
def inner : FunctionPart → Parser Unit
  | parameters modifiers => bindingList run .parenR .functionScoped false modifiers
  | body => statements run

theorem parser_eq (part : FunctionPart) :
    part.parser = openContext part.opener >>= fun _ => part.inner >>= fun _ =>
      closeContext part.closer := by
  cases part with
  | parameters modifiers => exact Parser.discard_bind _ _
  | body => exact Parser.discard_bind _ _

theorem runs_inner {c : Setting} {n : Nat} {v : View} (part : FunctionPart) :
    Runs c n f.plain v part.inner (fun _ => f.plain) fun _ w => w.cur.kind = part.closer := by
  cases part with
  | parameters modifiers => exact runs_bindingList (calls_run c)
  | body => exact runs_statements (calls_run c)

end FunctionPart

section

variable {c : Setting} {st st' : State} {kind : Kind}

/-- A token that is finished is the last one, with the annotations it had. -/
theorem exists_of_next (h : next c st = .ok u st') :
    st'.tokens = st.tokens.push st.finished ∧ st'.nextContext = st.nextContext
      ∧ st'.contexts = st.contexts ∧ st'.cur.context = none := by
  change nextIn .normal c st = _ at h
  rw [nextIn_apply] at h
  split at h
  · rename_i token pos hread
    cases h
    exact ⟨rfl, rfl, rfl, Lexer.context_of_read hread⟩
  · cases h

/-- Opening a context finishes a token that has it. -/
theorem exists_of_openContext {id : Nat} (h : openContext kind c st = .ok id st') :
    ∃ t, st'.tokens = st.tokens.push t ∧ t.kind = kind ∧ t.context = some id
      ∧ st'.nextContext = id + 1 ∧ st'.contexts = id :: st.contexts ∧ st'.cur.context = none := by
  change (if decide (st.cur.kind = kind) = true then _ else _ : Parser Nat) c st = _ at h
  split at h
  · rename_i hkind
    change (next >>= fun _ => pure st.nextContext : Parser Nat) c { st with
      cur := { st.cur with context := some st.nextContext }, nextContext := st.nextContext + 1,
      contexts := st.nextContext :: st.contexts } = _ at h
    obtain ⟨_, st₁, hnext, hid⟩ := Parser.exists_of_bind h
    cases hid
    obtain ⟨htokens, hnextContext, hcontexts, hcur⟩ := exists_of_next hnext
    exact ⟨_, htokens, of_decide_eq_true hkind, rfl, hnextContext, hcontexts, hcur⟩
  · cases h

/-- Closing a context finishes a token that has it. -/
theorem exists_of_closeContext {id : Nat} {rest : List Nat} (hcontexts : st.contexts = id :: rest)
    (h : closeContext kind c st = .ok u st') :
    ∃ t, st'.tokens = st.tokens.push t ∧ t.kind = kind ∧ t.context = some id := by
  change (if decide (st.cur.kind = kind) = true then _ else _ : Parser Unit) c st = _ at h
  split at h
  · rename_i hkind
    obtain ⟨x, st₁, hpop, hrest⟩ := Parser.exists_of_bind (p := popContext) h
    rw [popContext_apply hcontexts] at hpop
    cases hpop
    change next c { st with cur := { st.cur with context := some id }, contexts := rest } = _ at hrest
    obtain ⟨htokens, -⟩ := exists_of_next hrest
    exact ⟨_, htokens, of_decide_eq_true hkind, rfl⟩
  · cases h

end

/-- Whatever is run from a state on, the tokens it finishes have new contexts only. -/
theorem Runs.nextContext_le {α : Type} {c : Setting} {st st' : State} {p : Parser α} {a : α}
    {s' : α → Stage} {L : α → View → Prop}
    (hp : Runs c st.tokens.size st.frame.plain st.view p s' L) (h : p c st = .ok a st')
    (hcur : st.cur.context = none) {t : Token} {id : Nat} (hi : st.tokens.size ≤ i)
    (ht : st'.tokens[i]? = some t) (hid : t.context = some id) : st.nextContext ≤ id := by
  have hsteps := hp.steps_of_ok h
  have hbase : Nesting.WellFormed { bound := st.nextContext } := ⟨List.nodup_nil, nofun⟩
  have hdrop : st.tokens.toList.drop st.tokens.size = [] := by simp
  have hstart : Links { bound := st.nextContext } st.tokens.size st.frame.plain st := by
    refine ⟨Nat.le_refl _, hcur, hdrop ▸ IsKeyed.nil, { bound := st.nextContext }, ?_, rfl,
      Nat.le_refl _, nofun⟩
    rw [linked, hdrop]
    rfl
  obtain ⟨e, he, -⟩ := (hsteps.links hbase hstart).nested
  refine Nesting.bound_le_of_mem he rfl (List.mem_filter.mpr ⟨?_, by simp [hid]⟩) hid
  refine List.mem_of_getElem? (i := i - st.tokens.size) ?_
  rw [List.getElem?_drop, Array.getElem?_toList, Nat.add_sub_cancel' hi, ht]

/-- The tokens of a part of a function: only the first and the last one are in
the context of the part. -/
structure FunctionPart.Delimited (part : FunctionPart) (tokens : Array Token) (first last : Nat) :
    Prop where
  lt : first < last
  context : ∃ id, (∃ t, tokens[first]? = some t ∧ t.kind = part.opener ∧ t.context = some id)
    ∧ (∃ t, tokens[last]? = some t ∧ t.kind = part.closer ∧ t.context = some id)
    ∧ ∀ i t, first < i → i < last → tokens[i]? = some t → t.context ≠ some id

theorem FunctionPart.delimited {c : Setting} {st st' : State} (part : FunctionPart)
    (h : part.parser c st = .ok u st') :
    part.Delimited st'.tokens st.tokens.size (st'.tokens.size - 1) := by
  rw [part.parser_eq] at h
  obtain ⟨id, st₁, hopen, h⟩ := Parser.exists_of_bind h
  obtain ⟨u, st₂, hinner, hclose⟩ := Parser.exists_of_bind h
  obtain ⟨o, ho, hokind, hoid, hnext, hcontexts, hcur⟩ := exists_of_openContext hopen
  have hruns := part.runs_inner (c := c) (n := st₁.tokens.size) (f := st₁.frame) (v := st₁.view)
  have hsteps := hruns.steps_of_ok hinner
  have hkept := hruns.kept_of_ok hinner
  have hcontexts₂ : st₂.contexts = id :: st.contexts :=
    (hsteps.agrees ⟨rfl, rfl, rfl⟩).contexts.trans hcontexts
  obtain ⟨e, he, hekind, heid⟩ := exists_of_closeContext hcontexts₂ hclose
  have hsize₁ : st₁.tokens.size = st.tokens.size + 1 := by rw [ho, Array.size_push]
  have hsize : st'.tokens.size - 1 = st₂.tokens.size := by rw [he, Array.size_push]; rfl
  have hle : st₁.tokens.size ≤ st₂.tokens.size := hkept.size
  have hsame : ∀ i, i < st₂.tokens.size → st'.tokens[i]? = st₂.tokens[i]? := fun i hi => by
    rw [he, Array.getElem?_push, if_neg (Nat.ne_of_lt hi)]
  rw [hsize]
  refine ⟨by omega, id, ⟨o, ?_, hokind, hoid⟩, ⟨e, by simp [he], hekind, heid⟩, ?_⟩
  · rw [hsame _ (by omega), hkept.same _ (by omega), ho, Array.getElem?_push_size]
  · intro i t hlt hi ht hid
    rw [hsame i hi] at ht
    have hnew := hruns.nextContext_le hinner hcur (by omega) ht hid
    omega

/-- The finished tokens of a state stand in front of these, with more annotations. -/
def Continues (tokens : Array Token) (st : State) : Prop :=
  ∀ (i : Nat) (t : Token), st.tokens[i]? = some t → ∃ u, tokens[i]? = some u ∧ Annotates t u

theorem FunctionPart.Delimited.of_continues {st : State}
    (h : part.Delimited st.tokens first last) (hc : Continues tokens st) :
    part.Delimited tokens first last := by
  obtain ⟨hlt, id, ⟨o, ho, hokind, hoid⟩, ⟨e, he, hekind, heid⟩, hbetween⟩ := h
  obtain ⟨o', ho', hao⟩ := hc first o ho
  obtain ⟨e', he', hae⟩ := hc last e he
  refine ⟨hlt, id, ⟨o', ho', hao.kind.trans hokind, hao.context.trans hoid⟩,
    ⟨e', he', hae.kind.trans hekind, hae.context.trans heid⟩, fun i t hi hi' ht => ?_⟩
  have hlast : last < st.tokens.size := (Array.getElem?_eq_some_iff.mp he).1
  obtain ⟨u, hu, hau⟩ := hc i _ (Array.getElem?_eq_getElem (Nat.lt_trans hi' hlast))
  obtain rfl : u = t := Option.some.inj (hu.symm.trans ht)
  rw [hau.context]
  exact hbetween i _ hi hi' (Array.getElem?_eq_getElem (Nat.lt_trans hi' hlast))

theorem FunctionPart.Delimited.matching? {p : Program} (h : part.Delimited p.tokens first last) :
    p.matching? first = some last ∧ p.kindAt first = part.opener ∧ p.kindAt last = part.closer := by
  obtain ⟨hlt, id, ⟨o, ho, hokind, hoid⟩, ⟨e, he, hekind, heid⟩, hbetween⟩ := h
  refine ⟨Program.matching?_eq_some hlt ho hoid he heid hbetween, ?_, ?_⟩
  · rw [Program.kindAt, Program.tokenAt, ho, Option.getD_some, hokind]
  · rw [Program.kindAt, Program.tokenAt, he, Option.getD_some, hekind]

/-- **Contexts are nested.**  In a program that is parsed the tokens of a context
are the parentheses of parameters, the braces of a body, the braces of an object
with its keys between them, or the keyword and the braces of a class.  The spans
of two contexts are apart, or one is between two neighbouring tokens of the other.
So the partner of the first token of the parameters or the body of a function is
the last one, whatever the program goes on with. -/
theorem contexts_of_parse {source : Text} {o : Options} {tokens : Array Token}
    (h : parse source o = .ok tokens) :
    (∀ id i, Carries tokens id i → IsConstruct (carriers tokens.toList id))
    ∧ (∀ id id' first last first' last', id ≠ id' → Spans tokens id first last →
        Spans tokens id' first' last' →
        last < first' ∨ last' < first ∨ Encloses tokens id first last first' last'
          ∨ Encloses tokens id' first' last' first last)
    ∧ ∀ (part : FunctionPart) (st st' : State) (u : Unit),
        part.parser (Setting.ofOptions source o) st = .ok u st' → Continues tokens st' →
        let p : Program := { source, tokens }
        p.matching? st.tokens.size = some (st'.tokens.size - 1)
          ∧ p.kindAt st.tokens.size = part.opener ∧ p.kindAt (st'.tokens.size - 1) = part.closer := by
  refine ⟨fun id i hi => isConstruct_of_parse h hi, ?_, fun part st st' u hrun hc => ?_⟩
  · intro id id' first last first' last' hne hs hs'
    have hfirst : first ≠ first' := fun heq => hne (hs.begins.eq (heq ▸ hs'.begins))
    rcases Nat.lt_or_gt_of_ne hfirst with hlt | hlt
    · by_cases hle : first' ≤ last
      · exact .inr (.inr (.inl (encloses_of_lt h hne hs hs' hlt hle)))
      · exact .inl (Nat.lt_of_not_le hle)
    · by_cases hle : first ≤ last'
      · exact .inr (.inr (.inr (encloses_of_lt h hne.symm hs' hs hlt hle)))
      · exact .inr (.inl (Nat.lt_of_not_le hle))
  · exact ((part.delimited hrun).of_continues hc).matching? (p := { source, tokens })

/-! ## Braces of a context -/

theorem IsKey.kind_ne {t : Token} {kind : Kind} (h : IsKey t)
    (hkind : kind = .braceL ∨ kind = .braceR) : t.kind ≠ kind := by
  rintro rfl
  have hlike : Kind.isNameLike .braceL = false ∧ Kind.isNameLike .braceR = false := ⟨rfl, rfl⟩
  rcases hkind with hkind | hkind <;> simp [IsKey, hkind, hlike] at h

/-- A construct has at most one brace of each kind. -/
theorem IsConstruct.countP_le {kind : Kind} (h : IsConstruct ts)
    (hkind : kind = .braceL ∨ kind = .braceR) : ts.countP (·.kind == kind) ≤ 1 := by
  cases h with
  | parens ho hc => rcases hkind with rfl | rfl <;> simp [ho, hc]
  | @braces o c keys ho hkeys hc =>
    have hnone : keys.countP (·.kind == kind) = 0 := by
      rw [List.countP_eq_zero]
      intro k hk
      simpa using (hkeys k hk).kind_ne hkind
    rcases hkind with rfl | rfl <;> simp [List.countP_append, ho, hc, hnone]
  | ofClass hk ho hc => rcases hkind with rfl | rfl <;> simp [hk, ho, hc]

theorem mem_of_pair_sublist {l : List Token} {t u c : Token} (h : [t, u].Sublist (l ++ [c])) :
    t ∈ l := by
  obtain ⟨l₁, l₂, heq, h₁, h₂⟩ := List.sublist_append_iff.mp h
  cases l₁ with
  | nil =>
    obtain rfl : [t, u] = l₂ := heq
    exact absurd h₂.length_le (Nat.not_succ_le_self 1)
  | cons v l₁ =>
    obtain rfl : t = v := (List.cons.inj heq).1
    exact h₁.subset (List.mem_cons_self ..)

/-- Nothing of a construct comes after its closing brace. -/
theorem IsConstruct.kind_ne_braceR {t u : Token} (h : IsConstruct ts)
    (hsub : [t, u].Sublist ts) : t.kind ≠ .braceR := by
  cases h with
  | @parens o c ho hc =>
    obtain rfl : t = o := by simpa using mem_of_pair_sublist (l := [o]) hsub
    rw [ho]
    decide
  | braces ho hkeys hc =>
    rcases List.mem_cons.mp (mem_of_pair_sublist hsub) with rfl | hmem
    · rw [ho]
      decide
    · exact (hkeys t hmem).kind_ne (.inr rfl)
  | @ofClass k o c hk ho hc =>
    have hmem : t = k ∨ t = o := by simpa using mem_of_pair_sublist (l := [k, o]) hsub
    rcases hmem with rfl | rfl
    · rw [hk]
      decide
    · rw [ho]
      decide

end Downlevel.Grammar

namespace Downlevel.Program

open Grammar

variable {p : Program} {o : Options} {i j id : Nat} {kind : Kind}

/-- Two tokens of a context are among its tokens, in their order. -/
theorem sublist_carriers (hij : i < j) (hj : j < p.count) (hi : (p.tokenAt i).context = some id)
    (hjd : (p.tokenAt j).context = some id) :
    [p.tokenAt i, p.tokenAt j].Sublist (carriers p.tokens.toList id) := by
  have hcount : j < p.tokens.toList.length := by simpa [count] using hj
  have hat : ∀ {k} (hk : k < p.tokens.toList.length), p.tokens.toList[k] = p.tokenAt k := by
    intro k hk
    have hk' : k < p.tokens.size := by simpa using hk
    simp [tokenAt, hk']
  have hsub : [p.tokenAt i, p.tokenAt j].Sublist p.tokens.toList := by
    rw [← hat (Nat.lt_trans hij hcount), ← hat hcount]
    refine List.Sublist.trans ?_ (List.drop_sublist i _)
    rw [List.drop_eq_getElem_cons (Nat.lt_trans hij hcount)]
    refine List.Sublist.cons_cons _ (List.singleton_sublist.mpr ?_)
    have hnext : i + 1 + (j - (i + 1)) = j := by omega
    exact List.mem_drop_iff_getElem.mpr ⟨j - (i + 1), by omega, by simp only [hnext]⟩
  have hfilter := hsub.filter fun t => t.context == some id
  rwa [List.filter_eq_self.mpr (by simp [hi, hjd])] at hfilter

theorem isConstruct_carriers (h : parse p.source o = .ok p.tokens) (hj : j < p.count)
    (hjd : (p.tokenAt j).context = some id) : IsConstruct (carriers p.tokens.toList id) := by
  refine isConstruct_of_parse (i := j) h ⟨p.tokenAt j, ?_, hjd⟩
  have hj' : j < p.tokens.size := hj
  simp [tokenAt, hj']

/-- A program that is parsed has one brace of each kind in a context. -/
theorem index_eq_of_brace (h : parse p.source o = .ok p.tokens)
    (hkind : kind = .braceL ∨ kind = .braceR) (hi : p.kindAt i = kind)
    (hid : (p.tokenAt i).context = some id) (hj : p.kindAt j = kind)
    (hjd : (p.tokenAt j).context = some id) : i = j := by
  have hne : kind ≠ .eof := by rcases hkind with rfl | rfl <;> decide
  have hnot : ∀ {i j}, p.kindAt i = kind → (p.tokenAt i).context = some id → p.kindAt j = kind →
      (p.tokenAt j).context = some id → ¬i < j := by
    intro i j hi hid hj hjd hlt
    have hcount := lt_count_of_kindAt hj hne
    have hle := (sublist_carriers hlt hcount hid hjd).countP_le (p := (·.kind == kind))
    have hone := (isConstruct_carriers h hcount hjd).countP_le hkind
    simp only [kindAt] at hi hj
    simp [hi, hj] at hle
    omega
  have hij := hnot hi hid hj hjd
  have hji := hnot hj hjd hi hid
  omega

end Downlevel.Program

namespace Downlevel.Grammar

/-- An object with a method. -/
def methodSource : Text :=
  "x={a(b){}}".toList

/-- Its tokens: the object, the parameters and the body are contexts. -/
def methodTokens : Array Token :=
  #[{ kind := .name, start := 0, stop := 1, role := some .access },
    { kind := .eq, start := 1, stop := 2 },
    { kind := .braceL, start := 2, stop := 3, context := some 1 },
    { kind := .name, start := 3, stop := 4, role := some .key, context := some 1 },
    { kind := .parenL, start := 4, stop := 5, context := some 2, depth := 1 },
    { kind := .name, start := 5, stop := 6, role := some .functionScoped, depth := 1 },
    { kind := .parenR, start := 6, stop := 7, context := some 2, depth := 1 },
    { kind := .braceL, start := 7, stop := 8, context := some 3, depth := 1 },
    { kind := .braceR, start := 8, stop := 9, context := some 3, depth := 1 },
    { kind := .braceR, start := 9, stop := 10, context := some 1 }]

/-- The state in front of the body. -/
def methodState : State :=
  { pos := 8, tokens := methodTokens.take 7, cur := { kind := .braceL, start := 7, stop := 8 },
    isType := false, depth := 1, nextContext := 3, contexts := [1] }

/-- The object has a key, its method is inside it, and the braces of the body are partners. -/
theorem contexts_methodTokens :
    parse methodSource {} = .ok methodTokens ∧ IsConstruct (carriers methodTokens.toList 1)
      ∧ Encloses methodTokens 1 2 9 7 8
      ∧ ({ source := methodSource, tokens := methodTokens } : Program).matching? 7 = some 8 := by
  have hparse : parse methodSource {} = .ok methodTokens := by decide +kernel
  obtain ⟨hconstruct, hspans, hparts⟩ := contexts_of_parse hparse
  have hspan : ∀ {id first last}, Carries methodTokens id first → Carries methodTokens id last →
      (∀ i < 10, methodTokens[i]?.bind Token.context = some id → first ≤ i ∧ i ≤ last) →
      Spans methodTokens id first last := by
    refine fun hfirst hlast hall => ⟨hfirst, hlast, ?_⟩
    rintro i ⟨t, ht, hid⟩
    exact hall i (Array.getElem?_eq_some_iff.mp ht).1 (by rw [ht, Option.bind_some, hid])
  have hobject : Spans methodTokens 1 2 9 := hspan ⟨_, rfl, rfl⟩ ⟨_, rfl, rfl⟩ (by decide)
  have hbody : Spans methodTokens 3 7 8 := hspan ⟨_, rfl, rfl⟩ ⟨_, rfl, rfl⟩ (by decide)
  refine ⟨hparse, hconstruct 1 2 hobject.begins, ?_, ?_⟩
  · rcases hspans 1 3 2 9 7 8 (by decide) hobject hbody with h | h | h | h
    · omega
    · omega
    · exact h
    · exact absurd h.first_lt (by decide)
  · have hrun : okWith (FunctionPart.body.parser (Setting.ofOptions methodSource {}) methodState)
        (fun _ st' => st'.tokens = methodTokens.take 9) = true := by decide +kernel
    obtain ⟨u, st', h, htokens⟩ := exists_of_okWith hrun
    have hrun : st'.tokens = methodTokens.take 9 := of_decide_eq_true htokens
    have hpartner := (hparts .body methodState st' u h ?_).1
    · rw [hrun] at hpartner
      exact hpartner
    · intro i t ht
      rw [hrun, Array.take_eq_extract, Array.getElem?_extract] at ht
      split at ht
      · exact ⟨t, by simpa using ht, .refl t⟩
      · cases ht

end Downlevel.Grammar
