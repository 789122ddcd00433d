import Downlevel.Proofs.Grammar.Contexts
import Downlevel.Proofs.Grammar.TypeTokens

/-!
# Tokens that a part of the grammar adds

A part of the grammar only adds tokens to those that are finished, so what is known of a finished
token stays known while more is read.
-/

namespace Downlevel.Grammar

open Grammar.Parser

/-! ## Running a part of the grammar -/

/-- The token ahead is in no context and in no type. -/
structure State.IsBare (st : State) : Prop where
  context : st.cur.context = none
  isType : st.cur.isType = false

/-- What is run from the first state to the second only adds tokens, and leaves a bare one
ahead. -/
structure Spends (st st' : State) : Prop where
  kept : Kept st.tokens.size st st'
  isType : st'.isType = st.isType
  contexts : st'.contexts = st.contexts
  bare : st'.IsBare

section

variable {α : Type} {c : Setting} {n : Nat} {st st' st'' : State} {p : Parser α} {a : α}

/-- The token ahead has the context that the stage knows of. -/
structure Marks (x : Stage × State) : Prop where
  context : x.2.cur.context = x.1.mark.context
  isType : x.2.cur.isType = false

theorem Step.marks {x y : Stage × State} (h : Step c n x y) (hx : Marks x) : Marks y := by
  obtain ⟨hcontext, htype⟩ := hx
  cases h with
  | finish hread =>
    obtain ⟨kind, start, newlineBefore, rfl⟩ := Lexer.exists_of_read hread
    exact ⟨rfl, rfl⟩
  | role => exact ⟨hcontext, htype⟩
  | value => exact ⟨hcontext, htype⟩
  | inside => exact ⟨rfl, htype⟩
  | opening => exact ⟨rfl, htype⟩
  | closing => exact ⟨rfl, htype⟩
  | retag => exact ⟨hcontext, htype⟩
  | regex _ hread =>
    obtain ⟨-, -, -, rfl⟩ := Lexer.exists_of_regex hread
    exact ⟨rfl, rfl⟩
  | annotate => exact ⟨hcontext, htype⟩
  | annotateFrom => exact ⟨hcontext, htype⟩
  | enter => exact ⟨hcontext, htype⟩
  | leave => exact ⟨hcontext, htype⟩
  | setType => exact ⟨hcontext, htype⟩
  | settle => exact ⟨hcontext, htype⟩

theorem Steps.marks {x y : Stage × State} (h : Steps c n x y) (hx : Marks x) : Marks y := by
  induction h with
  | refl => exact hx
  | tail _ hstep ih => exact hstep.marks ih

theorem Keeps.spends (hp : Keeps c p) (hst : st.IsBare) (h : p c st = .ok a st') :
    Spends st st' := by
  have hruns : Runs c st.tokens.size st.frame.plain st.view p (fun _ => st.frame.plain)
    fun _ _ => True := hp.run
  have hsteps := hruns.steps_of_ok h
  have hmarks := hsteps.marks ⟨hst.context, hst.isType⟩
  have hagrees := hsteps.agrees ⟨rfl, rfl, rfl⟩
  exact ⟨hruns.kept_of_ok h, hagrees.isType, hagrees.contexts, hmarks.context, hmarks.isType⟩

theorem Spends.refl (hst : st.IsBare) : Spends st st :=
  ⟨.refl (Nat.le_refl _), rfl, rfl, hst⟩

theorem Spends.trans (h : Spends st st') (h' : Spends st' st'') : Spends st st'' :=
  ⟨h.kept.trans (h'.kept.mono h.kept.size), h'.isType.trans h.isType,
    h'.contexts.trans h.contexts, h'.bare⟩

/-- What every round of a loop keeps holds when the loop is done. -/
theorem of_loop {σ : Type} {step : σ → Parser (ForInStep σ)} {I D : σ → State → Prop}
    (hyield : ∀ x st y st', I x st → step x c st = .ok (.yield y) st' → I y st')
    (hdone : ∀ x st y st', I x st → step x c st = .ok (.done y) st' → D y st')
    {x y : σ} (hx : I x st) (h : loop x step c st = .ok y st') : D y st' := by
  induction hrem : c.remaining st using Nat.strongRecOn generalizing x st with
  | ind k ih =>
    rw [loop_apply] at h
    split at h
    · cases h
    · rename_i z st₁ hstep
      obtain ⟨rfl, rfl⟩ := EStateM.Result.ok.inj h
      exact hdone x st z st₁ hx hstep
    · rename_i z st₁ hstep
      split at h
      · rename_i hlt
        exact ih _ (hrem ▸ hlt) (hyield x st z st₁ hx hstep) h rfl
      · cases h

end

/-! ## Tokens that are finished -/

/-- The token of an index is there and has a property. -/
def HasAt (ts : Array Token) (i : Nat) (P : Token → Prop) : Prop :=
  ∃ t, ts[i]? = some t ∧ P t

/-- The token is in no type and in no context. -/
structure IsPlain (t : Token) : Prop where
  isType : t.isType = false
  context : t.context = none

/-- The token is one of these words. -/
structure IsOneOf (source : Text) (words : List String) (t : Token) : Prop where
  kind : t.kind = .name
  text : String.ofList (t.text source) ∈ words

/-- Two lists of tokens are the same from `a` up to `b`. -/
def SameBetween (a b : Nat) (ts us : Array Token) : Prop :=
  ∀ i, a ≤ i → i < b → us[i]? = ts[i]?

section

variable {ts us : Array Token} {a d lo hi i : Nat} {P : Token → Prop}

theorem HasAt.of_same (h : HasAt ts i P) (hs : SameBetween lo hi ts us) (hlo : lo ≤ i) (hhi : i < hi) :
    HasAt us i P := by
  obtain ⟨t, ht, hP⟩ := h
  exact ⟨t, (hs i hlo hhi).trans ht, hP⟩

theorem SameBetween.mono {lo' hi' : Nat} (h : SameBetween lo hi ts us) (hlo : lo ≤ lo')
    (hhi : hi' ≤ hi) : SameBetween lo' hi' ts us :=
  fun i hle hlt => h i (Nat.le_trans hlo hle) (Nat.lt_of_lt_of_le hlt hhi)

theorem TypesBetween.of_same (h : TypesBetween ts a d) (hs : SameBetween lo hi ts us) (hlo : lo ≤ a)
    (hhi : d ≤ hi) : TypesBetween us a d := by
  intro i ha hi
  exact HasAt.of_same (h i ha hi) hs (Nat.le_trans hlo ha) (Nat.lt_of_lt_of_le hi hhi)

theorem FunctionPart.Delimited.of_same {part : FunctionPart} (h : part.Delimited ts a d)
    (hs : SameBetween lo hi ts us) (hlo : lo ≤ a) (hhi : d < hi) : part.Delimited us a d := by
  obtain ⟨hlt, id, hfirst, hlast, hbetween⟩ := h
  refine ⟨hlt, id, HasAt.of_same hfirst hs hlo (by omega),
    HasAt.of_same hlast hs (by omega) hhi, ?_⟩
  intro i t ha hi ht
  rw [hs i (by omega) (by omega)] at ht
  exact hbetween i t ha hi ht

end

/-! ## Finishing tokens -/

/-- One token is finished. -/
structure Finishes (st : State) (t : Token) (st' : State) : Prop where
  tokens : st'.tokens = st.tokens.push t
  isType : st'.isType = st.isType
  contexts : st'.contexts = st.contexts
  bare : st'.IsBare

section

variable {c : Setting} {st st' : State} {t : Token} {P : Token → Prop} {kind : Kind}

theorem Lexed.isBare (h : Lexed c st.cur) : st.IsBare :=
  ⟨h.context, h.isType⟩

theorem finishes_next (h : next c st = .ok () st') : Finishes st st.finished st' := by
  obtain ⟨t, pos, hread, rfl⟩ := finish_of_next h
  exact ⟨rfl, rfl, rfl, Lexed.isBare (c := c) ⟨_, _, _, hread⟩⟩

theorem next_of_expect (h : expect kind c st = .ok () st') :
    st.cur.kind = kind ∧ next c st = .ok () st' := by
  change (is kind >>= _) c st = _ at h
  rw [Looks.bind_apply] at h
  split at h
  · rename_i hkind
    exact ⟨of_decide_eq_true hkind, h⟩
  · cases h

theorem finishes_inType_next (h : inType next c st = .ok () st') :
    Finishes st { st.finished with isType := true } st' := by
  obtain ⟨st₁, hnext, rfl⟩ := exists_of_inType h
  obtain ⟨htokens, -, hcontexts, hbare⟩ := finishes_next hnext
  refine ⟨htokens.trans ?_, rfl, hcontexts, hbare.context, hbare.isType⟩
  simp [State.finished]

theorem Finishes.size (h : Finishes st t st') : st'.tokens.size = st.tokens.size + 1 := by
  rw [h.tokens, Array.size_push]

theorem Finishes.spends (h : Finishes st t st') : Spends st st' := by
  refine ⟨⟨by rw [h.size]; exact Nat.le_succ _, fun i hi => ?_⟩, h.isType, h.contexts, h.bare⟩
  rw [h.tokens, Array.getElem?_push, if_neg (Nat.ne_of_lt hi)]

theorem Finishes.hasAt (h : Finishes st t st') (ht : P t) : HasAt st'.tokens st.tokens.size P :=
  ⟨t, by rw [h.tokens, Array.getElem?_push_size], ht⟩

theorem Spends.same (h : Spends st st') : SameBetween 0 st.tokens.size st.tokens st'.tokens :=
  fun i _ hi => h.kept.same i hi

/-- Where no type is read, a token that is finished belongs to none. -/
theorem isPlain_finished (hst : st.IsBare) (hvalue : st.isType = false) : IsPlain st.finished :=
  ⟨by simp [State.finished, hst.isType, hvalue], hst.context⟩

theorem finishes_of_eat {b : Bool} (h : eat kind c st = .ok b st') :
    (b = true ∧ st.cur.kind = kind ∧ Finishes st st.finished st') ∨ (b = false ∧ st' = st) := by
  change (is kind >>= _) c st = _ at h
  rw [Looks.bind_apply] at h
  split at h
  · rename_i hkind
    obtain ⟨_, st₁, hnext, hpure⟩ := Parser.exists_of_bind h
    cases hpure
    exact .inl ⟨rfl, of_decide_eq_true hkind, finishes_next hnext⟩
  · cases h
    exact .inr ⟨rfl, rfl⟩

/-- What finishes no token and leaves the same one ahead. -/
theorem Spends.of_tokens (hst : st.IsBare) (htokens : st'.tokens = st.tokens)
    (hisType : st'.isType = st.isType) (hcontexts : st'.contexts = st.contexts)
    (hcur : st'.cur = st.cur) : Spends st st' :=
  ⟨.of_tokens_eq (Nat.le_refl _) htokens, hisType, hcontexts, hcur ▸ hst.context,
    hcur ▸ hst.isType⟩

theorem spends_enterScope (hst : st.IsBare) (h : enterScope c st = .ok () st') :
    Spends st st' ∧ st'.tokens = st.tokens := by
  cases h
  exact ⟨.of_tokens hst rfl rfl rfl rfl, rfl⟩

theorem eq_of_leaveScope (h : leaveScope c st = .ok () st') : ∃ depth, st' = { st with depth } := by
  cases hdepth : st.depth with
  | zero =>
    unfold leaveScope at h
    obtain ⟨_, st₁, hget, h₁⟩ := Parser.exists_of_bind h
    cases hget
    rw [hdepth] at h₁
    cases h₁
  | succ depth =>
    rw [leaveScope_apply hdepth] at h
    exact ⟨depth, (EStateM.Result.ok.inj h).2.symm⟩

/-- Closing a context adds a token, which is in no type unless the context is. -/
theorem same_of_closeContext (h : closeContext kind c st = .ok () st') :
    SameBetween 0 st.tokens.size st.tokens st'.tokens
      ∧ (st.IsBare → st.isType = false → HasAt st'.tokens st.tokens.size (·.isType = false)) := by
  change (if decide (st.cur.kind = kind) = true then _ else _ : Parser Unit) c st = _ at h
  split at h
  case isFalse => cases h
  obtain ⟨x, st₁, hpop, hrest⟩ := Parser.exists_of_bind (p := popContext) h
  cases hcontexts : st.contexts with
  | nil =>
    unfold popContext at hpop
    obtain ⟨_, st₂, hget, hmatch⟩ := Parser.exists_of_bind hpop
    cases hget
    rw [hcontexts] at hmatch
    cases hmatch
    cases hrest
  | cons id rest =>
    rw [popContext_apply hcontexts] at hpop
    cases hpop
    obtain ⟨_, st₂, hstamp, hnext⟩ := Parser.exists_of_bind hrest
    cases hstamp
    have hf := finishes_next hnext
    refine ⟨hf.spends.same, fun hst hvalue => hf.hasAt ?_⟩
    simp [State.finished, hst.isType, hvalue]

/-- Opening a context finishes a token, which is in no type unless the context is. -/
theorem isBare_of_openContext {id : Nat} (hst : st.IsBare) (hvalue : st.isType = false)
    (h : openContext kind c st = .ok id st') : st'.IsBare ∧ st'.isType = false
      ∧ HasAt st'.tokens st.tokens.size (·.isType = false) := by
  change (if decide (st.cur.kind = kind) = true then _ else _ : Parser Nat) c st = _ at h
  split at h
  case isFalse => cases h
  change (next >>= fun _ => pure st.nextContext : Parser Nat) c { st with
    cur := { st.cur with context := some st.nextContext }, nextContext := st.nextContext + 1,
    contexts := st.nextContext :: st.contexts } = _ at h
  obtain ⟨_, st₁, hnext, hpure⟩ := Parser.exists_of_bind h
  cases hpure
  have hf := finishes_next hnext
  refine ⟨hf.bare, hf.isType.trans hvalue, hf.hasAt ?_⟩
  simp [State.finished, hst.isType, hvalue]

/-- The first token of a part of a function is in no type, unless the part is. -/
theorem FunctionPart.hasAt_isType (part : FunctionPart) (hst : st.IsBare) (hvalue : st.isType = false)
    (h : part.parser c st = .ok () st') : HasAt st'.tokens st.tokens.size (·.isType = false) := by
  rw [part.parser_eq] at h
  obtain ⟨id, st₁, hopen, h₁⟩ := Parser.exists_of_bind h
  obtain ⟨_, st₂, hinner, hclose⟩ := Parser.exists_of_bind h₁
  obtain ⟨-, -, hfirst⟩ := isBare_of_openContext hst hvalue hopen
  have hlt : st.tokens.size < st₁.tokens.size := by
    obtain ⟨t, ht, -⟩ := hfirst
    exact (Array.getElem?_eq_some_iff.mp ht).1
  have hkept : Kept st₁.tokens.size st₁ st₂ := part.runs_inner.kept_of_ok hinner
  have hsame := (same_of_closeContext hclose).1
  have hfirst' : HasAt st₂.tokens st.tokens.size (·.isType = false) :=
    hfirst.of_same (fun i _ hi => hkept.same i hi) (Nat.zero_le _) hlt
  refine hfirst'.of_same hsame (Nat.zero_le _) ?_
  exact Nat.lt_of_lt_of_le hlt hkept.size

end

end Downlevel.Grammar
