import Downlevel.Proofs.Grammar.Spends

/-!
# Parameters of a function

Parameters are read one after the other.  In front of a binding there may be modifiers, which
belong to no type and are marked as if they did.
-/

set_option synthInstance.maxSize 1000000000000000000

namespace Downlevel.Grammar

open Grammar.Parser

/-- A parameter: the index of its first token, that of the token behind its modifiers, and the index
past its last. -/
structure Parameter where
  start : Nat
  binding : Nat
  stop : Nat
  deriving Repr, DecidableEq

/-- Does the parameter have modifiers? -/
def Parameter.isModified (q : Parameter) : Bool :=
  q.start < q.binding

/-! ## Reading parameters -/

/-- Modifiers in front of a parameter, if it can have any. -/
def parameterHead (properties : Bool) : Parser Unit := do
  if properties && (← typescript) then repeatWhile atParameterModifier (inType next)

/-- A parameter with the comma behind it. -/
def parameterItem (properties : Bool) : Parser Unit := do
  if ← is .ellipsis then
    next
    run (.binding .functionScoped)
    maybeAnnotation run
    separator .parenR
  else if ← bindingElement run .functionScoped properties then return
  else separator .parenR

/-- The parameter ahead begins with `...` or is a typed `this`, and has no modifiers. -/
def BeginsPlainly (c : Setting) (st : State) : Prop :=
  st.cur.kind = .ellipsis ∨ atThisParameter c st = .ok true st

/-- A parameter is read from one state to another, its modifiers first. -/
structure ReadsParameter (c : Setting) (properties : Bool) (st : State) (q : Parameter) (st' : State) :
    Prop where
  item : parameterItem properties c st = .ok () st'
  start : q.start = st.tokens.size
  stop : q.stop = st'.tokens.size
  binding_plain : BeginsPlainly c st → q.binding = st.tokens.size
  binding : ¬BeginsPlainly c st →
    ∃ st₁, parameterHead properties c st = .ok () st₁ ∧ q.binding = st₁.tokens.size

/-- Parameters are read one after the other, up to the closing parenthesis. -/
inductive ReadsParameters (c : Setting) (properties : Bool) : State → List Parameter → State → Prop
  | nil {st : State} (h : st.cur.kind = .parenR) : ReadsParameters c properties st [] st
  | cons {st st₁ st' : State} {q : Parameter} {qs : List Parameter} (h : st.cur.kind ≠ .parenR)
      (hq : ReadsParameter c properties st q st₁) (hqs : ReadsParameters c properties st₁ qs st') :
      ReadsParameters c properties st (q :: qs) st'

section

variable {c : Setting} {st st' st₁ : State} {properties : Bool} {q : Parameter}
  {qs : List Parameter} {source : Text} {ts us : Array Token} {a e : Nat} {b : Bool}

theorem eq_of_atThisParameter (h : atThisParameter c st = .ok b st') : st' = st := by
  unfold atThisParameter at h
  simp only [Looks.bind_apply] at h
  split at h
  · exact eq_of_peekIs h
  · exact (EStateM.Result.ok.inj h).2.symm

/-- What comes behind a binding: its annotation and default. -/
def bindingTail : Parser Bool := do
  if (← hasTypes) && (← is .question) then inType next
  maybeAnnotation run
  if ← eat .eq then run (.assignment false)
  return false

theorem keeps_bindingTail : Keeps c bindingTail := by
  have := calls_run c
  unfold bindingTail
  dsimp only
  exact Takes.keeps

/-- Behind its modifiers a parameter has a binding. -/
theorem exists_of_bindingElement {role : Role} (hthis : atThisParameter c st ≠ .ok true st)
    (h : bindingElement run role properties c st = .ok b st') :
    ∃ st₁ st₂, parameterHead properties c st = .ok () st₁ ∧ run (.binding role) c st₁ = .ok () st₂
      ∧ bindingTail c st₂ = .ok b st' := by
  unfold bindingElement at h
  obtain ⟨b', st₀, hat, hrest⟩ := Parser.exists_of_bind h
  obtain rfl := eq_of_atThisParameter hat
  cases b' with
  | true => exact absurd hat hthis
  | false =>
    rw [if_neg Bool.false_ne_true, Looks.bind_apply] at hrest
    unfold parameterHead
    rw [Looks.bind_apply]
    split at hrest
    · rename_i hmodifiers
      obtain ⟨_, st₁, hhead, htail⟩ := Parser.exists_of_bind hrest
      obtain ⟨_, st₂, hbinding, hlast⟩ := Parser.exists_of_bind htail
      exact ⟨st₁, st₂, by rw [if_pos hmodifiers]; exact hhead, hbinding, hlast⟩
    · rename_i hmodifiers
      obtain ⟨_, st₂, hbinding, hlast⟩ := Parser.exists_of_bind hrest
      exact ⟨st₀, st₂, by rw [if_neg hmodifiers]; rfl, hbinding, hlast⟩

theorem keeps_parameterItem : Keeps c (parameterItem properties) := by
  have := calls_run c
  unfold parameterItem
  exact Takes.keeps

theorem exists_readsParameter (h : parameterItem properties c st = .ok () st') :
    ∃ q, ReadsParameter c properties st q st' := by
  by_cases hplain : BeginsPlainly c st
  · exact ⟨⟨st.tokens.size, st.tokens.size, st'.tokens.size⟩, h, rfl, rfl, fun _ => rfl,
      fun hnot => absurd hplain hnot⟩
  · have hitem := h
    unfold parameterItem at hitem
    rw [Looks.bind_apply] at hitem
    split at hitem
    · rename_i hkind
      exact absurd (.inl (of_decide_eq_true hkind)) hplain
    · obtain ⟨b, st₂, helement, -⟩ := Parser.exists_of_bind hitem
      obtain ⟨st₁, -, hhead, -⟩ := exists_of_bindingElement (fun hthis => hplain (.inr hthis)) helement
      exact ⟨⟨st.tokens.size, st₁.tokens.size, st'.tokens.size⟩, h, rfl, rfl,
        fun hyes => absurd hyes hplain, fun _ => ⟨st₁, hhead, rfl⟩⟩

/-- Whatever is read between the parentheses are parameters. -/
theorem exists_readsParameters
    (h : bindingList run .parenR .functionScoped false properties c st = .ok () st') :
    ∃ qs, ReadsParameters c properties st qs st' := by
  have hbody : ∀ st, (do
      if false && (← is .comma) then next
      else if ← is .ellipsis then
        next
        run (.binding .functionScoped)
        maybeAnnotation run
        separator .parenR
      else if ← bindingElement run .functionScoped properties then return
      else separator .parenR : Parser Unit) c st = parameterItem properties c st := by
    intro st
    rw [Looks.bind_apply]
    rfl
  induction hrem : c.remaining st using Nat.strongRecOn generalizing st with
  | ind k ih =>
    unfold bindingList at h
    rw [repeatUntil_apply] at h
    split at h
    · rename_i hkind
      cases h
      exact ⟨[], .nil hkind⟩
    · rename_i hkind
      rw [hbody] at h
      split at h
      · cases h
      · rename_i st₁ hitem
        split at h
        · rename_i hlt
          obtain ⟨q, hq⟩ := exists_readsParameter hitem
          obtain ⟨qs, hqs⟩ := ih _ (hrem ▸ hlt) h rfl
          exact ⟨q :: qs, .cons hkind hq hqs⟩
        · cases h

/-- The parameters from here on, of which there are less than `n`, and none begins plainly. -/
def parametersFrom (c : Setting) (properties : Bool) : Nat → State → Option (List Parameter × State)
  | 0, _ => none
  | n + 1, st =>
    if st.cur.kind = .parenR then some ([], st)
    else if st.cur.kind = .ellipsis ∨ st.cur.kind = .kwThis then none
    else
      match parameterHead properties c st, parameterItem properties c st with
      | .ok _ st₁, .ok _ st₂ =>
        (parametersFrom c properties n st₂).map fun (qs, st') =>
          (⟨st.tokens.size, st₁.tokens.size, st₂.tokens.size⟩ :: qs, st')
      | _, _ => none

theorem kind_of_atThisParameter (h : atThisParameter c st = .ok true st') :
    st.cur.kind = .kwThis := by
  unfold atThisParameter at h
  simp only [Looks.bind_apply] at h
  split at h
  · rename_i hthis
    exact of_decide_eq_true (Bool.and_eq_true_iff.mp hthis).2
  · cases (EStateM.Result.ok.inj h).1

theorem readsParameters_of_parametersFrom {n : Nat} {qs : List Parameter}
    (h : parametersFrom c properties n st = some (qs, st')) :
    ReadsParameters c properties st qs st' := by
  induction n generalizing st qs with
  | zero => cases h
  | succ n ih =>
    rw [parametersFrom] at h
    split at h
    · rename_i hclose
      cases h
      exact .nil hclose
    rename_i hopen
    split at h
    · cases h
    rename_i hplain
    split at h
    · rename_i _ st₁ _ st₂ hhead hitem
      obtain ⟨⟨qs', st''⟩, hrest, heq⟩ := Option.map_eq_some_iff.mp h
      cases heq
      refine .cons hopen ⟨hitem, rfl, rfl, fun hbegins => ?_, fun _ => ⟨st₁, hhead, rfl⟩⟩ (ih hrest)
      exact absurd (hbegins.imp_right kind_of_atThisParameter) hplain
    · cases h

/-! ## Modifiers and bindings -/

theorem eq_of_atParameterModifier (h : atParameterModifier c st = .ok b st') :
    st' = st ∧ (b = true → IsOneOf c.source parameterModifiers st.cur) := by
  unfold atParameterModifier at h
  rw [Looks.bind_apply] at h
  split at h
  · rename_i hword
    obtain ⟨u, st₁, hpeek, hrest⟩ := Parser.exists_of_bind h
    obtain rfl := eq_of_peek hpeek
    obtain ⟨-, rfl⟩ := EStateM.Result.ok.inj hrest
    have hname : (decide (st₁.cur.kind = .name)
        && parameterModifiers.contains (String.ofList (st₁.cur.text c.source))) = true := hword
    simp only [Bool.and_eq_true, decide_eq_true_eq, List.contains_iff_mem] at hname
    exact ⟨rfl, fun _ => ⟨hname.1, hname.2⟩⟩
  · cases h
    exact ⟨rfl, by simp⟩

/-- The tokens from `a` up to `b` are modifiers of a parameter. -/
def PropertiesBetween (source : Text) (ts : Array Token) (a b : Nat) : Prop :=
  ∀ i, a ≤ i → i < b → HasAt ts i fun t => t.isType = true ∧ IsOneOf source parameterModifiers t

theorem propertiesBetween_of_parameterHead (hst : st.IsBare)
    (h : parameterHead properties c st = .ok () st') :
    Spends st st' ∧ PropertiesBetween c.source st'.tokens st.tokens.size st'.tokens.size := by
  have hnone : Spends st st ∧ PropertiesBetween c.source st.tokens st.tokens.size st.tokens.size :=
    ⟨.refl hst, fun i ha hi => absurd ha (Nat.not_le_of_lt hi)⟩
  unfold parameterHead at h
  rw [Looks.bind_apply] at h
  split at h
  case isFalse =>
    cases h
    exact hnone
  refine of_loop (I := fun _ st₁ => Spends st st₁
      ∧ PropertiesBetween c.source st₁.tokens st.tokens.size st₁.tokens.size)
    (D := fun _ st₁ => Spends st st₁
      ∧ PropertiesBetween c.source st₁.tokens st.tokens.size st₁.tokens.size)
    (fun x st₁ y st₂ hx hstep => ?_) (fun x st₁ y st₂ hx hstep => ?_) hnone h
  · obtain ⟨b, st₀, hat, hrest⟩ := Parser.exists_of_bind hstep
    obtain ⟨rfl, hmodifier⟩ := eq_of_atParameterModifier hat
    split at hrest
    case isFalse => cases hrest
    rename_i hb
    obtain ⟨_, st₃, hnext, hpure⟩ := Parser.exists_of_bind hrest
    cases hpure
    have hf := finishes_inType_next hnext
    refine ⟨hx.1.trans hf.spends, fun i ha hi => ?_⟩
    rw [hf.size] at hi
    rcases Nat.lt_or_eq_of_le (Nat.lt_succ_iff.mp hi) with hlt | rfl
    · exact (hx.2 i ha hlt).of_same hf.spends.same (Nat.zero_le _) hlt
    · have hword := hmodifier hb
      exact hf.hasAt ⟨rfl, hword.kind, hword.text⟩
  · obtain ⟨b, st₀, hat, hrest⟩ := Parser.exists_of_bind hstep
    obtain ⟨rfl, -⟩ := eq_of_atParameterModifier hat
    split at hrest
    · obtain ⟨_, st₃, -, hpure⟩ := Parser.exists_of_bind hrest
      cases hpure
    · cases hrest
      exact hx

/-- A binding begins here, outside of types. -/
def BeginsBinding (t : Token) : Prop :=
  t.isType = false ∧ startsBinding t.kind = true

theorem hasAt_of_binding {role : Role} (hst : st.IsBare) (hvalue : st.isType = false)
    (h : run (.binding role) c st = .ok () st') :
    Spends st st' ∧ st.tokens.size < st'.tokens.size
      ∧ HasAt st'.tokens st.tokens.size BeginsBinding := by
  have hspends : Spends st st' := Keeps.spends ((calls_run c).obeys (.binding role)) hst h
  -- the rest of the binding keeps the first token as it is
  have hfirst : ∀ {st₀ st₁ : State}, st₀.tokens = st.tokens → BeginsBinding st₀.finished →
      next c st₀ = .ok () st₁ → Kept st₁.tokens.size st₁ st' → st.tokens.size < st'.tokens.size
        ∧ HasAt st'.tokens st.tokens.size BeginsBinding := by
    intro st₀ st₁ htokens hbegins hnext hkept
    have hf := finishes_next hnext
    have hsize := hf.size
    have hle := hkept.size
    rw [htokens] at hsize
    refine ⟨by omega, ?_⟩
    have hat := hf.hasAt (P := BeginsBinding) hbegins
    rw [htokens] at hat
    exact hat.of_same (fun i _ hi => hkept.same i hi) (Nat.zero_le _) (by omega)
  have htype : st.finished.isType = false := (isPlain_finished hst hvalue).isType
  have hc := calls_runBelow c (weight c (.binding role) st)
  refine ⟨hspends, ?_⟩
  rw [run_apply] at h
  generalize weight c (.binding role) st = bound at h hc
  change binding (runBelow bound) role c st = _ at h
  unfold binding at h
  have hlook {f : Token → Parser Unit} (h : (cur >>= f) c st = .ok () st') :
      ∃ p, f st.cur = p ∧ p c st = .ok () st' := ⟨_, rfl, h⟩
  obtain ⟨p, hparser, h⟩ := hlook h
  have hbegins : ∀ kind, st.cur.kind = kind → startsBinding kind = true →
      BeginsBinding st.finished := fun kind hkind hstarts => ⟨htype, hkind ▸ hstarts⟩
  split at hparser <;> subst hparser
  · rename_i hkind
    unfold identifier at h
    rw [Looks.bind_apply] at h
    split at h
    · obtain ⟨_, st₁, hmodify, hnext⟩ := Parser.exists_of_bind h
      cases hmodify
      refine hfirst ?_ ?_ hnext (.refl (Nat.le_refl _))
      · rfl
      · exact hbegins _ hkind rfl
    · exact absurd h unexpected_ne_ok
  · rename_i hkind
    obtain ⟨_, st₁, hnext, hrest⟩ := Parser.exists_of_bind h
    obtain ⟨_, st₂, hlist, hlast⟩ := Parser.exists_of_bind hrest
    have hkept := Runs.kept_of_ok (runs_bindingList hc) hlist
    have hlast' := (finishes_next (next_of_expect hlast).2).spends.kept
    exact hfirst rfl (hbegins _ hkind rfl) hnext (hkept.trans (hlast'.mono hkept.size))
  · rename_i hkind
    obtain ⟨_, st₁, hnext, hrest⟩ := Parser.exists_of_bind h
    obtain ⟨_, st₂, hlist, hlast⟩ := Parser.exists_of_bind hrest
    have hkept := Runs.kept_of_ok (EndsAt.runs _) hlist
    have hlast' := (finishes_next hlast).spends.kept
    exact hfirst rfl (hbegins _ hkind rfl) hnext (hkept.trans (hlast'.mono hkept.size))
  · cases h

/-! ## Parameters in a row -/

/-- A parameter is read as these tokens. -/
structure Parameter.Stands (source : Text) (ts : Array Token) (q : Parameter) : Prop where
  le : q.start ≤ q.binding
  binding_le : q.binding ≤ q.stop
  modifiers : PropertiesBetween source ts q.start q.binding
  binding : q.isModified = true → q.binding < q.stop ∧ HasAt ts q.binding BeginsBinding

theorem ReadsParameter.spends (h : ReadsParameter c properties st q st') (hst : st.IsBare) :
    Spends st st' :=
  keeps_parameterItem.spends hst h.item

theorem ReadsParameter.stands (h : ReadsParameter c properties st q st') (hst : st.IsBare)
    (hvalue : st.isType = false) : q.Stands c.source st'.tokens := by
  have hle : st.tokens.size ≤ st'.tokens.size := (h.spends hst).kept.size
  by_cases hplain : BeginsPlainly c st
  · have hbinding := h.binding_plain hplain
    have hstart := h.start
    have hstop := h.stop
    refine ⟨by omega, by omega, fun i ha hi => by omega, fun hmodified => ?_⟩
    have hlt : q.start < q.binding := of_decide_eq_true hmodified
    omega
  · obtain ⟨st₁, hhead, hbinding⟩ := h.binding hplain
    have hitem := h.item
    unfold parameterItem at hitem
    rw [Looks.bind_apply] at hitem
    split at hitem
    · rename_i hkind
      exact absurd (.inl (of_decide_eq_true hkind)) hplain
    obtain ⟨b, st₃, helement, hlast⟩ := Parser.exists_of_bind hitem
    obtain ⟨st₁', st₂, hhead', hrun, htail⟩ :=
      exists_of_bindingElement (fun hthis => hplain (.inr hthis)) helement
    obtain ⟨-, rfl⟩ := EStateM.Result.ok.inj (hhead.symm.trans hhead')
    obtain ⟨hs₁, hmodifiers⟩ := propertiesBetween_of_parameterHead hst hhead
    obtain ⟨hs₂, hlt, hfirst⟩ := hasAt_of_binding hs₁.bare (hs₁.isType.trans hvalue) hrun
    have hs₃ := keeps_bindingTail.spends hs₂.bare htail
    have hs₄ : Spends st₃ st' := by
      split at hlast
      · cases hlast
        exact .refl hs₃.bare
      · exact Takes.keeps.spends hs₃.bare hlast
    have hrest := hs₃.trans hs₄
    have hle₂ := hrest.kept.size
    have hle₁ := hs₁.kept.size
    rw [← h.start, ← hbinding] at hmodifiers
    rw [← hbinding] at hlt hfirst
    have hstop := h.stop
    have hstart := h.start
    refine ⟨by omega, by omega, fun i ha hi => ?_, fun _ => ⟨by omega, ?_⟩⟩
    · exact (hmodifiers i ha hi).of_same (hs₂.trans hrest).same (Nat.zero_le _) (by omega)
    · exact hfirst.of_same hrest.same (Nat.zero_le _) hlt

theorem Parameter.Stands.of_same (h : q.Stands source ts) (hs : SameBetween q.start q.stop ts us) :
    q.Stands source us := by
  have hle := h.le
  have hle' := h.binding_le
  refine ⟨hle, hle', fun i ha hi => ?_, fun hmodified => ?_⟩
  · exact (h.modifiers i ha hi).of_same hs ha (by omega)
  · obtain ⟨hlt, hvalue⟩ := h.binding hmodified
    exact ⟨hlt, hvalue.of_same hs hle hlt⟩

/-- Parameters stand one after the other from one index up to another. -/
inductive ParametersInRow (source : Text) (ts : Array Token) : Nat → List Parameter → Nat → Prop
  | nil {a : Nat} : ParametersInRow source ts a [] a
  | cons {q : Parameter} {qs : List Parameter} {e : Nat} (hq : q.Stands source ts)
      (hqs : ParametersInRow source ts q.stop qs e) : ParametersInRow source ts q.start (q :: qs) e

theorem ParametersInRow.le {ts : Array Token} (h : ParametersInRow source ts a qs e) : a ≤ e := by
  induction h with
  | nil => exact Nat.le_refl _
  | cons hq _ ih => exact Nat.le_trans (Nat.le_trans hq.le hq.binding_le) ih

theorem ParametersInRow.of_same (h : ParametersInRow source ts a qs e) (hs : SameBetween a e ts us) :
    ParametersInRow source us a qs e := by
  induction h with
  | nil => exact .nil
  | cons hq hqs ih =>
    have hle := hqs.le
    have hle' := Nat.le_trans hq.le hq.binding_le
    exact .cons (hq.of_same (hs.mono (Nat.le_refl _) hle)) (ih (hs.mono hle' (Nat.le_refl _)))

theorem ReadsParameters.inRow (h : ReadsParameters c properties st qs st') (hst : st.IsBare)
    (hvalue : st.isType = false) : Spends st st'
      ∧ ParametersInRow c.source st'.tokens st.tokens.size qs st'.tokens.size := by
  induction h with
  | nil => exact ⟨.refl hst, .nil⟩
  | @cons st st₁ st' q qs _ hq _ ih =>
    have hs := hq.spends hst
    obtain ⟨hs', hrow⟩ := ih hs.bare (hs.isType.trans hvalue)
    refine ⟨hs.trans hs', ?_⟩
    have hstands := (hq.stands hst hvalue).of_same
      (hs'.same.mono (Nat.zero_le _) (Nat.le_of_eq hq.stop))
    rw [← hq.start]
    rw [← hq.stop] at hrow
    exact .cons hstands hrow

/-- Parameters are read as the tokens from `a` up to `e`, where they are closed. -/
def ParametersStand (source : Text) (ts : Array Token) (a e : Nat) (qs : List Parameter) : Prop :=
  (∃ c properties st st', c.source = source ∧ st.IsBare ∧ st.isType = false
    ∧ ReadsParameters c properties st qs st' ∧ st.tokens.size = a ∧ st'.tokens.size = e
    ∧ SameBetween a e st'.tokens ts)
  ∧ HasAt ts e fun t => t.kind = .parenR ∧ t.isType = false

/-- No parameters are read as no tokens. -/
theorem ParametersStand.nil {ts : Array Token} {a : Nat}
    (h : HasAt ts a fun t => t.kind = .parenR ∧ t.isType = false) :
    ParametersStand source ts a a [] := by
  refine ⟨⟨.ofOptions source {}, false, { (default : State) with
    tokens := Array.replicate a default, cur := { (default : Token) with kind := .parenR } }, _, rfl,
    ⟨rfl, rfl⟩, rfl, .nil rfl, ?_, ?_, fun i hi hia => absurd hi (Nat.not_le_of_lt hia)⟩, h⟩
  · exact Array.size_replicate
  · exact Array.size_replicate

theorem ParametersStand.inRow {ts : Array Token} (h : ParametersStand source ts a e qs) :
    ParametersInRow source ts a qs e := by
  obtain ⟨⟨c, properties, st, st', rfl, hst, hvalue, hreads, rfl, rfl, hsame⟩, -⟩ := h
  exact (hreads.inRow hst hvalue).2.of_same hsame

theorem ParametersStand.of_same (h : ParametersStand source ts a e qs)
    (hs : SameBetween a (e + 1) ts us) :
    ParametersStand source us a e qs := by
  have hle := h.inRow.le
  obtain ⟨⟨c, properties, st, st', hsource, hst, hvalue, hreads, ha, he, hsame⟩, hclose⟩ := h
  exact ⟨⟨c, properties, st, st', hsource, hst, hvalue, hreads, ha, he,
    fun i hi hie => (hs i hi (by omega)).trans (hsame i hi hie)⟩,
    hclose.of_same hs hle (Nat.lt_succ_self e)⟩

/-- What is read between parentheses are parameters. -/
theorem exists_parametersStand (hst : st.IsBare) (hvalue : st.isType = false)
    (h : parameters run properties c st = .ok () st') :
    ∃ qs, ParametersStand c.source st'.tokens (st.tokens.size + 1) (st'.tokens.size - 1) qs := by
  have h' : (openContext .parenL >>= fun _ =>
      bindingList run .parenR .functionScoped false properties >>= fun _ =>
      closeContext .parenR) c st = .ok () st' := (FunctionPart.parameters properties).parser_eq ▸ h
  obtain ⟨id, st₁, hopen, h₁⟩ := Parser.exists_of_bind h'
  obtain ⟨_, st₂, hlist, hclose⟩ := Parser.exists_of_bind h₁
  obtain ⟨hbare, hvalue₁, -⟩ := isBare_of_openContext hst hvalue hopen
  obtain ⟨t, htokens, -, -, -, hcontexts, -⟩ := exists_of_openContext hopen
  obtain ⟨qs, hreads⟩ := exists_readsParameters hlist
  obtain ⟨hs, -⟩ := hreads.inRow hbare hvalue₁
  obtain ⟨u, hlast, hkind, -⟩ := exists_of_closeContext (hs.contexts.trans hcontexts) hclose
  obtain ⟨hsame, hplain⟩ := same_of_closeContext hclose
  have hstop : st'.tokens.size - 1 = st₂.tokens.size := by
    rw [hlast, Array.size_push, Nat.add_sub_cancel]
  have hend : HasAt st'.tokens st₂.tokens.size fun t => t.kind = .parenR ∧ t.isType = false := by
    obtain ⟨u', hu', htype⟩ := hplain hs.bare (hs.isType.trans hvalue₁)
    rw [hlast, Array.getElem?_push_size] at hu'
    cases hu'
    exact ⟨u, by rw [hlast, Array.getElem?_push_size], hkind, htype⟩
  refine ⟨qs, ⟨c, properties, st₁, st₂, rfl, hbare, hvalue₁, hreads, ?_, hstop.symm, ?_⟩, ?_⟩
  · rw [htokens, Array.size_push]
  · exact hsame.mono (Nat.zero_le _) (Nat.le_of_eq hstop)
  · rw [hstop]
    exact hend

end

end Downlevel.Grammar
