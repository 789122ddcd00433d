import Downlevel.Proofs.Grammar.Parameters

/-!
# Members of a class

The members of a class follow each other, and each of them has one of a few shapes: a semicolon,
tokens of types only, a static block, a method with a body, or a field.
-/

set_option synthInstance.maxSize 1000000000000000000

namespace Downlevel.Grammar

open Grammar.Parser

variable {name nameEnd : Nat} {ms : List Member}

/-! ## Shapes of members -/

/-- The token of an index is a modifier of a member. -/
def IsModifier (source : Text) (ts : Array Token) (i : Nat) : Prop :=
  HasAt ts i fun t => t.context = none ∧ (t.kind = .star ∧ t.isType = false
    ∨ IsOneOf source memberModifiers t
      ∧ (t.isType = false → HasAt ts (i + 1) fun u => u.kind ∉ memberNameFollowers))

/-- The tokens from `a` up to `b` are modifiers. -/
def ModifiersBetween (source : Text) (ts : Array Token) (a b : Nat) : Prop :=
  ∀ i, a ≤ i → i < b → IsModifier source ts i

/-- A token of this kind is the name of a member by itself. -/
def isNameKind (kind : Kind) : Bool :=
  [.string, .num, .bigInt, .privateName].contains kind || kind.isNameLike

/-- The name of a member is read as the tokens from `a` up to `b`. -/
structure NameStands (ts : Array Token) (a b : Nat) : Prop where
  plain : HasAt ts a IsPlain
  form : (b = a + 1 ∧ HasAt ts a fun t => isNameKind t.kind = true)
    ∨ (a + 1 < b ∧ HasAt ts a (·.kind = .bracketL) ∧ HasAt ts (b - 1) (·.kind = .bracketR))

/-- Modifiers, a name and types are read as the tokens from `a` up to `b`. -/
structure HeadStands (source : Text) (ts : Array Token) (a name nameEnd b : Nat) : Prop where
  le : a ≤ name
  modifiers : ModifiersBetween source ts a name
  name : NameStands ts name nameEnd
  types : TypesBetween ts nameEnd b
  end_le : nameEnd ≤ b

/-- What a member of a class is, with the indices of its parts. -/
inductive Shape where
  /-- A semicolon, also one that ends a field. -/
  | semicolon
  /-- Tokens of types only. -/
  | erased
  /-- A static block. -/
  | block
  /-- A method with a body: the first token of its name and the index past it, the opening
  parenthesis and the opening brace. -/
  | method (name nameEnd paren brace : Nat)
  /-- A field: the first token of its name and the index past it, and the `=` of its
  initializer. -/
  | field (name nameEnd : Nat) (equals : Option Nat)
  deriving Repr, DecidableEq

/-- A member of a class: the index of its first token and the index past its last. -/
structure Member where
  start : Nat
  stop : Nat
  shape : Shape
  deriving Repr, DecidableEq

/-- A member is read as these tokens. -/
inductive Member.Stands (source : Text) (ts : Array Token) : Member → Prop
  | semicolon {a : Nat} (h : HasAt ts a fun t => IsPlain t ∧ t.kind = .semi) :
      Stands source ts ⟨a, a + 1, .semicolon⟩
  | erased {a b : Nat} (hle : a ≤ b) (h : TypesBetween ts a b) : Stands source ts ⟨a, b, .erased⟩
  | block {a e : Nat} (h : HasAt ts a fun t => IsPlain t ∧ IsOneOf source ["static"] t)
      (hbrace : HasAt ts (a + 1) (·.isType = false))
      (hbody : FunctionPart.body.Delimited ts (a + 1) e) : Stands source ts ⟨a, e + 1, .block⟩
  | method {a name nameEnd paren parenEnd brace e : Nat} {properties : Bool}
      (head : HeadStands source ts a name nameEnd paren)
      (hparen : HasAt ts paren (·.isType = false))
      (hparameters : (FunctionPart.parameters properties).Delimited ts paren parenEnd)
      (hitems : ∃ qs, ParametersStand source ts (paren + 1) parenEnd qs)
      (hreturn : TypesBetween ts (parenEnd + 1) brace) (hlt : parenEnd < brace)
      (hbrace : HasAt ts brace (·.isType = false))
      (hbody : FunctionPart.body.Delimited ts brace e) :
      Stands source ts ⟨a, e + 1, .method name nameEnd paren brace⟩
  | field {a name nameEnd e : Nat} (head : HeadStands source ts a name nameEnd e) :
      Stands source ts ⟨a, e, .field name nameEnd none⟩
  | initialized {a name nameEnd equals e : Nat} (head : HeadStands source ts a name nameEnd equals)
      (hlt : equals < e)
      (hequals : HasAt ts equals fun t => IsPlain t ∧ t.kind = .eq ∧ t.rhsEnd = some e) :
      Stands source ts ⟨a, e, .field name nameEnd (some equals)⟩

/-! ## Members stay as they are -/

section

variable {source : Text} {ts us : Array Token} {a b d lo hi i : Nat} {P : Token → Prop} {m : Member}

theorem ModifiersBetween.of_same (h : ModifiersBetween source ts a d) (hs : SameBetween lo hi ts us)
    (hlo : lo ≤ a) (hhi : d < hi) : ModifiersBetween source us a d := by
  intro i ha hi
  obtain ⟨t, ht, hcontext, hform⟩ := h i ha hi
  refine ⟨t, (hs i (by omega) (by omega)).trans ht, hcontext, ?_⟩
  refine hform.imp_right (And.imp_right fun hnext htype => ?_)
  exact (hnext htype).of_same hs (by omega) (by omega)

theorem NameStands.lt (h : NameStands ts a b) : a < b := by
  rcases h.form with ⟨rfl, -⟩ | ⟨hlt, -⟩
  · exact Nat.lt_succ_self a
  · exact Nat.lt_of_succ_lt hlt

theorem NameStands.of_same (h : NameStands ts a d) (hs : SameBetween lo hi ts us) (hlo : lo ≤ a)
    (hhi : d ≤ hi) : NameStands us a d := by
  have hlt := h.lt
  refine ⟨h.plain.of_same hs hlo (by omega), ?_⟩
  rcases h.form with ⟨rfl, hkind⟩ | ⟨hlt, hopen, hclose⟩
  · exact .inl ⟨rfl, hkind.of_same hs hlo (by omega)⟩
  · exact .inr ⟨hlt, hopen.of_same hs hlo (by omega), hclose.of_same hs (by omega) (by omega)⟩

theorem HeadStands.of_same (h : HeadStands source ts a name nameEnd d)
    (hs : SameBetween lo hi ts us) (hlo : lo ≤ a) (hhi : d ≤ hi) :
    HeadStands source us a name nameEnd d := by
  have hlt := h.name.lt
  have hle := h.end_le
  have hle' := h.le
  exact ⟨h.le, h.modifiers.of_same hs hlo (by omega), h.name.of_same hs (by omega) (by omega),
    h.types.of_same hs (by omega) hhi, hle⟩

theorem HeadStands.start_le (head : HeadStands source ts a name nameEnd d) :
    a ≤ d :=
  Nat.le_trans head.le (Nat.le_trans (Nat.le_of_lt head.name.lt) head.end_le)

/-- A member stays what it is when more is read behind it. -/
theorem Member.Stands.of_same (h : m.Stands source ts) (hs : SameBetween m.start m.stop ts us) :
    m.Stands source us := by
  cases h with
  | semicolon h => exact .semicolon (h.of_same hs (Nat.le_refl _) (Nat.lt_succ_self _))
  | erased hle h => exact .erased hle (h.of_same hs (Nat.le_refl _) (Nat.le_refl _))
  | block h hbrace hbody =>
    have hlt := hbody.lt
    refine .block (h.of_same hs ?_ ?_) (hbrace.of_same hs ?_ ?_) (hbody.of_same hs ?_ ?_) <;>
      dsimp only <;> omega
  | method head hparen hparameters hitems hreturn hlt hbrace hbody =>
    have h₁ := hparameters.lt
    have h₂ := hbody.lt
    have h₃ := head.start_le
    obtain ⟨qs, hqs⟩ := hitems
    refine .method (head.of_same hs ?_ ?_) (hparen.of_same hs ?_ ?_)
      (hparameters.of_same hs ?_ ?_) ⟨qs, hqs.of_same (hs.mono ?_ ?_)⟩ (hreturn.of_same hs ?_ ?_) hlt
      (hbrace.of_same hs ?_ ?_) (hbody.of_same hs ?_ ?_) <;> dsimp only <;> omega
  | field head => exact .field (head.of_same hs (Nat.le_refl _) (Nat.le_refl _))
  | initialized head hlt hequals =>
    exact .initialized (head.of_same hs (Nat.le_refl _) (Nat.le_of_lt hlt)) hlt
      (hequals.of_same hs head.start_le hlt)

/-- Members are read one after the other, as the tokens from the first index up to the second. -/
inductive InRow (source : Text) (ts : Array Token) : Nat → List Member → Nat → Prop
  | nil {a : Nat} : InRow source ts a [] a
  | cons {m : Member} {ms : List Member} {e : Nat} (hm : m.Stands source ts)
      (hms : InRow source ts m.stop ms e) : InRow source ts m.start (m :: ms) e

theorem Member.Stands.le (h : m.Stands source ts) : m.start ≤ m.stop := by
  cases h with
  | semicolon => exact Nat.le_succ _
  | erased hle => exact hle
  | block _ _ hbody =>
    have hlt := hbody.lt
    dsimp only
    omega
  | method head _ hparameters _ _ hlt _ hbody =>
    have h₁ := head.name.lt
    have h₂ := hparameters.lt
    have h₃ := hbody.lt
    have h₄ := head.le
    have h₅ := head.end_le
    dsimp only
    omega
  | field head =>
    exact Nat.le_trans head.le (Nat.le_trans (Nat.le_of_lt head.name.lt) head.end_le)
  | initialized head hlt =>
    have h₁ := head.name.lt
    have h₂ := head.le
    have h₃ := head.end_le
    dsimp only
    omega

theorem InRow.le (h : InRow source ts a ms d) : a ≤ d := by
  induction h with
  | nil => exact Nat.le_refl _
  | cons hm _ ih => exact Nat.le_trans hm.le ih

theorem InRow.of_same (h : InRow source ts a ms d) (hs : SameBetween a d ts us) :
    InRow source us a ms d := by
  induction h with
  | nil => exact .nil
  | cons hm hms ih =>
    exact .cons (hm.of_same (hs.mono (Nat.le_refl _) hms.le)) (ih (hs.mono hm.le (Nat.le_refl _)))

theorem InRow.stands (h : InRow source ts a ms d) (hm : m ∈ ms) :
    m.Stands source ts := by
  induction h with
  | nil => cases hm
  | cons hfirst _ ih =>
    rcases List.mem_cons.mp hm with rfl | hm
    · exact hfirst
    · exact ih hm

theorem Member.Stands.brace_lt {name nameEnd paren brace : Nat} (h : m.Stands source ts)
    (hshape : m.shape = .method name nameEnd paren brace) :
    brace < m.stop - 1 := by
  cases h with
  | method _ _ _ _ _ _ _ hbody =>
    cases hshape
    exact hbody.lt
  | semicolon | erased | block | field | initialized => cases hshape

theorem InRow.tail (h : InRow source ts a (m :: ms) d) :
    InRow source ts m.stop ms d := by
  cases h with
  | cons _ h => exact h

theorem InRow.append {ms ms' : List Member} (h : InRow source ts a ms b)
    (h' : InRow source ts b ms' d) : InRow source ts a (ms ++ ms') d := by
  induction h with
  | nil => exact h'
  | cons hm _ ih => exact .cons hm (ih h')

end

/-! ## Reading members -/

section

variable {c : Setting} {st st' st₀ : State} {t : Token} {a b : Nat} {P : Token → Prop}
  {properties : Bool} {isStatement : Bool} {tokens : Array Token}

/-! ### Modifiers -/

/-- The finished tokens and the one ahead. -/
def State.line (st : State) : Array Token :=
  st.tokens.push st.cur

theorem Finishes.line_hasAt {i : Nat} (h : Finishes st t st') (hkind : t.kind = st.cur.kind)
    (hi : i ≤ st.tokens.size) {kinds : List Kind} (hline : HasAt st.line i (·.kind ∉ kinds)) :
    HasAt st'.tokens i (·.kind ∉ kinds) := by
  obtain ⟨u, hu, hnot⟩ := hline
  rw [State.line, Array.getElem?_push] at hu
  split at hu
  · rename_i heq
    cases hu
    rw [heq]
    exact h.hasAt (by rw [hkind]; exact hnot)
  · exact ⟨u, (h.spends.same i (Nat.zero_le _) (by omega)).trans hu, hnot⟩

/-- Modifiers are known for what they are as soon as the token behind them is finished. -/
theorem ModifiersBetween.finishes (h : ModifiersBetween c.source st.line a st.tokens.size)
    (hf : Finishes st t st') (hkind : t.kind = st.cur.kind) :
    ModifiersBetween c.source st'.tokens a st.tokens.size := by
  intro i ha hi
  obtain ⟨u, hu, hcontext, hform⟩ := h i ha hi
  rw [State.line, Array.getElem?_push, if_neg (Nat.ne_of_lt hi)] at hu
  refine ⟨u, (hf.spends.same i (Nat.zero_le _) hi).trans hu, hcontext, ?_⟩
  refine hform.imp_right (And.imp_right fun hnext htype => ?_)
  exact hf.line_hasAt hkind hi (hnext htype)

/-- Asking for a modifier changes nothing. -/
theorem eq_of_atMemberModifier {b : Bool} (h : atMemberModifier c st = .ok b st') :
    st' = st ∧ (b = true → IsOneOf c.source memberModifiers st.cur
      ∧ ∃ u, peek c st = .ok u st ∧ u.kind ∉ memberNameFollowers) := by
  unfold atMemberModifier at h
  rw [Looks.bind_apply] at h
  split at h
  · rename_i hword
    obtain ⟨u, st₁, hpeek, hrest⟩ := Parser.exists_of_bind h
    obtain rfl := eq_of_peek hpeek
    rw [Looks.bind_apply] at hrest
    obtain ⟨hb, rfl⟩ := EStateM.Result.ok.inj hrest
    refine ⟨rfl, fun htrue => ?_⟩
    have hname : (decide (st₁.cur.kind = .name)
        && memberModifiers.contains (String.ofList (st₁.cur.text c.source))) = true := hword
    simp only [Bool.and_eq_true, decide_eq_true_eq, List.contains_iff_mem] at hname
    refine ⟨⟨hname.1, hname.2⟩, u, hpeek, fun hmem => ?_⟩
    rw [htrue, List.contains_iff_mem.mpr hmem] at hb
    cases hb
  · cases h
    exact ⟨rfl, by simp⟩

/-- The tokens so far are modifiers. -/
structure InModifiers (c : Setting) (st₀ : State) (st : State) : Prop where
  spends : Spends st₀ st
  modifiers : ModifiersBetween c.source st.line st₀.tokens.size st.tokens.size

/-- Another modifier is finished. -/
theorem InModifiers.finishes (h : InModifiers c st₀ st) (hf : Finishes st t st')
    (hkind : t.kind = st.cur.kind) (hcontext : t.context = none)
    (hform : t.kind = .star ∧ t.isType = false ∨ IsOneOf c.source memberModifiers t
      ∧ (t.isType = false → st'.cur.kind ∉ memberNameFollowers)) : InModifiers c st₀ st' := by
  refine ⟨h.spends.trans hf.spends, fun i ha hi => ?_⟩
  have hline : ∀ {j : Nat} {Q : Token → Prop}, HasAt st'.tokens j Q → HasAt st'.line j Q := by
    rintro j Q ⟨u, hu, hQ⟩
    have hlt := (Array.getElem?_eq_some_iff.mp hu).1
    exact ⟨u, by rw [State.line, Array.getElem?_push, if_neg (Nat.ne_of_lt hlt)]; exact hu, hQ⟩
  rw [hf.size] at hi
  rcases Nat.lt_or_eq_of_le (Nat.lt_succ_iff.mp hi) with hlt | rfl
  · obtain ⟨u, hu, hplain, hform⟩ := h.modifiers.finishes hf hkind i ha hlt
    refine hline ⟨u, hu, hplain, ?_⟩
    exact hform.imp_right (And.imp_right fun hnext htype => hline (hnext htype))
  · refine hline (hf.hasAt ⟨hcontext, hform.imp_right (And.imp_right fun hnext htype => ?_)⟩)
    exact ⟨st'.cur, by rw [State.line, ← hf.size, Array.getElem?_push_size], hnext htype⟩

theorem inModifiers_of_modifiers {ambient : Bool} (hst : st.IsBare)
    (h : modifiers c st = .ok ambient st') : InModifiers c st st' := by
  have hstart : InModifiers c st st :=
    ⟨.refl hst, fun i ha hi => absurd ha (Nat.not_le_of_lt hi)⟩
  refine of_loop (I := fun _ => InModifiers c st) (D := fun _ => InModifiers c st)
    (fun x st₁ y st₂ hx hstep => ?_) (fun x st₁ y st₂ hx hstep => ?_) hstart h
  · obtain ⟨b, st₀, hat, hrest⟩ := Parser.exists_of_bind hstep
    obtain ⟨rfl, hmodifier⟩ := eq_of_atMemberModifier hat
    split at hrest
    case isFalse => cases hrest
    rename_i hb
    obtain ⟨hword, u, hpeek, hfollower⟩ := hmodifier hb
    have hbare := hx.spends.bare
    simp only [Looks.bind_apply] at hrest
    split at hrest
    · rw [Looks.bind_apply] at hrest
      obtain ⟨_, st₃, hnext, hpure⟩ := Parser.exists_of_bind hrest
      cases hpure
      refine hx.finishes (finishes_inType_next hnext) rfl hbare.context (.inr ⟨⟨?_, ?_⟩, nofun⟩)
      · exact hword.kind
      · exact hword.text
    · obtain ⟨_, st₃, hnext, hpure⟩ := Parser.exists_of_bind hrest
      cases hpure
      refine hx.finishes (finishes_next hnext) rfl hbare.context
        (.inr ⟨⟨hword.kind, hword.text⟩, fun _ => ?_⟩)
      rw [cur_of_peek hpeek hnext]
      exact hfollower
  · obtain ⟨b, st₀, hat, hrest⟩ := Parser.exists_of_bind hstep
    obtain ⟨rfl, -⟩ := eq_of_atMemberModifier hat
    split at hrest
    · simp only [Looks.bind_apply] at hrest
      split at hrest
      · rw [Looks.bind_apply] at hrest
        obtain ⟨_, st₃, -, hpure⟩ := Parser.exists_of_bind hrest
        cases hpure
      · obtain ⟨_, st₃, -, hpure⟩ := Parser.exists_of_bind hrest
        cases hpure
    · cases hrest
      exact hx

/-! ### Names -/

/-- A name is read, the token ahead first. -/
theorem nameStands_of_memberName (hst : st.IsBare) (hvalue : st.isType = false)
    (h : memberName run c st = .ok () st') : NameStands st'.tokens st.tokens.size st'.tokens.size
      ∧ ∃ st₁, Finishes st st.finished st₁ ∧ Spends st₁ st' := by
  have hplain := isPlain_finished hst hvalue
  unfold memberName at h
  rw [Looks.bind_apply] at h
  split at h
  · rename_i hkind
    obtain ⟨_, st₁, hnext, h₁⟩ := Parser.exists_of_bind h
    obtain ⟨_, st₂, hcall, hexpect⟩ := Parser.exists_of_bind h₁
    have hopen := finishes_next hnext
    have hinner : Spends st₁ st₂ := Keeps.spends ((calls_run c).obeys (.assignment false)) hopen.bare hcall
    obtain ⟨hclose, hnext'⟩ := next_of_expect hexpect
    have hend := finishes_next hnext'
    have hrest : Spends st₁ st' := hinner.trans hend.spends
    have hsize := hend.size
    have hsize₁ := hopen.size
    have hle := hinner.kept.size
    refine ⟨⟨(hopen.hasAt hplain).of_same hrest.same (Nat.zero_le _) (by omega), .inr ⟨by omega, ?_, ?_⟩⟩, st₁,
      hopen, hrest⟩
    · exact (hopen.hasAt (P := (·.kind = .bracketL)) hkind).of_same hrest.same (Nat.zero_le _) (by omega)
    · rw [hsize, Nat.add_sub_cancel]
      exact hend.hasAt (P := (·.kind = .bracketR)) hclose
  · split at h
    · rename_i hkind
      have hone := finishes_next h
      exact ⟨⟨hone.hasAt hplain, .inl ⟨hone.size, hone.hasAt hkind⟩⟩, st', hone, .refl hone.bare⟩
    · exact absurd h unexpected_ne_ok

/-! ### Methods -/

/-- Tokens that are marked are one member. -/
theorem inRow_of_markTypesFrom (hle : a ≤ st.tokens.size) (h : markTypesFrom a c st = .ok () st') :
    ∃ ms, InRow c.source st'.tokens a ms st'.tokens.size := by
  have htypes := typesBetween_of_markTypesFrom h
  cases h
  exact ⟨_, .cons (.erased (by simpa using hle) htypes) .nil⟩

/-- Types are read behind the name. -/
theorem HeadStands.types_of_spends
    (head : HeadStands c.source st.tokens a name nameEnd st.tokens.size) (hs : Spends st st')
    (htypes : TypesBetween st'.tokens st.tokens.size st'.tokens.size) :
    HeadStands c.source st'.tokens a name nameEnd st'.tokens.size := by
  have hhead := head.of_same hs.same (Nat.zero_le _) (Nat.le_refl _)
  exact ⟨hhead.le, hhead.modifiers, hhead.name, hhead.types.trans htypes,
    Nat.le_trans hhead.end_le hs.kept.size⟩

theorem inRow_of_signatureAndBody (hst : st.IsBare) (hvalue : st.isType = false)
    (head : HeadStands c.source st.tokens a name nameEnd st.tokens.size)
    (h : signatureAndBody run a properties c st = .ok () st') :
    ∃ ms, InRow c.source st'.tokens a ms st'.tokens.size := by
  obtain ⟨_, st₁, hparameters, h₁⟩ := Parser.exists_of_bind h
  obtain ⟨_, st₂, hreturn, h₂⟩ := Parser.exists_of_bind h₁
  have hfirst : (FunctionPart.parameters properties).parser c st = .ok () st₁ := hparameters
  have hdelimited := FunctionPart.delimited _ hfirst
  obtain ⟨qs, hqs⟩ := exists_parametersStand hst hvalue hparameters
  have hs₁ := (keeps_parameters (calls_run c)).spends hst hparameters
  have hs₂ := (keeps_maybeReturnType (calls_run c)).spends hs₁.bare hreturn
  have htypes := typesBetween_of_maybeReturnType hreturn
  have hlt₁ := hdelimited.lt
  have hle₂ := hs₂.kept.size
  rw [Looks.bind_apply] at h₂
  split at h₂
  · have hbody : FunctionPart.body.parser c st₂ = .ok () st' := h₂
    have hdelimited' := FunctionPart.delimited _ hbody
    have hs₃ := (keeps_functionBody (calls_run c)).spends hs₂.bare h₂
    have hvalue₂ : st₂.isType = false := (hs₂.isType.trans hs₁.isType).trans hvalue
    have hlt' := hdelimited'.lt
    have hbetween : SameBetween 0 st₁.tokens.size st₁.tokens st'.tokens := (hs₂.trans hs₃).same
    have hmember := Member.Stands.method
      (head.of_same ((hs₁.trans hs₂).trans hs₃).same (Nat.zero_le _) (Nat.le_refl _))
      ((FunctionPart.hasAt_isType _ hst hvalue hfirst).of_same hbetween (Nat.zero_le _) (by omega))
      (hdelimited.of_same hbetween (Nat.zero_le _) (by omega))
      ⟨qs, hqs.of_same (hbetween.mono (Nat.zero_le _) (by omega))⟩
      ((Nat.sub_add_cancel (by omega : 1 ≤ st₁.tokens.size)).symm ▸
        htypes.of_same hs₃.same (Nat.zero_le _) (Nat.le_refl _))
      (by omega) (FunctionPart.hasAt_isType _ hs₂.bare hvalue₂ hbody) hdelimited'
    have hstop : st'.tokens.size - 1 + 1 = st'.tokens.size := by omega
    exact ⟨_, .cons hmember (by rw [hstop]; exact .nil)⟩
  · rw [Looks.bind_apply] at h₂
    split at h₂
    · obtain ⟨_, st₃, hsemicolon, hmark⟩ := Parser.exists_of_bind h₂
      have hs₃ := (Takes.keeps (p := inType semicolon)).spends hs₂.bare hsemicolon
      refine inRow_of_markTypesFrom ?_ hmark
      exact Nat.le_trans head.start_le ((hs₁.trans hs₂).trans hs₃).kept.size
    · exact absurd h₂ unexpected_ne_ok

theorem inRow_of_method (hst : st.IsBare) (hvalue : st.isType = false)
    (head : HeadStands c.source st.tokens a name nameEnd st.tokens.size)
    (h : method run (some a) properties c st = .ok () st') :
    ∃ ms, InRow c.source st'.tokens a ms st'.tokens.size := by
  obtain ⟨_, st₁, henter, h₁⟩ := Parser.exists_of_bind h
  obtain ⟨_, st₂, htypes, h₂⟩ := Parser.exists_of_bind h₁
  obtain ⟨_, st₃, hcount, h₃⟩ := Parser.exists_of_bind h₂
  cases hcount
  obtain ⟨_, st₄, hsignature, hleave⟩ := Parser.exists_of_bind h₃
  obtain ⟨hs₁, htokens⟩ := spends_enterScope hst henter
  have hs₂ := (keeps_maybeTypeParameters (calls_run c)).spends hs₁.bare htypes
  have hhead := (htokens.symm ▸ head : HeadStands c.source st₁.tokens a name nameEnd
    st₁.tokens.size).types_of_spends hs₂ (typesBetween_of_maybeTypeParameters htypes)
  have hvalue₂ : st₂.isType = false := (hs₂.isType.trans hs₁.isType).trans hvalue
  obtain ⟨ms, hms⟩ := inRow_of_signatureAndBody hs₂.bare hvalue₂ hhead hsignature
  obtain ⟨depth, rfl⟩ := eq_of_leaveScope hleave
  exact ⟨ms, hms⟩

/-! ### Fields -/

/-- A semicolon is a member of its own. -/
theorem Finishes.tiles_semicolon (hst : st.IsBare) (hvalue : st.isType = false)
    (h : Finishes st st.finished st') (hkind : st.cur.kind = .semi) :
    InRow c.source st'.tokens st.tokens.size [⟨st.tokens.size, st.tokens.size + 1, .semicolon⟩]
      st'.tokens.size := by
  refine .cons (.semicolon (h.hasAt ⟨isPlain_finished hst hvalue, hkind⟩)) ?_
  rw [h.size]
  exact .nil

/-- The end of a field is nothing or a semicolon. -/
theorem inRow_of_semicolon (hst : st.IsBare) (hvalue : st.isType = false)
    (h : semicolon c st = .ok () st') :
    SameBetween 0 st.tokens.size st.tokens st'.tokens ∧ ∃ ms,
      InRow c.source st'.tokens st.tokens.size ms st'.tokens.size := by
  obtain ⟨b, st₁, heat, hend⟩ := Parser.exists_of_bind h
  rcases finishes_of_eat heat with ⟨rfl, hkind, hf⟩ | ⟨rfl, rfl⟩
  · cases hend
    exact ⟨hf.spends.same, _, hf.tiles_semicolon hst hvalue hkind⟩
  · rw [if_neg Bool.false_ne_true, Looks.bind_apply] at hend
    split at hend
    · cases hend
      exact ⟨fun _ _ _ => rfl, [], .nil⟩
    · exact absurd hend unexpected_ne_ok

theorem inRow_of_field (hst : st.IsBare) (hvalue : st.isType = false)
    (head : HeadStands c.source st.tokens a name nameEnd st.tokens.size)
    (h : field run c st = .ok () st') : ∃ ms, InRow c.source st'.tokens a ms st'.tokens.size := by
  obtain ⟨_, st₁, hannotation, h₁⟩ := Parser.exists_of_bind h
  have hs₁ := (maybeAnnotation_keeps (calls_run c)).spends hst hannotation
  have hhead := head.types_of_spends hs₁ ( typesBetween_of_maybeAnnotation hannotation)
  have hvalue₁ : st₁.isType = false := hs₁.isType.trans hvalue
  rw [Looks.bind_apply] at h₁
  split at h₁
  · rename_i hkind
    obtain ⟨_, st₂, hcount, h₂⟩ := Parser.exists_of_bind h₁
    cases hcount
    obtain ⟨_, st₂, hnext, h₃⟩ := Parser.exists_of_bind h₂
    obtain ⟨_, st₃, hcall, h₄⟩ := Parser.exists_of_bind h₃
    obtain ⟨_, st₄, hcount, h₅⟩ := Parser.exists_of_bind h₄
    cases hcount
    obtain ⟨_, st₄, hmodify, hsemicolon⟩ := Parser.exists_of_bind h₅
    have hequals := finishes_next hnext
    have hs₃ : Spends st₂ st₃ := Keeps.spends ((calls_run c).obeys (.assignment false)) hequals.bare hcall
    have hsize := hequals.size
    have hle := hs₃.kept.size
    have hplain := isPlain_finished hs₁.bare hvalue₁
    have hvalue₃ : st₃.isType = false := (hs₃.isType.trans hequals.isType).trans hvalue₁
    cases hmodify
    -- the `=` is changed once more, when it is known where the initializer ends
    have hbelow : SameBetween 0 st₁.tokens.size st₁.tokens
        (st₃.tokens.modify st₁.tokens.size fun t => { t with rhsEnd := some st₃.tokens.size }) := by
      intro i _ hi
      rw [Array.getElem?_modify, if_neg (Nat.ne_of_gt hi)]
      exact (hequals.spends.trans hs₃).kept.same i hi
    have hat : HasAt (st₃.tokens.modify st₁.tokens.size fun t =>
        { t with rhsEnd := some st₃.tokens.size }) st₁.tokens.size
        fun t => IsPlain t ∧ t.kind = .eq ∧ t.rhsEnd = some st₃.tokens.size := by
      obtain ⟨t, ht, htplain, htkind⟩ := (hequals.hasAt (P := fun t => IsPlain t ∧ t.kind = .eq)
        ⟨hplain, of_decide_eq_true hkind⟩).of_same hs₃.same (Nat.zero_le _) (by omega)
      refine ⟨{ t with rhsEnd := some st₃.tokens.size }, ?_, ⟨htplain.isType, htplain.context⟩,
        htkind, rfl⟩
      rw [Array.getElem?_modify, if_pos rfl, ht]
      rfl
    have hmember := Member.Stands.initialized (hhead.of_same hbelow (Nat.zero_le _) (Nat.le_refl _))
      (by omega : st₁.tokens.size < st₃.tokens.size) hat
    have hbare : State.IsBare { st₃ with tokens := st₃.tokens.modify st₁.tokens.size fun t =>
        { t with rhsEnd := some st₃.tokens.size } } := ⟨hs₃.bare.context, hs₃.bare.isType⟩
    have hend := inRow_of_semicolon hbare hvalue₃ hsemicolon
    simp only [Array.size_modify] at hend
    obtain ⟨hsame, ms, hms⟩ := hend
    exact ⟨_, .cons (hmember.of_same (hsame.mono (Nat.zero_le _) (Nat.le_refl _))) hms⟩
  · obtain ⟨hsame, ms, hms⟩ := inRow_of_semicolon hs₁.bare hvalue₁ h₁
    exact ⟨_, .cons (.field (hhead.of_same hsame (Nat.zero_le _) (Nat.le_refl _))) hms⟩

/-! ### Whole members -/

/-- What comes behind the name of a member and the types there. -/
theorem inRow_of_memberTail {ambient isConstructor : Bool} (hst : st.IsBare)
    (hvalue : st.isType = false)
    (head : HeadStands c.source st.tokens a name nameEnd st.tokens.size) (h : (do
      if ← isOneOf [.parenL, .lessThan] then method run (some a) isConstructor
      else
        field run
        if ambient then markTypesFrom a) c st = .ok () st') :
    ∃ ms, InRow c.source st'.tokens a ms st'.tokens.size := by
  rw [Looks.bind_apply] at h
  split at h
  · exact inRow_of_method hst hvalue head h
  · obtain ⟨_, st₁, hfield, hmark⟩ := Parser.exists_of_bind h
    cases ambient with
    | true =>
      refine inRow_of_markTypesFrom ?_ hmark
      exact Nat.le_trans head.start_le ((runs_field (calls_run c)).spends hst hfield).kept.size
    | false =>
      cases hmark
      exact inRow_of_field hst hvalue head hfield

theorem eq_of_atConstructor {b : Bool} (h : atConstructor c st = .ok b st') : st' = st := by
  unfold atConstructor at h
  rw [Looks.bind_apply] at h
  split at h
  · exact (EStateM.Result.ok.inj h).2.symm
  · rw [Looks.bind_apply] at h
    split at h
    · simp only [Looks.bind_apply] at h
      exact (EStateM.Result.ok.inj h).2.symm
    · exact (EStateM.Result.ok.inj h).2.symm

theorem inRow_of_namedMember (hst : st.IsBare) (hvalue : st.isType = false)
    (h : namedMember run st.tokens.size c st = .ok () st') :
    ∃ ms, InRow c.source st'.tokens st.tokens.size ms st'.tokens.size := by
  obtain ⟨ambient, st₁, hmodifiers, h₁⟩ := Parser.exists_of_bind h
  rw [Parser.discard_bind] at h₁
  obtain ⟨b, st₃, heat, h₂⟩ := Parser.exists_of_bind h₁
  obtain ⟨isConstructor, st₂, hat, h₃⟩ := Parser.exists_of_bind h₂
  obtain rfl := eq_of_atConstructor hat
  obtain ⟨_, st₄, hname, h₄⟩ := Parser.exists_of_bind h₃
  have hin₁ := inModifiers_of_modifiers hst hmodifiers
  have hvalue₁ : st₁.isType = false := hin₁.spends.isType.trans hvalue
  have hin₂ : InModifiers c st st₂ := by
    rcases finishes_of_eat heat with ⟨-, hstar, hf⟩ | ⟨-, rfl⟩
    · have hplain := isPlain_finished hin₁.spends.bare hvalue₁
      exact hin₁.finishes (t := st₁.finished) hf rfl hplain.context (.inl ⟨hstar, hplain.isType⟩)
    · exact hin₁
  have hvalue₂ : st₂.isType = false := hin₂.spends.isType.trans hvalue
  obtain ⟨hstands, st₅, hfirst, hrest⟩ := nameStands_of_memberName hin₂.spends.bare hvalue₂ hname
  have hlt : st₂.tokens.size < st₅.tokens.size := by
    rw [hfirst.size]
    exact Nat.lt_succ_self _
  have head : HeadStands c.source st₄.tokens st.tokens.size st₂.tokens.size st₄.tokens.size
      st₄.tokens.size :=
    ⟨hin₂.spends.kept.size, (hin₂.modifiers.finishes hfirst rfl).of_same hrest.same (Nat.zero_le _) hlt, hstands,
      .refl, Nat.le_refl _⟩
  have hvalue₄ : st₄.isType = false := (hrest.isType.trans hfirst.isType).trans hvalue₂
  simp only [Looks.bind_apply] at h₄
  split at h₄
  · obtain ⟨_, st₆, hnext, h₅⟩ := Parser.exists_of_bind h₄
    have hf := finishes_inType_next hnext
    have htypes : TypesBetween st₆.tokens st₄.tokens.size st₆.tokens.size := by
      intro i hi hlt
      rw [hf.size] at hlt
      obtain rfl : i = st₄.tokens.size := by omega
      exact hf.hasAt (P := (·.isType = true)) rfl
    exact inRow_of_memberTail hf.bare (hf.isType.trans hvalue₄)
      (head.types_of_spends hf.spends htypes) h₅
  · exact inRow_of_memberTail hrest.bare hvalue₄ head h₄

theorem eq_of_atStaticBlock {b : Bool} (h : atStaticBlock c st = .ok b st') :
    st' = st ∧ (b = true → IsOneOf c.source ["static"] st.cur) := by
  unfold atStaticBlock at h
  rw [Looks.bind_apply] at h
  split at h
  · rename_i hword
    obtain rfl := eq_of_peekIs h
    refine ⟨rfl, fun _ => ?_⟩
    have hname : (decide (st'.cur.kind = .name)
        && decide (st'.cur.text c.source = "static".toList)) = true := hword
    simp only [Bool.and_eq_true, decide_eq_true_eq] at hname
    exact ⟨hname.1, by rw [hname.2]; decide⟩
  · cases h
    exact ⟨rfl, by simp⟩

/-- Whatever is read as a member has one of the shapes. -/
theorem inRow_of_classMember (hst : st.IsBare) (hvalue : st.isType = false)
    (h : classMember run c st = .ok () st') :
    ∃ ms, InRow c.source st'.tokens st.tokens.size ms st'.tokens.size := by
  have hspends := (keeps_classMember (calls_run c)).spends hst h
  obtain ⟨_, st₀, hcount, h₁⟩ := Parser.exists_of_bind h
  cases hcount
  obtain ⟨b, st₁, heat, h₂⟩ := Parser.exists_of_bind h₁
  rcases finishes_of_eat heat with ⟨rfl, hkind, hf⟩ | ⟨rfl, rfl⟩
  · cases h₂
    exact ⟨_, hf.tiles_semicolon hst hvalue hkind⟩
  rw [if_neg Bool.false_ne_true] at h₂
  obtain ⟨b, st₂, hindex, h₃⟩ := Parser.exists_of_bind h₂
  obtain rfl := Lookahead.indexSignature.eq_of_parser hindex
  split at h₃
  · exact ⟨_, .cons (.erased hspends.kept.size (typesBetween_of_inType h₃)) .nil⟩
  obtain ⟨b, st₃, hblock, h₄⟩ := Parser.exists_of_bind h₃
  obtain ⟨rfl, hstatic⟩ := eq_of_atStaticBlock hblock
  split at h₄
  · rename_i hb
    obtain ⟨_, st₄, hnext, h₅⟩ := Parser.exists_of_bind h₄
    obtain ⟨_, st₅, henter, h₆⟩ := Parser.exists_of_bind h₅
    obtain ⟨_, st₆, hbody, hleave⟩ := Parser.exists_of_bind h₆
    obtain ⟨depth, rfl⟩ := eq_of_leaveScope hleave
    have hf := finishes_next hnext
    obtain ⟨hs₅, htokens⟩ := spends_enterScope hf.bare henter
    have hs₆ := (keeps_functionBody (calls_run c)).spends hs₅.bare hbody
    have hvalue₅ : st₅.isType = false := (hs₅.isType.trans hf.isType).trans hvalue
    have hpart : FunctionPart.body.parser c st₅ = .ok () st₆ := hbody
    have hdelimited := FunctionPart.delimited _ hpart
    have hbrace := FunctionPart.hasAt_isType _ hs₅.bare hvalue₅ hpart
    have hsize₅ : st₅.tokens.size = st₃.tokens.size + 1 := by rw [htokens, hf.size]
    have hlt := hdelimited.lt
    have hword : HasAt st₆.tokens st₃.tokens.size
        fun t => IsPlain t ∧ IsOneOf c.source ["static"] t := by
      have hstatic : IsOneOf c.source ["static"] st₃.finished :=
        ⟨(hstatic hb).kind, (hstatic hb).text⟩
      refine (hf.hasAt ⟨isPlain_finished hst hvalue, hstatic⟩).of_same (hs₅.trans hs₆).same
        (Nat.zero_le _) ?_
      rw [hf.size]
      exact Nat.lt_succ_self _
    rw [hsize₅] at hdelimited hbrace
    have hstop : st₆.tokens.size - 1 + 1 = st₆.tokens.size := by omega
    exact ⟨_, .cons (.block hword hbrace hdelimited) (by rw [hstop]; exact .nil)⟩
  · exact inRow_of_namedMember hst hvalue h₄

/-! ## Classes -/

/-- The members up to the closing brace. -/
theorem inRow_of_classMembers (hst : st.IsBare) (hvalue : st.isType = false)
    (h : repeatUntil .braceR (do if ← is .eof then unexpected else classMember run) c st = .ok () st') :
    st'.cur.kind = .braceR ∧ Spends st st' ∧ ∃ ms,
      InRow c.source st'.tokens st.tokens.size ms st'.tokens.size := by
  induction hrem : c.remaining st using Nat.strongRecOn generalizing st with
  | ind n ih =>
    rw [repeatUntil_apply] at h
    split at h
    · rename_i hkind
      cases h
      exact ⟨hkind, .refl hst, [], .nil⟩
    split at h
    · cases h
    rename_i st₁ hround
    split at h
    case isFalse => cases h
    rename_i hlt
    rw [Looks.bind_apply] at hround
    split at hround
    · exact absurd hround unexpected_ne_ok
    have hs₁ := (keeps_classMember (calls_run c)).spends hst hround
    obtain ⟨ms, hms⟩ := inRow_of_classMember hst hvalue hround
    obtain ⟨hkind, hs, ms', hms'⟩ := ih _ (hrem ▸ hlt) hs₁.bare (hs₁.isType.trans hvalue) h rfl
    exact ⟨hkind, hs₁.trans hs, _, (hms.of_same (hs.same.mono (Nat.zero_le _) (Nat.le_refl _))).append hms'⟩

/-- A class is read as these tokens: its keyword at `i`, its braces at `b` and `e`, and its
members between them. -/
structure ClassForm (source : Text) (ts : Array Token) (i b e : Nat) (ms : List Member) : Prop where
  lt : i < b
  context : ∃ id, (HasAt ts i fun t => t.kind = .kwClass ∧ t.context = some id)
    ∧ (HasAt ts b fun t => t.kind = .braceL ∧ t.context = some id)
    ∧ HasAt ts e fun t => t.kind = .braceR ∧ t.isType = false ∧ t.context = some id
  members : InRow source ts (b + 1) ms e

/-- The braces of a class and what is between them. -/
theorem inRow_of_classBody {id : Nat} {rest : List Nat} (hvalue : st.isType = false)
    (hcontexts : st.contexts = id :: rest) (h : classBody run id c st = .ok () st') :
    ∃ e ms, SameBetween 0 st.tokens.size st.tokens st'.tokens ∧ st'.tokens.size = e + 1
      ∧ (HasAt st'.tokens st.tokens.size fun t => t.kind = .braceL ∧ t.context = some id)
      ∧ (HasAt st'.tokens e fun t => t.kind = .braceR ∧ t.isType = false ∧ t.context = some id)
      ∧ InRow c.source st'.tokens (st.tokens.size + 1) ms e := by
  unfold classBody at h
  rw [Looks.bind_apply] at h
  split at h
  case isFalse => exact absurd h unexpected_ne_ok
  rename_i hbrace
  obtain ⟨_, st₁, hstamp, h₁⟩ := Parser.exists_of_bind h
  cases hstamp
  obtain ⟨_, st₂, hnext, h₂⟩ := Parser.exists_of_bind h₁
  obtain ⟨_, st₃, henter, h₃⟩ := Parser.exists_of_bind h₂
  obtain ⟨_, st₄, hmembers, h₄⟩ := Parser.exists_of_bind h₃
  obtain ⟨_, st₅, hleave, h₅⟩ := Parser.exists_of_bind h₄
  obtain ⟨depth, rfl⟩ := eq_of_leaveScope hleave
  obtain ⟨x, st₆, hpop, h₆⟩ := Parser.exists_of_bind h₅
  have hf := finishes_next hnext
  obtain ⟨hs₃, htokens⟩ := spends_enterScope hf.bare henter
  have hvalue₃ : st₃.isType = false := (hs₃.isType.trans hf.isType).trans hvalue
  obtain ⟨hkind, hs₄, ms, hms⟩ := inRow_of_classMembers hs₃.bare hvalue₃ hmembers
  have hcontexts₄ : State.contexts { st₄ with depth } = id :: rest :=
    ((hs₄.contexts.trans hs₃.contexts).trans hf.contexts).trans hcontexts
  rw [popContext_apply hcontexts₄] at hpop
  cases hpop
  obtain ⟨_, st₇, hstamp, hnext'⟩ := Parser.exists_of_bind h₆
  cases hstamp
  have hend := finishes_next hnext'
  have hs₇ : SameBetween 0 st₄.tokens.size st₄.tokens st'.tokens := hend.spends.same
  have hsize : st₃.tokens.size = st.tokens.size + 1 := by rw [htokens, hf.size]
  have hle := hs₄.kept.size
  have hall : SameBetween 0 st₂.tokens.size st₂.tokens st'.tokens := by
    intro i hi₀ hi
    have hi' : i < st₃.tokens.size := htokens ▸ hi
    rw [hs₇ i hi₀ (Nat.lt_of_lt_of_le hi' hle), hs₄.same i hi₀ hi', htokens]
  refine ⟨st₄.tokens.size, ms, fun i hi₀ hi => ?_, hend.size, ?_, ?_, ?_⟩
  · rw [hall i hi₀ (by rw [hf.size]; exact Nat.lt_succ_of_lt hi)]
    exact hf.spends.same i hi₀ hi
  · refine (hf.hasAt (P := fun t => t.kind = .braceL ∧ t.context = some id) ⟨?_, rfl⟩).of_same hall
      (Nat.zero_le _) ?_
    · exact of_decide_eq_true hbrace
    · rw [hf.size]
      exact Nat.lt_succ_self _
  · refine hend.hasAt (P := fun t => t.kind = .braceR ∧ t.isType = false ∧ t.context = some id)
      ⟨hkind, ?_, rfl⟩
    have hvalue₄ : st₄.isType = false := hs₄.isType.trans hvalue₃
    simp [State.finished, hs₄.bare.isType, hvalue₄]
  · rw [← hsize]
    exact hms.of_same (hs₇.mono (Nat.zero_le _) (Nat.le_refl _))

theorem classForm_of_classRule (hvalue : st.isType = false)
    (h : classRule run isStatement c st = .ok () st') :
    ∃ b e ms, ClassForm c.source st'.tokens st.tokens.size b e ms ∧ st'.tokens.size = e + 1 := by
  unfold classRule at h
  obtain ⟨id, st₁, hpush, h₁⟩ := Parser.exists_of_bind h
  cases hpush
  obtain ⟨_, st₂, hmodify, h₂⟩ := Parser.exists_of_bind h₁
  cases hmodify
  obtain ⟨_, st₃, hexpect, h₃⟩ := Parser.exists_of_bind h₂
  obtain ⟨_, st₄, hname, h₄⟩ := Parser.exists_of_bind h₃
  obtain ⟨_, st₅, htypes, h₅⟩ := Parser.exists_of_bind h₄
  obtain ⟨_, st₆, hheritage, hbody⟩ := Parser.exists_of_bind h₅
  obtain ⟨hkind, hnext⟩ := next_of_expect hexpect
  have hf := finishes_next hnext
  have hs₄ := keeps_maybeClassName.spends hf.bare hname
  have hs₅ := (keeps_maybeTypeParameters (calls_run c)).spends hs₄.bare htypes
  have hs₆ := (keeps_classHeritage (calls_run c)).spends hs₅.bare hheritage
  have hs : Spends st₃ st₆ := (hs₄.trans hs₅).trans hs₆
  obtain ⟨e, ms, hsame, hsize, hopen, hclose, hms⟩ := inRow_of_classBody
    ((hs.isType.trans hf.isType).trans hvalue) (hs.contexts.trans hf.contexts) hbody
  have hlt : st.tokens.size < st₃.tokens.size := by
    rw [hf.size]
    exact Nat.lt_succ_self _
  have hle := hs.kept.size
  have hkeyword := hf.hasAt (P := fun t => t.kind = .kwClass ∧ t.context = some _) ⟨hkind, rfl⟩
  refine ⟨st₆.tokens.size, e, ms, ⟨Nat.lt_of_lt_of_le hlt hle, ⟨_, ?_, hopen, hclose⟩, hms⟩, hsize⟩
  exact (hkeyword.of_same hs.same (Nat.zero_le _) hlt).of_same hsame (Nat.zero_le _) (Nat.lt_of_lt_of_le hlt hle)

/-- A class that is no type is read as the tokens from `i` up to `j`. -/
def ClassStands (c : Setting) (tokens : Array Token) (i j : Nat) : Prop :=
  ∃ isStatement st st', st.isType = false ∧ classRule run isStatement c st = .ok () st'
    ∧ Covers tokens i j st st'

theorem ClassForm.of_same {source : Text} {ts us : Array Token} {i b e : Nat}
    (h : ClassForm source ts i b e ms) (hs : SameBetween i (e + 1) ts us) :
    ClassForm source us i b e ms := by
  obtain ⟨id, hkeyword, hopen, hclose⟩ := h.context
  have hle := h.members.le
  have hlt := h.lt
  exact ⟨hlt, ⟨id, hkeyword.of_same hs (Nat.le_refl _) (by omega),
    hopen.of_same hs (by omega) (by omega), hclose.of_same hs (by omega) (Nat.lt_succ_self _)⟩,
    h.members.of_same (hs.mono (by omega) (Nat.le_succ _))⟩

/-- A class that is read has members, one after the other. -/
theorem ClassStands.form {i j : Nat} (h : ClassStands c tokens i j) :
    ∃ b e ms, ClassForm c.source tokens i b e ms ∧ j = e + 1 := by
  obtain ⟨isStatement, st, st', hvalue, hrun, hcovers⟩ := h
  obtain ⟨b, e, ms, hform, hsize⟩ := classForm_of_classRule hvalue hrun
  have hj : j = e + 1 := hcovers.stop.symm.trans hsize
  refine ⟨b, e, ms, ?_, hj⟩
  rw [hcovers.start] at hform
  exact hform.of_same fun k hi hlt => hcovers.same k hi (hj ▸ hlt)

theorem classStands_of_readsFirst {j : Nat}
    (h : readsFirst .kwClass (classRule run isStatement) c tokens j = true) :
    ClassStands c tokens 0 j := by
  obtain ⟨_, _, st', hinitial, hbefore, -, -, hrun, hcovers⟩ := exists_of_readsAfter h
  cases hbefore
  obtain ⟨_, _, -, rfl⟩ := State.exists_of_initial hinitial
  exact ⟨isStatement, _, st', rfl, hrun, hcovers⟩

end

end Downlevel.Grammar
