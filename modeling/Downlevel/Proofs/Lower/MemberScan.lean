import Downlevel.Proofs.Grammar.Members
import Downlevel.Proofs.Lower.Passing

/-!
# Going through the members of a class

A class is gone through on its tokens alone, without the grammar.  It stays in step with the members
that were read there, unless a member is named like a modifier, or the end of its name or value is
taken for another place.  So the constructor that is found is a method of that name.
-/

namespace Downlevel

namespace Grammar

/-! ## Tokens of a program -/

section

variable {p : Program} {P : Token → Prop} {source : Text} {a b i name nameEnd : Nat}

theorem HasAt.tokenAt (h : HasAt p.tokens i P) : P (p.tokenAt i) := by
  obtain ⟨t, ht, hP⟩ := h
  rwa [Program.tokenAt, ht, Option.getD_some]

theorem typesBetween_iff :
    TypesBetween p.tokens a b ↔ ∀ k, a ≤ k → k < b → p.isTypeAt k = true := by
  refine forall_congr' fun k => imp_congr_right fun _ => imp_congr_right fun _ => ?_
  refine ⟨fun h => HasAt.tokenAt h, fun h => ⟨p.tokenAt k, ?_, h⟩⟩
  have hk : k < p.tokens.size := Program.lt_count_of_isTypeAt h
  simp [Program.tokenAt, hk]

theorem TypesBetween.le (h : TypesBetween p.tokens a b) (hvalue : p.isTypeAt i = false)
    (ha : a ≤ i) : b ≤ i := by
  refine Nat.le_of_not_lt fun hlt => ?_
  have htype := typesBetween_iff.mp h i ha hlt
  rw [hvalue] at htype
  cases htype

theorem NameStands.isTypeAt (h : NameStands p.tokens a b) : p.isTypeAt a = false :=
  h.plain.tokenAt.isType

theorem NameStands.eq_succ (h : NameStands p.tokens a b) (hkind : p.kindAt a ≠ .bracketL) :
    b = a + 1 := by
  rcases h.form with ⟨heq, -⟩ | ⟨-, hopen, -⟩
  · exact heq
  · exact absurd hopen.tokenAt hkind

/-- The kinds of tokens that a member can begin with, or that its name can begin with. -/
def isEntryKind (kind : Kind) : Bool :=
  kind == .semi || kind == .star || kind == .bracketL || isNameKind kind

theorem NameStands.isEntryKind (h : NameStands p.tokens a b) :
    isEntryKind (p.kindAt a) = true ∧ (p.tokenAt a).context = none ∧ p.kindAt a ≠ .semi := by
  have hform : isNameKind (p.kindAt a) = true ∨ p.kindAt a = .bracketL := by
    rcases h.form with ⟨-, hkind⟩ | ⟨-, hopen, -⟩
    · exact .inl hkind.tokenAt
    · exact .inr hopen.tokenAt
  refine ⟨?_, h.plain.tokenAt.context, ?_⟩
  · rcases hform with hkind | hkind <;> simp [Grammar.isEntryKind, hkind]
  · rintro hsemi
    rcases hform with hkind | hkind <;> rw [hsemi] at hkind <;> revert hkind <;> decide

theorem IsModifier.isEntryKind (h : IsModifier source p.tokens i) :
    Grammar.isEntryKind (p.kindAt i) = true ∧ (p.tokenAt i).context = none ∧ p.kindAt i ≠ .semi := by
  obtain ⟨hcontext, hform⟩ := HasAt.tokenAt h
  have hkind : p.kindAt i = .star ∨ p.kindAt i = .name := by
    rcases hform with ⟨hkind, -⟩ | ⟨hword, -⟩
    · exact .inl hkind
    · exact .inr hword.kind
  refine ⟨?_, hcontext, ?_⟩ <;> rcases hkind with hkind | hkind <;> rw [hkind] <;> decide

end

/-! ## Being at a member -/

/-- The index is one where a member is entered: its first token, a token of types, a modifier or
the name. -/
def Member.EntersAt (m : Member) (v : Nat) : Prop :=
  match m.shape with
  | .semicolon | .block => v = m.start
  | .erased => m.start ≤ v ∧ v < m.stop
  | .method name _ _ _ | .field name _ _ => m.start ≤ v ∧ v ≤ name

/-- The index is that of the closing brace, or one where the first of some members is entered. -/
inductive InStep (p : Program) (e : Nat) : Nat → List Member → Prop
  | ended : InStep p e e []
  | inside {v : Nat} {m : Member} {ms : List Member} (hm : m.Stands p.source p.tokens)
      (hv : m.EntersAt v) (hms : InRow p.source p.tokens m.stop ms e) : InStep p e v (m :: ms)

section

variable {p : Program} {a e v : Nat} {m : Member} {ms : List Member}

/-- A member whose first token is no type is entered there, and one with a name not behind it. -/
theorem Member.Stands.entersAt (h : m.Stands p.source p.tokens) (hle : m.start ≤ v)
    (htypes : TypesBetween p.tokens m.start v) (hv : m.shape = .erased → v < m.stop) :
    m.EntersAt v := by
  cases h with
  | semicolon h =>
    exact Nat.le_antisymm (htypes.le h.tokenAt.1.isType (Nat.le_refl _)) hle
  | erased => exact ⟨hle, hv rfl⟩
  | block h =>
    exact Nat.le_antisymm (htypes.le h.tokenAt.1.isType (Nat.le_refl _)) hle
  | method head => exact ⟨hle, htypes.le head.name.isTypeAt head.le⟩
  | field head => exact ⟨hle, htypes.le head.name.isTypeAt head.le⟩
  | initialized head => exact ⟨hle, htypes.le head.name.isTypeAt head.le⟩

/-- Behind a member, types lead to a member again. -/
theorem exists_inStep (h : InRow p.source p.tokens a ms e) (hclose : p.isTypeAt e = false)
    (hle : a ≤ v) (htypes : TypesBetween p.tokens a v) :
    ∃ done rest, ms = done ++ rest ∧ (∀ m ∈ done, m.shape = .erased) ∧ InStep p e v rest := by
  induction h with
  | nil =>
    obtain rfl := Nat.le_antisymm (htypes.le hclose (Nat.le_refl _)) hle
    exact ⟨[], [], rfl, nofun, .ended⟩
  | @cons m ms e hm hms ih =>
    by_cases hpast : m.shape = .erased ∧ m.stop ≤ v
    · obtain ⟨done, rest, rfl, hdone, hrest⟩ := ih hclose hpast.2
        fun k hk hkv => htypes k (Nat.le_trans hm.le hk) hkv
      refine ⟨m :: done, rest, rfl, fun m' hm' => ?_, hrest⟩
      rcases List.mem_cons.mp hm' with rfl | hm'
      · exact hpast.1
      · exact hdone m' hm'
    · refine ⟨[], m :: ms, rfl, nofun, .inside hm (hm.entersAt hle htypes fun herased => ?_) hms⟩
      exact Nat.lt_of_not_le fun hge => hpast ⟨herased, hge⟩

/-- A type is passed inside a member. -/
theorem InStep.succ (h : InStep p e v ms) (hclose : p.isTypeAt e = false)
    (htype : p.isTypeAt v = true) :
    ∃ done rest, ms = done ++ rest ∧ (∀ m ∈ done, m.shape = .erased) ∧ InStep p e (v + 1) rest := by
  have hvalue : ∀ {i}, p.isTypeAt i = false → v ≠ i := by
    rintro i hi rfl
    rw [hi] at htype
    cases htype
  cases h with
  | ended => exact absurd rfl (hvalue hclose)
  | @inside _ m ms hm hv hms =>
    have hstay : m.EntersAt (v + 1) → ∃ done rest, m :: ms = done ++ rest
        ∧ (∀ m ∈ done, m.shape = .erased) ∧ InStep p e (v + 1) rest :=
      fun hnext => ⟨[], _, rfl, nofun, .inside hm hnext hms⟩
    cases hm with
    | semicolon h => exact absurd hv (hvalue h.tokenAt.1.isType)
    | @erased a b hle h =>
      by_cases hlast : v + 1 < b
      · exact hstay ⟨Nat.le_succ_of_le hv.1, hlast⟩
      · obtain rfl : b = v + 1 := Nat.le_antisymm (Nat.le_of_not_lt hlast) hv.2
        obtain ⟨done, rest, rfl, hdone, hrest⟩ := exists_inStep hms hclose (Nat.le_refl _)
          fun k hk hkv => absurd hk (Nat.not_le_of_lt hkv)
        refine ⟨_ :: done, rest, rfl, fun m' hm' => ?_, hrest⟩
        rcases List.mem_cons.mp hm' with rfl | hm'
        · rfl
        · exact hdone m' hm'
    | block h => exact absurd hv (hvalue h.tokenAt.1.isType)
    | method head =>
      exact hstay ⟨Nat.le_succ_of_le hv.1, Nat.lt_of_le_of_ne hv.2 (hvalue head.name.isTypeAt)⟩
    | field head =>
      exact hstay ⟨Nat.le_succ_of_le hv.1, Nat.lt_of_le_of_ne hv.2 (hvalue head.name.isTypeAt)⟩
    | initialized head =>
      exact hstay ⟨Nat.le_succ_of_le hv.1, Nat.lt_of_le_of_ne hv.2 (hvalue head.name.isTypeAt)⟩

theorem HeadStands.entry {source : Text} {name nameEnd d : Nat}
    (h : HeadStands source p.tokens a name nameEnd d) (ha : a ≤ v) (hv : v ≤ name) :
    isEntryKind (p.kindAt v) = true ∧ (p.tokenAt v).context = none ∧ p.kindAt v ≠ .semi := by
  rcases Nat.lt_or_eq_of_le hv with hlt | rfl
  · exact (h.modifiers v ha hlt).isEntryKind
  · exact h.name.isEntryKind

/-- What is no type where a member is entered. -/
theorem InStep.entry (h : InStep p e v ms) (hvalue : p.isTypeAt v = false) :
    v = e ∧ ms = [] ∨ isEntryKind (p.kindAt v) = true ∧ (p.tokenAt v).context = none
      ∧ (p.kindAt v = .semi → ∃ rest, ms = ⟨v, v + 1, .semicolon⟩ :: rest
        ∧ InRow p.source p.tokens (v + 1) rest e) := by
  cases h with
  | ended => exact .inl ⟨rfl, rfl⟩
  | @inside _ m ms hm hv hms =>
    have hnamed : isEntryKind (p.kindAt v) = true ∧ (p.tokenAt v).context = none
        ∧ p.kindAt v ≠ .semi → isEntryKind (p.kindAt v) = true ∧ (p.tokenAt v).context = none
        ∧ (p.kindAt v = .semi → ∃ rest, m :: ms = ⟨v, v + 1, .semicolon⟩ :: rest
          ∧ InRow p.source p.tokens (v + 1) rest e) :=
      fun h => ⟨h.1, h.2.1, fun hsemi => absurd hsemi h.2.2⟩
    refine .inr ?_
    cases hm with
    | semicolon h =>
      obtain rfl : v = _ := hv
      obtain ⟨hplain, hkind⟩ := h.tokenAt
      unfold Program.kindAt
      rw [hkind]
      exact ⟨rfl, hplain.context, fun _ => ⟨ms, rfl, hms⟩⟩
    | erased _ h =>
      have htype := typesBetween_iff.mp h v hv.1 hv.2
      rw [hvalue] at htype
      cases htype
    | block h =>
      obtain rfl : v = _ := hv
      obtain ⟨hplain, hword⟩ := h.tokenAt
      unfold Program.kindAt
      rw [hword.kind]
      exact ⟨rfl, hplain.context, nofun⟩
    | method head => exact hnamed (head.entry hv.1 hv.2)
    | field head => exact hnamed (head.entry hv.1 hv.2)
    | initialized head => exact hnamed (head.entry hv.1 hv.2)

end

/-! ## Members that are not taken for others -/

/-- The first token of the name of a member and the index past it. -/
def Shape.name? : Shape → Option (Nat × Nat)
  | .method name nameEnd _ _ | .field name nameEnd _ => some (name, nameEnd)
  | .semicolon | .erased | .block => none

theorem Shape.name?_of_erased {shape : Shape} (h : shape = .erased) : shape.name? = none := by
  rw [h]
  rfl

/-- The `=` of the initializer of a field. -/
def Shape.equals? : Shape → Option Nat
  | .field _ _ equals => equals
  | .semicolon | .erased | .block | .method .. => none

end Grammar

/-- An assignment to a property of instances or of the class itself is among those of a class. -/
def ClassLayout.Assigns (layout : ClassLayout) (t : Text) : Prop :=
  "this".toList ++ t ∈ layout.initializers ∨ t ∈ layout.statics

/-- An assignment is added to those of a class. -/
def ClassLayout.Adds (layout : ClassLayout) (t : Text) (layout' : ClassLayout) : Prop :=
  layout'.initializers = layout.initializers ++ ["this".toList ++ t]
      ∧ layout'.statics = layout.statics
    ∨ layout'.initializers = layout.initializers ∧ layout'.statics = layout.statics ++ [t]

theorem ClassLayout.Adds.assigns {layout layout' : ClassLayout} {t : Text}
    (h : layout.Adds t layout') : layout'.Assigns t := by
  rcases h with ⟨h, -⟩ | ⟨-, h⟩
  · exact .inl (h ▸ List.mem_append_right _ List.mem_cons_self)
  · exact .inr (h ▸ List.mem_append_right _ List.mem_cons_self)

/-- The name of a member as a property access. -/
def Program.accessText (p : Program) (a b : Nat) : Text :=
  match p.kindAt a with
  | .bracketL => Text.slice p.source (p.tokenAt a).start (p.tokenAt (b - 1)).stop
  | .string | .num | .bigInt => "[".toList ++ p.textAt a ++ "]".toList
  | _ => '.' :: p.nameAt a

open Grammar

namespace Lower

open ClassLayout

/-- Lowering the tokens from one index to another passes nothing behind them but types. -/
def EndsBefore (plan : Plan) (a b : Nat) : Prop :=
  ∀ w w' : Work, w.index = a → repeatTo b token plan w = .ok () w' →
    TypesBetween plan.program.tokens b w'.index

/-- A member that can be told apart from what stands around it.  Its name is no modifier, the
bracket at the start of a computed name is closed at its end, and the value of a field is lowered
by itself. -/
structure IsClear (plan : Plan) (m : Member) : Prop where
  name : ∀ i j, m.shape.name? = some (i, j) → isModifierAt plan.program i = false
    ∧ (plan.program.kindAt i = .bracketL → plan.program.ClosesBefore i j)
  value : ∀ i, m.shape.equals? = some i → EndsBefore plan (i + 1) m.stop

/-- What lowering the tokens from one index to another writes, without the blanks in front. -/
def Writes (plan : Plan) (a b : Nat) (value : Text) : Prop :=
  ∃ (w w' : Work) (written : Text), w.index = a ∧ repeatTo b token plan w = .ok () w'
    ∧ w'.draft.out = w.draft.out ++ written ∧ value = Unicode.trimLeft written

/-- A field with an initializer becomes an assignment: the access by its name, and what its value is
lowered to. -/
def IsAssigned (plan : Plan) (layout : ClassLayout) (m : Member) : Prop :=
  ∀ name nameEnd equals, m.shape = .field name nameEnd (some equals) →
    plan.program.kindAt name ≠ .privateName → ∃ value, Writes plan (equals + 1) m.stop value
      ∧ layout.Assigns (plan.program.accessText name nameEnd ++ " = ".toList ++ value)

/-- Where the initializers go if this member is a constructor. -/
def insertPos? (p : Program) (m : Member) : Option Nat :=
  match m.shape with
  | .method name _ _ brace =>
    if p.isNameAt name "constructor".toList then some (insertionPoint p brace (m.stop - 1))
    else none
  | _ => none

/-- Passes a member with a name, from the first token that is no modifier on. -/
def restLayout (layout : ClassLayout) (start : Nat) (isStatic : Bool) : Lower ClassLayout := do
  if ← isName "constructor" then
    let (assignments, pos) ← constructorLayout
    return { layout with
      initializers := assignments ++ layout.initializers, insertPos := some pos }
  else if ← is .privateName then
    skipMember
    return layout
  else
    let access ← memberAccess
    skipTypes
    if ← is .parenL then
      skipMethod
      return layout
    else fieldLayout token layout start isStatic access

theorem namedMemberLayout_eq (layout : ClassLayout) :
    namedMemberLayout token layout = (do
      let start ← index
      let isStatic ← skipModifiers
      restLayout layout start isStatic) :=
  rfl

section

variable {plan : Plan} {w : Work} {layout : ClassLayout} {name nameEnd a b d e i start : Nat}
  {isStatic : Bool} {access : Text}

/-! ## Names -/

theorem ends_skipModifiers (hle : w.index ≤ name)
    (hname : isModifierAt plan.program name = false) :
    Ends plan skipModifiers w (fun _ w' => w.index ≤ w'.index ∧ w'.index ≤ name
      ∧ isModifierAt plan.program w'.index = false) fun _ => True := by
  unfold skipModifiers
  refine Ends.loop_partial (fun _ v => w.index ≤ v.index ∧ v.index ≤ name) trivial ?_
    ⟨Nat.le_refl _, hle⟩
  rintro isStatic v ⟨hge, hle⟩
  rw [ends_bind, ends_program, ends_bind, ends_index]
  refine Ends.ite (fun hmodifier => ?_) fun hnot => ⟨hge, hle, Bool.eq_false_iff.mpr hnot⟩
  have hne : v.index ≠ name := by
    rintro heq
    rw [heq, hname] at hmodifier
    cases hmodifier
  rw [ends_bind, ends_isName, ends_bind, ends_skip]
  split
  · exact ⟨Nat.le_succ_of_le hge, Nat.lt_of_le_of_ne hle hne⟩
  · exact trivial

/-- The name of a member is passed up to its end. -/
theorem ends_memberAccess :
    Ends plan memberAccess w (fun t w' => t = plan.program.accessText w.index w'.index
      ∧ (plan.program.kindAt w.index = .bracketL → plan.program.ClosesBefore w.index w'.index)
      ∧ (plan.program.kindAt w.index ≠ .bracketL → w'.index = w.index + 1)) fun _ => True := by
  have hone : ∀ {t : Text}, plan.program.kindAt w.index ≠ .bracketL →
      t = plan.program.accessText w.index (w.index + 1) →
      Ends plan (do skip; return t) w (fun t w' => t = plan.program.accessText w.index w'.index
        ∧ (plan.program.kindAt w.index = .bracketL → plan.program.ClosesBefore w.index w'.index)
        ∧ (plan.program.kindAt w.index ≠ .bracketL → w'.index = w.index + 1)) fun _ => True := by
    intro t hne ht
    rw [ends_bind, ends_skip]
    split
    · exact ⟨ht, fun hopen => absurd hopen hne, fun _ => rfl⟩
    · exact trivial
  have hkind : plan.program.kindAt w.index = (plan.program.tokenAt w.index).kind := rfl
  unfold memberAccess
  rw [ends_bind, ends_cur]
  split
  · rename_i hopen
    refine (ends_computedNameEnd hopen).bind fun stop w' hw' => ?_
    rw [ends_bind, ends_program, ends_pure, hw'.2]
    refine ⟨?_, fun _ => hw'.1, fun hne => absurd hopen hne⟩
    rw [Program.accessText, hkind, hopen]
  · rename_i hliteral
    rw [ends_bind, ends_curText]
    exact hone (by rw [hkind, hliteral]; decide) (by rw [Program.accessText, hkind, hliteral])
  · rename_i hliteral
    rw [ends_bind, ends_curText]
    exact hone (by rw [hkind, hliteral]; decide) (by rw [Program.accessText, hkind, hliteral])
  · rename_i hliteral
    rw [ends_bind, ends_curText]
    exact hone (by rw [hkind, hliteral]; decide) (by rw [Program.accessText, hkind, hliteral])
  · rename_i hopen hstring hnum hbig
    rw [ends_bind, ends_curName]
    refine hone hopen ?_
    rw [Program.accessText, hkind]
    split
    · exact absurd ‹_› hopen
    · exact absurd ‹_› hstring
    · exact absurd ‹_› hnum
    · exact absurd ‹_› hbig
    · rfl

/-- A name that can be told apart from what follows is passed as a whole. -/
theorem ends_memberAccess_name (h : NameStands plan.program.tokens name nameEnd)
    (hclear : plan.program.kindAt name = .bracketL → plan.program.ClosesBefore name nameEnd)
    (hw : w.index = name) :
    Ends plan memberAccess w (fun t w' => w'.index = nameEnd
      ∧ t = plan.program.accessText name nameEnd) fun _ => True := by
  subst hw
  refine ends_memberAccess.mono fun t w' hw' => ?_
  obtain ⟨ht, hopen, hone⟩ := hw'
  have hend : w'.index = nameEnd := by
    by_cases hkind : plan.program.kindAt w.index = .bracketL
    · exact (hopen hkind).unique (hclear hkind)
    · rw [hone hkind, h.eq_succ hkind]
  exact ⟨hend, hend ▸ ht⟩

/-! ## Methods -/

theorem ends_skipTypes_to (hle : w.index ≤ b) (htypes : TypesBetween plan.program.tokens w.index b)
    (hvalue : plan.program.isTypeAt b = false) :
    Ends plan skipTypes w (fun _ w' => w'.index = b) fun _ => True := by
  refine ends_skipTypes.mono fun _ w' hw' => ?_
  obtain ⟨hge, htypes', hvalue'⟩ := hw'
  refine Nat.le_antisymm ?_ (htypes.le hvalue' hge)
  exact (typesBetween_iff.mpr htypes').le hvalue hle

/-- Types in front of a token that there is are passed without an error. -/
theorem ends_skipTypes_of_le {E : Error → Prop} (hle : w.index ≤ b)
    (hb : b ≤ plan.program.count) (htypes : TypesBetween plan.program.tokens w.index b)
    (hvalue : plan.program.isTypeAt b = false) :
    Ends plan skipTypes w (fun _ w' => w'.index = b) E := by
  unfold skipTypes
  refine Ends.repeatWhile (fun v => w.index ≤ v.index ∧ v.index ≤ b) ?_ ⟨Nat.le_refl _, hle⟩
  rintro v ⟨hge, hvb⟩
  refine ⟨Nat.le_trans hvb hb, ?_⟩
  rw [ends_isType]
  split
  · rename_i htype
    have hlt : v.index < b := by
      refine Nat.lt_of_le_of_ne hvb fun heq => ?_
      rw [heq, hvalue] at htype
      cases htype
    rw [ends_skip, if_pos (Nat.lt_of_lt_of_le hlt hb)]
    exact ⟨⟨Nat.le_succ_of_le hge, hlt⟩, Nat.lt_succ_self _⟩
  · rename_i htype
    exact Nat.le_antisymm hvb (htypes.le (Bool.eq_false_iff.mpr htype) hge)

/-- A method has its parameters from `a` to `b`, and its body from `d` to `e`. -/
structure IsMethodAt (p : Program) (a b d e : Nat) : Prop where
  kind_paren : p.kindAt a = .parenL
  value_paren : p.isTypeAt a = false
  parameters : p.matching? a = some b
  lt : b < d
  types : TypesBetween p.tokens (b + 1) d
  kind_brace : p.kindAt d = .braceL
  value_brace : p.isTypeAt d = false
  body : p.matching? d = some e

theorem ends_skipMethod (h : IsMethodAt plan.program a b d e) (hw : w.index = a) :
    Ends plan skipMethod w (fun _ w' => w'.index = e + 1) fun _ => True := by
  subst hw
  unfold skipMethod
  refine (ends_skipContext h.parameters).bind fun _ w₁ h₁ => ?_
  refine (ends_skipTypes_to (h₁ ▸ h.lt) (h₁ ▸ h.types) h.value_brace).bind fun _ w₂ h₂ => ?_
  subst h₂
  rw [ends_bind, ends_is, decide_eq_true h.kind_brace, if_pos rfl]
  exact ends_skipContext h.body

/-- A constructor is passed unless its properties cannot be told. -/
theorem ends_constructorLayout_method (h : IsMethodAt plan.program a b d e)
    (htypes : TypesBetween plan.program.tokens (w.index + 1) a) (hlt : w.index < a) :
    Ends plan constructorLayout w
      (fun r w' => w'.index = e + 1 ∧ r.2 = insertionPoint plan.program d e
        ∧ ∃ names, parameterProperties plan.program b (b - a) (a + 1) = .ok names
          ∧ r.1 = names.map parameterAssignment)
      fun err => parameterProperties plan.program b (b - a) (a + 1) = .error err := by
  have hab := Program.lt_of_matching? h.parameters
  have hde := Program.lt_of_matching? h.body
  have hbd := h.lt
  obtain ⟨-, hcount, -⟩ := Program.exists_of_matching? h.body
  unfold constructorLayout
  rw [ends_bind, ends_skip, if_pos (by omega)]
  refine (ends_skipTypes_of_le hlt (by omega) htypes h.value_paren).bind fun _ w₁ h₁ => ?_
  rw [ends_bind, ends_program, ends_bind, ends_index, ends_bind, ends_orBreach, h₁, h.parameters,
    Option.elim_some]
  cases hnames : parameterProperties plan.program b (b - a) (a + 1) with
  | error err =>
    rw [ends_bind, ends_throw]
  | ok names =>
    rw [ends_bind, ends_pure]
    refine (ends_repeatTo_skip_of_le (by omega) (by omega)).bind fun _ w₂ h₂ => ?_
    refine (ends_skipTypes_of_le (h₂ ▸ hbd) (by omega) (h₂ ▸ h.types) h.value_brace).bind
      fun _ w₃ h₃ => ?_
    rw [ends_bind, ends_index, ends_bind, ends_orBreach, h₃, h.body, Option.elim_some]
    refine (ends_repeatTo_skip_of_le (by omega) hcount).bind fun _ w₄ h₄ => ?_
    exact ⟨h₄, rfl, names, rfl, rfl⟩

/-- Passing a member from its name on.  Only a name of one token is that of a constructor, or
private. -/
theorem ends_restLayout_name {M : ClassLayout → Work → Prop}
    (h : NameStands plan.program.tokens name nameEnd)
    (hclear : plan.program.kindAt name = .bracketL → plan.program.ClosesBefore name nameEnd)
    (hw : w.index = name)
    (hconstructor : plan.program.isNameAt name "constructor".toList = true → nameEnd = name + 1 →
      Ends plan constructorLayout w (fun r w' => M { layout with
        initializers := r.1 ++ layout.initializers, insertPos := some r.2 } w') fun _ => True)
    (hprivate : plan.program.isNameAt name "constructor".toList = false →
      plan.program.kindAt name = .privateName → nameEnd = name + 1 →
      Ends plan skipMember w (fun _ w' => M layout w') fun _ => True)
    (hrest : plan.program.isNameAt name "constructor".toList = false → ∀ w₁ : Work,
      w₁.index = nameEnd → Ends plan (do
        skipTypes
        if ← is .parenL then
          skipMethod
          return layout
        else fieldLayout token layout i isStatic (plan.program.accessText name nameEnd)) w₁ M
      fun _ => True) :
    Ends plan (restLayout layout i isStatic) w M fun _ => True := by
  subst hw
  unfold restLayout
  rw [ends_bind, ends_isName]
  refine Ends.ite (fun hname => ?_) fun hname => ?_
  · have hend := h.eq_succ (by rw [(Program.isNameAt_iff.mp hname).1]; decide)
    exact (hconstructor hname hend).bind fun _ _ hM => hM
  rw [Bool.not_eq_true] at hname
  rw [ends_bind, ends_is]
  refine Ends.ite (fun hkind => ?_) fun _ => ?_
  · have hkind' : plan.program.kindAt w.index = .privateName := of_decide_eq_true hkind
    have hend := h.eq_succ (by rw [hkind']; decide)
    exact (hprivate hname hkind' hend).bind fun _ _ hM => hM
  refine (ends_memberAccess_name h hclear rfl).bind fun access w₁ hw₁ => ?_
  obtain ⟨h₁, rfl⟩ := hw₁
  exact hrest hname w₁ h₁

/-- A method that is read is passed from its name on. -/
theorem ends_restLayout_method
    (head : HeadStands plan.program.source plan.program.tokens start name nameEnd a)
    (h : IsMethodAt plan.program a b d e)
    (hclear : plan.program.kindAt name = .bracketL → plan.program.ClosesBefore name nameEnd)
    (hw : w.index = name) :
    Ends plan (restLayout layout i isStatic) w (fun l w' => w'.index = e + 1
      ∧ l.insertPos = if plan.program.isNameAt name "constructor".toList
        then some (insertionPoint plan.program d e) else layout.insertPos) fun _ => True := by
  have hle := head.end_le
  refine ends_restLayout_name head.name hclear hw (fun hname hend => ?_) (fun hname _ hend => ?_)
    fun hname w₁ h₁ => ?_
  · subst hw
    have hpass := ends_constructorLayout_method h (hend ▸ head.types) (by omega)
    refine hpass.weaken (fun r w₁ h₁ => ?_) fun _ _ => trivial
    rw [if_pos hname]
    exact ⟨h₁.1, congrArg some h₁.2.1⟩
  · subst hw
    unfold skipMember
    rw [hname, if_neg Bool.false_ne_true, ends_bind, ends_skip]
    split
    case isFalse => exact trivial
    have htypes : TypesBetween plan.program.tokens (w.index + 1) a := hend ▸ head.types
    refine (ends_skipTypes_to (hend ▸ hle) htypes h.value_paren).bind fun _ w₁ h₁ => ?_
    subst h₁
    rw [ends_bind, ends_is, decide_eq_true h.kind_paren, if_pos rfl]
    exact (ends_skipMethod h rfl).mono fun _ w₂ h₂ => ⟨h₂, rfl⟩
  · rw [hname, if_neg Bool.false_ne_true]
    refine (ends_skipTypes_to (h₁ ▸ hle) (h₁ ▸ head.types) h.value_paren).bind fun _ w₂ h₂ => ?_
    subst h₂
    rw [ends_bind, ends_is, decide_eq_true h.kind_paren, if_pos rfl]
    exact (ends_skipMethod h rfl).bind fun _ w₃ h₃ => ⟨h₃, rfl⟩

/-! ## Fields -/

theorem ends_fieldLayout_none (hkind : plan.program.kindAt w.index ≠ .eq) :
    Ends plan (fieldLayout token layout start isStatic access) w (fun l w' => w' = w
      ∧ l.insertPos = layout.insertPos ∧ l.initializers = layout.initializers
      ∧ l.statics = layout.statics) fun _ => True := by
  unfold fieldLayout
  rw [ends_bind, ends_is, decide_eq_false hkind, if_neg Bool.false_ne_true, ends_bind, ends_pure,
    ends_bind, ends_index]
  exact ⟨rfl, rfl, rfl, rfl⟩

/-- A field with an initializer becomes an assignment of what lowering the initializer writes. -/
theorem ends_fieldLayout_assigns (hkind : plan.program.kindAt w.index = .eq) :
    Ends plan (fieldLayout token layout start isStatic access) w (fun l w' =>
      ∃ stop v value, (plan.program.tokenAt w.index).rhsEnd = some stop ∧ v.index = w.index + 1
        ∧ repeatTo stop token plan v = .ok () w' ∧ Writes plan (w.index + 1) stop value
        ∧ layout.Adds (access ++ " = ".toList ++ value) l) fun _ => True := by
  unfold fieldLayout initializerEnd
  rw [ends_bind, ends_is, decide_eq_true hkind, if_pos rfl]
  simp only [bind_assoc]
  rw [ends_bind, ends_cur, ends_bind, ends_orBreach]
  cases hstop : (plan.program.tokenAt w.index).rhsEnd with
  | none => exact trivial
  | some stop =>
    rw [Option.elim_some, ends_bind, ends_skip]
    split
    case isFalse => exact trivial
    rename_i hlt
    rw [ends_bind, ends_get]
    have hgrows : Heads plan Never (repeatTo stop token) (w.moveTo (w.index + 1)) :=
      heads_of_advances hlt
    refine ((hgrows.and Ends.self).weaken (fun _ _ h => h) fun _ _ => trivial).bind
      fun _ w₁ h₁ => ?_
    obtain ⟨⟨honward, -⟩, hrun⟩ := h₁
    obtain ⟨written, hout⟩ := honward.grows
    have hdrop : Text.dropBytes w₁.draft.out (Text.size (w.moveTo (w.index + 1)).draft.out)
        = written := by
      rw [← hout, Text.dropBytes_append]
    have hwrites : Writes plan (w.index + 1) stop (Unicode.trimLeft written) :=
      ⟨_, _, _, rfl, hrun, hout.symm, rfl⟩
    rw [ends_bind, ends_get, hdrop]
    split
    · rw [ends_bind, ends_pure, ends_bind, ends_index]
      exact ⟨stop, _, _, rfl, rfl, hrun, hwrites, .inr ⟨rfl, rfl⟩⟩
    · rw [ends_bind, ends_pure, ends_bind, ends_index]
      exact ⟨stop, _, _, rfl, rfl, hrun, hwrites, .inl ⟨rfl, rfl⟩⟩

/-- A field with an initializer ends behind that. -/
theorem ends_fieldLayout_value (hkind : plan.program.kindAt w.index = .eq)
    (hstop : (plan.program.tokenAt w.index).rhsEnd = some e)
    (hvalue : EndsBefore plan (w.index + 1) e) :
    Ends plan (fieldLayout token layout start isStatic access) w (fun l w' => e ≤ w'.index
      ∧ TypesBetween plan.program.tokens e w'.index ∧ l.insertPos = layout.insertPos
      ∧ ∃ value, Writes plan (w.index + 1) e value
        ∧ l.Assigns (access ++ " = ".toList ++ value)) fun _ => True := by
  refine ((ends_fieldLayout_assigns hkind).and ends_fieldLayout_fields).weaken
    (fun l w' hw' => ?_) fun _ _ => trivial
  obtain ⟨⟨stop, v, value, hstop', hv, hrun, hwrites, hadds⟩, -, hpos, -⟩ := hw'
  obtain rfl : e = stop := Option.some.inj (hstop.symm.trans hstop')
  exact ⟨Ends.of_ok ends_repeatTo hrun, hvalue v w' hv hrun, hpos, value, hwrites, hadds.assigns⟩

/-- A word that is read as a modifier, and is none for this, is taken for a field of its own. -/
theorem ends_restLayout_word {name : Nat}
    (head : HeadStands plan.program.source plan.program.tokens start name nameEnd d)
    (hle : start ≤ w.index) (hlt : w.index < name)
    (hmodifier : isModifierAt plan.program w.index = false) :
    Ends plan (restLayout layout i isStatic) w (fun l w' => w.index < w'.index ∧ w'.index ≤ name
      ∧ l.insertPos = layout.insertPos) fun _ => True := by
  obtain ⟨hkind, hword⟩ : plan.program.kindAt w.index = .name
      ∧ String.ofList (plan.program.textAt w.index) ∈ Grammar.memberModifiers := by
    obtain ⟨-, ⟨hstar, -⟩ | ⟨hword, -⟩⟩ := (head.modifiers w.index hle hlt).tokenAt
    · simp [isModifierAt, hstar] at hmodifier
    · exact ⟨hword.kind, hword.text⟩
  have hname : plan.program.isNameAt w.index "constructor".toList = false := by
    refine Bool.eq_false_iff.mpr fun hname => ?_
    rw [(Program.isNameAt_iff.mp hname).2] at hword
    revert hword
    decide
  unfold restLayout
  rw [ends_bind, ends_isName, hname, if_neg Bool.false_ne_true, ends_bind, ends_is, hkind,
    decide_eq_false (by decide), if_neg Bool.false_ne_true]
  refine ends_memberAccess.bind fun access w₁ h₁ => ?_
  have hindex : w₁.index = w.index + 1 := h₁.2.2 (by rw [hkind]; decide)
  refine ends_skipTypes.bind fun _ w₂ h₂ => ?_
  obtain ⟨hge, htypes, -⟩ := h₂
  have hle₂ : w₂.index ≤ name := by
    exact (typesBetween_iff.mpr htypes).le head.name.isTypeAt (by omega)
  obtain ⟨hentry, -⟩ := head.entry (by omega) hle₂
  have hne : ∀ {kind}, isEntryKind kind = false → plan.program.kindAt w₂.index ≠ kind := by
    rintro kind hfalse rfl
    rw [hentry] at hfalse
    cases hfalse
  rw [ends_bind, ends_is, decide_eq_false (hne (by decide)), if_neg Bool.false_ne_true]
  refine (ends_fieldLayout_none (hne (by decide))).mono fun l w₃ h₃ => ?_
  obtain ⟨rfl, hpos, -⟩ := h₃
  exact ⟨by omega, hle₂, hpos⟩

/-- What is no method is no constructor. -/
theorem ends_constructorLayout_fails (h : ∀ v, w.index < v →
      TypesBetween plan.program.tokens (w.index + 1) v → plan.program.isTypeAt v = false →
      plan.program.matching? v = none) :
    Ends plan constructorLayout w (fun _ _ => False) fun _ => True := by
  unfold constructorLayout
  rw [ends_bind, ends_skip]
  split
  case isFalse => exact trivial
  refine ends_skipTypes.bind fun _ w₁ h₁ => ?_
  obtain ⟨hge, htypes, hvalue⟩ := h₁
  rw [Work.index_moveTo] at hge htypes
  rw [ends_bind, ends_program, ends_bind, ends_index, ends_bind, ends_orBreach,
    h w₁.index hge (typesBetween_iff.mpr htypes) hvalue]
  exact trivial

end

/-- The closing brace of a class. -/
structure IsClose (p : Program) (e : Nat) : Prop where
  kind : p.kindAt e = .braceR
  value : p.isTypeAt e = false
  matching : p.matching? e = none

/-- Members have been passed that have no names. -/
def Leads (p : Program) (e : Nat) (ms : List Member) (v : Nat) : Prop :=
  ∃ done rest, ms = done ++ rest ∧ (∀ m ∈ done, m.shape.name? = none) ∧ InStep p e v rest

section

variable {plan : Plan} {w : Work} {layout : ClassLayout} {name nameEnd a b e i v start stop : Nat}
  {isStatic : Bool} {ms : List Member} {p : Program} {m : Member}

theorem insertPos?_eq_none (h : m.shape.name? = none) : insertPos? p m = none := by
  unfold insertPos?
  split
  · rename_i hshape
    rw [hshape] at h
    cases h
  · rfl

theorem isAssigned_of_name? (h : m.shape.name? = none) : IsAssigned plan layout m := by
  intro name nameEnd equals hshape
  rw [hshape] at h
  cases h

theorem IsAssigned.mono {l : ClassLayout} (h : IsAssigned plan layout m)
    (hkeeps : ∀ t, layout.Assigns t → l.Assigns t) : IsAssigned plan l m := by
  intro name nameEnd equals hshape hkind
  obtain ⟨value, hwrites, hassigns⟩ := h name nameEnd equals hshape hkind
  exact ⟨value, hwrites, hkeeps _ hassigns⟩

theorem leads_of_types (hclose : IsClose p e) (hms : InRow p.source p.tokens a ms e) (hle : a ≤ v)
    (htypes : TypesBetween p.tokens a v) : Leads p e ms v := by
  obtain ⟨done, rest, heq, hdone, hrest⟩ := exists_inStep hms hclose.value hle htypes
  exact ⟨done, rest, heq, fun m hm => Shape.name?_of_erased (hdone m hm), hrest⟩

/-- What is no type behind a member and its types. -/
structure IsEntry (p : Program) (v : Nat) : Prop where
  matching : p.matching? v = none
  kind : p.kindAt v ≠ .parenL ∧ p.kindAt v ≠ .eq ∧ p.kindAt v ≠ .arrow

theorem matching?_eq_none (h : (p.tokenAt v).context = none) : p.matching? v = none := by
  cases hmatching : p.matching? v with
  | none => rfl
  | some j =>
    obtain ⟨id, -, hid, -⟩ := Program.exists_of_matching? hmatching
    rw [h] at hid
    cases hid

theorem isEntry_of_inStep (h : InStep p e v ms) (hclose : IsClose p e)
    (hvalue : p.isTypeAt v = false) : IsEntry p v := by
  rcases h.entry hvalue with ⟨rfl, -⟩ | ⟨hkind, hcontext, -⟩
  · refine ⟨hclose.matching, ?_⟩
    rw [hclose.kind]
    decide
  · refine ⟨matching?_eq_none hcontext, ?_, ?_, ?_⟩ <;>
    · intro heq
      rw [heq] at hkind
      revert hkind
      decide

theorem isEntry_of_types (hclose : IsClose p e) (hms : InRow p.source p.tokens a ms e)
    (hle : a ≤ v) (htypes : TypesBetween p.tokens a v) (hvalue : p.isTypeAt v = false) :
    IsEntry p v := by
  obtain ⟨done, rest, -, -, hrest⟩ := exists_inStep hms hclose.value hle htypes
  exact isEntry_of_inStep hrest hclose hvalue

/-- A semicolon is passed, too. -/
theorem ends_semi (hclose : IsClose plan.program e)
    (hms : InRow plan.program.source plan.program.tokens a ms e) (hle : a ≤ w.index)
    (htypes : TypesBetween plan.program.tokens a w.index) :
    Ends plan (do if ← is .semi then skip : Lower Unit) w
      (fun _ w' => Leads plan.program e ms w'.index) fun _ => True := by
  rw [ends_bind, ends_is]
  refine Ends.ite (fun hsemi => ?_) fun _ => leads_of_types hclose hms hle htypes
  rw [ends_skip]
  split
  case isFalse => exact trivial
  obtain ⟨done, rest, rfl, hdone, hrest⟩ := exists_inStep hms hclose.value hle htypes
  by_cases htype : plan.program.isTypeAt w.index = true
  · obtain ⟨done', rest', rfl, hdone', hrest'⟩ := hrest.succ hclose.value htype
    refine ⟨done ++ done', rest', by rw [List.append_assoc], fun m hm => ?_, hrest'⟩
    rcases List.mem_append.mp hm with hm | hm
    · exact Shape.name?_of_erased (hdone m hm)
    · exact Shape.name?_of_erased (hdone' m hm)
  · rcases hrest.entry (Bool.eq_false_iff.mpr htype) with ⟨heq, -⟩ | ⟨-, -, hshape⟩
    · have hkind := hclose.kind
      rw [← heq, of_decide_eq_true hsemi] at hkind
      cases hkind
    · obtain ⟨rest', rfl, hrest'⟩ := hshape (of_decide_eq_true hsemi)
      obtain ⟨done', rest'', rfl, hdone', hlast⟩ := leads_of_types hclose hrest' (Nat.le_refl _)
        fun k hk hkv => absurd hk (Nat.not_le_of_lt hkv)
      refine ⟨done ++ _ :: done', rest'', by rw [List.append_assoc]; rfl, fun m hm => ?_, hlast⟩
      rcases List.mem_append.mp hm with hm | hm
      · exact Shape.name?_of_erased (hdone m hm)
      · rcases List.mem_cons.mp hm with rfl | hm
        · rfl
        · exact hdone' m hm

/-- A private field is passed with its semicolon. -/
theorem ends_skipMember_field (hclose : IsClose plan.program e)
    (hms : InRow plan.program.source plan.program.tokens stop ms e)
    (hle : w.index < stop) (htypes : TypesBetween plan.program.tokens (w.index + 1) stop) :
    Ends plan skipMember w (fun _ w' => Leads plan.program e ms w'.index) fun _ => True := by
  unfold skipMember
  rw [ends_bind, ends_skip]
  split
  case isFalse => exact trivial
  refine ends_skipTypes.bind fun _ w₁ h₁ => ?_
  obtain ⟨hge, htypes₁, hvalue⟩ := h₁
  rw [Work.index_moveTo] at hge htypes₁
  have hle₁ : stop ≤ w₁.index := htypes.le hvalue hge
  have htypes' : TypesBetween plan.program.tokens stop w₁.index :=
    typesBetween_iff.mpr fun k hk hkw => htypes₁ k (Nat.le_trans hle hk) hkw
  have hentry := isEntry_of_types hclose hms hle₁ htypes' hvalue
  rw [ends_bind, ends_is, decide_eq_false hentry.kind.1, if_neg Bool.false_ne_true, ends_bind, ends_is,
    decide_eq_false hentry.kind.2.1, if_neg Bool.false_ne_true]
  exact ends_semi hclose hms hle₁ htypes'

theorem ends_skipMember_value (hclose : IsClose plan.program e)
    (hms : InRow plan.program.source plan.program.tokens stop ms e) (hle : w.index < b)
    (htypes : TypesBetween plan.program.tokens (w.index + 1) b) (hlt : b < stop)
    (hequals : HasAt plan.program.tokens b
      fun t => IsPlain t ∧ t.kind = .eq ∧ t.rhsEnd = some stop) :
    Ends plan skipMember w (fun _ w' => Leads plan.program e ms w'.index) fun _ => True := by
  obtain ⟨hplain, hkind, hstop⟩ := hequals.tokenAt
  unfold skipMember initializerEnd
  rw [ends_bind, ends_skip]
  split
  case isFalse => exact trivial
  refine (ends_skipTypes_to hle htypes hplain.isType).bind fun _ w₁ h₁ => ?_
  subst h₁
  have hkind' : plan.program.kindAt w₁.index = .eq := hkind
  rw [ends_bind, ends_is, hkind', decide_eq_false (by decide), if_neg Bool.false_ne_true, ends_bind,
    ends_is, hkind', decide_eq_true rfl, if_pos rfl, ends_bind, ends_bind, ends_cur, ends_orBreach,
    hstop, Option.elim_some]
  refine (ends_repeatTo_skip (Nat.le_of_lt hlt)).bind fun _ w₂ h₂ => ?_
  refine ends_semi hclose hms (Nat.le_of_eq h₂.symm) fun k hk hkw => ?_
  omega

/-- A field that is read is passed from its name on. -/
theorem ends_restLayout_field (hclose : IsClose plan.program e)
    (hms : InRow plan.program.source plan.program.tokens stop ms e)
    (head : HeadStands plan.program.source plan.program.tokens start name nameEnd stop)
    (hclear : plan.program.kindAt name = .bracketL → plan.program.ClosesBefore name nameEnd)
    (hw : w.index = name) :
    Ends plan (restLayout layout i isStatic) w (fun l w' => Leads plan.program e ms w'.index
      ∧ l.insertPos = layout.insertPos) fun _ => True := by
  have hle := head.end_le
  refine ends_restLayout_name head.name hclear hw (fun _ hend => ?_) (fun _ _ hend => ?_)
    fun _ w₁ h₁ => ?_
  · subst hw
    refine (ends_constructorLayout_fails fun v hv htypes hvalue => ?_).mono fun _ _ h => h.elim
    have hle' : stop ≤ v := head.types.le hvalue (hend ▸ hv)
    refine (isEntry_of_types hclose hms hle' (fun k hk hkv => htypes k (by omega) hkv) hvalue).matching
  · subst hw
    refine (ends_skipMember_field hclose hms (by omega) (hend ▸ head.types)).mono fun _ w₁ h₁ => ?_
    exact ⟨h₁, rfl⟩
  refine ends_skipTypes.bind fun _ w₂ h₂ => ?_
  obtain ⟨hge, htypes, hvalue⟩ := h₂
  rw [h₁] at hge htypes
  have hle₂ : stop ≤ w₂.index := head.types.le hvalue hge
  have htypes' : TypesBetween plan.program.tokens stop w₂.index :=
    typesBetween_iff.mpr fun k hk hkw => htypes k (Nat.le_trans hle hk) hkw
  have hentry := isEntry_of_types hclose hms hle₂ htypes' hvalue
  rw [ends_bind, ends_is, decide_eq_false hentry.kind.1, if_neg Bool.false_ne_true]
  refine (ends_fieldLayout_none hentry.kind.2.1).mono fun l w₃ h₃ => ?_
  obtain ⟨rfl, hpos, -⟩ := h₃
  exact ⟨leads_of_types hclose hms hle₂ htypes', hpos⟩

theorem ends_restLayout_value (hclose : IsClose plan.program e)
    (hms : InRow plan.program.source plan.program.tokens stop ms e)
    (head : HeadStands plan.program.source plan.program.tokens start name nameEnd b)
    (hlt : b < stop) (hequals : HasAt plan.program.tokens b
      fun t => IsPlain t ∧ t.kind = .eq ∧ t.rhsEnd = some stop)
    (hclear : plan.program.kindAt name = .bracketL → plan.program.ClosesBefore name nameEnd)
    (hends : EndsBefore plan (b + 1) stop) (hw : w.index = name) :
    Ends plan (restLayout layout i isStatic) w (fun l w' => Leads plan.program e ms w'.index
      ∧ l.insertPos = layout.insertPos
      ∧ IsAssigned plan l ⟨start, stop, .field name nameEnd (some b)⟩) fun _ => True := by
  have hle := head.end_le
  obtain ⟨hplain, hkind, hstop⟩ := hequals.tokenAt
  refine ends_restLayout_name head.name hclear hw (fun _ hend => ?_) (fun _ hkind hend => ?_)
    fun _ w₁ h₁ => ?_
  · subst hw
    refine (ends_constructorLayout_fails fun v hv htypes hvalue => ?_).mono fun _ _ h => h.elim
    obtain rfl : v = b := Nat.le_antisymm (htypes.le hplain.isType (by omega))
      (head.types.le hvalue (hend ▸ hv))
    exact matching?_eq_none hplain.context
  · subst hw
    refine (ends_skipMember_value hclose hms (by omega) (hend ▸ head.types) hlt hequals).mono
      fun _ w₁ h₁ => ?_
    refine ⟨h₁, rfl, fun name nameEnd equals hshape hne => absurd hkind ?_⟩
    obtain ⟨rfl, -⟩ := Shape.field.inj hshape
    exact hne
  refine (ends_skipTypes_to (h₁ ▸ hle) (h₁ ▸ head.types) hplain.isType).bind fun _ w₂ h₂ => ?_
  subst h₂
  have hkind' : plan.program.kindAt w₂.index = .eq := hkind
  rw [ends_bind, ends_is, hkind', decide_eq_false (by decide), if_neg Bool.false_ne_true]
  refine (ends_fieldLayout_value hkind' hstop hends).mono fun l w₃ h₃ => ?_
  obtain ⟨hle₃, htypes₃, hpos, value, hwrites, hassigns⟩ := h₃
  refine ⟨leads_of_types hclose hms hle₃ htypes₃, hpos, fun name' nameEnd' equals' hshape _ => ?_⟩
  obtain ⟨rfl, rfl, hequals'⟩ := Shape.field.inj hshape
  cases hequals'
  exact ⟨value, hwrites, hassigns⟩

/-! ## One member -/

/-- Members have been passed.  The initializers go into the last constructor of them, if there is one,
and the fields of them are assigned. -/
def PassesMembers (plan : Plan) (e : Nat) (ms : List Member) (before : Option Nat)
    (layout : ClassLayout) (v : Nat) : Prop :=
  ∃ done rest, ms = done ++ rest ∧ InStep plan.program e v rest
    ∧ layout.insertPos = (done.reverse.findSome? (insertPos? plan.program)).or before
    ∧ ∀ m ∈ done, IsAssigned plan layout m

theorem Leads.passes (h : Leads plan.program e ms v) :
    PassesMembers plan e ms layout.insertPos layout v := by
  obtain ⟨done, rest, heq, hdone, hrest⟩ := h
  refine ⟨done, rest, heq, hrest, ?_, fun m hm => isAssigned_of_name? (hdone m hm)⟩
  have hnone : done.reverse.findSome? (insertPos? plan.program) = none := by
    rw [List.findSome?_eq_none_iff]
    exact fun m hm => insertPos?_eq_none (hdone m (List.mem_reverse.mp hm))
  rw [hnone, Option.none_or]

theorem Leads.passes_cons {pos : Option Nat} (h : Leads plan.program e ms v)
    (hpos : layout.insertPos = (insertPos? plan.program m).or pos)
    (hassigned : IsAssigned plan layout m) : PassesMembers plan e (m :: ms) pos layout v := by
  have hpasses : PassesMembers plan e ms layout.insertPos layout v := h.passes
  obtain ⟨done, rest, heq, hrest, hlast, hall⟩ := hpasses
  refine ⟨m :: done, rest, congrArg (m :: ·) heq, hrest, hlast.trans ?_, fun m' hm' => ?_⟩
  · rw [hpos, List.reverse_cons, List.findSome?_append, Option.or_assoc]
    cases hm : insertPos? plan.program m <;> simp [hm]
  · rcases List.mem_cons.mp hm' with rfl | hm'
    · exact hassigned
    · exact hall m' hm'

/-- A member with a name is not taken for a static block. -/
theorem isStaticBlock_eq_false {source : Text}
    (head : HeadStands source p.tokens start name nameEnd b) (hge : start ≤ v) (hle : v ≤ name)
    (hname : isModifierAt p name = false) :
    (p.isNameAt v "static".toList && decide (p.kindAt (v + 1) = .braceL)) = false := by
  refine Bool.eq_false_iff.mpr fun hblock => ?_
  simp only [Bool.and_eq_true, decide_eq_true_eq] at hblock
  obtain ⟨hstatic, hbrace⟩ := hblock
  rcases Nat.lt_or_eq_of_le hle with hlt | rfl
  · obtain ⟨hentry, -⟩ := head.entry (Nat.le_succ_of_le hge) hlt
    rw [hbrace] at hentry
    revert hentry
    decide
  · obtain ⟨hkind, htext⟩ := Program.isNameAt_iff.mp hstatic
    rw [Program.kindAt] at hkind
    have hmodifier : isModifierAt p v = true := by
      rw [isModifierAt, hkind, htext, hbrace]
      simp [ClassLayout.memberModifiers, nameFollowers]
    rw [hname] at hmodifier
    cases hmodifier

theorem ends_memberLayout_semi (hvalue : plan.program.isTypeAt w.index = false)
    (hkind : plan.program.kindAt w.index = .semi) :
    Ends plan (memberLayout token layout) w (fun l w' => w'.index = w.index + 1
      ∧ l.insertPos = layout.insertPos) fun _ => True := by
  unfold memberLayout
  rw [ends_bind, ends_isType, hvalue, if_neg Bool.false_ne_true, ends_bind, ends_is,
    decide_eq_true hkind, if_pos rfl, ends_bind, ends_index, ends_bind, ends_skip]
  split
  · exact ⟨rfl, rfl⟩
  · exact trivial

theorem ends_memberLayout_block (hvalue : plan.program.isTypeAt w.index = false)
    (hword : IsOneOf plan.program.source ["static"] (plan.program.tokenAt w.index))
    (hbrace : plan.program.kindAt (w.index + 1) = .braceL)
    (hmatching : plan.program.matching? (w.index + 1) = some b) :
    Ends plan (memberLayout token layout) w (fun l w' => w'.index = b + 1
      ∧ l.insertPos = layout.insertPos) fun _ => True := by
  have hkind : plan.program.kindAt w.index = .name := hword.kind
  have hstatic : plan.program.isNameAt w.index "static".toList = true := by
    have htext : String.ofList (plan.program.textAt w.index) = "static" :=
      List.mem_singleton.mp hword.text
    exact Program.isNameAt_iff.mpr ⟨hkind, by rw [← htext, String.toList_ofList]⟩
  unfold memberLayout
  rw [ends_bind, ends_isType, hvalue, if_neg Bool.false_ne_true, ends_bind, ends_is, hkind,
    decide_eq_false (by decide), if_neg Bool.false_ne_true, ends_bind, ends_isName, ends_bind,
    ends_program, ends_bind, ends_index, hstatic, hbrace, if_pos (by decide), ends_bind, ends_skip]
  split
  · exact (ends_skipContext hmatching).bind fun _ w₁ h₁ => ⟨h₁, rfl⟩
  · exact trivial

/-- A member with a name is passed, or a word in front of the name. -/
theorem ends_memberLayout_named
    (head : HeadStands plan.program.source plan.program.tokens m.start name nameEnd b)
    (henters : ∀ v, m.EntersAt v ↔ m.start ≤ v ∧ v ≤ name)
    (h : InStep plan.program e w.index (m :: ms)) (hvalue : plan.program.isTypeAt w.index = false)
    (hname : isModifierAt plan.program name = false)
    (hrest : ∀ start isStatic w₁, w₁.index = name → Ends plan (restLayout layout start isStatic) w₁
      (fun l w' => PassesMembers plan e (m :: ms) layout.insertPos l w'.index)
      fun _ => True) :
    Ends plan (memberLayout token layout) w
      (fun l w' => PassesMembers plan e (m :: ms) layout.insertPos l w'.index)
      fun _ => True := by
  cases h with
  | inside hm hv hms =>
    obtain ⟨hge, hle⟩ := (henters w.index).mp hv
    obtain ⟨-, -, hsemi⟩ := head.entry hge hle
    unfold memberLayout
    rw [ends_bind, ends_isType, hvalue, if_neg Bool.false_ne_true, ends_bind, ends_is,
      decide_eq_false hsemi, if_neg Bool.false_ne_true, ends_bind, ends_isName, ends_bind,
      ends_program, ends_bind, ends_index, isStaticBlock_eq_false head hge hle hname,
      if_neg Bool.false_ne_true, namedMemberLayout_eq, ends_bind, ends_index]
    refine (ends_skipModifiers hle hname).bind fun isStatic w₁ h₁ => ?_
    obtain ⟨hge₁, hle₁, hmodifier⟩ := h₁
    rcases Nat.lt_or_eq_of_le hle₁ with hlt | heq
    · have hstart : m.start ≤ w₁.index := Nat.le_trans hge hge₁
      refine (ends_restLayout_word head hstart hlt hmodifier).mono fun l w₂ h₂ => ?_
      obtain ⟨hgt, hle₂, hpos⟩ := h₂
      exact ⟨[], m :: ms, rfl, .inside hm ((henters _).mpr ⟨by omega, hle₂⟩) hms, hpos, nofun⟩
    · exact hrest w.index isStatic w₁ heq

/-- **One step.**  Passing a member of a class that is read passes one of its members as a whole, or
types or a word of one. -/
theorem ends_memberLayout_inStep (hclose : IsClose plan.program e)
    (h : InStep plan.program e w.index ms) (hne : w.index ≠ e) (hclear : ∀ m ∈ ms, IsClear plan m) :
    Ends plan (memberLayout token layout) w
      (fun l w' => PassesMembers plan e ms layout.insertPos l w'.index)
      fun _ => True := by
  by_cases htype : plan.program.isTypeAt w.index = true
  · unfold memberLayout
    rw [ends_bind, ends_isType, if_pos htype, ends_bind, ends_skip]
    split
    case isFalse => exact trivial
    obtain ⟨done, rest, heq, hdone, hrest⟩ := h.succ hclose.value htype
    exact Leads.passes ⟨done, rest, heq, fun m hm => Shape.name?_of_erased (hdone m hm), hrest⟩
  have hvalue : plan.program.isTypeAt w.index = false := Bool.eq_false_iff.mpr htype
  have hinside := h
  cases h with
  | ended => exact absurd rfl hne
  | @inside _ m ms hm hv hms =>
    obtain ⟨hname, hends⟩ := hclear m (List.mem_cons_self ..)
    have hleads : Leads plan.program e ms m.stop :=
      leads_of_types hclose hms (Nat.le_refl _) fun k hk hkv => absurd hk (Nat.not_le_of_lt hkv)
    cases hm with
    | @semicolon a h =>
      obtain rfl : w.index = a := hv
      refine (ends_memberLayout_semi hvalue h.tokenAt.2).mono fun l w' hw' => ?_
      rw [hw'.1]
      exact hleads.passes_cons hw'.2 (isAssigned_of_name? rfl)
    | erased _ h => exact absurd (typesBetween_iff.mp h w.index hv.1 hv.2) htype
    | @block a d h _ hbody =>
      obtain rfl : w.index = a := hv
      obtain ⟨hmatching, hkind, -⟩ := hbody.matching?
      refine (ends_memberLayout_block hvalue h.tokenAt.2 hkind hmatching).mono fun l w' hw' => ?_
      rw [hw'.1]
      exact hleads.passes_cons hw'.2 (isAssigned_of_name? rfl)
    | @method a name nameEnd paren parenEnd brace d _ head hparen hparameters _ hreturn hlt hbrace
        hbody =>
        obtain ⟨hmatching, hkind, -⟩ := hparameters.matching?
        obtain ⟨hmatching', hkind', -⟩ := hbody.matching?
        have hmethod : IsMethodAt plan.program paren parenEnd brace d :=
          ⟨hkind, hparen.tokenAt, hmatching, hlt, hreturn, hkind', hbrace.tokenAt, hmatching'⟩
        obtain ⟨hmodifier, hcomputed⟩ := hname name nameEnd rfl
        refine ends_memberLayout_named head (fun _ => Iff.rfl) hinside hvalue hmodifier
          fun start isStatic w₁ h₁ => ?_
        refine (ends_restLayout_method head hmethod hcomputed h₁).mono fun l w₂ h₂ => ?_
        have hinsert : l.insertPos = (insertPos? plan.program
            ⟨a, d + 1, .method name nameEnd paren brace⟩).or layout.insertPos := by
          rw [h₂.2, insertPos?]
          dsimp only
          split <;> rfl
        rw [h₂.1]
        exact hleads.passes_cons hinsert fun _ _ _ hshape => nomatch hshape
    | @field a name nameEnd d head =>
      obtain ⟨hmodifier, hcomputed⟩ := hname name nameEnd rfl
      refine ends_memberLayout_named head (fun _ => Iff.rfl) hinside hvalue hmodifier
        fun start isStatic w₁ h₁ => ?_
      refine (ends_restLayout_field hclose hms head hcomputed h₁).mono fun l w₂ h₂ => ?_
      exact h₂.1.passes_cons h₂.2 fun _ _ _ hshape => nomatch hshape
    | @initialized a name nameEnd equals d head hlt hequals =>
      obtain ⟨hmodifier, hcomputed⟩ := hname name nameEnd rfl
      refine ends_memberLayout_named head (fun _ => Iff.rfl) hinside hvalue hmodifier
        fun start isStatic w₁ h₁ => ?_
      refine (ends_restLayout_value hclose hms head hlt hequals hcomputed (hends equals rfl)
        h₁).mono fun l w₂ h₂ => ?_
      exact h₂.1.passes_cons h₂.2.1 h₂.2.2

end

/-! ## Assignments -/

/-- There is a field: its name and the index past that, its `=` and the index past its value. -/
structure IsFieldAt (p : Program) (name nameEnd equals stop : Nat) : Prop where
  closes : p.kindAt name = .bracketL → p.ClosesBefore name nameEnd
  one : p.kindAt name ≠ .bracketL → nameEnd = name + 1
  types : TypesBetween p.tokens nameEnd equals
  kind : p.kindAt equals = .eq
  stop : (p.tokenAt equals).rhsEnd = some stop

/-- What passing a member does to the assignments of a class. -/
inductive Extends (plan : Plan) (layout l : ClassLayout) : Prop
  | same (h : l.initializers = layout.initializers) (h' : l.statics = layout.statics)
  | parameters {names : List Text} (h' : l.statics = layout.statics)
      (h : l.initializers = names.map parameterAssignment ++ layout.initializers)
  | field {name nameEnd equals stop : Nat} {value : Text}
      (hfield : IsFieldAt plan.program name nameEnd equals stop)
      (hvalue : Writes plan (equals + 1) stop value)
      (h : layout.Adds (plan.program.accessText name nameEnd ++ " = ".toList ++ value) l)

section

variable {plan : Plan} {w : Work} {layout l : ClassLayout}

theorem Extends.assigns (h : Extends plan layout l) {t : Text} (ht : layout.Assigns t) :
    l.Assigns t := by
  cases h with
  | same h h' => rwa [ClassLayout.Assigns, h, h']
  | parameters h' h =>
    rw [ClassLayout.Assigns, h, h']
    exact ht.imp_left (List.mem_append_right _)
  | field _ _ h =>
    rcases h with ⟨h, h'⟩ | ⟨h, h'⟩
    · rw [ClassLayout.Assigns, h, h']
      exact ht.imp_left (List.mem_append_left _)
    · rw [ClassLayout.Assigns, h, h']
      exact ht.imp_right (List.mem_append_left _)

theorem ends_memberLayout_extends (hw : w.index ≤ plan.program.count) :
    Ends plan (memberLayout token layout) w (fun l _ => Extends plan layout l) fun _ => True := by
  refine ends_memberLayout_step.mono fun l w' hstep => ?_
  cases hstep with
  | same => exact .same rfl rfl
  | semicolon => exact .same rfl rfl
  | constructor_ hmodifiers hrun =>
    obtain ⟨names, bodyStart, bodyEnd, -, -, -, heq⟩ :=
      ends_constructorLayout_step hw hmodifiers hrun
    cases heq
    exact .parameters rfl rfl
  | @field _ _ v₂ _ isStatic _ _ _ haccess htypes hrun =>
    obtain ⟨rfl, hcloses, hone⟩ := ends_memberAccess.of_ok haccess
    obtain ⟨-, htypes, -⟩ := ends_skipTypes.of_ok htypes
    by_cases hkind : plan.program.kindAt v₂.index = .eq
    · obtain ⟨stop, -, value, hstop, -, -, hwrites, hadds⟩ :=
        (ends_fieldLayout_assigns hkind).of_ok hrun
      exact .field ⟨hcloses, hone, typesBetween_iff.mpr htypes, hkind, hstop⟩ hwrites hadds
    · obtain ⟨-, -, hsame⟩ := (ends_fieldLayout_none hkind).of_ok hrun
      exact .same hsame.1 hsame.2

end

/-! ## Whole classes -/

section

variable {plan : Plan} {o : Options} {w : Work} {b e i : Nat} {ms : List Member} {p : Program}

/-- A class that is read has one closing brace, without a partner. -/
theorem isClose_of_classForm (hparse : parse p.source o = .ok p.tokens)
    (hform : ClassForm p.source p.tokens i b e ms) : IsClose p e := by
  obtain ⟨id, -, -, hclose⟩ := hform.context
  obtain ⟨hkind, hvalue, -⟩ := hclose.tokenAt
  exact ⟨hkind, hvalue, Program.matching?_braceR hparse hkind⟩

/-- Going through a class ends with all members passed, and finds fields where members begin. -/
theorem ends_scanClass_inStep (hparse : parse plan.program.source o = .ok plan.program.tokens)
    (hform : ClassForm plan.program.source plan.program.tokens w.index b e ms)
    (hclear : ∀ m ∈ ms, IsClear plan m) :
    Ends plan (scanClass token) w (fun l _ =>
      l.insertPos = ms.reverse.findSome? (insertPos? plan.program)
        ∧ (∀ f ∈ l.fields, IsEntry plan.program f.1) ∧ ∀ m ∈ ms, IsAssigned plan l m)
      fun _ => True := by
  have hclose := isClose_of_classForm hparse hform
  obtain ⟨id, hkeyword, hopen, hlast⟩ := hform.context
  obtain ⟨-, hid⟩ := hkeyword.tokenAt
  obtain ⟨hbrace, hbid⟩ := hopen.tokenAt
  obtain ⟨-, -, heid⟩ := hlast.tokenAt
  refine (ends_scanClass_of (I := fun _ id' l v => id' = id
    ∧ PassesMembers plan e ms none l v.index
    ∧ ∀ f ∈ l.fields, IsEntry plan.program f.1) ?_ ?_).mono fun l w' hw' => ?_
  · intro b' id' head v hbody hv
    obtain rfl : id = id' := Option.some.inj (hid.symm.trans hbody.context)
    have hb : b' = b := Program.index_eq_of_brace hparse (.inl rfl) hbody.kind_brace
      hbody.context_brace hbrace hbid
    have hleads : Leads plan.program e ms v.index :=
      leads_of_types hclose hform.members (by omega) fun k hk hkv => by omega
    exact ⟨rfl, hleads.passes, nofun⟩
  · rintro b' id' l v hle hge hnot ⟨rfl, ⟨done, rest, rfl, hin, hpos, hassigned⟩, hentries⟩
    have hne : v.index ≠ e := by
      intro heq
      exact hnot (heq ▸ ⟨hclose.kind, heid⟩)
    have hclear' : ∀ m ∈ rest, IsClear plan m :=
      fun m hm => hclear m (List.mem_append_right _ hm)
    refine ((ends_memberLayout_inStep hclose hin hne hclear').and
      (ends_memberLayout_starts.and (ends_memberLayout_extends hle))).weaken
      (fun l' v' hv' => ?_) fun _ _ => trivial
    obtain ⟨⟨done', rest', rfl, hin', hpos', hassigned'⟩, hstarts, hextends⟩ := hv'
    refine ⟨rfl, ⟨done ++ done', rest', by rw [List.append_assoc], hin', ?_, fun m hm => ?_⟩,
      fun f hf => ?_⟩
    · rw [hpos', hpos, List.reverse_append, List.findSome?_append, Option.or_assoc]
    · rcases List.mem_append.mp hm with hm | hm
      · exact (hassigned m hm).mono fun t => hextends.assigns
      · exact hassigned' m hm
    · rcases hstarts f hf with hf | ⟨hstart, hvalue⟩
      · exact hentries f hf
      · exact hstart ▸ isEntry_of_inStep hin hclose hvalue
  · obtain ⟨b', id', -, -, hkind, hcontext, rfl, ⟨done, rest, rfl, hin, hpos, hassigned⟩, hentries⟩ :=
      hw'
    have hindex : w'.index = e :=
      Program.index_eq_of_brace hparse (.inr rfl) hkind hcontext hclose.kind heid
    rcases hin.entry (hindex ▸ hclose.value) with ⟨-, rfl⟩ | ⟨hentry, -⟩
    · rw [List.append_nil]
      exact ⟨by rw [hpos, Option.or_none], hentries, hassigned⟩
    · rw [hkind] at hentry
      exact absurd hentry (by decide)

/-- What is found in a class whose members can be told apart. -/
theorem layout_of_classForm {z : Work} {layout : ClassLayout}
    (hparse : parse plan.program.source o = .ok plan.program.tokens)
    (hform : ClassForm plan.program.source plan.program.tokens w.index b e ms)
    (hclear : ∀ m ∈ ms, IsClear plan m) (hlayout : classLayout token plan w = .ok layout z) :
    layout.insertPos = ms.reverse.findSome? (insertPos? plan.program)
      ∧ (∀ f ∈ layout.fields, IsEntry plan.program f.1) ∧ ∀ m ∈ ms, IsAssigned plan layout m := by
  obtain ⟨-, hfound, -⟩ := (ends_scanClass_inStep hparse hform hclear).classLayout.of_ok hlayout
  exact hfound

end

end Lower

end Downlevel
