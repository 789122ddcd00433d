import Downlevel.Proofs.Markup.Literal
import Downlevel.Proofs.Text.Offset
import Mathlib.Data.List.Induction

/-!
# What a character reference is

A character may be written by its name or by its number, in decimal or in hexadecimal digits, after
leading zeros and in either case.  No reference holds white space.
-/

namespace Downlevel.Markup

open Character

/-! ## Numerals -/

/-- The digits write the number in the base, after leading zeros and in either case. -/
def Spells (base : Nat) (digits : Text) (n : Nat) : Prop :=
  ∃ zeros, digits.map Char.toLower = List.replicate zeros '0' ++ Nat.toDigits base n

section

variable {base n v : Nat} {digits t : Text} {c d : Char}

theorem toNat_lt_of_hexValue? (h : hexValue? d = some v) : d.toNat < 128 := by
  by_contra hd
  have hle (e : Char) (he : e.toNat < 128) : ¬d ≤ e := fun h => hd (Nat.lt_of_le_of_lt h he)
  simp [hexValue?, isDigit, hle '9' (by decide), hle 'f' (by decide), hle 'F' (by decide)] at h

theorem hexValue?_eq_some_iff (hv : v < 16) : hexValue? d = some v ↔ d.toLower = v.digitChar := by
  by_cases hd : d.toNat < 128
  · have hall : ∀ v < 16, hexValue? d = some v ↔ d.toLower = v.digitChar :=
      of_ascii hd (by decide +kernel)
    exact hall v hv
  · have hlower : d.toLower = d := dif_neg fun h => hd (Nat.lt_of_le_of_lt h.2 (by decide))
    have hdigit : ∀ v < 16, v.digitChar.toNat < 128 := by decide
    refine iff_of_false (fun h => hd (toNat_lt_of_hexValue? h)) fun h => hd ?_
    rw [← hlower, h]
    exact hdigit v hv

theorem isDigit_iff : isDigit d = true ↔ ∃ v < 10, hexValue? d = some v := by
  by_cases hd : d.toNat < 128
  · exact of_ascii hd (by decide +kernel)
  · exact iff_of_false (fun h => hd (toNat_lt_of_isDigit h))
      fun ⟨v, _, h⟩ => hd (toNat_lt_of_hexValue? h)

theorem isHexDigit_iff : isHexDigit d = true ↔ ∃ v < 16, hexValue? d = some v := by
  by_cases hd : d.toNat < 128
  · exact of_ascii hd (by decide +kernel)
  · exact iff_of_false (fun h => hd (toNat_lt_of_hexValue? (Option.isSome_iff_exists.mp h).choose_spec))
      fun ⟨v, _, h⟩ => hd (toNat_lt_of_hexValue? h)

/-- The last digit of a numeral. -/
theorem spells_concat (hbase : 1 < base) (hbase' : base ≤ 16) :
    Spells base (digits ++ [d]) n ↔ ∃ v < base, hexValue? d = some v
      ∧ (digits = [] ∧ n = v ∨ ∃ m, Spells base digits m ∧ n = base * m + v) := by
  constructor
  · rintro ⟨zeros, h⟩
    rw [List.map_append, List.map_singleton, Nat.toDigits_eq_if hbase] at h
    by_cases hn : n < base
    · rw [if_pos hn, List.append_singleton_inj] at h
      refine ⟨n, hn, (hexValue?_eq_some_iff (by omega)).mpr h.2, ?_⟩
      cases zeros with
      | zero => exact .inl ⟨List.map_eq_nil_iff.mp h.1, rfl⟩
      | succ zeros =>
        refine .inr ⟨0, ⟨zeros, ?_⟩, by simp⟩
        rw [h.1, Nat.toDigits_zero, List.replicate_succ']
    · rw [if_neg hn, ← List.append_assoc, List.append_singleton_inj] at h
      have hmod := Nat.mod_lt n (Nat.zero_lt_of_lt hbase)
      exact ⟨n % base, hmod, (hexValue?_eq_some_iff (by omega)).mpr h.2,
        .inr ⟨n / base, ⟨zeros, h.1⟩, (Nat.div_add_mod n base).symm⟩⟩
  · rintro ⟨v, hv, hd, hdigits⟩
    rw [hexValue?_eq_some_iff (by omega)] at hd
    unfold Spells
    rw [List.map_append, List.map_singleton, hd, ← Nat.toDigits_of_lt_base hv]
    obtain ⟨rfl, rfl⟩ | ⟨m, ⟨zeros, hm⟩, rfl⟩ := hdigits
    · exact ⟨0, rfl⟩
    · rw [hm]
      cases m with
      | zero =>
        refine ⟨zeros + 1, ?_⟩
        rw [Nat.toDigits_zero, List.replicate_succ', Nat.mul_zero, Nat.zero_add]
      | succ m =>
        refine ⟨zeros, ?_⟩
        rw [List.append_assoc, Nat.toDigits_append_toDigits hbase m.succ_pos hv]

/-- A numeral is a row of digits that has the value. -/
theorem spells_iff (hbase : 1 < base) (hbase' : base ≤ 16) :
    Spells base digits n ↔ digits ≠ [] ∧ (∀ d ∈ digits, ∃ v < base, hexValue? d = some v)
      ∧ Text.valueOfDigits base digits = n := by
  induction digits using List.reverseRecOn generalizing n with
  | nil =>
    refine iff_of_false ?_ (by simp)
    rintro ⟨zeros, h⟩
    exact Nat.toDigits_ne_nil (List.append_eq_nil_iff.mp h.symm).2
  | append_singleton digits d ih =>
    have hvalue : Text.valueOfDigits base (digits ++ [d])
        = Text.valueOfDigits base digits * base + (hexValue? d).getD 0 := by
      simp [Text.valueOfDigits]
    rw [spells_concat hbase hbase', hvalue, List.forall_mem_append, List.forall_mem_singleton]
    constructor
    · rintro ⟨v, hv, hd, ⟨rfl, hn⟩ | ⟨m, hm, rfl⟩⟩
      · subst hn
        exact ⟨by simp, ⟨by simp, n, hv, hd⟩, by simp [hd, Text.valueOfDigits]⟩
      · obtain ⟨-, hdigits, rfl⟩ := ih.mp hm
        exact ⟨by simp, ⟨hdigits, v, hv, hd⟩, by simp [hd, Nat.mul_comm]⟩
    · rintro ⟨-, ⟨hdigits, v, hv, hd⟩, rfl⟩
      refine ⟨v, hv, hd, ?_⟩
      by_cases hnil : digits = []
      · exact .inl ⟨hnil, by simp [hnil, hd, Text.valueOfDigits]⟩
      · exact .inr ⟨_, ih.mpr ⟨hnil, hdigits, rfl⟩, by simp [hd, Nat.mul_comm]⟩

/-! ## References -/

/-- White space or a line break. -/
def isBreak (c : Char) : Bool :=
  isIndent c || c == '\n'

/-- What can stand between `&` and `;`, and the character it stands for. -/
inductive Denotes : Text → Char → Prop
  | decimal {digits : Text} {c : Char} : Spells 10 digits c.toNat → Denotes ('#' :: digits) c
  | hexadecimal {digits : Text} {c : Char} :
      Spells 16 digits c.toNat → Denotes ('#' :: 'x' :: digits) c
  | named {name : Text} {c : Char} : entity? name = some c → Denotes name c

/-- The text, which comes behind an `&`, starts with the rest of a reference. -/
def StartsReference (t : Text) : Prop :=
  ∃ body rest c, t = body ++ ';' :: rest ∧ Denotes body c

theorem ofCodePoint?_eq_some_iff : ofCodePoint? n = some c ↔ n = c.toNat := by
  unfold ofCodePoint?
  constructor
  · intro h
    by_cases hvalid : n.isValidChar
    · rw [dif_pos hvalid] at h
      rw [← Option.some.inj h]
      rfl
    · rw [dif_neg hvalid] at h
      cases h
  · rintro rfl
    exact dif_pos c.valid

theorem numericReference?_eq_some_iff {isDigit : Char → Bool} (hbase : 1 < base) (hbase' : base ≤ 16)
    (hdigit : ∀ d, isDigit d = true ↔ ∃ v < base, hexValue? d = some v) :
    numericReference? base isDigit t = some (c, n) ↔ ∃ digits rest,
      t = digits ++ ';' :: rest ∧ n = digits.length + 1 ∧ Spells base digits c.toNat := by
  have hsemicolon : isDigit ';' = false := by
    rw [← Bool.not_eq_true, hdigit]
    rintro ⟨v, -, hv⟩
    cases hv
  unfold numericReference?
  constructor
  · intro h
    dsimp only at h
    split at h
    case h_2 => cases h
    rename_i rest hrest
    split at h
    case isTrue => cases h
    rename_i hne
    obtain ⟨d, hd, heq⟩ := Option.map_eq_some_iff.mp h
    cases heq
    refine ⟨t.takeWhile isDigit, rest, ?_, rfl,
      (spells_iff hbase hbase').mpr ⟨by simpa using hne, ?_, ofCodePoint?_eq_some_iff.mp hd⟩⟩
    · rw [← hrest, List.takeWhile_append_dropWhile]
    · exact fun e he => (hdigit e).mp (List.mem_takeWhile_imp he)
  · rintro ⟨digits, rest, rfl, rfl, hspells⟩
    obtain ⟨hne, hdigits, hvalue⟩ := (spells_iff hbase hbase').mp hspells
    have hall : ∀ d ∈ digits, isDigit d = true := fun d hd => (hdigit d).mpr (hdigits d hd)
    simp [List.takeWhile_append_of_pos hall, List.dropWhile_append_of_pos hall, hsemicolon, hne,
      ofCodePoint?_eq_some_iff.mpr hvalue]

theorem size_le_of_mem_entities : ∀ entry ∈ entities, Text.size entry.1.toList ≤ longestName
    ∧ ';' ∉ entry.1.toList ∧ entry.1.toList.head? ≠ some '#'
    ∧ entry.1.toList.any isBreak = false := by
  decide +kernel

theorem size_le_of_entity? (h : entity? t = some c) : Text.size t ≤ longestName
    ∧ ';' ∉ t ∧ t.head? ≠ some '#' ∧ t.any isBreak = false := by
  obtain ⟨m, hm, -⟩ := Option.bind_eq_some_iff.mp h
  obtain ⟨_, _, hentities, -⟩ := List.lookup_eq_some_iff.mp hm
  have hname := size_le_of_mem_entities (String.ofList t, m) (by simp [hentities])
  rwa [String.toList_ofList] at hname

theorem namedReference?_eq_some_iff : namedReference? t = some (c, n) ↔ ∃ name rest,
    t = name ++ ';' :: rest ∧ n = name.length + 1 ∧ entity? name = some c := by
  unfold namedReference?
  constructor
  · intro h
    split at h
    case h_2 => cases h
    rename_i name rest hcut
    split at h
    case isFalse => cases h
    obtain ⟨d, hd, heq⟩ := Option.map_eq_some_iff.mp h
    cases heq
    exact ⟨name, rest, Text.eq_append_of_cut hcut, rfl, hd⟩
  · rintro ⟨name, rest, rfl, rfl, hentity⟩
    obtain ⟨hsize, hsemicolon, -⟩ := size_le_of_entity? hentity
    rw [Text.cut_append hsemicolon]
    dsimp only
    rw [if_pos hsize, hentity]
    rfl

theorem reference?_of_ne (h : t.head? ≠ some '#') : reference? t = namedReference? t := by
  unfold reference?
  split
  · exact absurd rfl h
  · exact absurd rfl h
  · rfl

theorem reference?_hash (h : t.head? ≠ some 'x') :
    reference? ('#' :: t) =
      (numericReference? 10 Character.isDigit t).map fun (c, n) => (c, n + 1) := by
  unfold reference?
  split
  · rename_i heq
    obtain ⟨-, rfl⟩ := List.cons.inj heq
    exact absurd rfl h
  · rename_i heq
    rw [(List.cons.inj heq).2]
  · rename_i hhash
    exact absurd rfl (hhash t)

/-- **What a reference is.** -/
theorem reference?_eq_some_iff : reference? t = some (c, n) ↔ ∃ body rest,
    t = body ++ ';' :: rest ∧ n = body.length + 1 ∧ Denotes body c := by
  constructor
  · intro h
    unfold reference? at h
    split at h
    · obtain ⟨⟨d, m⟩, href, heq⟩ := Option.map_eq_some_iff.mp h
      cases heq
      obtain ⟨digits, rest, rfl, rfl, hspells⟩ :=
        (numericReference?_eq_some_iff (by decide) (by decide) fun _ => isHexDigit_iff).mp href
      exact ⟨_, rest, rfl, rfl, .hexadecimal hspells⟩
    · obtain ⟨⟨d, m⟩, href, heq⟩ := Option.map_eq_some_iff.mp h
      cases heq
      obtain ⟨digits, rest, rfl, rfl, hspells⟩ :=
        (numericReference?_eq_some_iff (by decide) (by decide) fun _ => isDigit_iff).mp href
      exact ⟨_, rest, rfl, rfl, .decimal hspells⟩
    · obtain ⟨name, rest, rfl, rfl, hmem⟩ := namedReference?_eq_some_iff.mp h
      exact ⟨_, rest, rfl, rfl, .named hmem⟩
  · rintro ⟨body, rest, rfl, rfl, hbody⟩
    cases hbody with
    | @decimal digits _ hspells =>
      have hhead : (digits ++ ';' :: rest).head? ≠ some 'x' := by
        obtain ⟨hne, hdigits, -⟩ := (spells_iff (by decide) (by decide)).mp hspells
        obtain ⟨d, ds, rfl⟩ := List.exists_cons_of_ne_nil hne
        rintro ⟨⟩
        obtain ⟨_, -, hx⟩ := hdigits 'x' List.mem_cons_self
        cases hx
      rw [List.cons_append, reference?_hash hhead,
        (numericReference?_eq_some_iff (by decide) (by decide) fun _ => isDigit_iff).mpr
          ⟨digits, rest, rfl, rfl, hspells⟩]
      rfl
    | @hexadecimal digits _ hspells =>
      rw [List.cons_append, List.cons_append, reference?,
        (numericReference?_eq_some_iff (by decide) (by decide) fun _ => isHexDigit_iff).mpr
          ⟨digits, rest, rfl, rfl, hspells⟩]
      rfl
    | named hentity =>
      have hhead : (body ++ ';' :: rest).head? ≠ some '#' := by
        have hname := (size_le_of_entity? hentity).2.2.1
        cases body with
        | nil => simp
        | cons d ds => exact hname
      rw [reference?_of_ne hhead]
      exact namedReference?_eq_some_iff.mpr ⟨body, rest, rfl, rfl, hentity⟩

theorem reference?_eq_none_iff : reference? t = none ↔ ¬StartsReference t := by
  rw [← Option.not_isSome_iff_eq_none, Option.isSome_iff_exists, not_iff_not]
  constructor
  · rintro ⟨⟨c, n⟩, h⟩
    obtain ⟨body, rest, ht, -, hbody⟩ := reference?_eq_some_iff.mp h
    exact ⟨body, rest, c, ht, hbody⟩
  · rintro ⟨body, rest, c, ht, hbody⟩
    exact ⟨_, reference?_eq_some_iff.mpr ⟨body, rest, ht, rfl, hbody⟩⟩

instance : Decidable (StartsReference t) :=
  decidable_of_iff (¬reference? t = none) (by rw [reference?_eq_none_iff, not_not])

/-- No reference holds white space. -/
theorem Denotes.isBreak_eq_false {body : Text} (h : Denotes body c) :
    ∀ d ∈ body, isBreak d = false := by
  have hdigits {base : Nat} {digits : Text} (hbase : 1 < base) (hbase' : base ≤ 16)
      (hspells : Spells base digits c.toNat) : ∀ d ∈ digits, isBreak d = false := fun d hd => by
    obtain ⟨v, -, hv⟩ := ((spells_iff hbase hbase').mp hspells).2.1 d hd
    have hascii := toNat_lt_of_hexValue? hv
    have hsome : (hexValue? d).isSome = true := Option.isSome_iff_exists.mpr ⟨v, hv⟩
    revert hsome
    exact of_ascii hascii (by decide)
  cases h with
  | decimal hspells =>
    exact List.forall_mem_cons.mpr ⟨rfl, hdigits (by decide) (by decide) hspells⟩
  | hexadecimal hspells =>
    exact List.forall_mem_cons.mpr ⟨rfl, List.forall_mem_cons.mpr
      ⟨rfl, hdigits (by decide) (by decide) hspells⟩⟩
  | named hentity =>
    exact fun d hd => by simpa using List.any_eq_false.mp (size_le_of_entity? hentity).2.2.2 d hd

theorem Denotes.reference? {body rest : Text} (h : Denotes body c) :
    reference? (body ++ ';' :: rest) = some (c, body.length + 1) :=
  reference?_eq_some_iff.mpr ⟨body, rest, rfl, rfl, h⟩

end

end Downlevel.Markup
