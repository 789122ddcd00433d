import Downlevel.Identifier
import Downlevel.Linkage.Statement

/-!
# The forms of module declarations

What the tokens of an import or of an export from another module look like, and
which of them are taken for the tokens of the statement when the dependencies of a
module are collected.
-/

namespace Downlevel.Linkage

/-! ## Tokens -/

/-- A mark of a kind.  Only a name can be written `as`. -/
structure IsMark (source : Text) (kind : Kind) (t : Token) : Prop where
  ne_as : kind ≠ .name → t.text source ≠ "as".toList
  kind : t.kind = kind
  isType : t.isType = false
  role : t.role = none

/-- A word of a declaration. -/
structure IsWord (source : Text) (word : String) (t : Token) : Prop where
  kind : t.kind = .name
  isType : t.isType = false
  role : t.role = none
  text : t.text source = word.toList

/-- A name that a declaration binds. -/
structure IsLocal (source : Text) (t : Token) : Prop where
  kind : t.kind = .name
  isType : t.isType = false
  role : t.role = some .blockScoped
  unquote : unquote (t.text source) = t.text source

/-- The tokens that are not part of a type. -/
def values (ts : List Token) : List Token :=
  ts.filter fun t => !t.isType

@[simp] theorem values_nil : values [] = [] := rfl

@[simp] theorem values_append (ts us : List Token) : values (ts ++ us) = values ts ++ values us :=
  List.filter_append ts us

theorem values_cons {t : Token} (h : t.isType = false) (ts : List Token) :
    values (t :: ts) = t :: values ts :=
  List.filter_cons_of_pos (by simp [h])

theorem values_cons_of_isType {t : Token} (h : t.isType = true) (ts : List Token) :
    values (t :: ts) = values ts :=
  List.filter_cons_of_neg (by simp [h])

theorem values_eq_nil {ts : List Token} (h : ∀ t ∈ ts, t.isType = true) : values ts = [] :=
  List.filter_eq_nil_iff.mpr fun t ht => by simp [h t ht]

theorem mem_values {t : Token} {ts : List Token} : t ∈ values ts ↔ t ∈ ts ∧ t.isType = false := by
  simp [values, List.mem_filter]

/-! ## Forms -/

/-- Items with commas between them, and perhaps one after the last. -/
inductive Separated (source : Text) (item : List Token → Prop) : List Token → Prop
  | nil : Separated source item []
  | last {ts : List Token} : item ts → Separated source item ts
  | more {ts rest : List Token} {comma : Token} :
      item ts → IsMark source .comma comma → Separated source item rest →
      Separated source item (ts ++ comma :: rest)

/-- A name in the braces of an import.  Of a name that is bound to another one
nothing is known. -/
inductive ImportItem (source : Text) : List Token → Prop
  | plain {name : Token} : IsLocal source name → ImportItem source [name]
  | renamed {imported word name : Token} :
      imported.isType = false → imported.role = none → imported.kind ≠ .braceR →
      IsWord source "as" word → IsLocal source name → ImportItem source [imported, word, name]
  | typed {ts : List Token} : (∀ t ∈ ts, t.isType = true) → ImportItem source ts

/-- The default name of an import that takes more than the default. -/
inductive Lead (source : Text) : List Token → Prop
  | none : Lead source []
  | default {name comma : Token} :
      IsLocal source name → IsMark source .comma comma → Lead source [name, comma]

/-- The tokens of an import between its keyword and its path. -/
inductive ImportForm (source : Text) : List Token → Prop
  | bare : ImportForm source []
  | default {name word : Token} :
      IsLocal source name → IsWord source "from" word → ImportForm source [name, word]
  | wildcard {lead : List Token} {star as name word : Token} :
      Lead source lead → IsMark source .star star → IsWord source "as" as →
      IsLocal source name → IsWord source "from" word →
      ImportForm source (lead ++ [star, as, name, word])
  | named {lead items : List Token} {opening closing word : Token} :
      Lead source lead → IsMark source .braceL opening →
      Separated source (ImportItem source) items → IsMark source .braceR closing →
      IsWord source "from" word →
      ImportForm source (lead ++ opening :: (items ++ [closing, word]))

/-- A name in an export list, which is a word or a string literal. -/
structure IsExportName (t : Token) : Prop where
  kind : t.kind.isNameLike = true ∨ t.kind = .string
  isType : t.isType = false

/-- An item of an export list. -/
inductive ExportItem (source : Text) : List Token → Prop
  | plain {name : Token} : IsExportName name → ExportItem source [name]
  | renamed {name word exported : Token} :
      IsExportName name → IsWord source "as" word → IsExportName exported →
      ExportItem source [name, word, exported]
  | typed {ts : List Token} :
      (∀ t ∈ ts, t.isType = true ∧ (t.kind.isNameLike = true ∨ t.kind = .string)) →
      ExportItem source ts

/-- The tokens of an export from another module between its keyword and its path. -/
inductive ExportForm (source : Text) : List Token → Prop
  | all {star word : Token} :
      IsMark source .star star → IsWord source "from" word → ExportForm source [star, word]
  | allAs {star as name word : Token} :
      IsMark source .star star → IsWord source "as" as → name.isType = false →
      (name.kind ≠ .string → (Identifier.decode? (name.text source)).isSome = true) →
      IsWord source "from" word → ExportForm source [star, as, name, word]
  | list {items : List Token} {opening closing word : Token} :
      IsMark source .braceL opening → Separated source (ExportItem source) items →
      IsMark source .braceR closing → IsWord source "from" word →
      ExportForm source (opening :: (items ++ [closing, word]))

/-! ## String literals in front of the path -/

/-- Can a name follow this token in a list? -/
structure Opens (t : Token) : Prop where
  isType : t.isType = false
  kind : t.kind = .comma ∨ t.kind = .braceL

/-- Every string literal comes first in a list or after a comma.  `before` is the
token in front. -/
def Introduced : Option Token → List Token → Prop
  | _, [] => True
  | before, t :: ts =>
    (t.isType = false → t.kind = .string → ∃ b, before = some b ∧ Opens b)
      ∧ Introduced (some t) ts

theorem getLast?_cons_or (t : Token) (us : List Token) (before : Option Token) :
    (t :: us).getLast?.or before = us.getLast?.or (some t) := by
  rw [List.getLast?_cons]
  cases us.getLast? <;> rfl

theorem introduced_append {before : Option Token} {us vs : List Token} :
    Introduced before (us ++ vs)
      ↔ Introduced before us ∧ Introduced (us.getLast?.or before) vs := by
  induction us generalizing before with
  | nil => simp [Introduced]
  | cons t us ih =>
    rw [List.cons_append, Introduced, Introduced, ih, and_assoc, getLast?_cons_or]

theorem introduced_of_isType {before : Option Token} {ts : List Token}
    (h : ∀ t ∈ ts, t.isType = true) : Introduced before ts := by
  induction ts generalizing before with
  | nil => trivial
  | cons t ts ih =>
    refine ⟨fun hvalue => ?_, ih fun u hu => h u (List.mem_cons_of_mem t hu)⟩
    rw [h t List.mem_cons_self] at hvalue
    cases hvalue

theorem Separated.introduced {source : Text} {item : List Token → Prop} {ts : List Token}
    (h : Separated source item ts)
    (hitem : ∀ us, us <:+: ts → item us → ∀ b, Opens b → Introduced (some b) us)
    {b : Token} (hb : Opens b) : Introduced (some b) ts := by
  induction h generalizing b with
  | nil => trivial
  | last hts => exact hitem _ (List.infix_refl _) hts b hb
  | @more us rest comma hus hcomma _ ih =>
    refine introduced_append.mpr ⟨hitem us ⟨[], comma :: rest, rfl⟩ hus b hb, ?_, ?_⟩
    · intro _ hstring
      rw [hcomma.kind] at hstring
      cases hstring
    · refine ih (fun vs hvs => hitem vs ?_) ⟨hcomma.isType, .inl hcomma.kind⟩
      exact hvs.trans ⟨us ++ [comma], [], by simp⟩

/-! ## Collecting the tokens of a statement -/

section

variable {source : Text} {isImport : Bool} {before raw : Option Token} {count : Nat}
  {t : Token} {us ts : List Token}

theorem statementTokens_of_isType (h : t.isType = true) :
    statementTokens isImport before count (t :: ts) = statementTokens isImport before count ts := by
  rw [statementTokens, if_pos h]

/-- After the first token a statement goes on, except at a semicolon and at a string
literal after a name. -/
theorem statementTokens_cons (hcount : count ≠ 0) (hvalue : t.isType = false)
    (hsemi : t.kind ≠ .semi)
    (hstring : t.kind = .string → ∀ b, before = some b → b.kind ≠ .name) :
    statementTokens isImport before count (t :: ts)
      = t :: statementTokens isImport (some t) (count + 1) ts := by
  have hname : ¬(t.kind = .string ∧ before.any (fun b => decide (b.kind = .name)) = true) := by
    rintro ⟨hkind, hany⟩
    cases before with
    | none => cases hany
    | some b => exact hstring hkind b rfl (of_decide_eq_true hany)
  rw [statementTokens, if_neg (by simp [hvalue]), if_neg hsemi]
  simp only [decide_eq_false hcount, Bool.false_or, Bool.false_and]
  rw [if_neg, if_neg Bool.false_ne_true]
  intro h
  simp only [Bool.and_eq_true, decide_eq_true_eq] at h
  exact hname ⟨h.1, h.2.2⟩

theorem statementTokens_path (hcount : 2 ≤ count) (hbefore : before.any (·.kind = .name) = true)
    (hvalue : t.isType = false) (hstring : t.kind = .string) :
    statementTokens isImport before count (t :: ts) = [t] := by
  rw [statementTokens, if_neg (by simp [hvalue]), if_neg (by simp [hstring])]
  simp [hstring, hcount, hbefore]

theorem ne_name_of_opens (hraw : ∀ b, raw = some b → b.isType = false → before = some b)
    (hstring : t.kind = .string → ∃ b, raw = some b ∧ Opens b) (hkind : t.kind = .string) :
    ∀ b, before = some b → b.kind ≠ .name := by
  intro b hb hname
  obtain ⟨b', hraw', hopens⟩ := hstring hkind
  obtain rfl : b = b' := Option.some.inj (hb.symm.trans (hraw b' hraw' hopens.isType))
  rcases hopens.kind with h | h <;> rw [h] at hname <;> cases hname

/-- All values up to the path belong to the statement. -/
theorem statementTokens_append (ts : List Token) (hcount : count ≠ 0)
    (hraw : ∀ b, raw = some b → b.isType = false → before = some b) (hus : Introduced raw us)
    (hsemi : ∀ t ∈ us, t.isType = false → t.kind ≠ .semi) :
    statementTokens isImport before count (us ++ ts)
      = values us ++ statementTokens isImport ((values us).getLast?.or before)
        (count + (values us).length) ts := by
  induction us generalizing before raw count with
  | nil => simp
  | cons t us ih =>
    obtain ⟨hstring, hrest⟩ := hus
    have hsemi' : ∀ u ∈ us, u.isType = false → u.kind ≠ .semi := fun u hu =>
      hsemi u (List.mem_cons_of_mem t hu)
    by_cases ht : t.isType = true
    · rw [List.cons_append, statementTokens_of_isType ht, values_cons_of_isType ht]
      refine ih hcount ?_ hrest hsemi'
      rintro b ⟨rfl⟩ hb
      rw [ht] at hb
      cases hb
    · have hvalue : t.isType = false := Bool.eq_false_iff.mpr ht
      rw [List.cons_append, statementTokens_cons hcount hvalue (hsemi t List.mem_cons_self hvalue),
        ih (Nat.succ_ne_zero count) (fun b hb _ => hb) hrest hsemi', values_cons hvalue,
        getLast?_cons_or, List.length_cons, Nat.succ_add_eq_add_succ, List.cons_append]
      exact ne_name_of_opens hraw (hstring hvalue)

/-- What comes after a semicolon does not count. -/
theorem takeWhile_values_append (ts : List Token)
    (hsemi : ∃ t ∈ us, t.isType = false ∧ t.kind = .semi) :
    (values us ++ ts).takeWhile (fun t => t.kind ≠ .semi)
      = (values us).takeWhile fun t => t.kind ≠ .semi := by
  obtain ⟨t, ht, htype, hkind⟩ := hsemi
  rw [List.takeWhile_append, if_neg]
  intro hlength
  have heq := (List.takeWhile_sublist _).eq_of_length hlength
  have hall := List.all_eq_true.mp List.all_takeWhile t (heq.symm ▸ mem_values.mpr ⟨ht, htype⟩)
  simp [hkind] at hall

/-- A statement ends at its first semicolon. -/
theorem statementTokens_semi (ts : List Token) (hcount : count ≠ 0)
    (hraw : ∀ b, raw = some b → b.isType = false → before = some b) (hus : Introduced raw us)
    (hsemi : ∃ t ∈ us, t.isType = false ∧ t.kind = .semi) :
    statementTokens isImport before count (us ++ ts)
      = (values us).takeWhile fun t => t.kind ≠ .semi := by
  induction us generalizing before raw count with
  | nil =>
    obtain ⟨t, ht, -⟩ := hsemi
    cases ht
  | cons t us ih =>
    obtain ⟨hstring, hrest⟩ := hus
    obtain ⟨u, hu, huvalue, hukind⟩ := hsemi
    by_cases ht : t.isType = true
    · rw [List.cons_append, statementTokens_of_isType ht, values_cons_of_isType ht]
      refine ih hcount ?_ hrest ⟨u, ?_, huvalue, hukind⟩
      · rintro b ⟨rfl⟩ hb
        rw [ht] at hb
        cases hb
      · rcases List.mem_cons.mp hu with rfl | hu
        · rw [ht] at huvalue
          cases huvalue
        · exact hu
    · have hvalue : t.isType = false := Bool.eq_false_iff.mpr ht
      by_cases hkind : t.kind = .semi
      · rw [List.cons_append, statementTokens, if_neg ht, if_pos hkind, values_cons hvalue]
        simp [hkind]
      · have hmem : u ∈ us := by
          rcases List.mem_cons.mp hu with rfl | hu
          · exact absurd hukind hkind
          · exact hu
        rw [List.cons_append, statementTokens_cons hcount hvalue hkind,
          ih (Nat.succ_ne_zero count) (fun b hb _ => hb) hrest ⟨u, hmem, huvalue, hukind⟩,
          values_cons hvalue, List.takeWhile_cons_of_pos (by simp [hkind])]
        exact ne_name_of_opens hraw (hstring hvalue)

theorem statementTokens_first (hvalue : t.isType = false)
    (hgo : goesOn isImport t.kind = true) :
    statementTokens isImport none 0 (t :: ts)
      = t :: statementTokens isImport (some t) 1 ts := by
  have hkind : t.kind ≠ .semi ∧ t.kind ≠ .string := by
    constructor <;> intro h <;> rw [h] at hgo <;> cases hgo
  rw [statementTokens, if_neg (by simp [hvalue]), if_neg hkind.1]
  simp [hkind.2, hgo]

end

end Downlevel.Linkage
