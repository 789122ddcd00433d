import Downlevel.Proofs.Linkage.Form

/-!
# What exports from other modules are taken for

When the dependencies of a module are collected, every form of an export from another
module gives its path, unless a name in front of the path hides it.
-/

namespace Downlevel.Linkage

variable {source : Text} {count : Nat} {a b t word path : Token} {us ts rest : List Token}

/-! ## Names in braces -/

theorem exportedNames_braceR (h : t.kind = .braceR) :
    exportedNames source (t :: ts) = (false, false, ts) := by
  rw [exportedNames, if_pos h]

theorem exportedNames_comma (h : t.kind = .comma) :
    exportedNames source (t :: ts) = exportedNames source ts := by
  rw [exportedNames, if_neg (by simp [h]), if_neg (by simp [h]), if_pos h]

theorem IsExportName.ne (h : IsExportName t) :
    t.kind ≠ .braceR ∧ t.kind ≠ .eof ∧ t.kind ≠ .comma ∧ t.kind ≠ .semi := by
  refine ⟨?_, ?_, ?_, ?_⟩ <;> intro hkind <;> rcases h.kind with h | h <;> rw [hkind] at h <;>
    revert h <;> decide

/-- No token of an export list is a brace. -/
theorem Separated.kind_ne_braceR (h : Separated source (ExportItem source) us) (ht : t ∈ us) :
    t.kind ≠ .braceR := by
  have hname : t.kind.isNameLike = true ∨ t.kind = .string → t.kind ≠ .braceR := by
    intro hkind hbrace
    rw [hbrace] at hkind
    revert hkind
    decide
  have hitem : ∀ {us : List Token}, ExportItem source us → t ∈ us → t.kind ≠ .braceR := by
    intro us hus ht
    cases hus with
    | plain hplain =>
      obtain rfl := List.mem_singleton.mp ht
      exact hname hplain.kind
    | renamed hfirst hword hexported =>
      simp only [List.mem_cons, List.not_mem_nil, or_false] at ht
      rcases ht with rfl | rfl | rfl
      · exact hname hfirst.kind
      · simp [hword.kind]
      · exact hname hexported.kind
    | typed htyped => exact hname (htyped t ht).2
  induction h with
  | nil => cases ht
  | last hus => exact hitem hus ht
  | more hus hcomma _ ih =>
    rcases List.mem_append.mp ht with ht | ht
    · exact hitem hus ht
    rcases List.mem_cons.mp ht with rfl | ht
    · simp [hcomma.kind]
    · exact ih ht

/-- After a name of the list that no `as` follows the list goes on. -/
theorem exportedNames_plain (h : IsExportName t)
    (has : ∀ a ∈ ts.head?, a.text source ≠ "as".toList) :
    (exportedNames source (t :: ts)).2.2 = (exportedNames source ts).2.2 := by
  rw [exportedNames, if_neg h.ne.1, if_neg h.ne.2.1, if_neg h.ne.2.2.1]
  rcases ts with _ | ⟨a, _ | ⟨b, rest⟩⟩
  · simp only [exportedNames]
    split <;> rfl
  · simp only [if_neg (has a rfl)]
    split <;> rfl
  · simp only [if_neg (has a rfl)]
    split <;> rfl

theorem exportedNames_as (h : IsExportName t) (has : a.text source = "as".toList) :
    (exportedNames source (t :: a :: b :: rest)).2.2 = (exportedNames source rest).2.2 := by
  rw [exportedNames, if_neg h.ne.1, if_neg h.ne.2.1, if_neg h.ne.2.2.1]
  simp only [if_pos has]
  split <;> rfl

/-- After an item of the list the list goes on. -/
theorem exportedNames_item {sep : Token} (h : ExportItem source us)
    (hsep : sep.text source ≠ "as".toList) :
    (exportedNames source (values us ++ sep :: ts)).2.2
      = (exportedNames source (sep :: ts)).2.2 := by
  cases h with
  | plain hname =>
    rw [values_cons hname.isType, values_nil, List.singleton_append,
      exportedNames_plain hname (by simpa using hsep)]
  | renamed hname hword hexported =>
    rw [values_cons hname.isType, values_cons hword.isType, values_cons hexported.isType,
      values_nil, List.cons_append, List.cons_append, List.cons_append, List.nil_append,
      exportedNames_as hname hword.text]
  | typed htyped => rw [values_eq_nil fun t ht => (htyped t ht).1, List.nil_append]

theorem exportedNames_items {closing : Token} (h : Separated source (ExportItem source) us)
    (hclosing : IsMark source .braceR closing) :
    (exportedNames source (values us ++ closing :: ts)).2.2 = ts := by
  have hts : (exportedNames source (closing :: ts)).2.2 = ts := by
    rw [exportedNames_braceR hclosing.kind]
  induction h with
  | nil => exact hts
  | last hitem => exact (exportedNames_item hitem (hclosing.ne_as (by decide))).trans hts
  | more hitem hcomma _ ih =>
    rw [values_append, values_cons hcomma.isType, List.append_assoc, List.cons_append,
      exportedNames_item hitem (hcomma.ne_as (by decide)), exportedNames_comma hcomma.kind, ih]

/-- Does the statement seem to end at the second of two tokens, as at a semicolon or at
a string literal after a name? -/
def EndsAt (b t : Token) : Prop :=
  t.isType = false ∧ (t.kind = .semi ∨ t.kind = .string ∧ b.kind = .name)

/-- Does the statement seem to end at one of the tokens in front of the path? -/
def HidesPath : List Token → Prop
  | b :: t :: ts => EndsAt b t ∨ HidesPath (t :: ts)
  | _ => False

instance (b t : Token) : Decidable (EndsAt b t) :=
  inferInstanceAs (Decidable (_ ∧ _))

instance instDecidableHidesPath : (ts : List Token) → Decidable (HidesPath ts)
  | [] => inferInstanceAs (Decidable False)
  | [_] => inferInstanceAs (Decidable False)
  | b :: t :: ts =>
    have := instDecidableHidesPath (t :: ts)
    inferInstanceAs (Decidable (EndsAt b t ∨ HidesPath (t :: ts)))

theorem hidesPath_append (us : List Token) (b : Token) (ts : List Token) :
    HidesPath (us ++ b :: ts) ↔ HidesPath (us ++ [b]) ∨ HidesPath (b :: ts) := by
  induction us with
  | nil => simp [HidesPath]
  | cons x us ih =>
    cases us with
    | nil => simp [HidesPath]
    | cons y us => simpa [HidesPath, or_assoc] using or_congr_right ih

theorem hidesPath_concat (hsemi : t.kind ≠ .semi) (hstring : t.kind ≠ .string)
    (us : List Token) : HidesPath (us ++ [t]) ↔ HidesPath us := by
  induction us with
  | nil => simp [HidesPath]
  | cons x us ih =>
    cases us with
    | nil => simp [HidesPath, EndsAt, hsemi, hstring]
    | cons y us => simpa [HidesPath] using or_congr_right ih

theorem not_hidesPath_of_isType (h : ∀ t ∈ us, t.isType = true) : ¬HidesPath (b :: us) := by
  induction us generalizing b with
  | nil => exact id
  | cons t us ih =>
    rintro (⟨htype, -⟩ | hhides)
    · rw [h t List.mem_cons_self] at htype
      cases htype
    · exact ih (fun u hu => h u (List.mem_cons_of_mem t hu)) hhides

/-- An item is passed as a whole, or a name in it that is a string literal hides the
path. -/
theorem ExportItem.introduced (h : ExportItem source us) (hb : Opens b)
    (hhides : ¬HidesPath (b :: us)) :
    Introduced (some b) us ∧ ∀ t ∈ us, t.isType = false → t.kind ≠ .semi := by
  cases h with
  | plain hname => exact ⟨⟨fun _ _ => ⟨b, rfl, hb⟩, trivial⟩, by simp [hname.ne]⟩
  | @renamed name word exported hname hword hexported =>
    have hstring : exported.kind ≠ .string := by
      intro hstring
      exact hhides (.inr (.inr (.inl ⟨hexported.isType, .inr ⟨hstring, hword.kind⟩⟩)))
    refine ⟨⟨fun _ _ => ⟨b, rfl, hb⟩, fun _ h => by simp [hword.kind] at h,
      fun _ h => absurd h hstring, trivial⟩, ?_⟩
    simp [hname.ne, hword.kind, hexported.ne]
  | typed htyped =>
    refine ⟨introduced_of_isType fun t ht => (htyped t ht).1, fun t ht htype => ?_⟩
    rw [(htyped t ht).1] at htype
    cases htype

theorem ExportItem.eq_of_hidesPath (h : ExportItem source us) (hb : Opens b)
    (hhides : HidesPath (b :: us)) :
    ∃ name word exported, us = [name, word, exported] ∧ IsExportName name
      ∧ IsWord source "as" word ∧ exported.isType = false ∧ exported.kind = .string := by
  have hopens : b.kind ≠ .name := by rcases hb.kind with h | h <;> simp [h]
  cases h with
  | plain hname => simp [HidesPath, EndsAt, hname.ne, hopens] at hhides
  | @renamed name word exported hname hword hexported =>
    simp [HidesPath, EndsAt, hname.ne, hopens, hword.kind, hexported.ne, hexported.isType] at hhides
    exact ⟨name, word, exported, rfl, hname, hword, hexported.isType, hhides⟩
  | typed htyped => exact absurd hhides (not_hidesPath_of_isType fun t ht => (htyped t ht).1)

theorem Separated.introduced_export (h : Separated source (ExportItem source) us) (hb : Opens b)
    (hhides : ¬HidesPath (b :: us)) :
    Introduced (some b) us ∧ ∀ t ∈ us, t.isType = false → t.kind ≠ .semi := by
  induction h generalizing b with
  | nil => exact ⟨trivial, by simp⟩
  | last hitem => exact hitem.introduced hb hhides
  | @more us rest comma hitem hcomma _ ih =>
    rw [← List.cons_append, hidesPath_append, not_or,
      hidesPath_concat (by simp [hcomma.kind]) (by simp [hcomma.kind])] at hhides
    obtain ⟨hfirst, hsemi⟩ := hitem.introduced hb hhides.1
    obtain ⟨hlater, hsemi'⟩ := ih ⟨hcomma.isType, .inl hcomma.kind⟩ hhides.2
    refine ⟨introduced_append.mpr ⟨hfirst, fun _ h => by simp [hcomma.kind] at h, hlater⟩, ?_⟩
    intro t ht htype
    rcases List.mem_append.mp ht with ht | ht
    · exact hsemi t ht htype
    rcases List.mem_cons.mp ht with rfl | ht
    · simp [hcomma.kind]
    · exact hsemi' t ht htype

/-- Where the path is hidden nothing comes after the list. -/
theorem exportedNames_of_hidesPath (h : Separated source (ExportItem source) us) (hb : Opens b)
    (hcount : count ≠ 0) (hhides : HidesPath (b :: us)) :
    (exportedNames source (statementTokens false (some b) count (us ++ ts))).2.2 = [] := by
  have hends : ∀ {us : List Token} {b : Token} {count : Nat} {ts : List Token},
      ExportItem source us → Opens b → count ≠ 0 → HidesPath (b :: us) →
      (exportedNames source (statementTokens false (some b) count (us ++ ts))).2.2 = [] := by
    intro us b count ts hitem hb hcount hhides
    have hopens : b.kind ≠ .name := by rcases hb.kind with h | h <;> simp [h]
    obtain ⟨name, word, exported, rfl, hname, hword, htype, hstring⟩ :=
      hitem.eq_of_hidesPath hb hhides
    simp only [List.cons_append, List.nil_append]
    rw [statementTokens_cons hcount hname.isType hname.ne.2.2.2 (by simpa using fun _ => hopens),
      statementTokens_cons (by omega) hword.isType (by simp [hword.kind]) (by simp [hword.kind]),
      statementTokens_path (by omega) (by simp [hword.kind]) htype hstring,
      exportedNames_as hname hword.text, exportedNames]
  induction h generalizing b count with
  | nil => exact hhides.elim
  | last hitem => exact hends hitem hb hcount hhides
  | @more us rest comma hitem hcomma _ ih =>
    rw [List.append_assoc]
    by_cases hfirst : HidesPath (b :: us)
    · exact hends hitem hb hcount hfirst
    · rw [← List.cons_append, hidesPath_append,
        hidesPath_concat (by simp [hcomma.kind]) (by simp [hcomma.kind])] at hhides
      obtain ⟨hintro, hsemi⟩ := hitem.introduced hb hfirst
      rw [statementTokens_append _ hcount (fun b hb _ => hb) hintro hsemi, List.cons_append,
        statementTokens_cons (by omega) hcomma.isType (by simp [hcomma.kind])
          (by simp [hcomma.kind]),
        exportedNames_item hitem (hcomma.ne_as (by decide)), exportedNames_comma hcomma.kind]
      exact ih ⟨hcomma.isType, .inl hcomma.kind⟩ (by omega) (hhides.resolve_left hfirst)

theorem exportOf_braceL {opening : Token} (hopening : opening.kind = .braceL) :
    (exportOf source (opening :: rest)).reexport
        = (if startsWith source "from" (exportedNames source rest).2.2
              && startsWithKind .string ((exportedNames source rest).2.2.drop 1) then
            some (headText source ((exportedNames source rest).2.2.drop 1))
          else none)
      ∧ (exportOf source (opening :: rest)).isStar = false := by
  simp [exportOf, startsWithKind, hopening]

theorem hidesPath_list {items : List Token} {opening closing : Token}
    (hclosing : IsMark source .braceR closing) (hword : IsWord source "from" word) :
    HidesPath (opening :: (items ++ [closing, word])) ↔ HidesPath (opening :: items) := by
  have hassoc : opening :: (items ++ [closing, word]) = opening :: items ++ [closing] ++ [word] := by
    simp
  rw [hassoc, hidesPath_concat (by simp [hword.kind]) (by simp [hword.kind]),
    hidesPath_concat (by simp [hclosing.kind]) (by simp [hclosing.kind])]

/-- From a form of an export the path is found if nothing hides it. -/
theorem exportOf_of_form (ts : List Token) (h : ExportForm source us) (hpath : path.isType = false)
    (hstring : path.kind = .string) (hhides : ¬HidesPath us) :
    (exportOf source (statementTokens false none 0 (us ++ path :: ts))).reexport
        = some (path.text source)
      ∧ (exportOf source (statementTokens false none 0 (us ++ path :: ts))).isStar
        = (startsWithKind .star us && !startsWith source "as" (us.drop 1)) := by
  cases h with
  | all hstar hword =>
    simp only [List.cons_append, List.nil_append]
    rw [statementTokens_first hstar.isType (by simp [hstar.kind, goesOn]),
      statementTokens_cons Nat.one_ne_zero hword.isType (by simp [hword.kind])
        (by simp [hword.kind]), statementTokens_path (by omega) (by simp [hword.kind]) hpath hstring]
    simp [exportOf, startsWithKind, startsWith, headText, hstar.kind, hword.text]
  | @allAs star as name word hstar has hname _ hword =>
    have hends : ¬EndsAt as name := fun hends => hhides (.inr (.inl hends))
    have hkind : name.kind ≠ .semi ∧ name.kind ≠ .string := by
      simpa [EndsAt, hname, has.kind] using hends
    simp only [List.cons_append, List.nil_append]
    rw [statementTokens_first hstar.isType (by simp [hstar.kind, goesOn]),
      statementTokens_cons Nat.one_ne_zero has.isType (by simp [has.kind]) (by simp [has.kind]),
      statementTokens_cons (by omega) hname hkind.1 (fun h => absurd h hkind.2),
      statementTokens_cons (by omega) hword.isType (by simp [hword.kind]) (by simp [hword.kind]),
      statementTokens_path (by omega) (by simp [hword.kind]) hpath hstring]
    simp [exportOf, startsWithKind, startsWith, headText, hstar.kind, has.text]
  | @list items opening closing word hopening hitems hclosing hword =>
    rw [hidesPath_list hclosing hword] at hhides
    have hopens : Opens opening := ⟨hopening.isType, .inr hopening.kind⟩
    obtain ⟨hintro, hsemi⟩ := hitems.introduced_export hopens hhides
    have htokens : statementTokens false none 0 (opening :: (items ++ [closing, word]) ++ path :: ts)
        = opening :: (values items ++ closing :: [word, path]) := by
      rw [List.cons_append, List.append_assoc, statementTokens_first hopening.isType
        (by simp [hopening.kind, goesOn]), statementTokens_append _ Nat.one_ne_zero
        (fun b hb _ => hb) hintro hsemi]
      simp only [List.cons_append, List.nil_append]
      rw [statementTokens_cons (by omega) hclosing.isType (by simp [hclosing.kind])
          (by simp [hclosing.kind]),
        statementTokens_cons (by omega) hword.isType (by simp [hword.kind]) (by simp [hword.kind]),
        statementTokens_path (by omega) (by simp [hword.kind]) hpath hstring]
    rw [htokens, (exportOf_braceL hopening.kind).1, (exportOf_braceL hopening.kind).2,
      exportedNames_items hitems hclosing]
    simp [startsWithKind, startsWith, headText, hword.text, hstring, hopening.kind]

/-- From a form of an export whose path is hidden no path is found. -/
theorem exportOf_of_hidesPath (ts : List Token) (h : ExportForm source us) (hhides : HidesPath us) :
    (exportOf source (statementTokens false none 0 (us ++ path :: ts))).reexport.getD [] = [] := by
  cases h with
  | all _ hword => simp [HidesPath, EndsAt, hword.kind] at hhides
  | @allAs star as name word hstar has hname _ hword =>
    have hkind : name.kind = .semi ∨ name.kind = .string := by
      simpa [HidesPath, EndsAt, has.kind, hword.kind, hname] using hhides
    simp only [List.cons_append, List.nil_append]
    rw [statementTokens_first hstar.isType (by simp [hstar.kind, goesOn]),
      statementTokens_cons Nat.one_ne_zero has.isType (by simp [has.kind]) (by simp [has.kind])]
    rcases hkind with hkind | hkind
    · rw [statementTokens, if_neg (by simp [hname]), if_pos hkind]
      simp [exportOf, startsWithKind, startsWith, headText, hstar.kind, has.text]
    · rw [statementTokens_path (by omega) (by simp [has.kind]) hname hkind]
      simp [exportOf, startsWithKind, startsWith, headText, hstar.kind, has.text]
  | @list items opening closing word hopening hitems hclosing hword =>
    rw [hidesPath_list hclosing hword] at hhides
    have hopens : Opens opening := ⟨hopening.isType, .inr hopening.kind⟩
    rw [List.cons_append, List.append_assoc, statementTokens_first hopening.isType
      (by simp [hopening.kind, goesOn]), (exportOf_braceL hopening.kind).1,
      exportedNames_of_hidesPath hitems hopens Nat.one_ne_zero hhides]
    simp [startsWith]

end Downlevel.Linkage
