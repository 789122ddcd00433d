import Downlevel.Proofs.Linkage.Form

/-!
# What imports are taken for

When the dependencies of a module are collected, every form of an import gives its
path and all names that it binds.
-/

namespace Downlevel.Linkage

variable {source : Text} {a b t first word path : Token} {us ts mid rest after : List Token}
  {names : List (Text × Text)} {lead : List Token} {P : Text → Prop}

/-! ## Names in braces -/

theorem namedImports_braceR (h : t.kind = .braceR) :
    namedImports source (t :: ts) = some ([], ts) := by
  rw [namedImports, if_pos h]

theorem namedImports_comma (h : t.kind = .comma) :
    namedImports source (t :: ts) = namedImports source ts := by
  rw [namedImports, if_neg (by simp [h]), if_pos h]

/-- A name that no `as` follows is bound as it is. -/
theorem namedImports_plain (hbrace : t.kind ≠ .braceR) (hcomma : t.kind ≠ .comma)
    (heof : t.kind ≠ .eof) (has : ∀ a ∈ ts.head?, a.text source ≠ "as".toList) :
    namedImports source (t :: ts) = (namedImports source ts).map fun (names, after) =>
      ((unquote (t.text source), unquote (t.text source)) :: names, after) := by
  rw [namedImports, if_neg hbrace, if_neg hcomma, if_neg heof]
  rcases ts with _ | ⟨a, _ | ⟨b, rest⟩⟩
  · rfl
  · rfl
  · simp only [if_neg (has a rfl)]

theorem namedImports_as (hbrace : t.kind ≠ .braceR) (hcomma : t.kind ≠ .comma)
    (heof : t.kind ≠ .eof) (has : a.text source = "as".toList) :
    namedImports source (t :: a :: b :: rest) = (namedImports source rest).map fun (names, after) =>
      ((unquote (t.text source), b.text source) :: names, after) := by
  rw [namedImports, if_neg hbrace, if_neg hcomma, if_neg heof]
  simp only [if_pos has]

theorem namedImports_eq_none (h : ∀ t ∈ ts, t.kind ≠ .braceR) : namedImports source ts = none := by
  fun_induction namedImports source ts with
  | case1 => rfl
  | case2 t ts hbrace => exact absurd hbrace (h t List.mem_cons_self)
  | case3 t ts _ _ ih => exact ih fun u hu => h u (List.mem_cons_of_mem t hu)
  | case4 => rfl
  | case5 t _ _ _ _ a b rest _ ih =>
    rw [ih fun u hu => h u (by simp [hu])]
    rfl
  | case6 t _ _ _ _ a b rest _ ih =>
    rw [ih fun u hu => h u (List.mem_cons_of_mem t hu)]
    rfl
  | case7 t ts _ _ _ _ _ ih =>
    rw [ih fun u hu => h u (List.mem_cons_of_mem t hu)]
    rfl

/-- A name called `as` after a comma and an `as`.  The comma is then no name that
could be bound to it, but the token after it is taken for one. -/
def Misread (source : Text) (before : List Token) (name : Token) : Prop :=
  ∃ ts comma word, before = ts ++ [comma, word] ∧ comma.kind = .comma
    ∧ word.text source = "as".toList ∧ name.text source = "as".toList

theorem Misread.append {before : List Token} (us : List Token) (h : Misread source before t) :
    Misread source (us ++ before) t := by
  obtain ⟨ts, comma, word, rfl, hrest⟩ := h
  exact ⟨us ++ ts, comma, word, by simp, hrest⟩

/-- Every name that some tokens bind has a property, unless it is misread. -/
def EachLocal (source : Text) (us : List Token) (P : Text → Prop) : Prop :=
  ∀ u n v, us = u ++ n :: v → IsLocal source n → ¬Misread source u n → P (n.text source)

theorem EachLocal.mono {P Q : Text → Prop} (h : EachLocal source us P) (hPQ : ∀ x, P x → Q x) :
    EachLocal source us Q :=
  fun u n v heq hlocal hmisread => hPQ _ (h u n v heq hlocal hmisread)

theorem EachLocal.append (hus : EachLocal source us P) (hts : EachLocal source ts P) :
    EachLocal source (us ++ ts) P := by
  intro u n v heq hlocal hmisread
  rcases List.append_eq_append_iff.mp heq with ⟨w, rfl, hw⟩ | ⟨w, rfl, hw⟩
  · exact hts w n v hw hlocal fun h => hmisread (h.append us)
  · rcases w with _ | ⟨x, w⟩
    · exact hts [] n v hw.symm hlocal fun h => hmisread (by simpa using h.append u)
    · obtain ⟨rfl, -⟩ := List.cons.inj hw
      exact hus u n w rfl hlocal hmisread

theorem eachLocal_nil : EachLocal source [] P :=
  fun u n v heq => by simp at heq

theorem eachLocal_singleton (h : P (t.text source)) :
    EachLocal source [t] P := by
  intro u n v heq _ _
  simp only [List.singleton_eq_append_iff, List.cons.injEq, reduceCtorEq, and_false, or_false] at heq
  exact heq.2.1 ▸ h

/-- A token without a role binds nothing. -/
theorem EachLocal.cons (ht : t.role = none) (hts : EachLocal source ts P) :
    EachLocal source (t :: ts) P := by
  refine EachLocal.append (?_ : EachLocal source [t] P) hts
  intro u n v heq hlocal
  simp only [List.singleton_eq_append_iff, List.cons.injEq, reduceCtorEq, and_false, or_false] at heq
  rw [← heq.2.1, hlocal.role] at ht
  cases ht

theorem eachLocal_renamed {imported word : Token} (himported : imported.role = none)
    (hword : word.role = none) (h : ¬Misread source [imported, word] t → P (t.text source)) :
    EachLocal source [imported, word, t] P := by
  by_cases hmisread : Misread source [imported, word] t
  · intro u n v heq hlocal hmisread'
    have hne : ∀ {u : Token}, u.role = none → u ≠ n := by
      rintro u hu rfl
      cases hu.symm.trans hlocal.role
    rcases u with _ | ⟨x, _ | ⟨y, _ | ⟨z, u⟩⟩⟩ <;> simp at heq
    · exact absurd heq.1 (hne himported)
    · exact absurd heq.2.1 (hne hword)
    · obtain ⟨rfl, rfl, rfl, -⟩ := heq
      exact absurd hmisread hmisread'
  · exact .cons himported (.cons hword (eachLocal_singleton (h hmisread)))

/-- Going on after an item of a list finds what the rest has, and binds the item's
name, too. -/
theorem namedImports_item {sep : Token} (h : ImportItem source us)
    (hsep : sep.text source ≠ "as".toList)
    (hnames : namedImports source (values us ++ sep :: ts) = some (names, after)) :
    ∃ names', (namedImports source (sep :: ts) = some (names', after)
        ∨ namedImports source ts = some (names', after))
      ∧ names' ⊆ names
      ∧ EachLocal source us fun name => ∃ imported, (imported, name) ∈ names := by
  have hplain : ∀ {name : Token} {names}, IsLocal source name →
      namedImports source (name :: sep :: ts) = some (names, after) →
      ∃ names', namedImports source (sep :: ts) = some (names', after)
        ∧ names = (name.text source, name.text source) :: names' := by
    intro name names hname heq
    rw [namedImports_plain (by simp [hname.kind]) (by simp [hname.kind]) (by simp [hname.kind])
      (by simpa using hsep), hname.unquote] at heq
    obtain ⟨⟨names', _⟩, hrest, heq⟩ := Option.map_eq_some_iff.mp heq
    cases heq
    exact ⟨names', hrest, rfl⟩
  cases h with
  | @plain name hname =>
    rw [values_cons hname.isType] at hnames
    obtain ⟨names', hrest, rfl⟩ := hplain hname hnames
    exact ⟨names', .inl hrest, List.subset_cons_self _ _, eachLocal_singleton ⟨_, List.mem_cons_self⟩⟩
  | @renamed imported word name hvalue hrole hbrace hword hname =>
    rw [values_cons hvalue, values_cons hword.isType, values_cons hname.isType] at hnames
    by_cases hcomma : imported.kind = .comma
    · -- the comma is passed over, and the `as` after it is taken for a name
      have hne : word.kind ≠ .braceR ∧ word.kind ≠ .comma ∧ word.kind ≠ .eof := by
        simp [hword.kind]
      rw [List.cons_append, namedImports_comma hcomma] at hnames
      by_cases hnamed : name.text source = "as".toList
      · rw [List.cons_append, List.cons_append, values_nil, List.nil_append,
          namedImports_as hne.1 hne.2.1 hne.2.2 hnamed] at hnames
        obtain ⟨⟨names', _⟩, hrest, heq⟩ := Option.map_eq_some_iff.mp hnames
        cases heq
        refine ⟨names', .inr hrest, List.subset_cons_self _ _, ?_⟩
        refine eachLocal_renamed hrole hword.role fun hmisread => absurd ?_ hmisread
        exact ⟨[], imported, word, rfl, hcomma, hword.text, hnamed⟩
      · rw [List.cons_append, List.cons_append, values_nil, List.nil_append,
          namedImports_plain hne.1 hne.2.1 hne.2.2 (by simpa using hnamed)] at hnames
        obtain ⟨⟨_, _⟩, hname', heq⟩ := Option.map_eq_some_iff.mp hnames
        cases heq
        obtain ⟨names', hrest, rfl⟩ := hplain hname hname'
        refine ⟨names', .inl hrest, fun x hx => by simp [hx], ?_⟩
        exact eachLocal_renamed hrole hword.role fun _ => ⟨name.text source, by simp⟩
    · by_cases heof : imported.kind = .eof
      · rw [List.cons_append, namedImports, if_neg hbrace, if_neg hcomma, if_pos heof] at hnames
        cases hnames
      · rw [List.cons_append, List.cons_append, List.cons_append, values_nil, List.nil_append,
          namedImports_as hbrace hcomma heof hword.text] at hnames
        obtain ⟨⟨names', _⟩, hrest, heq⟩ := Option.map_eq_some_iff.mp hnames
        cases heq
        refine ⟨names', .inl hrest, List.subset_cons_self _ _, ?_⟩
        exact eachLocal_renamed hrole hword.role fun _ => ⟨_, List.mem_cons_self⟩
  | typed htyped =>
    rw [values_eq_nil htyped] at hnames
    refine ⟨names, .inl hnames, List.Subset.refl _, ?_⟩
    rintro u n v rfl hlocal
    have htype := htyped n (by simp)
    rw [hlocal.isType] at htype
    cases htype

theorem namedImports_items {closing : Token} (h : Separated source (ImportItem source) us)
    (hclosing : IsMark source .braceR closing) (hts : ∀ t ∈ ts, t.kind ≠ .braceR)
    (hnames : namedImports source (values us ++ closing :: ts) = some (names, after)) :
    after = ts ∧ EachLocal source us fun name => ∃ imported, (imported, name) ∈ names := by
  induction h generalizing names with
  | nil =>
    rw [values_nil, List.nil_append, namedImports_braceR hclosing.kind] at hnames
    obtain ⟨rfl, rfl⟩ := Prod.mk.inj (Option.some.inj hnames)
    exact ⟨rfl, eachLocal_nil⟩
  | last hitem =>
    obtain ⟨names', hrest | hrest, -, hbound⟩ :=
      namedImports_item hitem (hclosing.ne_as (by decide)) hnames
    · rw [namedImports_braceR hclosing.kind] at hrest
      obtain ⟨-, rfl⟩ := Prod.mk.inj (Option.some.inj hrest)
      exact ⟨rfl, hbound⟩
    · -- the closing brace was taken for a name, and there is no other one
      rw [namedImports_eq_none hts] at hrest
      cases hrest
  | @more us rest comma hitem hcomma _ ih =>
    rw [values_append, values_cons hcomma.isType, List.append_assoc, List.cons_append] at hnames
    obtain ⟨names', hrest, hsub, hbound⟩ :=
      namedImports_item hitem (hcomma.ne_as (by decide)) hnames
    rw [namedImports_comma hcomma.kind, or_self] at hrest
    obtain ⟨rfl, hbound'⟩ := ih hrest
    refine ⟨rfl, hbound.append (.cons hcomma.role (hbound'.mono ?_))⟩
    rintro name ⟨imported, hmem⟩
    exact ⟨imported, hsub hmem⟩

/-! ## Imports -/

/-- The import binds a name. -/
def Import.Binds (i : Import) (name : Text) : Prop :=
  i.defaultName = some name ∨ i.wildcardName = some name
    ∨ ∃ imported, (imported, name) ∈ i.named

theorem defaultImport_lead (rest : List Token) (hlead : Lead source lead)
    (hkind : ∀ t ∈ rest.head?, t.kind ≠ .name ∧ t.kind ≠ .string) (hrest : rest ≠ []) :
    startsWithKind .string (lead ++ rest) = false
      ∧ defaultImport source (lead ++ rest) = (lead.head?.map (Token.text source), rest) := by
  cases hlead with
  | none =>
    obtain ⟨t, rest, rfl⟩ := List.exists_cons_of_ne_nil hrest
    have ht := hkind t rfl
    simp [startsWithKind, defaultImport, ht]
  | default hname hcomma => simp [startsWithKind, defaultImport, hname.kind, hcomma.kind]

/-- An import of all names under one. -/
theorem importOf_star {star as name : Token} (hlead : Lead source lead) (hstar : star.kind = .star)
    (hword : IsWord source "from" word) (hstring : path.kind = .string) :
    importOf source (lead ++ [star, as, name, word, path])
      = .ok { rawPath := path.text source
              defaultName := lead.head?.map (Token.text source)
              wildcardName := some (name.text source) } := by
  obtain ⟨hbare, hdefault⟩ := defaultImport_lead [star, as, name, word, path] hlead
    (by simp [hstar]) (by simp)
  rw [importOf, if_neg (by simp [hbare]), hdefault]
  simp [startsWithKind, startsWith, headText, hstar, hword.text, hstring]

/-- An import of names in braces. -/
theorem importOf_braceL {opening : Token} (hlead : Lead source lead)
    (hopening : opening.kind = .braceL) :
    importOf source (lead ++ opening :: rest) =
      match namedImports source rest with
      | some (named, after) =>
        if startsWith source "from" after && startsWithKind .string (after.drop 1) then
          .ok { rawPath := headText source (after.drop 1)
                defaultName := lead.head?.map (Token.text source)
                named }
        else .error (.invariant .malformedImport)
      | none => .error (.invariant .malformedImport) := by
  obtain ⟨hbare, hdefault⟩ := defaultImport_lead (opening :: rest) hlead
    (by simp [hopening]) (by simp)
  rw [importOf, if_neg (by simp [hbare]), hdefault]
  cases hnamed : namedImports source rest with
  | none => simp [startsWithKind, hopening, hnamed]
  | some found => simp [startsWithKind, hopening, hnamed]

theorem Lead.values_eq (hlead : Lead source lead) : values lead = lead := by
  cases hlead with
  | none => rfl
  | default hname hcomma => rw [values_cons hname.isType, values_cons hcomma.isType, values_nil]

theorem Lead.ne_semi (hlead : Lead source lead) (ht : t ∈ lead) :
    t.kind ≠ .semi := by
  cases hlead with
  | none => cases ht
  | default hname hcomma =>
    simp only [List.mem_cons, List.not_mem_nil, or_false] at ht
    rcases ht with rfl | rfl
    · simp [hname.kind]
    · simp [hcomma.kind]

theorem Lead.eachLocal (hlead : Lead source lead) (h : ∀ name ∈ lead.head?, P (name.text source)) :
    EachLocal source lead P := by
  cases hlead with
  | none => exact eachLocal_nil
  | default hname hcomma =>
    exact (eachLocal_singleton (h _ rfl)).append (.cons hcomma.role eachLocal_nil)

theorem ImportItem.introduced (h : ImportItem source us) (hb : Opens b) :
    Introduced (some b) us := by
  cases h with
  | plain hname => exact ⟨fun _ hkind => by simp [hname.kind] at hkind, trivial⟩
  | renamed _ _ _ hword hname =>
    exact ⟨fun _ _ => ⟨b, rfl, hb⟩, fun _ hkind => by simp [hword.kind] at hkind,
      fun _ hkind => by simp [hname.kind] at hkind, trivial⟩
  | typed htyped => exact introduced_of_isType htyped

/-- What stands between the keyword and the path ends in `from`, if it is not empty. -/
theorem ImportForm.cases_from (h : ImportForm source us) :
    us = [] ∨ ∃ first mid word, us = first :: (mid ++ [word]) ∧ first.isType = false
      ∧ goesOn true first.kind = true ∧ Introduced (some first) mid ∧ IsWord source "from" word := by
  have hlead : ∀ {lead first word} (mid), Lead source lead → first.isType = false →
      goesOn true first.kind = true → Introduced (some first) mid → IsWord source "from" word →
      ∃ first' mid', lead ++ first :: (mid ++ [word]) = first' :: (mid' ++ [word])
        ∧ first'.isType = false ∧ goesOn true first'.kind = true ∧ Introduced (some first') mid' := by
    intro lead first word mid hlead hvalue hgo hmid hword
    cases hlead with
    | none => exact ⟨first, mid, rfl, hvalue, hgo, hmid⟩
    | @default name comma hname hcomma =>
      refine ⟨name, comma :: first :: mid, rfl, hname.isType, by simp [hname.kind, goesOn],
        fun _ h => by simp [hcomma.kind] at h, fun _ h => ?_, hmid⟩
      rw [h] at hgo
      cases hgo
  cases h with
  | bare => exact .inl rfl
  | @default name word hname hword =>
    exact .inr ⟨name, [], word, rfl, hname.isType, by simp [hname.kind, goesOn], trivial, hword⟩
  | @wildcard lead star as name word hl hstar has hname hword =>
    obtain ⟨first, mid, heq, hrest⟩ := hlead [as, name] hl hstar.isType
      (by simp [hstar.kind, goesOn]) ⟨fun _ h => by simp [has.kind] at h,
        fun _ h => by simp [hname.kind] at h, trivial⟩ hword
    exact .inr ⟨first, mid, word, heq, hrest.1, hrest.2.1, hrest.2.2, hword⟩
  | @named lead items opening closing word hl hopening hitems hclosing hword =>
    have hopens : Opens opening := ⟨hopening.isType, .inr hopening.kind⟩
    obtain ⟨first, mid, heq, hrest⟩ := hlead (items ++ [closing]) hl hopening.isType
      (by simp [hopening.kind, goesOn])
      (introduced_append.mpr ⟨hitems.introduced (fun us _ hus b => hus.introduced) hopens,
        fun _ h => by simp [hclosing.kind] at h, trivial⟩) hword
    exact .inr ⟨first, mid, word, by simpa using heq, hrest.1, hrest.2.1, hrest.2.2, hword⟩

/-- The tokens of an import are its values up to the path, unless there is a semicolon
among them. -/
theorem ImportForm.statementTokens (h : ImportForm source us) (hpath : path.isType = false)
    (hstring : path.kind = .string) :
    Linkage.statementTokens true none 0 (us ++ path :: ts)
      = if ∃ t ∈ us, t.isType = false ∧ t.kind = .semi then (values us).takeWhile (·.kind ≠ .semi)
        else values us ++ [path] := by
  rcases h.cases_from with rfl | ⟨first, mid, word, rfl, hvalue, hgo, hmid, hword⟩
  · simp [Linkage.statementTokens, hpath, hstring]
  · have hfirst : first.kind ≠ .semi := by
      intro h
      rw [h] at hgo
      cases hgo
    rw [List.cons_append, List.append_assoc, statementTokens_first hvalue hgo, values_cons hvalue,
      values_append, values_cons hword.isType, values_nil, List.cons_append, List.nil_append]
    split
    · rename_i hsemi
      obtain ⟨t, ht, htype, hkind⟩ := hsemi
      have hmem : t ∈ mid := by
        have hne : t ≠ first ∧ t ≠ word := by
          constructor
          · rintro rfl
            exact hfirst hkind
          · rintro rfl
            simp [hword.kind] at hkind
        simpa [hne] using ht
      rw [statementTokens_semi _ Nat.one_ne_zero (fun b hb _ => hb) hmid ⟨t, hmem, htype, hkind⟩,
        List.takeWhile_cons_of_pos (by simpa using hfirst),
        takeWhile_values_append _ ⟨t, hmem, htype, hkind⟩]
    · rename_i hsemi
      rw [statementTokens_append _ Nat.one_ne_zero (fun b hb _ => hb) hmid,
        statementTokens_cons (by omega) hword.isType (by simp [hword.kind]) (by simp [hword.kind]),
        statementTokens_path (by omega) (by simp [hword.kind]) hpath hstring]
      · simp
      · exact fun t ht htype hkind => hsemi ⟨t, by simp [ht], htype, hkind⟩

/-- Between the braces of an import no value is a brace. -/
theorem Separated.ne_braceR (h : Separated source (ImportItem source) us) (ht : t ∈ us)
    (htype : t.isType = false) : t.kind ≠ .braceR := by
  have hitem : ∀ {us : List Token}, ImportItem source us → t ∈ us → t.kind ≠ .braceR := by
    intro us hus ht
    cases hus with
    | plain hname =>
      obtain rfl := List.mem_singleton.mp ht
      simp [hname.kind]
    | renamed _ _ hkind hword hname =>
      simp only [List.mem_cons, List.not_mem_nil, or_false] at ht
      rcases ht with rfl | rfl | rfl
      · exact hkind
      · simp [hword.kind]
      · simp [hname.kind]
    | typed htyped =>
      rw [htyped t ht] at htype
      cases htype
  induction h with
  | nil => cases ht
  | last hus => exact hitem hus ht
  | more hus hcomma _ ih =>
    rcases List.mem_append.mp ht with ht | ht
    · exact hitem hus ht
    rcases List.mem_cons.mp ht with rfl | ht
    · simp [hcomma.kind]
    · exact ih ht

/-- From every form of an import its path is found, and all that it binds. -/
theorem importOf_of_form {i : Import} (h : ImportForm source us) (hpath : path.isType = false)
    (hstring : path.kind = .string)
    (hi : importOf source (statementTokens true none 0 (us ++ path :: ts)) = .ok i) :
    i.rawPath = path.text source ∧ EachLocal source us i.Binds := by
  rw [h.statementTokens hpath hstring] at hi
  cases h with
  | bare =>
    simp [importOf, startsWithKind, headText, hstring] at hi
    exact ⟨hi ▸ rfl, eachLocal_nil⟩
  | @default name word hname hword =>
    rw [if_neg (by simp [hname.kind, hword.kind]), values_cons hname.isType,
      values_cons hword.isType] at hi
    simp [importOf, startsWithKind, startsWith, headText, defaultImport, hname.kind, hword.kind,
      hword.text, hstring] at hi
    subst hi
    exact ⟨rfl, (eachLocal_singleton (.inl rfl)).append (.cons hword.role eachLocal_nil)⟩
  | @wildcard lead star as name word hlead hstar has hname hword =>
    have hsemi : ¬∃ t ∈ lead ++ [star, as, name, word], t.isType = false ∧ t.kind = .semi := by
      rintro ⟨t, ht, -, hkind⟩
      rcases List.mem_append.mp ht with ht | ht
      · exact hlead.ne_semi ht hkind
      · simp only [List.mem_cons, List.not_mem_nil, or_false] at ht
        rcases ht with rfl | rfl | rfl | rfl <;>
          simp [hstar.kind, has.kind, hname.kind, hword.kind] at hkind
    rw [if_neg hsemi, values_append, hlead.values_eq, values_cons hstar.isType,
      values_cons has.isType, values_cons hname.isType, values_cons hword.isType, values_nil,
      List.append_assoc] at hi
    simp only [List.cons_append, List.nil_append] at hi
    rw [importOf_star hlead hstar.kind hword hstring, Except.ok.injEq] at hi
    subst hi
    refine ⟨rfl, (hlead.eachLocal fun n hn => .inl ?_).append (.cons hstar.role (.cons has.role
      ((eachLocal_singleton (.inr (.inl rfl))).append (.cons hword.role eachLocal_nil))))⟩
    simp [Option.mem_def.mp hn]
  | @named lead items opening closing word hlead hopening hitems hclosing hword =>
    rw [values_append, hlead.values_eq, values_cons hopening.isType, values_append,
      values_cons hclosing.isType, values_cons hword.isType, values_nil] at hi
    split at hi
    · -- a semicolon in the braces cuts them off, and they are not closed
      rename_i hsemi
      have hlead' : ∀ t ∈ lead, decide (t.kind ≠ .semi) = true := fun t ht =>
        decide_eq_true (hlead.ne_semi ht)
      have hsemi' : ∃ t ∈ items, t.isType = false ∧ t.kind = .semi := by
        obtain ⟨t, ht, htype, hkind⟩ := hsemi
        refine ⟨t, ?_, htype, hkind⟩
        have hne : t ∉ lead ∧ t ≠ opening ∧ t ≠ closing ∧ t ≠ word := by
          refine ⟨fun ht => hlead.ne_semi ht hkind, ?_, ?_, ?_⟩ <;> rintro rfl
          · simp [hopening.kind] at hkind
          · simp [hclosing.kind] at hkind
          · simp [hword.kind] at hkind
        simpa [hne] using ht
      rw [List.takeWhile_append_of_pos hlead', List.takeWhile_cons_of_pos (by simp [hopening.kind]),
        takeWhile_values_append _ hsemi', importOf_braceL hlead hopening.kind,
        namedImports_eq_none] at hi
      · cases hi
      · intro t ht
        obtain ⟨ht, htype⟩ := mem_values.mp ((List.takeWhile_sublist _).subset ht)
        exact hitems.ne_braceR ht htype
    · simp only [List.append_assoc, List.cons_append, List.nil_append] at hi
      rw [importOf_braceL hlead hopening.kind] at hi
      cases hnames : namedImports source (values items ++ [closing, word, path]) with
      | none =>
        rw [hnames] at hi
        cases hi
      | some found =>
        obtain ⟨named, after⟩ := found
        obtain ⟨rfl, hbound⟩ := namedImports_items hitems hclosing
          (by simp [hword.kind, hstring]) hnames
        simp [hnames, startsWith, startsWithKind, headText, hword.text, hstring] at hi
        subst hi
        refine ⟨rfl, (hlead.eachLocal fun n hn => .inl ?_).append (.cons hopening.role
          ((hbound.mono fun name hname => .inr (.inr hname)).append
            (.cons hclosing.role (.cons hword.role eachLocal_nil))))⟩
        simp [Option.mem_def.mp hn]

end Downlevel.Linkage
