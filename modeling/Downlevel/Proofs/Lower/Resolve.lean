import Downlevel.Proofs.Lower.Paths

/-!
# Imported names are resolved

A reference to an imported name becomes an expression on the variable of the module that
the name comes from.  The names that imports bind are collected as they are written and
looked up as they are meant, so a name must be written without escapes in its import,
and with types erased some reference must be written like it.
-/

namespace Downlevel

open Linkage

namespace Linkage

variable {source : Text} {t : Token} {us : List Token}

/-- Of the values of an import only the names that it binds have a role. -/
theorem ImportForm.isLocal (h : ImportForm source us) (ht : t ∈ us) (hvalue : t.isType = false)
    (hrole : t.role ≠ none) : IsLocal source t := by
  have hlead : ∀ {lead : List Token}, Lead source lead → t ∈ lead → IsLocal source t := by
    intro lead hlead ht
    cases hlead with
    | none => cases ht
    | default hname hcomma =>
      simp only [List.mem_cons, List.not_mem_nil, or_false] at ht
      rcases ht with rfl | rfl
      · exact hname
      · exact absurd hcomma.role hrole
  have hitem : ∀ {us : List Token}, ImportItem source us → t ∈ us → IsLocal source t := by
    intro us hus ht
    cases hus with
    | plain hname =>
      obtain rfl := List.mem_singleton.mp ht
      exact hname
    | renamed _ himported _ hword hname =>
      simp only [List.mem_cons, List.not_mem_nil, or_false] at ht
      rcases ht with rfl | rfl | rfl
      · exact absurd himported hrole
      · exact absurd hword.role hrole
      · exact hname
    | typed htyped =>
      rw [htyped t ht] at hvalue
      cases hvalue
  have hitems : ∀ {us : List Token}, Separated source (ImportItem source) us → t ∈ us →
      IsLocal source t := by
    intro us hus ht
    induction hus with
    | nil => cases ht
    | last hus => exact hitem hus ht
    | more hus hcomma _ ih =>
      rcases List.mem_append.mp ht with ht | ht
      · exact hitem hus ht
      rcases List.mem_cons.mp ht with rfl | ht
      · exact absurd hcomma.role hrole
      · exact ih ht
  cases h with
  | bare => cases ht
  | default hname hword =>
    simp only [List.mem_cons, List.not_mem_nil, or_false] at ht
    rcases ht with rfl | rfl
    · exact hname
    · exact absurd hword.role hrole
  | wildcard hl hstar has hname hword =>
    simp only [List.mem_append, List.mem_cons, List.not_mem_nil, or_false] at ht
    rcases ht with ht | rfl | rfl | rfl | rfl
    · exact hlead hl ht
    · exact absurd hstar.role hrole
    · exact absurd has.role hrole
    · exact hname
    · exact absurd hword.role hrole
  | named hl hopening hseparated hclosing hword =>
    simp only [List.mem_append, List.mem_cons, List.not_mem_nil, or_false] at ht
    rcases ht with ht | rfl | ht | rfl | rfl
    · exact hlead hl ht
    · exact absurd hopening.role hrole
    · exact hitems hseparated ht
    · exact absurd hclosing.role hrole
    · exact absurd hword.role hrole

/-! ## Looking names up -/

namespace Bindings

variable {b : Bindings} {ds : Dependencies} {name : Text}

/-- A name that is taken has an expression on the variable of a path it is taken from, and
no other name has one. -/
theorem Serves.replacement?_cases (h : b.Serves ds) (name : Text) :
    (b.replacement? name = none ∧ ∀ path d, ds.at? path = some d → ¬d.Binds name)
      ∨ ∃ path d v code, b.replacement? name = some code ∧ ds.at? path = some d ∧ d.Binds name
        ∧ b.moduleName? path = some v ∧ IsOn v code := by
  cases hcode : b.replacement? name with
  | some code =>
    cases h.origin hcode with
    | default hd hv hname => exact .inr ⟨_, _, _, _, rfl, hd, .inl hname, hv, .inr ⟨_, rfl⟩⟩
    | wildcard hd hv hname => exact .inr ⟨_, _, _, _, rfl, hd, .inr (.inl hname), hv, .inl rfl⟩
    | named hd hv hname =>
      exact .inr ⟨_, _, _, _, rfl, hd, .inr (.inr ⟨_, hname⟩), hv, .inr ⟨_, rfl⟩⟩
  | none =>
    refine .inl ⟨rfl, fun path d hd hbinds => ?_⟩
    have hempty : d.isEmpty = false := Dependency.isEmpty_eq_false_iff.mpr (.inl ⟨name, hbinds⟩)
    obtain ⟨v, hv⟩ := Option.isSome_iff_exists.mp
      ((h.isSome_moduleName? path).mpr ⟨d, hd, hempty⟩)
    obtain ⟨code, hmem⟩ := exists_mem_replacementsOf v hbinds
    have hkey : name ∈ b.replacements.map Prod.fst :=
      List.mem_map.mpr ⟨(name, code), (h.mem_replacements name code).mpr ⟨path, d, v, hd, hv, hmem⟩,
        rfl⟩
    have hsome := isSome_lookup_iff.mpr hkey
    rw [show b.replacements.lookup name = none from hcode] at hsome
    cases hsome

end Bindings

end Linkage

namespace Lower

variable {p : Program}

/-- What a reference to an imported name becomes. -/
def referenceCode (p : Program) (i : Nat) (code : Text) : Text :=
  if (p.tokenAt i).role = some .shorthand then p.nameAt i ++ ": ".toList ++ code
  else if isCalled p i && code.contains '.' then "(0, ".toList ++ code ++ ")".toList
  else code

theorem lt_count_of_isReference {i : Nat} (h : (p.tokenAt i).isReference = true) :
    i < p.count := by
  refine Decidable.byContradiction fun hi => ?_
  rw [Program.tokenAt_of_le (Nat.le_of_not_lt hi)] at h
  cases h

theorem reference_of_replacement {plan : Plan} {w : Work} {b : Bindings} {code : Text}
    (hb : plan.bindings = some b) (href : (plan.program.tokenAt w.index).isReference = true)
    (hcode : b.replacement? (plan.program.nameAt w.index) = some code) :
    reference plan w = .ok true ((w.write (plan.program.gapBefore w.index
      ++ referenceCode plan.program w.index code)).moveTo (w.index + 1)) := by
  have hlt := lt_count_of_isReference href
  apply eq_ok_of_ends
  unfold reference referenceCode
  rw [ends_bind, ends_cur, if_pos href, ends_bind, ends_curName, ends_bind, ends_bindings hb, hcode]
  dsimp only
  by_cases hshort : (plan.program.tokenAt w.index).role = some .shorthand
  · rw [if_pos hshort, if_pos hshort, ends_bind, ends_replace, if_pos hlt]
    exact ⟨rfl, rfl⟩
  · rw [if_neg hshort, if_neg hshort, ends_bind, ends_program, ends_bind, ends_index]
    split
    · rw [ends_bind, ends_replace, if_pos hlt]
      exact ⟨rfl, rfl⟩
    · rw [ends_bind, ends_replace, if_pos hlt]
      exact ⟨rfl, rfl⟩

section

variable {source : Text} {o : Options} {tokens : Array Token} {plan : Plan} {start : Work}
  {ds ds₀ : Dependencies} {b : Bindings} {i j k l : Nat} {im : Import} {d : Dependency} {name : Text}

/-- A path takes a name exactly if some import takes it from there and the name, where
types are erased, is used. -/
theorem exists_binds_iff
    (hds : ds = if o.has .typescript then ds₀.prune (Dependencies.usedNames source tokens.toList o)
      else ds₀) (path : Text) :
    (∃ d, ds.at? path = some d ∧ d.Binds name)
      ↔ (∃ d, ds₀.at? path = some d ∧ d.Binds name) ∧ (o.has .typescript = true →
        name ∈ Dependencies.usedNames source tokens.toList o) := by
  rw [hds]
  by_cases htypescript : o.has .typescript = true
  · rw [if_pos htypescript, Dependencies.at?_prune]
    simp only [Option.map_eq_some_iff, htypescript, forall_const]
    constructor
    · rintro ⟨_, ⟨d, hd, rfl⟩, hbinds⟩
      obtain ⟨hbinds, hused⟩ := Dependency.binds_prune.mp hbinds
      exact ⟨⟨d, hd, hbinds⟩, hused⟩
    · rintro ⟨⟨d, hd, hbinds⟩, hused⟩
      exact ⟨_, ⟨d, hd, rfl⟩, Dependency.binds_prune.mpr ⟨hbinds, hused⟩⟩
  · rw [if_neg htypescript]
    exact ⟨fun h => ⟨h, fun htrue => absurd htrue htypescript⟩, And.left⟩

/-- The tokens between two indices, split at a third. -/
theorem between_split (hil : i < l) (hlk : l < k) (hk : k ≤ p.count) :
    ∃ u v, p.between i k = u ++ p.tokenAt l :: v ∧ i + 1 + u.length = l := by
  have hdrop : p.tokens.toList.drop l = p.tokenAt l :: p.tokens.toList.drop (l + 1) :=
    Program.drop_eq_cons (by omega)
  refine ⟨(p.tokens.toList.drop (i + 1)).take (l - (i + 1)),
    (p.tokens.toList.drop (l + 1)).take (k - (l + 1)), ?_, ?_⟩
  · have hsplit : p.tokens.toList.drop (i + 1)
        = (p.tokens.toList.drop (i + 1)).take (l - (i + 1)) ++ p.tokens.toList.drop l := by
      have happend := List.take_append_drop (l - (i + 1)) (p.tokens.toList.drop (i + 1))
      rw [List.drop_drop, show i + 1 + (l - (i + 1)) = l by omega] at happend
      exact happend.symm
    have hlength : ((p.tokens.toList.drop (i + 1)).take (l - (i + 1))).length = l - (i + 1) := by
      rw [List.length_take, List.length_drop, Array.length_toList]
      change min _ (p.count - _) = _
      omega
    rw [Program.between]
    conv_lhs => rw [hsplit]
    rw [List.take_append, hlength, List.take_of_length_le (by omega), hdrop,
      show k - (i + 1) - (l - (i + 1)) = k - (l + 1) + 1 by omega, List.take_succ_cons]
  · rw [List.length_take, List.length_drop, Array.length_toList]
    change i + 1 + min _ (p.count - _) = l
    omega

/-- The name of an import is collected from its path, unless it is misread. -/
theorem ImportFound.binds_textAt (h : ImportFound p ds i j k im d) (hil : i < l) (hlj : l < j)
    (hkind : p.kindAt l = .name) (hvalue : p.isTypeAt l = false) (hrole : (p.tokenAt l).role ≠ none)
    (hread : ¬(p.textAt l = "as".toList ∧ p.textAt (l - 1) = "as".toList
      ∧ p.kindAt (l - 2) = .comma)) :
    d.Binds (p.textAt l) := by
  have hlk : l < k := by
    rcases Nat.lt_trichotomy l k with hlt | rfl | hgt
    · exact hlt
    · have hpath := h.isPathAt
      simp [Program.isPathAt, hkind] at hpath
    · rw [h.semi l hgt hlj] at hkind
      cases hkind
  have hlt := h.lt_count
  obtain ⟨u, v, hsplit, hlength⟩ := between_split hil hlk (Nat.le_of_lt hlt)
  have hlocal : IsLocal p.source (p.tokenAt l) :=
    h.form.isLocal (by rw [hsplit]; simp) hvalue hrole
  refine h.binds u (p.tokenAt l) v hsplit hlocal ?_
  rintro ⟨ts, comma, word, rfl, hcomma, hword, hname⟩
  have hdrop : p.tokens.toList.drop (i + 1)
      = ts ++ comma :: word :: (p.tokenAt l :: v ++ (p.tokens.toList.drop (i + 1)).drop (k - (i + 1))) := by
    conv_lhs => rw [← List.take_append_drop (k - (i + 1)) (p.tokens.toList.drop (i + 1))]
    rw [show (p.tokens.toList.drop (i + 1)).take (k - (i + 1)) = _ from hsplit]
    simp
  obtain ⟨hcommaAt, -, hdrop'⟩ := Program.tokenAt_append hdrop
  obtain ⟨hwordAt, -, -⟩ := Program.tokenAt_of_drop hdrop'
  simp only [List.length_append, List.length_cons, List.length_nil] at hlength
  refine hread ⟨hname, ?_, ?_⟩
  · rw [show l - 1 = i + 1 + ts.length + 1 by omega, Program.textAt, hwordAt, hword]
  · rw [show l - 2 = i + 1 + ts.length by omega, Program.kindAt, hcommaAt, hcomma]

end

/-- A name is imported as it is and used with an escape. -/
def escapedUseSource : Text :=
  "import a from 'm';\n\\u0061;".toList

/-- The same name the other way round. -/
def escapedImportSource : Text :=
  "import \\u0061 from 'm';\na;".toList

/-- An import at the start of a source, with a name at one index and a reference to it at
another. -/
def importsName (source : Text) (j l a : Nat) (plan : Plan) : Bool :=
  decide (plan.program.isTypeAt 0 = false ∧ (plan.program.tokenAt 0).depth = 0
    ∧ plan.program.kindAt l = .name ∧ plan.program.isTypeAt l = false
    ∧ (plan.program.tokenAt l).role = some .blockScoped
    ∧ (plan.program.tokenAt a).isReference = true
    ∧ plan.program.nameAt a = plan.program.nameAt l)
  && Grammar.readsFirst .kwImport Grammar.importRule
    (.ofOptions source moduleOptions) plan.program.tokens j

end Lower

end Downlevel
