import Downlevel.Proofs.Lower.Paths

/-!
# Imports that are erased

With types erased, an import whose names are never used as values binds nothing.  Whether
its module is loaded all the same depends on what was collected before the names were
pruned: if some import of the path binds a name, nothing is left of them, and otherwise
they load the module for its effects.  Specifiers that are types bind no names.
-/

namespace Downlevel

open Linkage

namespace Linkage

variable {source path : Text} {t : Token} {ts : List Token} {ds ds' : Dependencies}

/-! ## The statements of a program -/

/-- The imports of a program outside functions and types. -/
def importsOf (source : Text) : List Token → List Import
  | [] => []
  | t :: ts =>
    if t.kind = .kwImport && !(t.isType || t.depth != 0) && !startsExpression ts.head? then
      match importOf source (statementTokens true none 0 ts) with
      | .ok im => im :: importsOf source ts
      | .error _ => importsOf source ts
    else importsOf source ts

/-- The paths that names are passed on from, outside functions and types. -/
def reexportsOf (source : Text) : List Token → List Text
  | [] => []
  | t :: ts =>
    if t.kind = .kwExport && !(t.isType || t.depth != 0) then
      match (exportOf source (statementTokens false none 0 ts)).reexport with
      | some rawPath => unquote rawPath :: reexportsOf source ts
      | none => reexportsOf source ts
    else reexportsOf source ts

theorem Import.hasBindings_iff {im : Import} : im.hasBindings = true ↔ ∃ name, im.Binds name := by
  simp only [hasBindings, Bool.or_eq_true, Option.isSome_iff_exists, Bool.not_eq_true',
    List.isEmpty_eq_false_iff_exists_mem, Binds]
  constructor
  · rintro ((⟨name, h⟩ | ⟨name, h⟩) | ⟨⟨imported, name⟩, h⟩)
    · exact ⟨name, .inl h⟩
    · exact ⟨name, .inr (.inl h)⟩
    · exact ⟨name, .inr (.inr ⟨imported, h⟩)⟩
  · rintro ⟨name, h | h | ⟨imported, h⟩⟩
    · exact .inl (.inl ⟨name, h⟩)
    · exact .inl (.inr ⟨name, h⟩)
    · exact .inr ⟨_, h⟩

/-- The path is the only one that an update changes. -/
theorem at?_update {f : Dependency → Dependency} {path' : Text}
    (h : ds'.modules = update ds.modules path' f) :
    ds'.at? path = if path' = path then some (f ((ds.at? path).getD {})) else ds.at? path := by
  unfold Dependencies.at?
  rw [h]
  split
  · rename_i heq
    rw [heq, lookup_update_self]
  · rename_i hne
    exact lookup_update_of_ne (Ne.symm hne)

section

variable {P : Option Dependency → Prop} {A : Import → Prop} {B : Prop}

/-- What holds of a collected path because of single statements holds exactly if there is
such a statement. -/
theorem collected_iff (path : Text)
    (himport : ∀ d im, P (some ((d.getD {}).addImport im)) ↔ P d ∨ A im)
    (hexport : ∀ d rawPath isStar, P (some ((d.getD {}).addReexport rawPath isStar)) ↔ P d ∨ B)
    (h : Dependencies.scan source ds ts = .ok ds') :
    P (ds'.at? path) ↔ P (ds.at? path) ∨ (∃ im ∈ importsOf source ts, unquote im.rawPath = path ∧ A im)
      ∨ (path ∈ reexportsOf source ts ∧ B) := by
  induction ts generalizing ds with
  | nil =>
    cases h
    simp [importsOf, reexportsOf]
  | cons t ts ih =>
    rw [Dependencies.scan] at h
    rw [importsOf, reexportsOf]
    split at h
    · rename_i hskip
      rw [ih h, if_neg (by simp [hskip]), if_neg (by simp [hskip])]
    rename_i hhere
    split at h
    · rename_i hstarts
      have hkind : t.kind ≠ .kwExport := fun hkind => by simp [hkind] at hstarts
      cases him : importOf source (statementTokens true none 0 ts) with
      | error e => simp [him] at h
      | ok im =>
        rw [him] at h
        rw [ih h, if_pos (by simpa [hhere] using hstarts), if_neg (by simp [hkind]), at?_update rfl]
        by_cases hpath : unquote im.rawPath = path
        · rw [if_pos hpath, himport]
          grind
        · rw [if_neg hpath]
          grind
    rename_i hstarts
    rw [if_neg (by simpa [hhere] using hstarts)]
    split at h
    · rename_i hkind
      rw [ih h, if_pos (by simpa [hhere] using hkind)]
      generalize exportOf source (statementTokens false none 0 ts) = e
      cases he : e.reexport with
      | none =>
        have hsame : (ds.addExport e).at? path = ds.at? path := by
          simp [Dependencies.at?, Dependencies.addExport, he]
        rw [hsame]
      | some rawPath =>
        rw [at?_update (show (ds.addExport e).modules = update ds.modules (unquote rawPath)
          (·.addReexport rawPath e.isStar) by simp [Dependencies.addExport, he])]
        by_cases hpath : unquote rawPath = path
        · rw [if_pos hpath, hexport]
          grind
        · rw [if_neg hpath]
          grind
    · rename_i hkind
      rw [ih h, if_neg (by simp [hkind])]

end

theorem isSome_at?_of_scan (path : Text) (h : Dependencies.scan source {} ts = .ok ds) :
    (ds.at? path).isSome = true
      ↔ (∃ im ∈ importsOf source ts, unquote im.rawPath = path) ∨ path ∈ reexportsOf source ts := by
  have hiff := collected_iff (P := fun d => d.isSome = true) (A := fun _ => True) (B := True) path
    (by simp) (by simp) h
  simpa [show ({} : Dependencies).at? path = none from rfl] using hiff

theorem hasReexport_of_scan (path : Text) (h : Dependencies.scan source {} ts = .ok ds) :
    ((ds.at? path).getD {}).hasReexport = true ↔ path ∈ reexportsOf source ts := by
  have hiff := collected_iff (P := fun d => (d.getD {}).hasReexport = true) (A := fun _ => False)
    (B := True) path (by simp [Dependency.addImport]) (by simp [Dependency.addReexport]) h
  simpa [show ({} : Dependencies).at? path = none from rfl] using hiff

theorem binds_of_scan (path name : Text) (h : Dependencies.scan source {} ts = .ok ds) :
    ((ds.at? path).getD {}).Binds name
      ↔ ∃ im ∈ importsOf source ts, unquote im.rawPath = path ∧ im.Binds name := by
  have himport : ∀ (d : Option Dependency) (im : Import),
      ((d.getD {}).addImport im).Binds name ↔ (d.getD {}).Binds name ∨ im.Binds name := by
    intro d im
    simp only [Dependency.Binds, Import.Binds, Dependency.addImport, List.mem_append,
      Option.mem_toList, exists_or, or_assoc, or_comm, or_left_comm]
  have hiff := collected_iff (P := fun d => (d.getD {}).Binds name) (A := (·.Binds name)) (B := False)
    path himport (fun _ _ _ => (or_iff_left id).symm) h
  simpa [show ({} : Dependencies).at? path = none from rfl, Dependency.Binds] using hiff

theorem hadBindings_of_scan (path : Text) (h : Dependencies.scan source {} ts = .ok ds) :
    ((ds.at? path).getD {}).hadBindings = true
      ↔ ∃ im ∈ importsOf source ts, unquote im.rawPath = path ∧ ∃ name, im.Binds name := by
  have hiff := collected_iff (P := fun d => (d.getD {}).hadBindings = true)
    (A := fun im => ∃ name, im.Binds name) (B := False) path
    (by simp [Dependency.addImport, Import.hasBindings_iff]) (by simp [Dependency.addReexport]) h
  simpa [show ({} : Dependencies).at? path = none from rfl] using hiff

/-! ## What is not used -/

/-- The program uses the name in types only: no value refers to it, and no element is made
with it. -/
structure IsErased (source : Text) (tokens : List Token) (o : Options) (name : Text) : Prop where
  value : ∀ t ∈ tokens, t.isType = false → t.isReference = true → t.text source ≠ name
  pragma : (∃ t ∈ tokens, t.kind = .jsxTagStart) →
    name ≠ pragmaBase o.jsxPragma ∧ name ≠ pragmaBase o.jsxFragmentPragma

instance (source : Text) (tokens : List Token) (o : Options) (name : Text) :
    Decidable (IsErased source tokens o name) :=
  decidable_of_iff (_ ∧ _) ⟨fun h => ⟨h.1, h.2⟩, fun h => ⟨h.value, h.pragma⟩⟩

theorem IsErased.notMem {tokens : List Token} {o : Options} {name : Text}
    (h : IsErased source tokens o name) : name ∉ Dependencies.usedNames source tokens o := by
  rw [Dependencies.usedNames, List.mem_append, not_or]
  constructor
  · intro hmem
    obtain ⟨t, ht, htext⟩ := List.mem_map.mp hmem
    obtain ⟨ht, hvalue⟩ := List.mem_filter.mp ht
    simp only [Bool.and_eq_true, Bool.not_eq_true'] at hvalue
    exact h.value t ht hvalue.1 hvalue.2 htext
  · intro hmem
    split at hmem
    · rename_i helement
      obtain ⟨hpragma, hfragment⟩ := h.pragma (by simpa using helement)
      simp [hpragma, hfragment] at hmem
    · cases hmem

end Linkage

namespace Lower

/-- A name that is marked as a type, and a name of the same path that only types use. -/
def typeNamesSource : Text :=
  "import {type A} from 'm';\nimport {B} from 'm';\nlet x: B;".toList

/-- The only name is marked as a type. -/
def typeSpecifierSource : Text :=
  "import {type A} from 'm';".toList

end Lower

end Downlevel
