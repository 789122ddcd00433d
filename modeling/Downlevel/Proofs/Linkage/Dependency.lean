import Downlevel.Linkage.Dependency
import Downlevel.Proofs.Linkage.ImportForm

/-!
# Dependencies that are collected

Scanning a program goes from token to token and only adds to the dependencies.  So
what one statement takes from a module is there at the end, under the path of the
statement.
-/

namespace Downlevel.Linkage

/-! ## Updating one path -/

section

variable {modules : List (Text × Dependency)} {path path' : Text} {f : Dependency → Dependency}

theorem lookup_update_self (modules : List (Text × Dependency)) (path : Text)
    (f : Dependency → Dependency) :
    (update modules path f).lookup path = some (f ((modules.lookup path).getD {})) := by
  induction modules with
  | nil => simp [update]
  | cons entry rest ih =>
    obtain ⟨p, d⟩ := entry
    rw [update]
    by_cases h : p = path
    · subst h
      simp
    · have hne : (path == p) = false := beq_eq_false_iff_ne.mpr (Ne.symm h)
      rw [if_neg h, List.lookup_cons, List.lookup_cons, hne]
      exact ih

theorem lookup_update_of_ne (h : path' ≠ path) :
    (update modules path f).lookup path' = modules.lookup path' := by
  induction modules with
  | nil => simpa [update] using h
  | cons entry rest ih =>
    obtain ⟨p, d⟩ := entry
    rw [update]
    by_cases hp : p = path
    · have hne : (path' == p) = false := beq_eq_false_iff_ne.mpr (hp ▸ h)
      rw [if_pos hp, List.lookup_cons, List.lookup_cons, hne]
    · rw [if_neg hp, List.lookup_cons, List.lookup_cons, ih]

/-- Updating keeps the paths and adds the one that is updated if it is new. -/
theorem keys_update (modules : List (Text × Dependency)) (path : Text)
    (f : Dependency → Dependency) :
    (update modules path f).map Prod.fst = modules.map Prod.fst
      ∨ path ∉ modules.map Prod.fst
        ∧ (update modules path f).map Prod.fst = modules.map Prod.fst ++ [path] := by
  induction modules with
  | nil => exact .inr ⟨List.not_mem_nil, rfl⟩
  | cons entry rest ih =>
    obtain ⟨p, d⟩ := entry
    rw [update]
    by_cases h : p = path
    · rw [if_pos h]
      exact .inl rfl
    · rw [if_neg h]
      rcases ih with hsame | ⟨hnew, hkeys⟩
      · exact .inl (by simp [hsame])
      · refine .inr ⟨?_, by simp [hkeys]⟩
        simp only [List.map_cons, List.mem_cons, not_or]
        exact ⟨Ne.symm h, hnew⟩

theorem mem_update {entry : Text × Dependency} (h : entry ∈ update modules path f) :
    entry ∈ modules ∨ ∃ d, entry = (path, f d) := by
  induction modules with
  | nil => exact .inr ⟨_, List.mem_singleton.mp h⟩
  | cons first rest ih =>
    obtain ⟨p, d⟩ := first
    rw [update] at h
    split at h
    · rename_i hp
      subst hp
      rcases List.mem_cons.mp h with rfl | hrest
      · exact .inr ⟨d, rfl⟩
      · exact .inl (List.mem_cons_of_mem _ hrest)
    · rcases List.mem_cons.mp h with rfl | hrest
      · exact .inl List.mem_cons_self
      · exact (ih hrest).imp_left (List.mem_cons_of_mem _)

theorem nodup_update (h : (modules.map Prod.fst).Nodup) :
    ((update modules path f).map Prod.fst).Nodup := by
  rcases keys_update modules path f with hsame | ⟨hnew, hkeys⟩
  · rw [hsame]
    exact h
  · rw [hkeys, List.nodup_append]
    refine ⟨h, by simp, fun a ha b hb => ?_⟩
    rw [List.mem_singleton.mp hb]
    rintro rfl
    exact hnew ha

end

/-! ## Adding to dependencies -/

namespace Dependency

/-- What is taken in one dependency is taken in the other, too. -/
structure Within (d d' : Dependency) : Prop where
  defaultNames : d.defaultNames ⊆ d'.defaultNames
  wildcardNames : d.wildcardNames ⊆ d'.wildcardNames
  named : d.named ⊆ d'.named
  hasReexport : d.hasReexport = true → d'.hasReexport = true
  hasStarExport : d.hasStarExport = true → d'.hasStarExport = true

variable {d d' d'' : Dependency} {name : Text}

theorem Within.refl (d : Dependency) : d.Within d :=
  ⟨List.Subset.refl _, List.Subset.refl _, List.Subset.refl _, id, id⟩

theorem Within.trans (h : d.Within d') (h' : d'.Within d'') : d.Within d'' where
  defaultNames := List.Subset.trans h.defaultNames h'.defaultNames
  wildcardNames := List.Subset.trans h.wildcardNames h'.wildcardNames
  named := List.Subset.trans h.named h'.named
  hasReexport := fun hd => h'.hasReexport (h.hasReexport hd)
  hasStarExport := fun hd => h'.hasStarExport (h.hasStarExport hd)

theorem within_addImport (d : Dependency) (i : Import) : d.Within (d.addImport i) :=
  ⟨List.subset_append_left .., List.subset_append_left .., List.subset_append_left .., id, id⟩

theorem within_addReexport (d : Dependency) (rawPath : Text) (isStar : Bool) :
    d.Within (d.addReexport rawPath isStar) where
  defaultNames := List.Subset.refl _
  wildcardNames := List.Subset.refl _
  named := List.Subset.refl _
  hasReexport := fun _ => rfl
  hasStarExport := fun hd => by simp [addReexport, hd]

/-- A name is taken. -/
def Binds (d : Dependency) (name : Text) : Prop :=
  name ∈ d.defaultNames ∨ name ∈ d.wildcardNames ∨ ∃ imported, (imported, name) ∈ d.named

theorem Binds.of_within (h : d.Binds name) (hd : d.Within d') : d'.Binds name :=
  h.imp (fun hname => hd.defaultNames hname)
    (.imp (fun hname => hd.wildcardNames hname) fun ⟨imported, hname⟩ => ⟨imported, hd.named hname⟩)

theorem binds_addImport {i : Import} (h : i.Binds name) : (d.addImport i).Binds name := by
  rcases h with h | h | ⟨imported, h⟩
  · exact .inl (by simp [addImport, h])
  · exact .inr (.inl (by simp [addImport, h]))
  · exact .inr (.inr ⟨imported, by simp [addImport, h]⟩)

/-- Something is taken exactly if a name is, or if names are passed on. -/
theorem isEmpty_eq_false_iff :
    d.isEmpty = false ↔ (∃ name, d.Binds name) ∨ d.hasReexport = true := by
  simp only [isEmpty, Bool.and_eq_false_iff, List.isEmpty_eq_false_iff_exists_mem,
    Bool.not_eq_false', Binds]
  constructor
  · rintro (((⟨name, h⟩ | ⟨name, h⟩) | ⟨⟨imported, name⟩, h⟩) | h)
    · exact .inl ⟨name, .inl h⟩
    · exact .inl ⟨name, .inr (.inl h)⟩
    · exact .inl ⟨name, .inr (.inr ⟨imported, h⟩)⟩
    · exact .inr h
  · rintro (⟨name, h | h | ⟨imported, h⟩⟩ | h)
    · exact .inl (.inl (.inl ⟨name, h⟩))
    · exact .inl (.inl (.inr ⟨name, h⟩))
    · exact .inl (.inr ⟨_, h⟩)
    · exact .inr h

theorem binds_prune {used : List Text} :
    (d.prune used).Binds name ↔ d.Binds name ∧ name ∈ used := by
  simp only [Binds, prune, List.mem_filter, List.contains_iff_mem]
  constructor
  · rintro (⟨h, hused⟩ | ⟨h, hused⟩ | ⟨imported, h, hused⟩)
    · exact ⟨.inl h, hused⟩
    · exact ⟨.inr (.inl h), hused⟩
    · exact ⟨.inr (.inr ⟨imported, h⟩), hused⟩
  · rintro ⟨h | h | ⟨imported, h⟩, hused⟩
    · exact .inl ⟨h, hused⟩
    · exact .inr (.inl ⟨h, hused⟩)
    · exact .inr (.inr ⟨imported, h, hused⟩)

end Dependency

namespace Dependencies

/-- What is taken from a path. -/
def at? (ds : Dependencies) (path : Text) : Option Dependency :=
  ds.modules.lookup path

/-- What is taken from each path is taken in the other dependencies, too. -/
def Within (ds ds' : Dependencies) : Prop :=
  ∀ path d, ds.at? path = some d → ∃ d', ds'.at? path = some d' ∧ d.Within d'

variable {ds ds' ds'' : Dependencies} {source : Text} {t : Token} {ts : List Token} {path : Text}

theorem Within.refl (ds : Dependencies) : ds.Within ds :=
  fun _ d hd => ⟨d, hd, .refl d⟩

theorem Within.trans (h : ds.Within ds') (h' : ds'.Within ds'') : ds.Within ds'' := by
  intro path d hd
  obtain ⟨d', hd', hwithin⟩ := h path d hd
  obtain ⟨d'', hd'', hwithin'⟩ := h' path d' hd'
  exact ⟨d'', hd'', hwithin.trans hwithin'⟩

/-- Adding to what is taken from one path. -/
theorem within_of_update {f : Dependency → Dependency} (hf : ∀ d : Dependency, d.Within (f d))
    (hmodules : ds'.modules = update ds.modules path f) : ds.Within ds' := by
  intro path' d hd
  unfold at? at hd ⊢
  rw [hmodules]
  by_cases h : path' = path
  · subst h
    rw [lookup_update_self, hd]
    exact ⟨f d, rfl, hf d⟩
  · rw [lookup_update_of_ne h]
    exact ⟨d, hd, .refl d⟩

theorem within_addImport (ds : Dependencies) (i : Import) : ds.Within (ds.addImport i) :=
  within_of_update (fun d => d.within_addImport i) rfl

theorem within_addExport (ds : Dependencies) (e : Export) : ds.Within (ds.addExport e) := by
  cases he : e.reexport with
  | none =>
    intro path d hd
    refine ⟨d, ?_, .refl d⟩
    simpa [at?, addExport, he] using hd
  | some rawPath =>
    have hmodules : (ds.addExport e).modules
        = update ds.modules (unquote rawPath) (·.addReexport rawPath e.isStar) := by
      simp [addExport, he]
    exact within_of_update (fun d => d.within_addReexport rawPath e.isStar) hmodules

/-! ## Scanning -/

/-- What scanning does at a token that has some tokens behind it. -/
inductive Scans (source : Text) (ds : Dependencies) (t : Token) (ts : List Token) :
    Dependencies → Prop
  | pass : Scans source ds t ts ds
  | import {i : Import} (himport : importOf source (statementTokens true none 0 ts) = .ok i) :
      Scans source ds t ts (ds.addImport i)
  | export : Scans source ds t ts
      (ds.addExport (exportOf source (statementTokens false none 0 ts)))

theorem exists_of_scan_cons (h : scan source ds (t :: ts) = .ok ds') :
    ∃ ds₁, Scans source ds t ts ds₁ ∧ scan source ds₁ ts = .ok ds' := by
  rw [scan] at h
  split at h
  · exact ⟨ds, .pass, h⟩
  · split at h
    · split at h
      · rename_i i hi
        exact ⟨_, .import hi, h⟩
      · cases h
    · split at h
      · exact ⟨_, .export, h⟩
      · exact ⟨ds, .pass, h⟩

theorem Scans.within (h : Scans source ds t ts ds') : ds.Within ds' := by
  cases h with
  | pass => exact .refl ds
  | «import» _ => exact ds.within_addImport _
  | «export» => exact ds.within_addExport _

/-- What scanning keeps at each token holds at the end. -/
theorem invariant_of_scan {I : Dependencies → Prop}
    (hstep : ∀ {ds t ts ds'}, Scans source ds t ts ds' → I ds → I ds') (hds : I ds)
    (h : scan source ds ts = .ok ds') : I ds' := by
  induction ts generalizing ds with
  | nil =>
    cases h
    exact hds
  | cons t ts ih =>
    obtain ⟨ds₁, hfirst, hrest⟩ := exists_of_scan_cons h
    exact ih (hstep hfirst hds) hrest

theorem within_of_scan (h : scan source ds ts = .ok ds') : ds.Within ds' :=
  invariant_of_scan (fun hstep hds => hds.trans hstep.within) (.refl ds) h

/-- Scanning a program comes to each of its tokens. -/
theorem exists_scan_drop (h : scan source ds ts = .ok ds') (i : Nat) :
    ∃ ds₁, scan source ds₁ (ts.drop i) = .ok ds' := by
  induction ts generalizing ds i with
  | nil => exact ⟨ds, by simpa using h⟩
  | cons t ts ih =>
    cases i with
    | zero => exact ⟨ds, h⟩
    | succ i =>
      obtain ⟨ds₁, -, hrest⟩ := exists_of_scan_cons h
      exact ih hrest i

theorem nodup_of_scan (hds : (ds.modules.map Prod.fst).Nodup) (h : scan source ds ts = .ok ds') :
    (ds'.modules.map Prod.fst).Nodup := by
  refine invariant_of_scan (I := fun ds => (ds.modules.map Prod.fst).Nodup) ?_ hds h
  intro ds t ts ds' hstep hds
  cases hstep with
  | pass => exact hds
  | «import» _ => exact nodup_update hds
  | «export» =>
    unfold addExport
    split
    · exact nodup_update hds
    · exact hds

/-- Each path is that of the string literal it was written as. -/
def IsQuoted (ds : Dependencies) : Prop :=
  ∀ entry ∈ ds.modules, unquote entry.2.rawPath = entry.1

theorem isQuoted_of_scan (hds : ds.IsQuoted) (h : scan source ds ts = .ok ds') : ds'.IsQuoted := by
  refine invariant_of_scan ?_ hds h
  intro ds t ts ds' hstep hds entry hentry
  cases hstep with
  | pass => exact hds entry hentry
  | «import» _ =>
    rcases mem_update hentry with hentry | ⟨d, rfl⟩
    · exact hds entry hentry
    · rfl
  | «export» =>
    unfold addExport at hentry
    dsimp only at hentry
    split at hentry
    · rcases mem_update hentry with hentry | ⟨d, rfl⟩
      · exact hds entry hentry
      · rfl
    · exact hds entry hentry

/-- What an import takes is there at the end. -/
theorem exists_of_scan_import (hkind : t.kind = .kwImport) (htype : t.isType = false)
    (hdepth : t.depth = 0) (hafter : startsExpression ts.head? = false)
    (h : scan source ds (t :: ts) = .ok ds') :
    ∃ i, importOf source (statementTokens true none 0 ts) = .ok i
      ∧ ∃ d, ds'.at? (unquote i.rawPath) = some d ∧ ∀ name, i.Binds name → d.Binds name := by
  rw [scan, if_neg (by simp [htype, hdepth]), if_pos (by simp [hkind, hafter])] at h
  split at h
  case h_2 => cases h
  rename_i i hi
  obtain ⟨d, hd, hwithin⟩ := within_of_scan h _ _ (lookup_update_self ..)
  exact ⟨i, hi, d, hd, fun name hname => (Dependency.binds_addImport hname).of_within hwithin⟩

/-- What an export passes on is there at the end. -/
theorem exists_of_scan_export {rawPath : Text} (hkind : t.kind = .kwExport)
    (htype : t.isType = false) (hdepth : t.depth = 0)
    (hpath : (exportOf source (statementTokens false none 0 ts)).reexport = some rawPath)
    (h : scan source ds (t :: ts) = .ok ds') :
    ∃ d, ds'.at? (unquote rawPath) = some d ∧ d.hasReexport = true
      ∧ ((exportOf source (statementTokens false none 0 ts)).isStar = true →
        d.hasStarExport = true) := by
  rw [scan, if_neg (by simp [htype, hdepth]), if_neg (by simp [hkind]), if_pos hkind] at h
  generalize exportOf source (statementTokens false none 0 ts) = e at h hpath ⊢
  have hadd : (ds.addExport e).at? (unquote rawPath)
      = some (((ds.at? (unquote rawPath)).getD {}).addReexport rawPath e.isStar) := by
    simp only [at?, addExport, hpath]
    exact lookup_update_self ..
  obtain ⟨d, hd, hwithin⟩ := within_of_scan h _ _ hadd
  refine ⟨d, hd, hwithin.hasReexport rfl, fun hstar => hwithin.hasStarExport ?_⟩
  simp [Dependency.addReexport, hstar]

theorem hasDefaultExport_of_scan (hds : ds.hasDefaultExport = true)
    (h : scan source ds ts = .ok ds') : ds'.hasDefaultExport = true := by
  refine invariant_of_scan (I := fun ds => ds.hasDefaultExport = true) ?_ hds h
  intro ds t ts ds' hstep hds
  cases hstep with
  | pass => exact hds
  | «import» _ => exact hds
  | «export» => simp [addExport, hds]

/-- An `export` in front of a `default` counts, whatever is behind them. -/
theorem hasDefaultExport_of_scan_export {u : Token} (hkind : t.kind = .kwExport)
    (htype : t.isType = false) (hdepth : t.depth = 0) (hdefault : u.kind = .kwDefault)
    (huvalue : u.isType = false) (h : scan source ds (t :: u :: ts) = .ok ds') :
    ds'.hasDefaultExport = true := by
  have htokens : statementTokens false none 0 (u :: ts) = [u] := by
    simp [statementTokens, huvalue, hdefault, goesOn]
  rw [scan, if_neg (by simp [htype, hdepth]), if_neg (by simp [hkind]), if_pos hkind, htokens] at h
  refine hasDefaultExport_of_scan ?_ h
  simp [addExport, exportOf, startsWithKind, hdefault]

theorem scan_cons_of_isType (h : t.isType = true) : scan source ds (t :: ts) = scan source ds ts := by
  rw [scan, if_pos (by simp [h])]

end Dependencies

end Downlevel.Linkage
