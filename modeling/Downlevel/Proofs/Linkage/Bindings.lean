import Downlevel.Linkage.Bindings
import Downlevel.Proofs.Linkage.Dependency
import Downlevel.Proofs.Names

/-!
# Bindings of the dependencies

Every path that dependencies have is loaded, every path something is taken from has
a variable, and every name that is taken an expression on the variable of its path.
The variables are different from each other, from the names of the helpers and from
all names that were taken before.
-/

namespace Downlevel.Linkage

/-! ## Entries by key -/

section

variable {β : Type} {l : List (Text × β)} {k : Text} {v : β}

theorem isSome_lookup_iff : (l.lookup k).isSome = true ↔ k ∈ l.map Prod.fst := by
  induction l with
  | nil => simp
  | cons entry rest ih =>
    obtain ⟨k', v'⟩ := entry
    by_cases h : k = k'
    · subst h
      simp
    · have hne : (k == k') = false := beq_eq_false_iff_ne.mpr h
      rw [List.lookup_cons, hne, List.map_cons, List.mem_cons]
      exact ih.trans ⟨.inr, fun hmem => hmem.resolve_left h⟩

theorem mem_of_lookup (h : l.lookup k = some v) : (k, v) ∈ l := by
  induction l with
  | nil => cases h
  | cons entry rest ih =>
    obtain ⟨k', v'⟩ := entry
    rw [List.lookup_cons] at h
    by_cases hk : k = k'
    · subst hk
      rw [beq_self_eq_true] at h
      cases h
      exact List.mem_cons_self
    · rw [beq_eq_false_iff_ne.mpr hk] at h
      exact List.mem_cons_of_mem _ (ih h)

theorem lookup_of_mem (hkeys : (l.map Prod.fst).Nodup) (h : (k, v) ∈ l) : l.lookup k = some v := by
  induction l with
  | nil => cases h
  | cons entry rest ih =>
    obtain ⟨k', v'⟩ := entry
    rw [List.map_cons, List.nodup_cons] at hkeys
    rcases List.mem_cons.mp h with heq | hrest
    · cases heq
      rw [List.lookup_cons, beq_self_eq_true]
    · have hne : k ≠ k' := by
        rintro rfl
        exact hkeys.1 (List.mem_map.mpr ⟨_, hrest, rfl⟩)
      rw [List.lookup_cons, beq_eq_false_iff_ne.mpr hne]
      exact ih hkeys.2 hrest

end

/-- The names of the helpers that are needed. -/
def Helpers.names (h : Helpers) : List Text :=
  h.wildcard.toList ++ h.default.toList ++ h.exportStar.toList

namespace Bindings

variable {b : Bindings} {names : Names} {path : Text} {d : Dependency}
  {modules : List (Text × Dependency)} {ds : Dependencies}

/-! ## One path -/

/-- With a path, whether something is taken from it or not. -/
def add (b : Bindings) (names : Names) (path : Text) (d : Dependency) : Bindings × Names :=
  if d.isEmpty then (b.addUnused path d, names) else b.addUsed path d names

theorem addAll_cons :
    b.addAll names ((path, d) :: modules)
      = (b.add names path d).1.addAll (b.add names path d).2 modules := by
  rw [addAll, add]
  split <;> rfl

theorem exists_loads_add (b : Bindings) (names : Names) (path : Text) (d : Dependency) :
    ∃ code, (b.add names path d).1.loads = b.loads ++ [(path, code)] := by
  unfold add
  split
  · exact ⟨_, rfl⟩
  · exact ⟨_, rfl⟩

theorem moduleNames_add (b : Bindings) (names : Names) (path : Text) (d : Dependency) :
    (b.add names path d).1.moduleNames = b.moduleNames
      ++ if d.isEmpty then [] else [(path, names.findFree (moduleBaseName path))] := by
  unfold add
  split
  · exact (List.append_nil _).symm
  · rfl

theorem replacements_add (b : Bindings) (names : Names) (path : Text) (d : Dependency) :
    (b.add names path d).1.replacements
      = (if d.isEmpty then [] else replacementsOf (names.findFree (moduleBaseName path)) d)
        ++ b.replacements := by
  unfold add
  split <;> rfl

theorem exportStar_claimLoader (h : Helpers) (d : Dependency) (names : Names) :
    (claimLoader h d names).2.1.exportStar = h.exportStar := by
  unfold claimLoader
  split <;> rfl

/-- The helper that passes on all names is there from the first path on that needs it. -/
theorem exportStar_add
    (h : b.helpers.exportStar.isSome = true ∨ d.isEmpty = false ∧ d.hasStarExport = true) :
    (b.add names path d).1.helpers.exportStar.isSome = true := by
  unfold add
  split
  · rename_i hempty
    rw [hempty] at h
    exact h.resolve_right nofun
  · dsimp only [addUsed, claimExportStar]
    split
    · rfl
    · rename_i hstar
      rw [exportStar_claimLoader]
      exact h.resolve_right fun hneeds => hstar hneeds.2

/-! ## All paths -/

theorem keys_loads_addAll :
    (b.addAll names modules).1.loads.map Prod.fst = b.loads.map Prod.fst ++ modules.map Prod.fst := by
  induction modules generalizing b names with
  | nil => simp [addAll]
  | cons entry modules ih =>
    obtain ⟨path, d⟩ := entry
    obtain ⟨code, hloads⟩ := b.exists_loads_add names path d
    rw [addAll_cons, ih, hloads]
    simp

/-- Each path something is taken from gets a variable, and the names that are taken
expressions on it. -/
theorem exists_entries_addAll (b : Bindings) (names : Names) (modules : List (Text × Dependency)) :
    ∃ entries : List (Text × Dependency × Text),
      entries.map (fun e => (e.1, e.2.1)) = modules.filter (fun m => !m.2.isEmpty)
      ∧ (b.addAll names modules).1.moduleNames
        = b.moduleNames ++ entries.map (fun e => (e.1, e.2.2))
      ∧ (b.addAll names modules).1.replacements
        = entries.reverse.flatMap (fun e => replacementsOf e.2.2 e.2.1) ++ b.replacements
      ∧ ∀ e ∈ entries, ∃ n : Names, e.2.2 = n.findFree (moduleBaseName e.1) := by
  induction modules generalizing b names with
  | nil => exact ⟨[], rfl, (List.append_nil _).symm, rfl, nofun⟩
  | cons entry modules ih =>
    obtain ⟨path, d⟩ := entry
    obtain ⟨entries, hmodules, hnames, hreplacements, hfree⟩ := ih (b.add names path d).1
      (b.add names path d).2
    rw [addAll_cons, hnames, hreplacements, moduleNames_add, replacements_add]
    cases hempty : d.isEmpty with
    | true => exact ⟨entries, by simp [hempty, hmodules], by simp, by simp, hfree⟩
    | false =>
      exact ⟨(path, d, names.findFree (moduleBaseName path)) :: entries,
        by simp [hempty, hmodules], by simp, by simp, List.forall_mem_cons.mpr ⟨⟨names, rfl⟩, hfree⟩⟩

/-- The helper that passes on all names is there if a path needs it. -/
theorem exportStar_addAll (h : b.helpers.exportStar.isSome = true
      ∨ ∃ entry ∈ modules, entry.2.isEmpty = false ∧ entry.2.hasStarExport = true) :
    (b.addAll names modules).1.helpers.exportStar.isSome = true := by
  induction modules generalizing b names with
  | nil => exact h.resolve_right nofun
  | cons entry modules ih =>
    obtain ⟨path, d⟩ := entry
    rw [addAll_cons]
    apply ih
    rcases h with hsome | ⟨entry, hmem, hneeds⟩
    · exact .inl (exportStar_add (.inl hsome))
    · rcases List.mem_cons.mp hmem with rfl | hmem
      · exact .inl (exportStar_add (.inr hneeds))
      · exact .inr ⟨entry, hmem, hneeds⟩

/-! ## The statements that load -/

/-- The statement that loads a path.  Nothing is loaded if names were taken and none is
used.  If something is taken, the module is put into the variable of the path. -/
inductive IsLoad (b : Bindings) (path : Text) (d : Dependency) : Text → Prop
  | elided : d.isEmpty = true → d.hadBindings = true → IsLoad b path d []
  | effects : d.isEmpty = true → d.hadBindings = false →
      IsLoad b path d (requireCall d.rawPath ++ ";".toList)
  | bound {v loader : Text} : d.isEmpty = false → b.moduleName? path = some v →
      loader ∈ b.helpers.names →
      IsLoad b path d ("var ".toList ++ v ++ " = ".toList ++ loader ++ "(".toList
        ++ requireCall d.rawPath ++ ");".toList)

/-- A path is loaded. -/
def LoadsAs (b : Bindings) (path : Text) (d : Dependency) : Prop :=
  ∃ code, b.loads.lookup path = some code ∧ b.IsLoad path d code

theorem LoadsAs.isLoad (h : b.LoadsAs path d) : b.IsLoad path d (b.load path) := by
  obtain ⟨code, hcode, hload⟩ := h
  rw [load, hcode]
  exact hload

/-- The helper that loads a dependency is one of the helpers. -/
theorem mem_names_claimLoader (h : Helpers) (d : Dependency) (names : Names) :
    (claimLoader h d names).1 ∈ (claimLoader h d names).2.1.names := by
  unfold claimLoader
  split <;> simp [Helpers.names]

theorem names_subset_claimLoader (h : Helpers) (d : Dependency) (names : Names) :
    h.names ⊆ (claimLoader h d names).2.1.names := by
  unfold claimLoader claimHelper
  split
  · cases hdefault : h.default <;> simp [Helpers.names, hdefault]
  · cases hwildcard : h.wildcard <;> simp [Helpers.names, hwildcard]

theorem names_subset_claimExportStar (h : Helpers) (d : Dependency) (names : Names) :
    h.names ⊆ (claimExportStar h d names).1.names := by
  unfold claimExportStar claimHelper
  split
  · cases hstar : h.exportStar <;> simp [Helpers.names, hstar]
  · exact List.Subset.refl _

theorem names_subset_add (b : Bindings) (names : Names) (path : Text) (d : Dependency) :
    b.helpers.names ⊆ (b.add names path d).1.helpers.names := by
  unfold add
  split
  · exact List.Subset.refl _
  · exact List.Subset.trans (names_subset_claimLoader ..) (names_subset_claimExportStar ..)

/-- A path stays as it is when another is added. -/
theorem LoadsAs.add (h : b.LoadsAs path d) (names : Names) (path' : Text) (d' : Dependency) :
    (b.add names path' d').1.LoadsAs path d := by
  obtain ⟨code, hcode, hload⟩ := h
  obtain ⟨code', hloads⟩ := b.exists_loads_add names path' d'
  refine ⟨code, ?_, ?_⟩
  · rw [hloads, List.lookup_append, hcode]
    rfl
  · cases hload with
    | elided hempty hhad => exact .elided hempty hhad
    | effects hempty hhad => exact .effects hempty hhad
    | bound hempty hv hloader =>
      refine .bound hempty ?_ (b.names_subset_add names path' d' hloader)
      unfold moduleName? at hv ⊢
      rw [moduleNames_add, List.lookup_append, hv]
      rfl

/-- A path that is added is loaded. -/
theorem loadsAs_add (names : Names) (d : Dependency) (hloads : path ∉ b.loads.map Prod.fst)
    (hnames : path ∉ b.moduleNames.map Prod.fst) : (b.add names path d).1.LoadsAs path d := by
  have hnew : ∀ {l : List (Text × Text)} (v : Text), path ∉ l.map Prod.fst →
      (l ++ [(path, v)]).lookup path = some v := by
    intro l v hl
    rw [← isSome_lookup_iff, Bool.not_eq_true, Option.isSome_eq_false_iff,
      Option.isNone_iff_eq_none] at hl
    rw [List.lookup_append, hl, List.lookup_cons, beq_self_eq_true]
    rfl
  unfold add
  cases hempty : d.isEmpty with
  | true =>
    rw [if_pos rfl]
    refine ⟨_, hnew _ hloads, ?_⟩
    cases hhad : d.hadBindings with
    | true => exact .elided hempty hhad
    | false => exact .effects hempty hhad
  | false =>
    rw [if_neg Bool.false_ne_true]
    refine ⟨_, hnew _ hloads, .bound hempty (hnew _ hnames) ?_⟩
    exact names_subset_claimExportStar _ d _ (mem_names_claimLoader ..)

theorem loadsAs_addAll (hkeys : (b.loads.map Prod.fst ++ modules.map Prod.fst).Nodup)
    (hnames : b.moduleNames.map Prod.fst ⊆ b.loads.map Prod.fst)
    (h : b.LoadsAs path d ∨ (path, d) ∈ modules) : (b.addAll names modules).1.LoadsAs path d := by
  induction modules generalizing b names with
  | nil => exact h.resolve_right List.not_mem_nil
  | cons entry modules ih =>
    obtain ⟨path', d'⟩ := entry
    obtain ⟨code, hloads⟩ := b.exists_loads_add names path' d'
    have hfresh : path' ∉ b.loads.map Prod.fst := by
      intro hmem
      exact (List.nodup_append.mp hkeys).2.2 _ hmem path' List.mem_cons_self rfl
    rw [addAll_cons]
    refine ih ?_ ?_ ?_
    · rw [hloads, List.map_append, List.append_assoc]
      exact hkeys
    · rw [moduleNames_add, hloads, List.map_append, List.map_append]
      refine List.append_subset.mpr ⟨List.subset_append_of_subset_left _ hnames, ?_⟩
      split <;> simp
    · rcases h with hbefore | hmem
      · exact .inl (hbefore.add names path' d')
      · rcases List.mem_cons.mp hmem with heq | hmem
        · cases heq
          exact .inl (loadsAs_add names d hfresh fun hname => hfresh (hnames hname))
        · exact .inr hmem

/-! ## The bindings of dependencies -/

/-- The bindings give what the dependencies need. -/
structure Serves (b : Bindings) (ds : Dependencies) : Prop where
  isSome_loads : ∀ path, (b.loads.lookup path).isSome = (ds.at? path).isSome
  isSome_moduleName? : ∀ path, (b.moduleName? path).isSome = true
    ↔ ∃ d, ds.at? path = some d ∧ d.isEmpty = false
  isSome_exportStar : ∀ path d, ds.at? path = some d → d.isEmpty = false →
    d.hasStarExport = true → b.helpers.exportStar.isSome = true
  isLoad : ∀ path d, ds.at? path = some d → b.IsLoad path d (b.load path)
  mem_replacements : ∀ name code, (name, code) ∈ b.replacements
    ↔ ∃ path d v, ds.at? path = some d ∧ b.moduleName? path = some v
      ∧ (name, code) ∈ replacementsOf v d
  isVariable : ∀ path v, b.moduleName? path = some v →
    ∃ n : Names, v = n.findFree (moduleBaseName path)

/-- The text is an expression on a variable: the variable or a property of it. -/
def IsOn (v code : Text) : Prop :=
  code = v ∨ ∃ member, code = v ++ '.' :: member

theorem exists_mem_replacementsOf {name : Text} (v : Text) (h : d.Binds name) :
    ∃ code, (name, code) ∈ replacementsOf v d := by
  simp only [replacementsOf, List.mem_reverse, List.mem_append, List.mem_map, Prod.mk.injEq]
  rcases h with h | h | ⟨imported, h⟩
  · exact ⟨_, .inl (.inl ⟨name, h, rfl, rfl⟩)⟩
  · exact ⟨_, .inl (.inr ⟨name, h, rfl, rfl⟩)⟩
  · exact ⟨_, .inr ⟨(imported, name), h, rfl, rfl⟩⟩

/-- The bindings that are made for dependencies give what these need. -/
theorem serves_addAll (hkeys : (ds.modules.map Prod.fst).Nodup) (hloads : b.loads = [])
    (hnames : b.moduleNames = []) (hreplacements : b.replacements = []) :
    (b.addAll names ds.modules).1.Serves ds := by
  obtain ⟨entries, hmodules, hmoduleNames, hall, hfree⟩ := b.exists_entries_addAll names ds.modules
  rw [hnames, List.nil_append] at hmoduleNames
  rw [hreplacements, List.append_nil] at hall
  have hentry : ∀ path d, (path, d) ∈ ds.modules ∧ d.isEmpty = false
      ↔ ∃ v, (path, d, v) ∈ entries := by
    intro path d
    have hfilter : (path, d) ∈ ds.modules ∧ d.isEmpty = false
        ↔ (path, d) ∈ ds.modules.filter fun m => !m.2.isEmpty := by simp
    rw [hfilter, ← hmodules, List.mem_map]
    constructor
    · rintro ⟨⟨path', d', v⟩, hmem, heq⟩
      cases heq
      exact ⟨v, hmem⟩
    · rintro ⟨v, hmem⟩
      exact ⟨_, hmem, rfl⟩
  have hpaths : ((entries.map fun e => (e.1, e.2.2)).map Prod.fst).Nodup := by
    have hsame : (entries.map fun e => (e.1, e.2.2)).map Prod.fst
        = (ds.modules.filter fun m => !m.2.isEmpty).map Prod.fst := by
      rw [← hmodules, List.map_map, List.map_map]
      rfl
    rw [hsame]
    exact hkeys.sublist (List.filter_sublist.map _)
  have hat : ∀ {path d}, ds.at? path = some d ↔ (path, d) ∈ ds.modules :=
    ⟨mem_of_lookup, lookup_of_mem hkeys⟩
  have hvariable : ∀ {path v}, (b.addAll names ds.modules).1.moduleName? path = some v
      ↔ ∃ d, (path, d, v) ∈ entries := by
    intro path v
    rw [moduleName?, hmoduleNames]
    constructor
    · intro h
      obtain ⟨⟨path, d, v⟩, hmem, heq⟩ := List.mem_map.mp (mem_of_lookup h)
      cases heq
      exact ⟨d, hmem⟩
    · rintro ⟨d, hmem⟩
      exact lookup_of_mem hpaths (List.mem_map.mpr ⟨_, hmem, rfl⟩)
  refine ⟨fun path => ?_, fun path => ?_, fun path d hd hempty hstar => ?_, fun path d hd => ?_,
    fun name code => ?_, fun path v hv => ?_⟩
  · rw [Bool.eq_iff_iff, Dependencies.at?, isSome_lookup_iff, isSome_lookup_iff, keys_loads_addAll,
      hloads]
    rfl
  · rw [Option.isSome_iff_exists]
    constructor
    · rintro ⟨v, hv⟩
      obtain ⟨d, hmem⟩ := hvariable.mp hv
      obtain ⟨hd, hempty⟩ := (hentry path d).mpr ⟨v, hmem⟩
      exact ⟨d, hat.mpr hd, hempty⟩
    · rintro ⟨d, hd, hempty⟩
      obtain ⟨v, hmem⟩ := (hentry path d).mp ⟨hat.mp hd, hempty⟩
      exact ⟨v, hvariable.mpr ⟨d, hmem⟩⟩
  · exact exportStar_addAll (.inr ⟨(path, d), hat.mp hd, hempty, hstar⟩)
  · refine (loadsAs_addAll ?_ ?_ (.inr (hat.mp hd))).isLoad
    · rw [hloads]
      exact hkeys
    · rw [hnames]
      exact List.nil_subset _
  · rw [hall, List.mem_flatMap]
    constructor
    · rintro ⟨⟨path, d, v⟩, hmem, hcode⟩
      rw [List.mem_reverse] at hmem
      exact ⟨path, d, v, hat.mpr ((hentry path d).mpr ⟨v, hmem⟩).1, hvariable.mpr ⟨d, hmem⟩, hcode⟩
    · rintro ⟨path, d, v, hd, hv, hcode⟩
      -- a path has one dependency and one variable
      obtain ⟨d', hmem⟩ := hvariable.mp hv
      obtain rfl : d = d' := by
        have hd' := hat.mpr ((hentry path d').mpr ⟨v, hmem⟩).1
        exact Option.some.inj (hd.symm.trans hd')
      exact ⟨(path, d, v), List.mem_reverse.mpr hmem, hcode⟩
  · obtain ⟨d, hmem⟩ := hvariable.mp hv
    exact hfree _ hmem

/-- Variables of modules begin with an underscore and have no dots. -/
theorem Serves.variable_eq {v : Text} (h : b.Serves ds) (hv : b.moduleName? path = some v) :
    (∃ cs, v = '_' :: cs) ∧ '.' ∉ v := by
  obtain ⟨n, rfl⟩ := h.isVariable path v hv
  obtain ⟨digits, hname, hdigits⟩ := n.exists_digits (moduleBaseName path)
  rw [hname]
  refine ⟨⟨_, rfl⟩, fun hmem => ?_⟩
  rcases List.mem_append.mp hmem with hmem | hmem
  · rcases List.mem_cons.mp hmem with hdot | hmem
    · cases hdot
    · exact absurd (List.mem_filter.mp hmem).2 (by decide +kernel)
  · exact absurd (hdigits _ hmem) (by decide)

/-- How an imported name is taken, and the expression that it has. -/
inductive Origin (b : Bindings) (ds : Dependencies) (name : Text) : Text → Prop
  | default {path v : Text} {d : Dependency} (hd : ds.at? path = some d)
      (hv : b.moduleName? path = some v) (hname : name ∈ d.defaultNames) :
      Origin b ds name (v ++ ".default".toList)
  | wildcard {path v : Text} {d : Dependency} (hd : ds.at? path = some d)
      (hv : b.moduleName? path = some v) (hname : name ∈ d.wildcardNames) : Origin b ds name v
  | named {path v imported : Text} {d : Dependency} (hd : ds.at? path = some d)
      (hv : b.moduleName? path = some v) (hname : (imported, name) ∈ d.named) :
      Origin b ds name (v ++ '.' :: imported)

theorem Serves.origin {name code : Text} (h : b.Serves ds) (hcode : b.replacement? name = some code)
    :
    b.Origin ds name code := by
  obtain ⟨path, d, v, hd, hv, hmem⟩ := (h.mem_replacements name code).mp (mem_of_lookup hcode)
  simp only [replacementsOf, List.mem_reverse, List.mem_append, List.mem_map, Prod.mk.injEq] at hmem
  rcases hmem with (⟨_, hn, rfl, rfl⟩ | ⟨_, hn, rfl, rfl⟩) | ⟨_, hn, rfl, rfl⟩
  · exact .default hd hv hn
  · exact .wildcard hd hv hn
  · exact .named hd hv hn

theorem flags_addAll :
    (b.addAll names modules).1.hasExport = b.hasExport
    ∧ (b.addAll names modules).1.hasDefaultExport = b.hasDefaultExport
    ∧ (b.addAll names modules).1.hasNamedExports = b.hasNamedExports := by
  induction modules generalizing b names with
  | nil => exact ⟨rfl, rfl, rfl⟩
  | cons entry modules ih =>
    obtain ⟨path, d⟩ := entry
    have hadd : (b.add names path d).1.hasExport = b.hasExport
        ∧ (b.add names path d).1.hasDefaultExport = b.hasDefaultExport
        ∧ (b.add names path d).1.hasNamedExports = b.hasNamedExports := by
      unfold add
      split <;> exact ⟨rfl, rfl, rfl⟩
    rw [addAll_cons, ← hadd.1, ← hadd.2.1, ← hadd.2.2]
    exact ih

end Bindings

/-! ## Fresh names -/

/-- The names are different from each other and were free when others were taken, and
now they are taken, too. -/
structure Fresh (used l : List Text) (names : Names) : Prop where
  nodup : l.Nodup
  free : ∀ name ∈ l, name ∉ used
  taken : ∀ name ∈ l, name ∈ names.used
  used : used ⊆ names.used

namespace Fresh

variable {used l l' : List Text} {names : Names} {h : Helpers}

theorem nil (names : Names) : Fresh names.used [] names :=
  ⟨List.nodup_nil, nofun, nofun, List.Subset.refl _⟩

theorem perm (hl : Fresh used l names) (hperm : l'.Perm l) : Fresh used l' names :=
  ⟨hperm.nodup_iff.mpr hl.nodup, fun name hname => hl.free name (hperm.mem_iff.mp hname),
    fun name hname => hl.taken name (hperm.mem_iff.mp hname), hl.used⟩

theorem claim (hl : Fresh used l names) (base : Text) :
    Fresh used ((names.claim base).1 :: l) (names.claim base).2 := by
  have hfree : (names.claim base).1 ∉ names.used := names.findFree_not_mem base
  refine ⟨List.nodup_cons.mpr ⟨fun hmem => hfree (hl.taken _ hmem), hl.nodup⟩, ?_, ?_, ?_⟩
  · intro name hname
    rcases List.mem_cons.mp hname with rfl | hname
    · exact fun hmem => hfree (hl.used hmem)
    · exact hl.free name hname
  · intro name hname
    exact List.mem_cons.mpr ((List.mem_cons.mp hname).imp_right (hl.taken name))
  · exact List.subset_cons_of_subset _ hl.used

theorem claimLoader (d : Dependency) (hl : Fresh used (h.names ++ l) names) :
    Fresh used ((Bindings.claimLoader h d names).2.1.names ++ l)
      (Bindings.claimLoader h d names).2.2 := by
  unfold Bindings.claimLoader Bindings.claimHelper
  split
  · cases hdefault : h.default with
    | some name => simpa [Helpers.names, hdefault] using hl
    | none =>
      refine (hl.claim _).perm ?_
      simp [Helpers.names, hdefault]
  · cases hwildcard : h.wildcard with
    | some name => simpa [Helpers.names, hwildcard] using hl
    | none =>
      refine (hl.claim _).perm ?_
      simp [Helpers.names, hwildcard]

theorem claimExportStar (d : Dependency) (hl : Fresh used (h.names ++ l) names) :
    Fresh used ((Bindings.claimExportStar h d names).1.names ++ l)
      (Bindings.claimExportStar h d names).2 := by
  unfold Bindings.claimExportStar Bindings.claimHelper
  split
  · cases hstar : h.exportStar with
    | some name => simpa [Helpers.names, hstar] using hl
    | none =>
      refine (hl.claim _).perm ?_
      simp only [Helpers.names, hstar, Option.toList_some, Option.toList_none, List.append_nil,
        List.append_assoc, List.singleton_append]
      rw [← List.append_assoc, ← List.append_assoc]
      exact List.perm_middle
  · exact hl

theorem add {b : Bindings} (path : Text) (d : Dependency)
    (hb : Fresh used (b.helpers.names ++ b.moduleNames.map Prod.snd) names) :
    Fresh used ((b.add names path d).1.helpers.names ++ (b.add names path d).1.moduleNames.map Prod.snd)
      (b.add names path d).2 := by
  unfold Bindings.add
  split
  · exact hb
  · -- first the variable is claimed, then the helper that loads, then the one for all names
    have hvariable : Fresh used (b.helpers.names
        ++ (names.claim (moduleBaseName path)).1 :: b.moduleNames.map Prod.snd) _ :=
      (hb.claim (moduleBaseName path)).perm List.perm_middle
    refine ((hvariable.claimLoader d).claimExportStar d).perm ?_
    simp only [Bindings.addUsed, List.map_append, List.map_cons, List.map_nil]
    exact (List.perm_append_singleton ..).append_left _

theorem addAll {b : Bindings} {modules : List (Text × Dependency)}
    (hb : Fresh used (b.helpers.names ++ b.moduleNames.map Prod.snd) names) :
    Fresh used ((b.addAll names modules).1.helpers.names
        ++ (b.addAll names modules).1.moduleNames.map Prod.snd) (b.addAll names modules).2 := by
  induction modules generalizing b names with
  | nil => exact hb
  | cons entry modules ih =>
    obtain ⟨path, d⟩ := entry
    rw [Bindings.addAll_cons]
    exact ih (hb.add path d)

end Fresh

/-! ## The bindings of a program -/

section

variable {source : Text} {tokens : List Token} {o : Options} {names names' : Names} {b : Bindings}
  {ds : Dependencies}

theorem Dependencies.exists_of_ofTokens (h : Dependencies.ofTokens source tokens o = .ok ds) :
    ∃ ds₀, Dependencies.scan source {} tokens = .ok ds₀
      ∧ ds = if o.has .typescript then ds₀.prune (usedNames source tokens o) else ds₀ := by
  unfold Dependencies.ofTokens at h
  split at h
  · cases h
  · rename_i ds₀ hscan
    exact ⟨ds₀, hscan, (Except.ok.inj h).symm⟩

theorem Dependencies.at?_prune (ds : Dependencies) (used : List Text) (path : Text) :
    (ds.prune used).at? path = (ds.at? path).map (·.prune used) := by
  unfold Dependencies.at? Dependencies.prune
  dsimp only
  induction ds.modules with
  | nil => rfl
  | cons entry modules ih =>
    rw [List.map_cons, List.lookup_cons, List.lookup_cons, ih]
    split <;> rfl

theorem Dependencies.nodup_of_ofTokens (h : Dependencies.ofTokens source tokens o = .ok ds) :
    (ds.modules.map Prod.fst).Nodup := by
  obtain ⟨ds₀, hscan, rfl⟩ := Dependencies.exists_of_ofTokens h
  have hempty : (({} : Dependencies).modules.map Prod.fst).Nodup := List.nodup_nil
  have hnodup := Dependencies.nodup_of_scan hempty hscan
  split
  · rw [Dependencies.prune, List.map_map]
    exact hnodup
  · exact hnodup

/-- The literal that a path is loaded with is one of the path. -/
theorem Dependencies.unquote_rawPath_of_ofTokens {path : Text} {d : Dependency}
    (h : Dependencies.ofTokens source tokens o = .ok ds) (hd : ds.at? path = some d) :
    unquote d.rawPath = path := by
  obtain ⟨ds₀, hscan, rfl⟩ := Dependencies.exists_of_ofTokens h
  have hquoted : ds₀.IsQuoted := by
    refine Dependencies.isQuoted_of_scan (fun entry hentry => ?_) hscan
    exact absurd hentry List.not_mem_nil
  split at hd
  · rw [Dependencies.at?_prune, Option.map_eq_some_iff] at hd
    obtain ⟨d₀, hd₀, rfl⟩ := hd
    exact hquoted _ (mem_of_lookup hd₀)
  · exact hquoted _ (mem_of_lookup hd)

/-- The bindings of a program give what its dependencies need, and know what it
exports. -/
theorem Bindings.exists_of_ofTokens (h : Bindings.ofTokens source tokens o names = .ok (b, names')) :
    ∃ ds, Dependencies.ofTokens source tokens o = .ok ds ∧ b.Serves ds
      ∧ b.hasDefaultExport = ds.hasDefaultExport ∧ b.hasNamedExports = ds.hasNamedExports
      ∧ Fresh names.used (b.helpers.names ++ b.moduleNames.map Prod.snd) names' := by
  unfold Bindings.ofTokens at h
  cases hds : Dependencies.ofTokens source tokens o with
  | error e => simp [hds, bind, Except.bind] at h
  | ok ds =>
    rw [hds] at h
    obtain ⟨hb, hnames⟩ := Prod.mk.inj (Except.ok.inj h)
    subst hb hnames
    exact ⟨ds, rfl, serves_addAll (Dependencies.nodup_of_ofTokens hds) rfl rfl rfl,
      flags_addAll.2.1, flags_addAll.2.2, (Fresh.nil names).addAll⟩

end

end Downlevel.Linkage
