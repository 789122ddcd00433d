import Downlevel.Proofs.Lower.Initializers
import Downlevel.Proofs.Lower.Load

/-!
# Which modules are loaded

A step of lowering writes the loading of a path only for the keyword of a module
declaration that it passes, and never takes a loading back.  `Claims plan p` says so for a
step `p`; it is put together from what the parts of the step do, so most of it is found by
instances.  A class is gone through twice, but both times up to the same brace.
-/

set_option synthInstance.maxSize 1000000000

namespace Downlevel

open Linkage

namespace Program

/-- A keyword of this kind outside of functions and types. -/
def IsKeywordAt (p : Program) (kind : Kind) (i : Nat) : Prop :=
  p.kindAt i = kind ∧ p.isTypeAt i = false ∧ (p.tokenAt i).depth = 0

/-- The first path after an index. -/
def IsFirstPath (p : Program) (i k : Nat) : Prop :=
  i < k ∧ p.isPathAt k = true ∧ ∀ n < k, i < n → p.isPathAt n = false

/-- Where the path of an export list is looked for. -/
def listPathAt (p : Program) (i : Nat) : Nat :=
  p.skipTypes (p.seek (i + 2) (fun j => p.kindAt j == .braceR) + 1) + 1

/-- The keyword at an index is lowered as an import. -/
def IsImportAt (p : Program) (i : Nat) : Prop :=
  p.IsKeywordAt .kwImport i ∧ p.kindAt (i + 1) ≠ .parenL ∧ p.kindAt (i + 1) ≠ .dot

/-- The keyword at an index is lowered as an export that goes on with this kind of token. -/
def IsExportAt (p : Program) (kind : Kind) (i : Nat) : Prop :=
  p.IsKeywordAt .kwExport i ∧ p.kindAt (p.skipTypes (i + 1)) = kind

/-- The keyword at an index is lowered as a declaration whose path is at another. -/
def Loads (p : Program) (i k : Nat) : Prop :=
  (p.IsImportAt i ∨ p.IsExportAt .star i) ∧ p.IsFirstPath i k
    ∨ p.IsExportAt .braceL i ∧ k = p.listPathAt i ∧ p.isNameAt (k - 1) "from".toList = true

/-- The keyword at an index is lowered as a declaration with a path. -/
def Asks (p : Program) (i : Nat) (path : Text) : Prop :=
  ∃ k, p.Loads i k ∧ unquote (p.textAt k) = path

/-- A context is closed by one brace at most. -/
class ClosesOnce (p : Program) : Prop where
  unique : ∀ {id e e' : Nat}, p.kindAt e = .braceR → (p.tokenAt e).context = some id →
    p.kindAt e' = .braceR → (p.tokenAt e').context = some id → e = e'

end Program

namespace Lower

variable {v : Work} {id : Nat}

/-- Everything that is loaded in the second work and not in the first is asked for by a
token that was passed on the way. -/
structure Loading (plan : Plan) (w w' : Work) : Prop where
  index_le : w.index ≤ w'.index
  grows : ∀ path ∈ w.loaded, path ∈ w'.loaded
  asked : ∀ path ∈ w'.loaded, path ∈ w.loaded ∨ ∃ i, w.index ≤ i ∧ i < w'.index
    ∧ plan.program.Asks i path

/-- A step that loads only what tokens ask for that it passes. -/
class Claims {α : Type} (plan : Plan) (p : Lower α) : Prop where
  ends : ∀ w, Ends plan p w (fun _ w' => Loading plan w w') fun _ => True

section

variable {plan : Plan} {w w' w'' : Work}

theorem Loading.of_loaded (hindex : w.index ≤ w'.index) (hloaded : w'.loaded = w.loaded) :
    Loading plan w w' := by
  refine ⟨hindex, fun path hpath => ?_, fun path hpath => ?_⟩
  · rwa [hloaded]
  · rw [hloaded] at hpath
    exact .inl hpath

theorem Loading.refl (w : Work) : Loading plan w w :=
  .of_loaded (Nat.le_refl _) rfl

theorem Loading.trans (h : Loading plan w w') (h' : Loading plan w' w'') : Loading plan w w'' := by
  refine ⟨Nat.le_trans h.index_le h'.index_le, fun path hpath => h'.grows path (h.grows path hpath),
    fun path hpath => ?_⟩
  rcases h'.asked path hpath with hpath | ⟨i, hi, hlt, hasks⟩
  · rcases h.asked path hpath with hpath | ⟨i, hi, hlt, hasks⟩
    · exact .inl hpath
    · exact .inr ⟨i, hi, Nat.lt_of_lt_of_le hlt h'.index_le, hasks⟩
  · exact .inr ⟨i, Nat.le_trans h.index_le hi, hlt, hasks⟩

/-- A path is loaded in between. -/
theorem Loading.claim {path : Text} (h : Loading plan w v)
    (h' : Loading plan (v.markLoaded path) w') (hlt : w.index < w'.index)
    (hasks : plan.program.Asks w.index path) :
    Loading plan w w' := by
  have hindex := h'.index_le
  rw [Work.index_markLoaded] at hindex
  refine ⟨Nat.le_of_lt hlt, fun path' hmem => ?_, fun path' hmem => ?_⟩
  · exact h'.grows path' (Work.mem_loaded_markLoaded.mpr (.inr (h.grows path' hmem)))
  · rcases h'.asked path' hmem with hmem | ⟨i, hi, hlt', hasks'⟩
    · rcases Work.mem_loaded_markLoaded.mp hmem with rfl | hmem
      · exact .inr ⟨w.index, Nat.le_refl _, hlt, hasks⟩
      · rcases h.asked path' hmem with hmem | ⟨i, hi, hlt', hasks'⟩
        · exact .inl hmem
        · exact .inr ⟨i, hi, Nat.lt_of_lt_of_le hlt' hindex, hasks'⟩
    · rw [Work.index_markLoaded] at hi
      exact .inr ⟨i, Nat.le_trans h.index_le hi, hlt', hasks'⟩

end

namespace Claims

section

variable {α β σ : Type} {plan : Plan} {p q : Lower α} {f : α → Lower β} {kind : Kind} {t : Text}
  {step : σ → Lower (ForInStep σ)}

/-! ## Looking and writing -/

instance (priority := low) [Looks p] : Claims plan p :=
  ⟨fun w => .of_looks fun _ => .refl w⟩

instance (priority := low) {p : Lower Unit} [Passes p] : Claims plan p :=
  ⟨fun _ => .of_passes (fun _ _ => .of_loaded (Nat.le_succ _) rfl) trivial⟩

instance : Claims plan (get : Lower Work) := ⟨fun w => .refl w⟩

instance : Claims plan (copyExpected kind) where
  ends w := by
    rw [ends_copyExpected]
    split
    · exact ends w
    · exact trivial

theorem of_still (h : ∀ w, Ends plan p w (fun _ w' => w'.index = w.index ∧ w'.loaded = w.loaded)
    fun _ => True) : Claims plan p where
  ends w := (h w).mono fun _ _ hsame => .of_loaded (Nat.le_of_eq hsame.1.symm) hsame.2

instance : Claims plan (append t) := of_still fun _ => ⟨rfl, rfl⟩
instance {offset : Nat} : Claims plan (edit (Edit.lineAt offset)) := of_still fun _ => ⟨rfl, rfl⟩
instance {base : String} : Claims plan (claim base) := of_still fun _ => ⟨rfl, rfl⟩
instance {code : Text} : Claims plan (hoist code) := of_still fun _ => ⟨rfl, rfl⟩

instance {e : Error} : Claims plan (throw e : Lower α) := ⟨fun _ => trivial⟩
instance {b : Breach} : Claims plan (breach b : Lower α) := ⟨fun _ => trivial⟩

instance {o : Option α} {b : Breach} : Claims plan (orBreach o b) := by
  cases o with
  | none => exact inferInstanceAs (Claims plan (breach b : Lower α))
  | some a => exact inferInstanceAs (Claims plan (pure a : Lower α))

/-! ## Putting steps together -/

instance bind [hp : Claims plan p] [hf : ∀ a, Claims plan (f a)] : Claims plan (p >>= f) where
  ends w := (hp.ends w).bind fun a w' h => ((hf a).ends w').mono fun _ _ h' => h.trans h'

theorem after [Claims plan p] (hf : ∀ a, Claims plan (f a)) : Claims plan (p >>= f) :=
  bind

theorem before (hp : Claims plan p) [∀ a, Claims plan (f a)] : Claims plan (p >>= f) :=
  bind

instance {P : Prop} [Decidable P] [hp : Claims plan p] [hq : Claims plan q] :
    Claims plan (if P then p else q) := by
  split
  · exact hp
  · exact hq

instance {h : α → β} [Claims plan p] : Claims plan (h <$> p) := by
  rw [map_eq_pure_bind]
  infer_instance

instance {h : β → Lower α} [∀ b, Claims plan (h b)] {l : List β} : Claims plan (l.mapM h) := by
  induction l with
  | nil => exact inferInstanceAs (Claims plan (pure []))
  | cons b l ih =>
    rw [List.mapM_cons]
    infer_instance

theorem rounds {s : σ} (hstep : ∀ s, Claims plan (step s)) : Claims plan (loop s step) where
  ends w := by
    refine Ends.loop_partial (fun _ v => Loading plan w v) trivial (fun s v hv => ?_) (.refl w)
    refine ((hstep s).ends v).mono fun r v' hv' => ?_
    cases r <;> exact hv.trans hv'

instance {s : σ} [hstep : ∀ s, Claims plan (step s)] : Claims plan (loop s step) :=
  rounds hstep

instance (priority := low) [h : Unfolds p q] [hclaims : Claims plan q] : Claims plan p := by
  rw [h.eq]
  exact hclaims

end

/-! ## Classes -/

section

variable {plan : Plan} {token : Lower Unit} {layout : ClassLayout}

instance : Claims plan computedNameEnd := by
  unfold computedNameEnd
  refine .before (.rounds fun (depth, stop) => .after fun t => ?_)
  split <;> infer_instance

instance : Claims plan memberAccess := by
  unfold memberAccess
  refine .after fun t => ?_
  split <;> infer_instance

instance : Claims plan constructorLayout := by
  unfold constructorLayout
  dsimp only
  refine .after fun _ => .after fun _ => .after fun p => .after fun open_ => .after fun close => ?_
  split <;> infer_instance

variable [Claims plan token]

instance : Claims plan (staticsName layout) := by
  unfold staticsName
  have hmodify : ∀ name, Claims plan
      (modify fun w : Work => { w with generated := w.generated ++ [name] } : Lower Unit) :=
    fun _ => of_still fun _ => ⟨rfl, rfl⟩
  infer_instance

end

end Claims

/-- At an index a class ends that starts at another. -/
def EndsClass (p : Program) (i e : Nat) : Prop :=
  ∃ id, (p.tokenAt i).context = some id ∧ p.kindAt e = .braceR ∧ (p.tokenAt e).context = some id

section

variable {plan : Plan} {token : Lower Unit} {layout : ClassLayout} {w : Work} [Claims plan token]

/-- Going through a class ends at its last brace. -/
theorem ends_scanClass_loading :
    Ends plan (scanClass token) w
      (fun _ w' => Loading plan w w' ∧ EndsClass plan.program w.index w'.index) fun _ => True := by
  unfold scanClass
  refine ((ends_classHead_body.and (Claims.ends w)).weaken (fun _ _ h => h) fun _ _ => trivial).bind
    fun head w₁ h₁ => ?_
  obtain ⟨⟨-, id, hbody⟩, hhead⟩ := h₁
  have hlt : w₁.index < plan.program.count :=
    Program.lt_count_of_kindAt hbody.kind_brace (by decide)
  rw [ends_bind, ends_cur, ends_bind, ends_orBreach, hbody.context_brace, Option.elim_some,
    ends_bind, ends_skip, if_pos hlt]
  refine Ends.loop_partial (fun _ v => Loading plan w v) trivial (fun l v hv => ?_) ?_
  · rw [ends_bind, ends_isInContext]
    refine Ends.ite (fun hend => ?_) fun _ => ?_
    · obtain ⟨hkind, hcontext⟩ := of_decide_eq_true hend
      exact ⟨hv, id, hbody.context, hkind, hcontext⟩
    · rw [ends_bind, ends_atEnd]
      refine Ends.ite (fun _ => trivial) fun _ => ?_
      rw [ends_bind]
      exact (Claims.ends v).mono fun _ _ hv' => hv.trans hv'
  · exact hhead.trans (.of_loaded (Nat.le_succ _) rfl)

theorem ends_classLayout_loading :
    Ends plan (classLayout token) w (fun _ w' => w'.index = w.index ∧ ∃ v, Loading plan w v
      ∧ w'.loaded = v.loaded ∧ EndsClass plan.program w.index v.index) fun _ => True := by
  refine ends_scanClass_loading.classLayout.mono fun l w' hl => ?_
  obtain ⟨v, ⟨hloading, hends⟩, rfl⟩ := hl
  exact ⟨rfl, v, hloading, rfl, hends⟩

theorem ends_classMembers_loading {initializers : Text} :
    Ends plan (classMembers token layout initializers id) w
      (fun _ w' => Loading plan w w' ∧ plan.program.kindAt w'.index = .braceR
        ∧ (plan.program.tokenAt w'.index).context = some id) fun _ => True := by
  unfold classMembers
  rw [ends_bind]
  refine Ends.loop_partial (fun _ v => Loading plan w v) trivial (fun fields v hv => ?_) (.refl w)
  rw [ends_bind, ends_isInContext]
  refine Ends.ite (fun hend => ?_) fun _ => ?_
  · exact ⟨hv, of_decide_eq_true hend⟩
  · rw [ends_bind, ends_atEnd]
    refine Ends.ite (fun _ => trivial) fun _ => ?_
    rw [ends_bind, ends_index]
    cases fields with
    | nil =>
      rw [ends_bind]
      exact (Claims.ends v).mono fun _ _ hv' => hv.trans hv'
    | cons field rest =>
      obtain ⟨start, stop⟩ := field
      refine Ends.ite (fun _ => ?_) fun _ => ?_
      · rw [ends_bind]
        refine (Claims.ends v).mono fun _ v₁ hv₁ => ?_
        rw [ends_bind]
        exact (Claims.ends v₁).mono fun _ _ hv₂ => (hv.trans hv₁).trans hv₂
      · rw [ends_bind]
        exact (Claims.ends v).mono fun _ _ hv' => hv.trans hv'

theorem ends_classBody_loading :
    Ends plan (classBody token layout id) w
      (fun _ w' => Loading plan w w' ∧ ∃ e < w'.index, plan.program.kindAt e = .braceR
        ∧ (plan.program.tokenAt e).context = some id) fun _ => True := by
  have hmembers : ∀ {initializers : Text} {u : Work}, Loading plan w u → Ends plan (do
      classMembers token layout initializers id
      copyExpected .braceR) u (fun _ w' => Loading plan w w' ∧ ∃ e < w'.index,
        plan.program.kindAt e = .braceR ∧ (plan.program.tokenAt e).context = some id)
      fun _ => True := by
    intro initializers u hu
    refine ends_classMembers_loading.bind fun _ v hv => ?_
    obtain ⟨hv, hend⟩ := hv
    rw [ends_copyExpected, if_pos hend.1, ends_copy]
    split
    · exact ⟨(hu.trans hv).trans (.of_loaded (Nat.le_succ _) rfl), v.index, Nat.lt_succ_self _, hend⟩
    · exact trivial
  unfold classBody
  rw [ends_bind]
  refine (Claims.ends w).mono fun _ w₁ h₁ => ?_
  dsimp only
  refine Ends.ite (fun _ => ?_) fun _ => hmembers h₁
  rw [ends_bind]
  refine (Claims.ends w₁).mono fun code w₂ h₂ => ?_
  rw [ends_bind]
  exact (Claims.ends w₂).mono fun _ w₃ h₃ => hmembers ((h₁.trans h₂).trans h₃)

/-- Both times a class is gone through up to the same brace, so what the first time loads
is passed at the end. -/
instance claims_classRule [hcloses : plan.program.ClosesOnce] : Claims plan (classRule token) where
  ends w := by
    unfold classRule
    refine ends_classLayout_loading.bind fun layout z hz => ?_
    obtain ⟨hindex, v, hv, hloaded, id, hid, hkind, hcontext⟩ := hz
    refine ((ends_staticsName_index.and (Claims.ends z)).weaken (fun _ _ h => h)
      fun _ _ => trivial).bind fun name z₁ h₁ => ?_
    obtain ⟨hindex₁, h₁⟩ := h₁
    rw [ends_bind, ends_cur, hindex₁, hindex, hid, ends_bind, ends_orBreach, Option.elim_some,
      ends_bind]
    refine (Claims.ends z₁).mono fun _ z₂ h₂ => ?_
    rw [ends_bind]
    refine (Claims.ends z₂).mono fun _ z₃ h₃ => ?_
    refine ends_classBody_loading.bind fun _ z₄ h₄ => ?_
    obtain ⟨h₄, e, he, hkind', hcontext'⟩ := h₄
    have hafter : Loading plan z z₄ := ((h₁.trans h₂).trans h₃).trans h₄
    have hpassed : v.index < z₄.index := by
      rwa [hcloses.unique hkind hcontext hkind' hcontext']
    have hclass : Loading plan w z₄ := by
      refine ⟨hindex ▸ hafter.index_le, fun path hpath => ?_, fun path hpath => ?_⟩
      · exact hafter.grows path (hloaded ▸ hv.grows path hpath)
      · rcases hafter.asked path hpath with hpath | ⟨i, hi, hlt, hasks⟩
        · rw [hloaded] at hpath
          rcases hv.asked path hpath with hpath | ⟨i, hi, hlt, hasks⟩
          · exact .inl hpath
          · exact .inr ⟨i, hi, Nat.lt_trans hlt hpassed, hasks⟩
        · exact .inr ⟨i, hindex ▸ hi, hlt, hasks⟩
    refine Ends.ite (fun _ => ?_) fun _ => hclass
    rw [ends_bind]
    refine (Claims.ends z₄).mono fun name z₅ h₅ => ?_
    exact (Claims.ends z₅).mono fun _ _ h₆ => (hclass.trans h₅).trans h₆

end

namespace Claims

/-! ## Brackets and types -/

section

variable {plan : Plan} {token : Lower Unit} {start : Nat}

instance balanced [Claims plan token] : Claims plan (balanced token) := by
  unfold Lower.balanced
  refine .before (.rounds fun (braces, parens) => .after fun isEnd => ?_)
  split
  · infer_instance
  · refine .after fun t => ?_
    split <;> infer_instance

variable [Claims plan token]

/-! ## Elements and component calls -/

instance : Claims plan (debugProperties start) := by
  unfold debugProperties
  refine .after fun plan' => ?_
  split <;> infer_instance

instance : Claims plan (properties token start) := by
  unfold properties
  refine .after fun debug => ?_
  cases debug <;> infer_instance

instance : Claims plan (nameComponent token start) := by
  unfold nameComponent
  refine .after fun p => .after fun plan' => ?_
  cases displayName? p plan'.options.filePath start with
  | none => infer_instance
  | some name =>
    refine .after fun i => ?_
    split <;> infer_instance

instance : Claims plan (componentRule token) := by
  unfold componentRule
  refine .after fun p => .after fun start => ?_
  split
  · split
    · refine .after fun code => ?_
      cases code <;> infer_instance
    · infer_instance
  · infer_instance

/-! ## Exports of this module -/

instance : Claims plan reference := by
  unfold reference
  refine .after fun t => ?_
  split
  · refine .after fun name => .after fun b => ?_
    split <;> infer_instance
  · infer_instance

instance : Claims plan (exportVariables token) := by
  unfold exportVariables
  refine .after fun p => .after fun start => .after fun t => ?_
  split <;> infer_instance

instance {name exported : Text} : Claims plan (specifierExport name exported) := by
  unfold specifierExport
  dsimp only
  refine .after fun b => ?_
  split
  · infer_instance
  · refine .after fun plan' => ?_
    split <;> infer_instance

variable [plan.program.ClosesOnce]

instance {defaultIndex : Nat} : Claims plan (exportDefault token defaultIndex) := by
  unfold exportDefault
  refine .after fun p => ?_
  dsimp only
  split <;> infer_instance

end

end Claims

/-! ## Declarations -/

section

variable {plan : Plan} {token : Lower Unit} {w : Work} {k : Nat} {path : Text} {missing : Breach}

/-- What comes before and after the loading of a path loads nothing else. -/
theorem ends_claimLoad_loading {α : Type} {f : Text → Lower α} [hf : ∀ t, Claims plan (f t)]
    (hv : Loading plan w v) (hlt : w.index < v.index) (hasks : plan.program.Asks w.index path) :
    Ends plan (claimLoad path >>= f) v (fun _ w' => Loading plan w w') fun _ => True := by
  cases hb : plan.bindings with
  | none =>
    unfold claimLoad bindings
    simp only [ends_bind, ends_read, hb, ends_orBreach, Option.elim_none]
  | some b =>
    rw [ends_bind, ends_claimLoad hb]
    refine ((hf _).ends _).mono fun _ w' hw' => ?_
    have hle := hw'.index_le
    rw [Work.index_markLoaded] at hle
    exact hv.claim hw' (Nat.lt_of_lt_of_le hlt hle) hasks

theorem ends_removeInitial_next :
    Ends plan removeInitial w (fun _ v => v.index = w.index + 1 ∧ v.loaded = w.loaded)
      fun _ => True := by
  rw [ends_removeInitial]
  split
  · exact ⟨rfl, rfl⟩
  · exact trivial

/-- The path is the first one, if there is none before. -/
theorem ends_removeToPath_first (hlt : w.index < v.index) (hloaded : v.loaded = w.loaded)
    (hfirst : ∀ n < v.index, w.index < n → plan.program.isPathAt n = false) :
    Ends plan (removeToPath missing) v (fun _ v' => v'.loaded = w.loaded
      ∧ plan.program.IsFirstPath w.index v'.index) fun _ => True := by
  unfold removeToPath repeatWhile
  refine Ends.loop_partial (fun _ x => w.index < x.index ∧ x.loaded = w.loaded
    ∧ ∀ n < x.index, w.index < n → plan.program.isPathAt n = false) trivial ?_ ⟨hlt, hloaded, hfirst⟩
  rintro _ x ⟨hlt, hloaded, hfirst⟩
  rw [ends_bind, ends_bind, ends_atModulePath, ends_pure]
  refine Ends.ite (fun hnot => ?_) fun hpath => ?_
  · rw [ends_bind, ends_bind, ends_atEnd]
    refine Ends.ite (fun _ => trivial) fun hnext => ?_
    have hcount : x.index < plan.program.count := by simpa using hnext
    rw [ends_remove, if_pos hcount]
    refine ⟨Nat.lt_succ_of_lt hlt, hloaded, fun n hn hwn => ?_⟩
    rcases Nat.lt_or_eq_of_le (Nat.lt_succ_iff.mp hn) with hn | rfl
    · exact hfirst n hn hwn
    · simpa using hnot
  · exact ⟨hloaded, hlt, by simpa using hpath, hfirst⟩

/-- A declaration whose path is the first one loads nothing else. -/
theorem ends_toPath_loading {α : Type} {f : Text → Text → Lower α}
    [∀ t load, Claims plan (f t load)]
    (hloads : ∀ k, plan.program.IsFirstPath w.index k → plan.program.Loads w.index k) :
    Ends plan (do
      removeInitial
      removeToPath missing
      let t ← curText
      let load ← claimLoad (unquote t)
      f t load) w (fun _ w' => Loading plan w w') fun _ => True := by
  refine ends_removeInitial_next.bind fun _ u hu => ?_
  obtain ⟨hindex, hloaded⟩ := hu
  refine (ends_removeToPath_first (w := w) (by omega) hloaded fun n hn hwn => by omega).bind
    fun _ v hv => ?_
  obtain ⟨hloaded, hpath⟩ := hv
  rw [ends_bind, ends_curText]
  exact ends_claimLoad_loading (.of_loaded (Nat.le_of_lt hpath.1) hloaded) hpath.1
    ⟨v.index, hloads v.index hpath, rfl⟩

theorem ends_exportAll_loading
    (hloads : ∀ k, plan.program.IsFirstPath w.index k → plan.program.Loads w.index k) :
    Ends plan exportAll w (fun _ w' => Loading plan w w') fun _ => True := by
  unfold exportAll
  rw [ends_bind, ends_program, ends_bind, ends_index]
  dsimp only
  rw [ends_bind, ends_orBreach]
  cases starName? plan.program (w.index + 1) with
  | none => trivial
  | some name => cases name <;> exact ends_toPath_loading hloads

theorem ends_exportList_loading
    (hlist : plan.program.IsExportAt .braceL w.index) :
    Ends plan exportList w (fun _ w' => Loading plan w w') fun _ => True := by
  unfold exportList
  rw [ends_bind, ends_program, ends_bind, ends_index]
  dsimp only
  refine Ends.ite (fun _ => trivial) fun _ => ?_
  refine Ends.ite (fun hfrom => ?_) fun _ => Claims.ends w
  unfold reexportNames
  rw [ends_bind, ends_program]
  dsimp only
  refine ends_removeInitial_next.bind fun _ u hu => ?_
  obtain ⟨hindex, hloaded⟩ := hu
  rw [ends_bind]
  refine (Claims.ends u).mono fun found v hv => ?_
  rw [ends_bind]
  refine (Claims.ends v).mono fun _ v' hv' => ?_
  have hfirst : Loading plan w u := .of_loaded (by omega) hloaded
  have hle := (hv.trans hv').index_le
  exact ends_claimLoad_loading (hfirst.trans (hv.trans hv')) (by omega)
    ⟨_, .inr ⟨hlist, rfl, hfrom⟩, rfl⟩

theorem claims_firstOf {l : List (Lower Bool)} (h : ∀ rule ∈ l, Claims plan rule) :
    Claims plan (firstOf l) := by
  induction l with
  | nil => exact inferInstanceAs (Claims plan copy)
  | cons rule l ih =>
    have hrule := h rule List.mem_cons_self
    have hrest := ih fun rule' hmem => h rule' (List.mem_cons_of_mem _ hmem)
    unfold firstOf
    infer_instance

variable [Claims plan token] [plan.program.ClosesOnce]

theorem ends_exportDeclaration_loading (hexport : plan.program.IsKeywordAt .kwExport w.index) :
    Ends plan (exportDeclaration token) w (fun _ w' => Loading plan w w') fun _ => True := by
  unfold exportDeclaration
  rw [ends_bind, ends_program, ends_bind, ends_index]
  dsimp only
  split
  case h_6 hlist => exact ends_exportList_loading ⟨hexport, hlist⟩
  case h_7 hall => exact ends_exportAll_loading fun k hpath => .inl ⟨.inr ⟨hexport, hall⟩, hpath⟩
  all_goals exact Claims.ends w

instance claims_moduleRule : Claims plan (moduleRule token) where
  ends w := by
    unfold moduleRule
    rw [ends_bind, ends_cur]
    refine Ends.ite (fun _ => .refl w) fun htype => ?_
    have hvalue : plan.program.isTypeAt w.index = false := Bool.eq_false_iff.mpr htype
    refine Ends.ite (fun hkeyword => ?_) fun _ => ?_
    · obtain ⟨hkind, hdepth⟩ := by simpa using hkeyword
      rw [ends_bind, ends_program, ends_bind, ends_index]
      dsimp only
      -- a call or a property of the keyword is left to the other rules
      refine Ends.ite (fun _ => .refl w) fun hafter => ?_
      have himport : plan.program.IsImportAt w.index :=
        ⟨⟨hkind, hvalue, hdepth⟩, by simpa using hafter⟩
      rw [ends_bind]
      unfold importDeclaration
      exact ends_toPath_loading fun k hpath => .inl ⟨.inl himport, hpath⟩
    · refine Ends.ite (fun hkeyword => ?_) fun _ => ?_
      · obtain ⟨hkind, hdepth⟩ := by simpa using hkeyword
        rw [ends_bind]
        exact ends_exportDeclaration_loading ⟨hkind, hvalue, hdepth⟩
      · exact Ends.ite (fun _ => Claims.ends w) fun _ => .refl w

/-! ## Tokens -/

instance claims_tokenStep : Claims plan (tokenStep token) := by
  unfold tokenStep
  refine .after fun t => ?_
  split
  · infer_instance
  · refine .after fun plan' => claims_firstOf fun rule hrule => ?_
    rcases mem_rules hrule with rfl | rfl | rfl | rfl | rfl | rfl | rfl | rfl <;> infer_instance

omit [Claims plan token] in
theorem claims_tokenWithin (depth : Nat) : Claims plan (tokenWithin depth) := by
  induction depth with
  | zero => exact inferInstanceAs (Claims plan (breach .noProgress : Lower Unit))
  | succ depth ih =>
    unfold tokenWithin
    infer_instance

omit [Claims plan token] in
/-- Lowering a token loads only what keywords ask for that it passes. -/
theorem loading_of_token {w' : Work} (h : Lower.token plan w = .ok () w') : Loading plan w w' := by
  have hclaims : Claims plan Lower.token := by
    unfold Lower.token
    exact .after fun plan' => claims_tokenWithin _
  exact (hclaims.ends w).of_ok h

end

end Lower

end Downlevel
