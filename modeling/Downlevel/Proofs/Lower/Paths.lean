import Downlevel.Proofs.Grammar.ModuleForm
import Downlevel.Proofs.Lower.Load

/-!
# Paths that are found twice

The path of a declaration is looked for twice: when the dependencies of the program are
collected, and when the declaration is lowered.  Both find the same path, unless an
exported name that is a string literal hides it from the first search.
-/

namespace Downlevel

open Linkage

variable {k : Nat} {w : Work}

namespace Program

variable {p : Program} {i j : Nat}

/-- The tokens between two indices. -/
def between (p : Program) (i k : Nat) : List Token :=
  (p.tokens.toList.drop (i + 1)).take (k - (i + 1))

theorem length_between (p : Program) (i : Nat) (hk : k ≤ p.count) :
    (p.between i k).length = k - (i + 1) := by
  rw [between, List.length_take, List.length_drop, Array.length_toList]
  apply Nat.min_eq_left
  change k - (i + 1) ≤ p.count - (i + 1)
  omega

theorem between_eq {us rest : List Token} {t path : Token}
    (h : p.tokens.toList.drop i = t :: (us ++ path :: rest)) (hk : k = i + 1 + us.length) :
    p.between i k = us := by
  rw [between, (tokenAt_of_drop h).2.2, hk, Nat.add_sub_cancel_left, List.take_left]

end Program

/-- With imports lowered, the plan has the bindings of the program. -/
theorem exists_bindings_of_prepare {source : Text} {tokens : Array Token} {o : Options}
    {plan : Plan} (h : Plan.prepare source tokens o = .ok (plan, w))
    (himports : o.has .imports = true) :
    ∃ b names, plan.bindings = some b
      ∧ Bindings.ofTokens source tokens.toList o (Names.ofTokens source tokens.toList)
        = .ok (b, names) := by
  unfold Plan.prepare at h
  dsimp only at h
  rw [if_pos himports] at h
  cases hbindings : Bindings.ofTokens source tokens.toList o
      (Names.ofTokens source tokens.toList) with
  | error e =>
    rw [hbindings] at h
    cases h
  | ok found =>
    rw [hbindings] at h
    obtain ⟨rfl, rfl⟩ := Prod.mk.inj (Except.ok.inj h)
    exact ⟨found.1, found.2, rfl, rfl⟩

namespace Lower

section

variable {source : Text} {o : Options} {tokens : Array Token} {plan : Plan} {start : Work}
  {c : Grammar.Setting} {b : Bindings} {ds : Dependencies} {names : Names} {i j : Nat} {p : Program}

/-- The path of a declaration, as it is found when the declaration is lowered. -/
structure PathStands (p : Program) (i j k : Nat) : Prop where
  lt : i < k
  lt_stop : k < j
  lt_count : k < p.count
  isPathAt : p.isPathAt k = true
  before : ∀ m, i < m → m < k → p.isPathAt m = false
  semi : ∀ m, k < m → m < j → p.kindAt m = .semi

theorem PathStands.eq {k m : Nat} (h : PathStands p i j k) (hi : i < m) (hj : m < j)
    (hm : p.isPathAt m = true) : m = k := by
  rcases Nat.lt_trichotomy m k with hlt | heq | hlt
  · rw [h.before m hi hlt] at hm
    cases hm
  · exact heq
  · simp [Program.isPathAt, h.semi m hlt hj] at hm

theorem pathStands_of_drop {t path : Token} {us rest after : List Token}
    (hdrop : p.tokens.toList.drop i = t :: (us ++ path :: (rest ++ after)))
    (hj : j = i + 1 + us.length + 1 + rest.length) (hus : Pathless p.source t us)
    (hlast : (us.getLast?.getD t).kind = .kwImport
      ∨ (us.getLast?.getD t).kind = .name ∧ (us.getLast?.getD t).text p.source = "from".toList)
    (htail : Grammar.IsTail p.source path rest) : PathStands p i j (i + 1 + us.length) := by
  obtain ⟨-, -, hdrop₁⟩ := Program.tokenAt_of_drop hdrop
  obtain ⟨hpath, hlt, hdrop₂⟩ := Program.tokenAt_append hdrop₁
  have hbefore := Program.tokenAt_getLast hdrop
  have hindex : i + 1 + us.length = i + us.length + 1 := by omega
  have hpathAfter : IsPathAfter p.source (p.tokenAt (i + us.length))
      (p.tokenAt (i + us.length + 1)) := by
    rw [hbefore, ← hindex, hpath]
    exact ⟨htail.path.kind, htail.path.isType, hlast⟩
  refine ⟨by omega, by omega, hlt, ?_, fun m hi hm => ?_, fun m hm hj' => ?_⟩
  · rw [hindex, Program.isPathAt_succ]
    exact hpathAfter
  · exact Program.isPathAt_of_pathless hdrop hus hi (by omega)
  · exact htail.semi _ (Program.tokenAt_mem hdrop₂ hm (by omega))

theorem not_startsExpression {us : List Token} {path : Token} (rest : List Token)
    (h : ImportForm source us) (hpath : path.kind = .string) : startsExpression (us ++ path :: rest).head? = false := by
  rcases h.cases_from with rfl | ⟨first, mid, word, rfl, -, hgo, -⟩
  · simp [startsExpression, hpath]
  · have hkind : first.kind ≠ .parenL ∧ first.kind ≠ .dot := by
      constructor <;> intro hkind <;> rw [hkind] at hgo <;> cases hgo
    simp [startsExpression, hkind]

/-- What a program needs of a path is what was collected, without what it does not use. -/
theorem exists_at?_of_ofTokens {ds₀ : Dependencies} {path : Text} {d : Dependency}
    (hds : ds = if o.has .typescript then ds₀.prune (Dependencies.usedNames source tokens.toList o)
      else ds₀) (hd : ds₀.at? path = some d) :
    ∃ d', ds.at? path = some d' ∧ d'.hasReexport = d.hasReexport
      ∧ d'.hasStarExport = d.hasStarExport
      ∧ ∀ name, d.Binds name → (o.has .typescript = true →
        name ∈ Dependencies.usedNames source tokens.toList o) → d'.Binds name := by
  rw [hds]
  by_cases htypescript : o.has .typescript = true
  · rw [if_pos htypescript, Dependencies.at?_prune, hd]
    exact ⟨_, rfl, rfl, rfl, fun name hname hused =>
      Dependency.binds_prune.mpr ⟨hname, hused htypescript⟩⟩
  · rw [if_neg htypescript]
    exact ⟨d, hd, rfl, rfl, fun name hname _ => hname⟩

/-! ## Imports -/

/-- An import from `i` up to `j` with its path at `k`. -/
structure ImportForms (p : Program) (i j k : Nat) : Prop extends PathStands p i j k where
  kind : p.kindAt i = .kwImport
  next : p.kindAt (i + 1) ≠ .parenL ∧ p.kindAt (i + 1) ≠ .dot
  form : ImportForm p.source (p.between i k)
  string : p.kindAt k = .string
  value : p.isTypeAt k = false
  drop_eq : ∃ rest, p.tokens.toList.drop (i + 1) = p.between i k ++ p.tokenAt k :: rest

/-- Every import has a path. -/
theorem importForms_of_stands (hc : c.source = source) (h : Grammar.ImportStands c tokens i j)
    (hvalue : Program.isTypeAt { source, tokens } i = false) :
    ∃ k, ImportForms { source, tokens } i j k := by
  generalize hp : ({ source, tokens } : Program) = p at hvalue ⊢
  obtain rfl : p.tokens = tokens := by rw [← hp]
  obtain rfl : p.source = source := by rw [← hp]
  obtain ⟨t, us, path, rest, hdrop, hj, hkind, hform, htail⟩ := h.form fun t ht => by
    rw [Program.isTypeAt, Program.tokenAt, ht, Option.getD_some] at hvalue
    exact hvalue
  rw [hc] at hform htail
  obtain ⟨ht, -, hdrop₁⟩ := Program.tokenAt_of_drop hdrop
  obtain ⟨hpath, -, -⟩ := Program.tokenAt_append hdrop₁
  have hstands := pathStands_of_drop hdrop hj (hform.pathless hkind).1 (hform.pathless hkind).2 htail
  have hnext : p.kindAt (i + 1) ≠ .parenL ∧ p.kindAt (i + 1) ≠ .dot := by
    have hexpression := not_startsExpression (rest ++ p.tokens.toList.drop j) hform htail.path.kind
    cases hhead : us ++ path :: (rest ++ p.tokens.toList.drop j) with
    | nil => simp at hhead
    | cons first after =>
      rw [hhead] at hdrop₁ hexpression
      rw [Program.kindAt, (Program.tokenAt_of_drop hdrop₁).1]
      simpa [startsExpression] using hexpression
  refine ⟨i + 1 + us.length, hstands, by rw [Program.kindAt, ht, hkind], hnext, ?_, ?_, ?_, ?_⟩
  · rw [Program.between_eq hdrop rfl]
    exact hform
  · rw [Program.kindAt, hpath, htail.path.kind]
  · rw [Program.isTypeAt, hpath, htail.path.isType]
  · rw [Program.between_eq hdrop rfl, hpath]
    exact ⟨_, hdrop₁⟩

/-- The keyword and the path of an import are not one token apart. -/
theorem ImportForms.ne_add_two (h : ImportForms p i j k) : k ≠ i + 2 := by
  have hlength := p.length_between i (Nat.le_of_lt h.lt_count)
  rcases h.form.cases_from with hnil | ⟨first, mid, word, heq, -⟩
  · rw [hnil, List.length_nil] at hlength
    omega
  · simp only [heq, List.length_cons, List.length_append] at hlength
    omega

/-- An import from `i` up to `j` with its path at `k`, and what was collected of it. -/
structure ImportFound (p : Program) (ds : Dependencies) (i j k : Nat) (im : Import)
    (d : Dependency) : Prop extends ImportForms p i j k where
  found : importOf p.source (statementTokens true none 0 (p.tokens.toList.drop (i + 1))) = .ok im
  rawPath : im.rawPath = p.textAt k
  entry : ds.at? (unquote (p.textAt k)) = some d
  binds : EachLocal p.source (p.between i k) d.Binds

/-- When dependencies are collected, the path of every import is found and all names that
it binds. -/
theorem exists_importFound (hscan : Dependencies.scan source {} tokens.toList = .ok ds)
    (hc : c.source = source) (h : Grammar.ImportStands c tokens i j)
    (hvalue : Program.isTypeAt { source, tokens } i = false)
    (hdepth : (Program.tokenAt { source, tokens } i).depth = 0) :
    ∃ k im d, ImportFound { source, tokens } ds i j k im d := by
  obtain ⟨k, hforms⟩ := importForms_of_stands hc h hvalue
  generalize hp : ({ source, tokens } : Program) = p at hvalue hdepth hforms ⊢
  obtain rfl : p.tokens = tokens := by rw [← hp]
  obtain rfl : p.source = source := by rw [← hp]
  obtain ⟨rest, hdrop⟩ := hforms.drop_eq
  have hlt : i < p.count := Nat.lt_trans hforms.lt hforms.lt_count
  obtain ⟨ds₁, hscan'⟩ := Dependencies.exists_scan_drop hscan i
  rw [Program.drop_eq_cons hlt, hdrop] at hscan'
  obtain ⟨im, him, d, hd, hbinds⟩ := Dependencies.exists_of_scan_import hforms.kind hvalue hdepth
    (not_startsExpression rest hforms.form hforms.string) hscan'
  obtain ⟨hraw, hlocal⟩ := importOf_of_form hforms.form hforms.value hforms.string him
  refine ⟨k, im, d, hforms, ?_, hraw, ?_, hlocal.mono hbinds⟩
  · rw [hdrop]
    exact him
  · rw [Program.textAt, ← hraw]
    exact hd

/-! ## Exports from other modules -/

/-- An export from `i` up to `j` with the path of another module at `k`. -/
structure ExportForms (p : Program) (i j k : Nat) : Prop extends PathStands p i j k where
  kind : p.kindAt i = .kwExport
  form : ExportForm p.source (p.between i k)
  string : p.kindAt k = .string
  value : p.isTypeAt k = false
  drop_eq : ∃ rest, p.tokens.toList.drop (i + 1) = p.between i k ++ p.tokenAt k :: rest

theorem exportForms_of_stands (hc : c.source = source) (h : Grammar.ExportStands c tokens i j)
    (hvalue : Program.isTypeAt { source, tokens } i = false)
    (hfirst : Program.kindAt { source, tokens } (i + 1) = .star
      ∨ Program.kindAt { source, tokens } (i + 1) = .braceL) (hik : i < k) (hkj : k < j)
    (hpath : Program.isPathAt { source, tokens } k = true) :
    ExportForms { source, tokens } i j k := by
  generalize hp : ({ source, tokens } : Program) = p at hvalue hfirst hpath ⊢
  obtain rfl : p.tokens = tokens := by rw [← hp]
  obtain rfl : p.source = source := by rw [← hp]
  have hlt : i + 1 < p.count := by
    rcases hfirst with hkind | hkind
    · exact Program.lt_count_of_kindAt hkind (by decide)
    · exact Program.lt_count_of_kindAt hkind (by decide)
  have hget : ∀ t, p.tokens[i]? = some t → t.isType = false := by
    intro t ht
    rw [Program.isTypeAt, Program.tokenAt, ht, Option.getD_some] at hvalue
    exact hvalue
  obtain ⟨t, hkind, ⟨items, opening, closing, rest, hdrop, hj, hitems, hopening, hclosing, hsemi⟩
    | ⟨us, path, rest, hdrop, hj, hform, htail⟩⟩ :=
    h.form hget (by omega) (Program.tokenAt_of_lt hlt) hfirst
  · -- a list of names of this module has no path
    rw [hc] at hitems hopening hclosing
    have hnone : Pathless p.source t (opening :: (items ++ closing :: rest)) :=
      hitems.pathless_list hopening hclosing fun u hu => by simp [hsemi u hu]
    have hdrop' : p.tokens.toList.drop i
        = t :: ((opening :: (items ++ closing :: rest)) ++ p.tokens.toList.drop j) := by
      simpa using hdrop
    have hfalse := Program.isPathAt_of_pathless hdrop' hnone hik (by simp; omega)
    rw [hpath] at hfalse
    cases hfalse
  · rw [hc] at hform htail
    obtain ⟨ht, -, hdrop₁⟩ := Program.tokenAt_of_drop hdrop
    obtain ⟨htoken, -, -⟩ := Program.tokenAt_append hdrop₁
    have hpathless := hform.pathless (t := t)
    have hstands := pathStands_of_drop hdrop hj hpathless.1 (.inr hpathless.2) htail
    obtain rfl := hstands.eq hik hkj hpath
    refine ⟨hstands, by rw [Program.kindAt, ht, hkind], ?_, ?_, ?_, ?_⟩
    · rw [Program.between_eq hdrop rfl]
      exact hform
    · rw [Program.kindAt, htoken, htail.path.kind]
    · rw [Program.isTypeAt, htoken, htail.path.isType]
    · rw [Program.between_eq hdrop rfl, htoken]
      exact ⟨_, hdrop₁⟩

/-- Is the export at an index one of all names, under no name of its own? -/
def isPlainStar (p : Program) (i : Nat) : Bool :=
  p.kindAt (i + 1) == .star && !p.isNameAt (i + 2) "as".toList

/-- The tokens behind an export keyword. -/
theorem ExportForms.cases (h : ExportForms p i j k) :
    (p.kindAt (i + 1) = .star ∧ p.isTypeAt (i + 1) = false
        ∧ isPlainStar p i = (startsWithKind .star (p.between i k)
          && !startsWith p.source "as" ((p.between i k).drop 1)))
      ∨ (p.kindAt (i + 1) = .braceL ∧ p.isTypeAt (i + 1) = false
        ∧ isPlainStar p i = (startsWithKind .star (p.between i k)
          && !startsWith p.source "as" ((p.between i k).drop 1))
        ∧ ∃ items opening closing word rest, p.tokens.toList.drop (i + 1)
            = opening :: (items ++ closing :: word :: p.tokenAt k :: rest)
          ∧ opening.kind = .braceL ∧ closing.kind = .braceR
          ∧ Separated p.source (ExportItem p.source) items ∧ IsWord p.source "from" word
          ∧ k = i + 1 + items.length + 3) := by
  obtain ⟨rest, hdrop⟩ := h.drop_eq
  have hform := h.form
  have hlength := p.length_between i (Nat.le_of_lt h.lt_count)
  have hlt := h.lt
  generalize p.between i k = us at hform hdrop hlength ⊢
  cases hform with
  | all hstar hword =>
    obtain ⟨ht, -, hdrop₁⟩ := Program.tokenAt_of_drop hdrop
    obtain ⟨ht₁, -, -⟩ := Program.tokenAt_of_drop hdrop₁
    refine .inl ⟨by rw [Program.kindAt, ht, hstar.kind], by rw [Program.isTypeAt, ht, hstar.isType],
      ?_⟩
    simp [isPlainStar, Program.isNameAt, Program.kindAt, Program.textAt, startsWithKind, startsWith,
      ht, ht₁, hstar.kind, hword.text]
  | allAs hstar has hname _ hword =>
    obtain ⟨ht, -, hdrop₁⟩ := Program.tokenAt_of_drop hdrop
    obtain ⟨ht₁, -, -⟩ := Program.tokenAt_of_drop hdrop₁
    refine .inl ⟨by rw [Program.kindAt, ht, hstar.kind], by rw [Program.isTypeAt, ht, hstar.isType],
      ?_⟩
    simp [isPlainStar, Program.isNameAt, Program.kindAt, Program.textAt, startsWithKind, startsWith,
      ht, ht₁, hstar.kind, has.kind, has.text]
  | @list items opening closing word hopening hitems hclosing hword =>
    obtain ⟨ht, -, -⟩ := Program.tokenAt_of_drop hdrop
    refine .inr ⟨by rw [Program.kindAt, ht, hopening.kind],
      by rw [Program.isTypeAt, ht, hopening.isType], ?_, items, opening, closing, word, rest,
      by simpa using hdrop, hopening.kind, hclosing.kind, hitems, hword, ?_⟩
    · simp [isPlainStar, Program.kindAt, startsWithKind, ht, hopening.kind]
    · simp only [List.length_cons, List.length_append, List.length_nil] at hlength
      omega

/-- A name that is no string literal can be decoded. -/
theorem ExportForms.starName?_ne_none (h : ExportForms p i j k)
    (hhides : ¬HidesPath (p.between i k)) (hstar : p.kindAt (i + 1) = .star) :
    starName? p (i + 1) ≠ none := by
  obtain ⟨rest, hdrop⟩ := h.drop_eq
  have hform := h.form
  unfold starName?
  split
  case isFalse => simp
  rename_i has
  generalize p.between i k = us at hform hdrop hhides
  cases hform with
  | all hstar hword =>
    obtain ⟨-, -, hdrop₁⟩ := Program.tokenAt_of_drop hdrop
    obtain ⟨ht₁, -, -⟩ := Program.tokenAt_of_drop hdrop₁
    simp [Program.isNameAt, Program.textAt, ht₁, hword.text] at has
  | @allAs star as name word hmark hword hvalue hdecode hfrom =>
    obtain ⟨-, -, hdrop₁⟩ := Program.tokenAt_of_drop hdrop
    obtain ⟨-, -, hdrop₂⟩ := Program.tokenAt_of_drop hdrop₁
    obtain ⟨ht₂, -, -⟩ := Program.tokenAt_of_drop hdrop₂
    have hstring : name.kind ≠ .string := fun hkind =>
      hhides (.inr (.inl ⟨hvalue, .inr ⟨hkind, hword.kind⟩⟩))
    obtain ⟨t, ht⟩ := Option.isSome_iff_exists.mp (hdecode hstring)
    simp [Program.nameAt?, Program.textAt, ht₂, ht]
  | list hopening =>
    obtain ⟨ht, -, -⟩ := Program.tokenAt_of_drop hdrop
    rw [Program.kindAt, ht, hopening.kind] at hstar
    cases hstar

/-- An export list of another module becomes the loading of the module and a getter for each of
its names. -/
theorem ends_token_of_list (hb : plan.bindings = some b)
    (himports : plan.options.has .imports = true) (h : ExportForms plan.program i j k)
    (hbrace : plan.program.kindAt (i + 1) = .braceL) (hvalue : plan.program.isTypeAt i = false)
    (hdepth : (plan.program.tokenAt i).depth = 0) :
    ∃ names, Specifies plan.program.source (plan.program.between (i + 1) (k - 2)) names
      ∧ ∀ {w : Work} {E : Error → Prop}, w.index = i →
        (b.moduleName? (unquote (plan.program.textAt k)) = none →
          E (.invariant (.moduleName (unquote (plan.program.textAt k))))) →
        Ends plan token w (fun _ w' => ∃ v, b.moduleName? (unquote (plan.program.textAt k)) = some v
          ∧ w' = w.loadAt plan.program b k (names.map fun n => getterCode v n.1 n.2).flatten) E := by
  rcases h.cases with ⟨hstar, -⟩ | ⟨-, htype, -, items, opening, closing, word, rest, hdrop, hopening,
    hclosing, hitems, hword, hk⟩
  · rw [hbrace] at hstar
    cases hstar
  obtain ⟨names, hnames⟩ := exists_specifies hitems
  refine ⟨names, by rwa [Program.between_eq hdrop (by omega)], ?_⟩
  rintro w E rfl hnone
  refine ends_token_of_export himports h.kind hvalue hdepth ?_
  unfold exportDeclaration
  rw [ends_bind, ends_program, ends_bind, ends_index]
  dsimp only
  rw [Program.skipTypes_eq_self htype, hbrace]
  exact ends_exportList hb hdrop hopening hclosing hitems hnames hword hk hnone

/-- An export from another module is lowered to the loading of the module and to what
it exports. -/
theorem ends_token_of_exportForms {E : Error → Prop} (hb : plan.bindings = some b)
    (himports : plan.options.has .imports = true) (h : ExportForms plan.program i j k)
    (hvalue : plan.program.isTypeAt i = false) (hdepth : (plan.program.tokenAt i).depth = 0)
    (hw : w.index = i)
    (hfails : ExportFails b (unquote (plan.program.textAt k)) (isPlainStar plan.program i = true)
      (plan.program.kindAt (i + 1) = .star ∧ starName? plan.program (i + 1) = none) E) :
    Ends plan token w (fun _ w' => ∃ v, b.moduleName? (unquote (plan.program.textAt k)) = some v
      ∧ ExportsTo plan w b k v w') E := by
  rcases h.cases with ⟨hkind, htype, -⟩ | ⟨hkind, -⟩
  · subst hw
    refine ends_token_of_export himports h.kind hvalue hdepth ?_
    unfold exportDeclaration
    rw [ends_bind, ends_program, ends_bind, ends_index]
    dsimp only
    rw [Program.skipTypes_eq_self htype, hkind]
    refine ends_exportAll hb h.lt h.lt_count h.isPathAt h.before
      ⟨hfails.noVariable, fun has => ?_, fun hnone => hfails.noName ⟨hkind, hnone⟩⟩
    apply hfails.noHelper
    rw [isPlainStar, hkind, has]
    rfl
  · obtain ⟨names, -, hlist⟩ := ends_token_of_list hb himports h hkind hvalue hdepth
    exact (hlist hw hfails.noVariable).mono fun _ w' ⟨v, hv, hw'⟩ => ⟨v, hv, _, .names names, hw'⟩

theorem token_of_exportForms {v : Text} (hb : plan.bindings = some b)
    (himports : plan.options.has .imports = true) (h : ExportForms plan.program i j k)
    (hvalue : plan.program.isTypeAt i = false) (hdepth : (plan.program.tokenAt i).depth = 0)
    (hv : b.moduleName? (unquote (plan.program.textAt k)) = some v)
    (hstar : isPlainStar plan.program i = true → b.helpers.exportStar.isSome = true)
    (hhides : ¬HidesPath (plan.program.between i k)) (hw : w.index = i) :
    ∃ w', token plan w = .ok () w' ∧ ExportsTo plan w b k v w' := by
  have hfails : ExportFails b (unquote (plan.program.textAt k)) (isPlainStar plan.program i = true)
      (plan.program.kindAt (i + 1) = .star ∧ starName? plan.program (i + 1) = none)
      fun _ => False := by
    refine ⟨fun hnone => ?_, fun hplain hnone => ?_, fun ⟨hkind, hnone⟩ => ?_⟩
    · rw [hnone] at hv
      cases hv
    · have hsome := hstar hplain
      rw [hnone] at hsome
      cases hsome
    · exact h.starName?_ne_none hhides hkind hnone
  obtain ⟨_, w', hrun, v', hv', hexports⟩ :=
    exists_ok_of_ends (ends_token_of_exportForms hb himports h hvalue hdepth hw hfails)
  obtain rfl := Option.some.inj (hv.symm.trans hv')
  exact ⟨w', hrun, hexports⟩

/-- What was collected of an export from another module whose path is not hidden. -/
theorem exists_exportFound (hscan : Dependencies.scan source {} tokens.toList = .ok ds)
    (h : ExportForms { source, tokens } i j k)
    (hvalue : Program.isTypeAt { source, tokens } i = false)
    (hdepth : (Program.tokenAt { source, tokens } i).depth = 0)
    (hhides : ¬HidesPath (Program.between { source, tokens } i k)) :
    (exportOf source (statementTokens false none 0 (tokens.toList.drop (i + 1)))).reexport
        = some (Program.textAt { source, tokens } k)
      ∧ ∃ d, ds.at? (unquote (Program.textAt { source, tokens } k)) = some d ∧ d.hasReexport = true
        ∧ (isPlainStar { source, tokens } i = true → d.hasStarExport = true) := by
  generalize hp : ({ source, tokens } : Program) = p at h hvalue hdepth hhides ⊢
  obtain rfl : p.tokens = tokens := by rw [← hp]
  obtain rfl : p.source = source := by rw [← hp]
  obtain ⟨rest, hdrop⟩ := h.drop_eq
  have hlt : i < p.count := Nat.lt_trans h.lt h.lt_count
  obtain ⟨hreexport, hstar⟩ := exportOf_of_form rest h.form h.value h.string hhides
  rw [← hdrop] at hreexport hstar
  obtain ⟨ds₁, hscan'⟩ := Dependencies.exists_scan_drop hscan i
  rw [Program.drop_eq_cons hlt] at hscan'
  obtain ⟨d, hd, hpasses, hall⟩ :=
    Dependencies.exists_of_scan_export h.kind hvalue hdepth hreexport hscan'
  refine ⟨hreexport, d, hd, hpasses, fun hplain => hall ?_⟩
  rw [hstar]
  rcases h.cases with ⟨-, -, hsame⟩ | ⟨-, -, hsame, -⟩
  · rw [← hsame, hplain]
  · rw [← hsame, hplain]

end

/-- **Both searches for a path agree.**  Take a program with imports lowered and a
declaration at its top level that is not one of types, read as the tokens from `i` up to
`j`.  Every import has one path, which was collected and can be loaded, and lowering it
loads the path.  An export from another module has one path, too.  Unless a name in
front of it is a string literal behind `as`, or a semicolon, it was collected, has a
variable and, for an export of all names, the helper, and lowering the export loads it.
If there is such a name, no path was collected. -/
theorem paths_agree {source : Text} {o : Options} {tokens : Array Token} {plan : Plan}
    {start : Work} {c : Grammar.Setting} {i j : Nat}
    (hprepare : Plan.prepare source tokens o = .ok (plan, start))
    (himports : o.has .imports = true) (hc : c.source = source)
    (hvalue : plan.program.isTypeAt i = false) (hdepth : (plan.program.tokenAt i).depth = 0) :
    ∃ b, plan.bindings = some b
      ∧ (Grammar.ImportStands c tokens i j → ∃ k, PathStands plan.program i j k
        ∧ (∃ im, importOf source (statementTokens true none 0 (tokens.toList.drop (i + 1))) = .ok im
          ∧ im.rawPath = plan.program.textAt k)
        ∧ (b.loads.lookup (unquote (plan.program.textAt k))).isSome = true
        ∧ ∀ w : Work, w.index = i → token plan w = .ok () (w.loadAt plan.program b k []))
      ∧ (Grammar.ExportStands c tokens i j →
        plan.program.kindAt (i + 1) = .star ∨ plan.program.kindAt (i + 1) = .braceL →
        ∀ k, i < k → k < j → plan.program.isPathAt k = true → PathStands plan.program i j k
        ∧ (¬HidesPath (plan.program.between i k) →
          (exportOf source (statementTokens false none 0 (tokens.toList.drop (i + 1)))).reexport
            = some (plan.program.textAt k)
          ∧ (b.loads.lookup (unquote (plan.program.textAt k))).isSome = true
          ∧ (isPlainStar plan.program i = true → b.helpers.exportStar.isSome = true)
          ∧ ∃ v, b.moduleName? (unquote (plan.program.textAt k)) = some v
            ∧ ∀ w : Work, w.index = i → ∃ w', token plan w = .ok () w' ∧ ExportsTo plan w b k v w')
        ∧ (HidesPath (plan.program.between i k) →
          (exportOf source (statementTokens false none 0 (tokens.toList.drop (i + 1)))).reexport.getD []
            = [])) := by
  obtain ⟨hprogram, hoptions, -⟩ := eq_of_prepare hprepare
  obtain ⟨b, names, hb, hofTokens⟩ := exists_bindings_of_prepare hprepare himports
  obtain ⟨ds, hds, hserves, -⟩ := Bindings.exists_of_ofTokens hofTokens
  obtain ⟨ds₀, hscan, hpruned⟩ := Dependencies.exists_of_ofTokens hds
  have himports' : plan.options.has .imports = true := hoptions ▸ himports
  refine ⟨b, hb, fun hstands => ?_, fun hstands hfirst k hik hkj hpath => ?_⟩
  · rw [hprogram] at hvalue hdepth
    obtain ⟨k, im, d, hfound⟩ := exists_importFound hscan hc hstands hvalue hdepth
    obtain ⟨d', hd', -⟩ := exists_at?_of_ofTokens hpruned hfound.entry
    rw [← hprogram] at hfound hd' hvalue hdepth
    refine ⟨k, hfound.toPathStands, ⟨im, ?_, hfound.rawPath⟩, ?_, ?_⟩
    · have hfound' := hfound.found
      rwa [hprogram] at hfound'
    · rw [hserves.isSome_loads, hd', Option.isSome_some]
    · rintro w rfl
      exact token_of_import himports' hb hfound.kind hvalue hdepth hfound.next hfound.lt
        hfound.lt_count hfound.isPathAt hfound.before
  · rw [hprogram] at hvalue hdepth hfirst hpath
    have hforms := exportForms_of_stands hc hstands hvalue hfirst hik hkj hpath
    rw [hprogram]
    refine ⟨hforms.toPathStands, fun hhides => ?_, fun hhides => ?_⟩
    · obtain ⟨hreexport, d, hd, hpasses, hall⟩ :=
        exists_exportFound hscan hforms hvalue hdepth hhides
      obtain ⟨d', hd', hpasses', hall', -⟩ := exists_at?_of_ofTokens hpruned hd
      have hempty : d'.isEmpty = false :=
        Dependency.isEmpty_eq_false_iff.mpr (.inr (hpasses'.trans hpasses))
      obtain ⟨v, hv⟩ := Option.isSome_iff_exists.mp
        ((hserves.isSome_moduleName? _).mpr ⟨d', hd', hempty⟩)
      have hhelper : isPlainStar { source, tokens } i = true →
          b.helpers.exportStar.isSome = true := fun hplain =>
        hserves.isSome_exportStar _ d' hd' hempty (hall'.trans (hall hplain))
      refine ⟨hreexport, ?_, hhelper, v, hv, fun w hw => ?_⟩
      · rw [hserves.isSome_loads, hd', Option.isSome_some]
      · rw [← hprogram] at hforms hvalue hdepth hv hhelper hhides
        exact token_of_exportForms hb himports' hforms hvalue hdepth hv hhelper hhides hw
    · obtain ⟨rest, hdrop⟩ := hforms.drop_eq
      rw [hdrop]
      exact exportOf_of_hidesPath rest hforms.form hhides

/-- With imports lowered. -/
def moduleOptions : Options :=
  { transforms := [.imports] }

/-- A name that is a string literal is passed on under another name. -/
def literalNameSource : Text :=
  "export \x7b\"a\" as b\x7d from 'm';".toList

/-- The same name the other way round. -/
def literalAliasSource : Text :=
  "export \x7ba as \"b\"\x7d from 'm';".toList

/-- An export list at the start of a source, with a path at an index. -/
def exportsFrom (source : Text) (j k : Nat) (plan : Plan) : Bool :=
  decide (plan.program.isTypeAt 0 = false ∧ (plan.program.tokenAt 0).depth = 0
    ∧ plan.program.kindAt 1 = .braceL ∧ plan.program.isPathAt k = true)
  && Grammar.readsFirst .kwExport (Grammar.exportRule Grammar.run)
    (.ofOptions source moduleOptions) plan.program.tokens j

/-- The path behind a literal that is given another name is found. -/
theorem paths_agree_literalNameSource : ∃ tokens plan start b v,
    Grammar.parse literalNameSource moduleOptions = .ok tokens
    ∧ Plan.prepare literalNameSource tokens moduleOptions = .ok (plan, start)
    ∧ plan.bindings = some b ∧ b.moduleName? "m".toList = some v
    ∧ ∃ w', token plan start = .ok () w' ∧ ExportsTo plan start b 7 v w' := by
  have h : preparesWith literalNameSource moduleOptions
      (fun plan start => exportsFrom literalNameSource 9 7 plan
        && decide (start.index = 0 ∧ ¬HidesPath (plan.program.between 0 7)
          ∧ plan.program.textAt 7 = "'m'".toList)) = true := by decide +kernel
  obtain ⟨tokens, plan, start, hparse, hprepare, htest⟩ := exists_of_preparesWith h
  simp only [exportsFrom, Bool.and_eq_true, decide_eq_true_eq] at htest
  obtain ⟨⟨⟨hvalue, hdepth, hbrace, hpath⟩, hreads⟩, hstart, hhides, htext⟩ := htest
  obtain ⟨hprogram, -⟩ := eq_of_prepare hprepare
  have hstands : Grammar.ExportStands (.ofOptions literalNameSource moduleOptions) tokens 0 9 := by
    have hstands' := Grammar.exportStands_of_readsAfter hreads
    rwa [hprogram] at hstands'
  have hc : (Grammar.Setting.ofOptions literalNameSource moduleOptions).source = literalNameSource :=
    rfl
  obtain ⟨b, hb, -, hexport⟩ := paths_agree hprepare (by decide) hc hvalue hdepth
  obtain ⟨-, hfound, -⟩ := hexport hstands (.inr hbrace) 7 (by decide) (by decide) hpath
  obtain ⟨-, -, -, v, hv, hlower⟩ := hfound hhides
  rw [htext] at hv
  exact ⟨tokens, plan, start, b, v, hparse, hprepare, hb, hv, hlower start hstart⟩

/-- Not every export from another module has a variable for that module. -/
theorem not_moduleName?_of_export :
    ¬∀ (source : Text) (o : Options) (tokens : Array Token) (plan : Plan) (start : Work)
        (b : Bindings) (c : Grammar.Setting) (i j k : Nat),
      Grammar.parse source o = .ok tokens → Plan.prepare source tokens o = .ok (plan, start) →
      plan.bindings = some b → c.source = source → Grammar.ExportStands c tokens i j →
      plan.program.isTypeAt i = false → (plan.program.tokenAt i).depth = 0 →
      plan.program.kindAt (i + 1) = .star ∨ plan.program.kindAt (i + 1) = .braceL →
      i < k → k < j → plan.program.isPathAt k = true →
      (b.moduleName? (unquote (plan.program.textAt k))).isSome = true := by
  intro hall
  have h : preparesWith literalAliasSource moduleOptions
      (fun plan start => exportsFrom literalAliasSource 9 7 plan
        && (plan.bindings.any fun b =>
          (b.moduleName? (unquote (plan.program.textAt 7))).isNone)) = true := by decide +kernel
  obtain ⟨tokens, plan, start, hparse, hprepare, htest⟩ := exists_of_preparesWith h
  simp only [exportsFrom, Bool.and_eq_true, decide_eq_true_eq] at htest
  obtain ⟨⟨⟨hvalue, hdepth, hbrace, hpath⟩, hreads⟩, hnone⟩ := htest
  obtain ⟨hprogram, -⟩ := eq_of_prepare hprepare
  have hstands : Grammar.ExportStands (.ofOptions literalAliasSource moduleOptions) tokens 0 9 := by
    have hstands' := Grammar.exportStands_of_readsAfter hreads
    rwa [hprogram] at hstands'
  cases hb : plan.bindings with
  | none => simp [hb] at hnone
  | some b =>
    rw [hb, Option.any_some, Option.isNone_iff_eq_none] at hnone
    have hsome := hall _ _ tokens plan start b _ 0 9 7 hparse hprepare hb rfl hstands hvalue hdepth
      (.inr hbrace) (by decide) (by decide) hpath
    rw [hnone] at hsome
    cases hsome

end Lower

end Downlevel
