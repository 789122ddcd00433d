import Downlevel.Proofs.Linkage.Bindings
import Downlevel.Proofs.Linkage.Path
import Downlevel.Proofs.Lower.Operand

/-!
# Loading modules

Lowering an import or an export from another module drops everything up to the path,
writes the statement that loads the module in its place, unless that was written
before, and then what the declaration exports.
-/

namespace Downlevel

open Linkage

variable {m : Nat}

namespace Program

variable {p : Program} {i : Nat} {b t : Token} {us rest : List Token}

/-- Is the token of an index the path of a declaration? -/
def isPathAt (p : Program) (i : Nat) : Bool :=
  p.kindAt i = .string && !p.isTypeAt i && 0 < i
    && (p.kindAt (i - 1) = .kwImport || p.isNameAt (i - 1) "from".toList)

theorem isPathAt_succ :
    p.isPathAt (i + 1) = true ↔ IsPathAfter p.source (p.tokenAt i) (p.tokenAt (i + 1)) := by
  simp only [isPathAt, isNameAt, Nat.add_sub_cancel, Bool.and_eq_true, Bool.or_eq_true,
    Bool.not_eq_true', decide_eq_true_eq, beq_iff_eq]
  constructor
  · rintro ⟨⟨⟨hkind, htype⟩, -⟩, hbefore⟩
    exact ⟨hkind, htype, hbefore⟩
  · rintro ⟨hkind, htype, hbefore⟩
    exact ⟨⟨⟨hkind, htype⟩, Nat.succ_pos i⟩, hbefore⟩

/-- The search for a path passes tokens that have no place of one. -/
theorem isPathAt_of_pathless (h : p.tokens.toList.drop i = b :: (us ++ rest))
    (hus : Pathless p.source b us) (hi : i < m) (hm : m ≤ i + us.length) :
    p.isPathAt m = false := by
  induction us generalizing b i with
  | nil => simp at hm; omega
  | cons t us ih =>
    obtain ⟨hb, -, hdrop⟩ := tokenAt_of_drop h
    rw [List.cons_append] at hdrop
    by_cases hsucc : m = i + 1
    · subst hsucc
      rw [Bool.eq_false_iff]
      intro hpath
      rw [isPathAt_succ, hb, (tokenAt_of_drop hdrop).1] at hpath
      exact hus.1 hpath
    · rw [List.length_cons] at hm
      exact ih hdrop hus.2 (by omega) (by omega)

/-- The token at the end of some tokens. -/
theorem tokenAt_append (h : p.tokens.toList.drop i = us ++ t :: rest) :
    p.tokenAt (i + us.length) = t ∧ i + us.length < p.count
      ∧ p.tokens.toList.drop (i + us.length + 1) = rest := by
  apply tokenAt_of_drop
  rw [← List.drop_drop, h, List.drop_left]

theorem tokenAt_mem {n : Nat} (h : p.tokens.toList.drop i = us ++ rest) (hi : i ≤ n)
    (hn : n < i + us.length) : p.tokenAt n ∈ us := by
  have hget : p.tokens.toList[n]? = us[n - i]? := by
    rw [← List.getElem?_append_left (by omega : n - i < us.length), ← h, List.getElem?_drop,
      Nat.add_sub_cancel' hi]
  rw [Array.getElem?_toList, List.getElem?_eq_getElem (by omega)] at hget
  rw [tokenAt, hget, Option.getD_some]
  exact List.getElem_mem _

/-- The last of some tokens, if there is one. -/
theorem tokenAt_getLast (h : p.tokens.toList.drop i = b :: (us ++ rest)) :
    p.tokenAt (i + us.length) = us.getLast?.getD b := by
  rcases List.eq_nil_or_concat us with rfl | ⟨vs, t, rfl⟩
  · exact (tokenAt_of_drop h).1
  · rw [List.concat_eq_append, List.append_assoc, List.singleton_append] at h
    have hlast := (tokenAt_append (by simpa using h : _ = (b :: vs) ++ t :: rest)).1
    simpa [Nat.add_assoc, Nat.add_comm 1] using hlast

end Program

namespace Work

@[simp] theorem index_eraseTo (w : Work) (p : Program) (k : Nat) : (w.eraseTo p k).index = k := rfl

/-- With a path whose loading is written. -/
def markLoaded (w : Work) (path : Text) : Work :=
  if w.loaded.contains path then w else { w with loaded := path :: w.loaded }

/-- With a text in place of the next token. -/
def replaceNext (w : Work) (p : Program) (t : Text) : Work :=
  (w.write (Text.newlines (p.gapBefore w.index) ++ t)).moveTo (w.index + 1)

@[simp] theorem index_markLoaded (w : Work) (path : Text) : (w.markLoaded path).index = w.index := by
  unfold markLoaded
  split <;> rfl

theorem mem_loaded_markLoaded {w : Work} {path path' : Text} :
    path' ∈ (w.markLoaded path).loaded ↔ path' = path ∨ path' ∈ w.loaded := by
  unfold markLoaded
  split
  · rename_i hmem
    refine ⟨.inr, fun h => h.elim ?_ id⟩
    rintro rfl
    exact List.contains_iff_mem.mp hmem
  · exact List.mem_cons

/-- Without the semicolon that comes next, if there is one. -/
def dropSemicolon (w : Work) (p : Program) : Work :=
  if p.kindAt w.index = .semi then w.replaceNext p [] else w

end Work

/-- The statement that loads a path, which is empty if it was written before. -/
def Linkage.Bindings.loadOnce (b : Bindings) (loaded : List Text) (path : Text) : Text :=
  if loaded.contains path then [] else b.load path

/-- The work after a declaration with the path at an index, which goes on with some code. -/
def Work.loadAt (w : Work) (p : Program) (b : Bindings) (k : Nat) (code : Text) : Work :=
  let path := unquote (p.textAt k)
  (((w.eraseTo p k).markLoaded path).replaceNext p (b.loadOnce w.loaded path ++ code)).dropSemicolon p

namespace Lower

section

variable {plan : Plan} {w v : Work} {b : Bindings} {E : Error → Prop} {Q : Unit → Work → Prop}
  {path : Text} {names : List (Text × Text)} {k : Nat} {missing : Breach} {items rest : List Token}

/-! ## Steps -/

@[simp] theorem ends_atModulePath {Q : Bool → Work → Prop} :
    Ends plan atModulePath w Q E ↔ Q (plan.program.isPathAt w.index) w := Iff.rfl

theorem ends_bindings (hb : plan.bindings = some b) {Q : Bindings → Work → Prop} :
    Ends plan bindings w Q E ↔ Q b w := by
  unfold bindings
  rw [ends_bind, ends_read, hb, ends_orBreach, Option.elim_some]

theorem ends_claimLoad (hb : plan.bindings = some b) {Q : Text → Work → Prop} :
    Ends plan (claimLoad path) w Q E ↔ Q (b.loadOnce w.loaded path) (w.markLoaded path) := by
  unfold claimLoad Bindings.loadOnce Work.markLoaded
  rw [ends_bind, ends_bindings hb, ends_bind, ends_get]
  split
  · exact Iff.rfl
  · exact Iff.rfl

theorem ends_removeSemicolon :
    Ends plan removeSemicolon w Q E ↔ Q () (w.dropSemicolon plan.program) := by
  unfold removeSemicolon Work.dropSemicolon
  rw [ends_bind, ends_is]
  by_cases hsemi : plan.program.kindAt w.index = .semi
  · have hlt := Program.lt_count_of_kindAt hsemi (by decide)
    rw [if_pos (decide_eq_true hsemi), if_pos hsemi, ends_remove, if_pos hlt, Work.replaceNext,
      List.append_nil]
  · rw [if_neg (by simpa using hsemi), if_neg hsemi]
    rfl

/-- A token behind the first one is dropped like a type. -/
theorem ends_remove_eraseTo (hm : w.index < m) (hlt : m < plan.program.count) :
    Ends plan remove (w.eraseTo plan.program m) Q E ↔ Q () (w.eraseTo plan.program (m + 1)) := by
  rw [ends_remove, if_pos (show (w.eraseTo plan.program m).index < _ from hlt)]
  change Q () (((w.eraseTo plan.program m).write _).moveTo (m + 1)) ↔ _
  rw [← w.eraseTo_next plan.program hm]
  rfl

/-- All tokens up to an index are dropped by a loop that goes on to there. -/
theorem ends_removeWhile {condition : Lower Bool} {body : Lower Unit} {k m : Nat} (hmk : m ≤ k) (hk : k ≤ plan.program.count)
    (hcondition : ∀ n, m ≤ n → n ≤ k → Ends plan condition (w.eraseTo plan.program n)
      (fun b v => b = decide (n < k) ∧ v = w.eraseTo plan.program n) E)
    (hbody : ∀ n, m ≤ n → n < k → Ends plan body (w.eraseTo plan.program n)
      (fun _ v => v = w.eraseTo plan.program (n + 1)) E) :
    Ends plan (repeatWhile condition body) (w.eraseTo plan.program m)
      (fun _ v => v = w.eraseTo plan.program k) E := by
  refine Ends.repeatWhile (fun v => ∃ n, v = w.eraseTo plan.program n ∧ m ≤ n ∧ n ≤ k) ?_
    ⟨m, rfl, Nat.le_refl m, hmk⟩
  rintro v ⟨n, rfl, hmn, hnk⟩
  refine ⟨Nat.le_trans hnk hk, (hcondition n hmn hnk).mono ?_⟩
  rintro b v ⟨rfl, rfl⟩
  by_cases hlt : n < k
  · rw [if_pos (decide_eq_true hlt)]
    refine (hbody n hmn hlt).mono ?_
    rintro _ v rfl
    exact ⟨⟨n + 1, rfl, by omega, hlt⟩, Nat.lt_succ_self n⟩
  · rw [if_neg (by simpa using hlt)]
    have heq : n = k := by omega
    rw [heq]

/-- Everything up to the path is dropped. -/
theorem ends_removeToPath {k m : Nat} (hm : w.index < m) (hmk : m ≤ k)
    (hk : k < plan.program.count) (hpath : plan.program.isPathAt k = true)
    (hbefore : ∀ n, m ≤ n → n < k → plan.program.isPathAt n = false) :
    Ends plan (removeToPath missing) (w.eraseTo plan.program m)
      (fun _ v => v = w.eraseTo plan.program k) E := by
  unfold removeToPath
  refine ends_removeWhile hmk (Nat.le_of_lt hk) (fun n hmn hnk => ?_) fun n hmn hnk => ?_
  · rw [ends_bind, ends_atModulePath]
    refine ⟨?_, rfl⟩
    rw [Work.index_eraseTo]
    by_cases hlt : n < k
    · simp [hbefore n hmn hlt, hlt]
    · have heq : n = k := by omega
      simp [heq, hpath]
  · rw [ends_bind, ends_atEnd, if_neg, ends_remove_eraseTo (by omega) (by omega)]
    rw [Work.index_eraseTo, decide_eq_true_eq]
    omega

theorem ends_removeTo_index {k m : Nat} (hm : w.index < m) (hmk : m ≤ k)
    (hk : k ≤ plan.program.count) :
    Ends plan (repeatTo k remove) (w.eraseTo plan.program m)
      (fun _ v => v = w.eraseTo plan.program k) E := by
  unfold repeatTo
  refine ends_removeWhile hmk hk (fun n _ _ => ?_) fun n hmn hnk => ?_
  · rw [ends_bind, ends_index]
    exact ⟨rfl, rfl⟩
  · rw [ends_remove_eraseTo (by omega) (by omega)]

/-- The end of every declaration with a path. -/
theorem ends_load {t code : Text} (hk : k < plan.program.count)
    (hpath : path = unquote (plan.program.textAt k)) (ht : t = b.loadOnce w.loaded path ++ code) :
    Ends plan (do replaceTrimmed t; removeSemicolon) ((w.eraseTo plan.program k).markLoaded path)
      (fun _ w' => w' = w.loadAt plan.program b k code) E := by
  subst hpath ht
  rw [ends_bind, ends_replaceTrimmed, Work.index_markLoaded, Work.index_eraseTo, if_pos hk,
    ends_removeSemicolon, Work.loadAt, Work.replaceNext, Work.index_markLoaded, Work.index_eraseTo]

/-- The start of every declaration with a path. -/
theorem ends_toPath {α : Type} {f : Text → Text → Lower α} {Q : α → Work → Prop}
    (hb : plan.bindings = some b) (hk : w.index < k) (hlt : k < plan.program.count)
    (hpath : plan.program.isPathAt k = true)
    (hbefore : ∀ n, w.index < n → n < k → plan.program.isPathAt n = false)
    (h : Ends plan (f (plan.program.textAt k)
        (b.loadOnce w.loaded (unquote (plan.program.textAt k))))
      ((w.eraseTo plan.program k).markLoaded (unquote (plan.program.textAt k))) Q E) :
    Ends plan (do
      removeInitial
      removeToPath missing
      let t ← curText
      let load ← claimLoad (unquote t)
      f t load) w Q E := by
  rw [ends_bind, ends_removeInitial, if_pos (by omega), Work.eraseTo_first]
  refine (ends_removeToPath (Nat.lt_succ_self _) hk hlt hpath hbefore).bind ?_
  rintro _ _ rfl
  rw [ends_bind, ends_curText, ends_bind, ends_claimLoad hb]
  exact h

/-! ## Imports -/

theorem rules_eq_moduleRule (token : Lower Unit) {o : Options} (h : o.has .imports = true) :
    ∃ l l', rules o token = l ++ moduleRule token :: l'
      ∧ ∀ rule ∈ l, rule = elementRule token ∨ rule = componentRule token := by
  refine ⟨if o.has .jsx then [elementRule token, componentRule token] else [],
    (if o.has .flow then [arrowParametersEnd, typeRun] else [])
      ++ ((if o.has .typescript then [arrowParametersEnd, asyncTypeParameters token, typeRun] else [])
      ++ [numericSeparators, catchBinding]), ?_, ?_⟩
  · simp only [rules, if_pos h, List.append_assoc, List.cons_append, List.nil_append]
  · intro rule hrule
    split at hrule
    · simpa using hrule
    · cases hrule

/-- The rule for imports and exports is the first that applies to their keywords. -/
theorem ends_token_of_moduleRule (himports : plan.options.has .imports = true)
    (hkind : plan.program.kindAt w.index = .kwImport ∨ plan.program.kindAt w.index = .kwExport)
    (h : Ends plan (moduleRule token) w (fun b w' => b = true ∧ Q () w') E) :
    Ends plan token w Q E := by
  have hne : ∀ {kind : Kind}, kind ≠ .kwImport → kind ≠ .kwExport →
      plan.program.kindAt w.index ≠ kind := by
    intro kind himport hexport heq
    rcases hkind with h | h
    · exact himport (heq.symm.trans h)
    · exact hexport (heq.symm.trans h)
  have hlt : w.index < plan.program.count :=
    Program.lt_count_of_kindAt rfl (hne (by decide) (by decide))
  obtain ⟨l, l', hrules, hl⟩ := rules_eq_moduleRule token himports
  have hdeclines : ∀ rule ∈ l, Declines plan w rule := by
    intro rule hrule
    rcases hl rule hrule with rfl | rfl
    · exact declines_elementRule (hne (by decide) (by decide))
    · exact declines_componentRule fun hname => absurd hname (hne (by decide) (by decide))
  have hclass : (plan.program.tokenAt w.index).kind ≠ .kwClass := hne (by decide) (by decide)
  rw [Ends, token_eq_tokenStep (Nat.le_of_lt hlt), ← Ends]
  unfold tokenStep
  rw [ends_bind, ends_cur, decide_eq_false hclass, Bool.false_and, if_neg Bool.false_ne_true,
    ends_bind, ends_read, hrules]
  apply ends_firstOf_append hdeclines
  rw [firstOf, ends_bind]
  refine h.mono fun b w' hb => ?_
  obtain ⟨rfl, hQ⟩ := hb
  exact hQ

theorem token_of_moduleRule (himports : plan.options.has .imports = true)
    (hkind : plan.program.kindAt w.index = .kwImport ∨ plan.program.kindAt w.index = .kwExport)
    (h : Ends plan (moduleRule token) w (fun b w' => b = true ∧ w' = v) fun _ => False) :
    token plan w = .ok () v := by
  refine eq_ok_of_ends (ends_token_of_moduleRule himports hkind (h.mono ?_))
  rintro b w' ⟨rfl, rfl⟩
  exact ⟨rfl, rfl, rfl⟩

/-- An import is replaced by the loading of its module. -/
theorem token_of_import (himports : plan.options.has .imports = true) (hb : plan.bindings = some b)
    (hkind : plan.program.kindAt w.index = .kwImport)
    (hvalue : plan.program.isTypeAt w.index = false)
    (hdepth : (plan.program.tokenAt w.index).depth = 0)
    (hafter : plan.program.kindAt (w.index + 1) ≠ .parenL
      ∧ plan.program.kindAt (w.index + 1) ≠ .dot) (hk : w.index < k) (hlt : k < plan.program.count)
    (hpath : plan.program.isPathAt k = true)
    (hbefore : ∀ n, w.index < n → n < k → plan.program.isPathAt n = false) :
    token plan w = .ok () (w.loadAt plan.program b k []) := by
  apply token_of_moduleRule himports (.inl hkind)
  have hcur : (plan.program.tokenAt w.index).isType = false
      ∧ (plan.program.tokenAt w.index).kind = .kwImport := ⟨hvalue, hkind⟩
  unfold moduleRule
  rw [ends_bind, ends_cur, if_neg (by simp [hcur.1]), if_pos (by simp [hcur.2, hdepth]), ends_bind,
    ends_program, ends_bind, ends_index]
  dsimp only
  rw [if_neg (by simpa using hafter), ends_bind]
  refine ends_toPath hb hk hlt hpath hbefore ?_
  refine (ends_load hlt rfl (List.append_nil _).symm).mono ?_
  rintro _ _ rfl
  exact ⟨rfl, rfl⟩

/-! ## Exports from other modules -/

/-- What an export from the module of a variable writes once the module is loaded. -/
inductive IsExportCode (b : Bindings) (v : Text) : Text → Prop
  | names (found : List (Text × Text)) :
      IsExportCode b v (found.map fun n => getterCode v n.1 n.2).flatten
  | allAs (name : Text) : IsExportCode b v (" ".toList ++ exportCode name v)
  | all {helper : Text} (hhelper : b.helpers.exportStar = some helper) :
      IsExportCode b v (" ".toList ++ helper ++ "(".toList ++ v ++ ");".toList)

/-- A path without a variable is a breach. -/
theorem ends_moduleVariable (hb : plan.bindings = some b) {Q : Text → Work → Prop}
    (hnone : b.moduleName? path = none → E (.invariant (.moduleName path)))
    (hsome : ∀ v, b.moduleName? path = some v → Q v w) :
    Ends plan (moduleVariable path) w Q E := by
  unfold moduleVariable
  rw [ends_bind, ends_bindings hb, ends_orBreach]
  cases hv : b.moduleName? path with
  | none => exact hnone hv
  | some v => exact hsome v hv

/-- The work after an export from the module of a variable, whose path is at an index. -/
def ExportsTo (plan : Plan) (w : Work) (b : Bindings) (k : Nat) (v : Text) (w' : Work) : Prop :=
  ∃ code, IsExportCode b v code ∧ w' = w.loadAt plan.program b k code

/-- An export goes on with what comes behind its keyword. -/
theorem ends_token_of_export (himports : plan.options.has .imports = true)
    (hkind : plan.program.kindAt w.index = .kwExport)
    (hvalue : plan.program.isTypeAt w.index = false)
    (hdepth : (plan.program.tokenAt w.index).depth = 0)
    (h : Ends plan (exportDeclaration token) w Q E) : Ends plan token w Q E := by
  apply ends_token_of_moduleRule himports (.inr hkind)
  have hcur : (plan.program.tokenAt w.index).isType = false
      ∧ (plan.program.tokenAt w.index).kind = .kwExport := ⟨hvalue, hkind⟩
  unfold moduleRule
  rw [ends_bind, ends_cur, if_neg (by simp [hcur.1]), if_neg (by simp [hcur.2]),
    if_pos (by simp [hcur.2, hdepth]), ends_bind]
  exact h.mono fun _ _ hQ => ⟨rfl, hQ⟩

theorem exists_ok_of_ends {α : Type} {p : Lower α} {Q : α → Work → Prop}
    (h : Ends plan p w Q fun _ => False) : ∃ a w', p plan w = .ok a w' ∧ Q a w' := by
  unfold Ends at h
  cases hrun : p plan w with
  | error e v =>
    rw [hrun] at h
    exact h.elim
  | ok a v =>
    rw [hrun] at h
    exact ⟨a, v, rfl, h⟩

/-- The errors of an export from the module of a path: there is no variable for the path,
no helper for all names, or no name for them. -/
structure ExportFails (b : Bindings) (path : Text) (isAll isSplit : Prop) (E : Error → Prop) :
    Prop where
  noVariable : b.moduleName? path = none → E (.invariant (.moduleName path))
  noHelper : isAll → b.helpers.exportStar = none → E (.invariant .starHelper)
  noName : isSplit → E (.invariant .splitCharacter)

/-- An export of all names of another module. -/
theorem ends_exportAll (hb : plan.bindings = some b) (hk : w.index < k)
    (hlt : k < plan.program.count) (hpath : plan.program.isPathAt k = true)
    (hbefore : ∀ n, w.index < n → n < k → plan.program.isPathAt n = false)
    (hfails : ExportFails b (unquote (plan.program.textAt k))
      (plan.program.isNameAt (w.index + 2) "as".toList = false)
      (starName? plan.program (w.index + 1) = none) E) :
    Ends plan exportAll w (fun _ w' => ∃ v, b.moduleName? (unquote (plan.program.textAt k)) = some v
      ∧ ExportsTo plan w b k v w') E := by
  unfold exportAll
  rw [ends_bind, ends_program, ends_bind, ends_index]
  dsimp only
  rw [ends_bind, ends_orBreach]
  cases hname : starName? plan.program (w.index + 1) with
  | none => exact hfails.noName hname
  | some name =>
    rw [Option.elim_some]
    refine ends_toPath hb hk hlt hpath hbefore ?_
    rw [ends_bind]
    refine ends_moduleVariable hb hfails.noVariable fun v hv => ?_
    cases name with
    | some name => exact (ends_load hlt rfl rfl).mono fun _ w' hw' => ⟨v, hv, _, .allAs _, hw'⟩
    | none =>
      have has : plan.program.isNameAt (w.index + 2) "as".toList = false := by
        rw [Bool.eq_false_iff]
        intro has
        rw [starName?, if_pos has] at hname
        simp at hname
      dsimp only
      rw [ends_bind, ends_bindings hb, ends_bind, ends_orBreach]
      cases hhelper : b.helpers.exportStar with
      | none => exact hfails.noHelper has hhelper
      | some helper =>
        rw [Option.elim_some]
        exact (ends_load hlt rfl rfl).mono fun _ w' hw' => ⟨v, hv, _, .all hhelper, hw'⟩

/-- The name that a token of an export list stands for.  A string literal keeps its quotes. -/
def specifierText (source : Text) (t : Token) : Text :=
  if t.kind = .string then t.text source else Identifier.decode (t.text source)

/-- The tokens of an export list, or what is left of them as one name is taken after
another, list these names of another module, each with the name it is exported by. -/
inductive Specifies (source : Text) : List Token → List (Text × Text) → Prop
  | nil : Specifies source [] []
  | skip {t : Token} {ts : List Token} {names : List (Text × Text)} :
      t.isType = true ∨ t.kind = .comma → t.kind ≠ .braceR → t.kind ≠ .eof →
      Specifies source ts names → Specifies source (t :: ts) names
  | plain {t : Token} {ts : List Token} {names : List (Text × Text)} :
      IsExportName t → (∀ a ∈ ts.head?, a.kind ≠ .name) → Specifies source ts names →
      Specifies source (t :: ts) ((specifierText source t, specifierText source t) :: names)
  | renamed {name word exported : Token} {ts : List Token} {names : List (Text × Text)} :
      IsExportName name → IsWord source "as" word → Specifies source ts names →
      Specifies source (name :: word :: exported :: ts)
        ((specifierText source name, specifierText source exported) :: names)

theorem exists_specifies_item {source : Text} {us ts : List Token} (h : ExportItem source us)
    (hts : Specifies source ts names) (hhead : ∀ a ∈ ts.head?, a.kind ≠ .name) :
    ∃ names', Specifies source (us ++ ts) names' := by
  cases h with
  | plain hname => exact ⟨_, .plain hname hhead hts⟩
  | renamed hname hword _ => exact ⟨_, .renamed hname hword hts⟩
  | typed htyped =>
    refine ⟨names, ?_⟩
    clear hhead
    induction us with
    | nil => exact hts
    | cons t us ih =>
      obtain ⟨htype, hkind⟩ := htyped t List.mem_cons_self
      refine .skip (.inl htype) ?_ ?_ (ih fun u hu => htyped u (List.mem_cons_of_mem t hu))
      · intro h
        rw [h] at hkind
        revert hkind
        decide
      · intro h
        rw [h] at hkind
        revert hkind
        decide

theorem exists_specifies {source : Text} {us : List Token}
    (h : Separated source (ExportItem source) us) : ∃ names, Specifies source us names := by
  induction h with
  | nil => exact ⟨[], .nil⟩
  | last hitem =>
    have hrest := exists_specifies_item hitem .nil (by simp)
    rwa [List.append_nil] at hrest
  | more hitem hcomma _ ih =>
    obtain ⟨names, hnames⟩ := ih
    have hcomma' : Specifies source (_ :: _) names :=
      .skip (.inr hcomma.kind) (by simp [hcomma.kind]) (by simp [hcomma.kind]) hnames
    exact exists_specifies_item hitem hcomma' (by simp [hcomma.kind])

theorem ends_specifierName {Q : Text → Work → Prop}
    (h : Q (specifierText plan.program.source (plan.program.tokenAt w.index)) w) :
    Ends plan specifierName w Q E := by
  unfold specifierName
  rw [ends_bind, ends_is, Program.kindAt]
  unfold specifierText at h
  by_cases hkind : (plan.program.tokenAt w.index).kind = .string
  · rw [if_pos hkind] at h
    rw [if_pos (decide_eq_true hkind)]
    exact h
  · rw [if_neg hkind] at h
    rw [if_neg fun heq => hkind (of_decide_eq_true heq)]
    exact h

/-- What is left of an export list from an index on, up to its closing brace. -/
structure ListRest (p : Program) (closing : Token) (rest : List Token) (m : Nat) (ts : List Token)
    (names : List (Text × Text)) : Prop where
  drop_eq : p.tokens.toList.drop m = ts ++ closing :: rest
  specifies : Specifies p.source ts names

/-- The names of an export list are taken up to the closing brace. -/
theorem ends_specifiers {opening closing : Token} (hm : w.index < m)
    (hdrop : plan.program.tokens.toList.drop m = opening :: (items ++ closing :: rest))
    (hopening : opening.kind = .braceL) (hclosing : closing.kind = .braceR)
    (hnames : Specifies plan.program.source items names) :
    Ends plan specifiers (w.eraseTo plan.program m)
      (fun found v => found = names ∧ v = w.eraseTo plan.program (m + 1 + items.length + 1)) E := by
  obtain ⟨htoken, hlt, hdrop'⟩ := Program.tokenAt_of_drop hdrop
  have hbrace : plan.program.kindAt m = .braceL := by rw [Program.kindAt, htoken, hopening]
  unfold specifiers
  rw [ends_bind, ends_is, Work.index_eraseTo, if_pos (decide_eq_true hbrace), ends_bind,
    ends_remove_eraseTo hm hlt]
  -- each round takes an item, a comma or a token of a type, up to the closing brace
  refine Ends.loop (fun found v => ∃ n ts left, v = w.eraseTo plan.program n ∧ w.index < n
    ∧ ListRest plan.program closing rest n ts left ∧ found ++ left = names
    ∧ n + ts.length = m + 1 + items.length) ?_
    ⟨m + 1, items, names, rfl, by omega, ⟨hdrop', hnames⟩, rfl, rfl⟩
  rintro found v ⟨n, ts, left, rfl, hn, ⟨hts, hrest⟩, rfl, hlength⟩
  have hclose := Program.tokenAt_append hts
  refine ⟨by rw [Work.index_eraseTo]; omega, ?_⟩
  rw [ends_bind, ends_cur, Work.index_eraseTo]
  cases hrest with
  | nil =>
    obtain ⟨hcur, hlt, -⟩ := hclose
    rw [List.length_nil, Nat.add_zero] at hcur hlt hlength
    rw [if_pos (by rw [hcur, hclosing]), ends_bind, ends_remove_eraseTo hn hlt, ends_pure, hlength,
      List.append_nil]
    exact ⟨rfl, rfl⟩
  | @skip t ts _ hskip hbraceR heof hrest =>
    obtain ⟨hcur, hlt, hdropts⟩ := Program.tokenAt_of_drop hts
    rw [hcur, if_neg hbraceR, if_neg heof, if_pos (by simpa using hskip), ends_bind,
      ends_remove_eraseTo hn hlt]
    rw [List.length_cons] at hlength
    exact ⟨⟨n + 1, ts, _, rfl, by omega, ⟨hdropts, hrest⟩, rfl, by omega⟩, Nat.lt_succ_self n⟩
  | @plain t ts _ hname hhead hrest =>
    obtain ⟨hcur, hlt, hdropts⟩ := Program.tokenAt_of_drop hts
    have has : plan.program.isNameAt (n + 1) "as".toList = false := by
      have hkind : plan.program.kindAt (n + 1) ≠ .name := by
        cases ts with
        | nil =>
          rw [Program.kindAt, (Program.tokenAt_of_drop hdropts).1, hclosing]
          decide
        | cons a ts =>
          rw [Program.kindAt, (Program.tokenAt_of_drop hdropts).1]
          exact hhead a rfl
      simp [Program.isNameAt, hkind]
    rw [hcur, if_neg hname.ne.1, if_neg hname.ne.2.1,
      if_neg (by simp [hname.isType, hname.ne.2.2.1]), ends_bind]
    apply ends_specifierName
    rw [ends_bind, ends_remove_eraseTo hn hlt, ends_bind, ends_isName, Work.index_eraseTo,
      Work.index_eraseTo, hcur, has, ends_bind, ends_isType, Bool.false_and,
      if_neg Bool.false_ne_true]
    rw [List.length_cons] at hlength
    exact ⟨⟨n + 1, ts, _, rfl, by omega, ⟨hdropts, hrest⟩, List.append_assoc .., by omega⟩,
      Nat.lt_succ_self n⟩
  | @renamed name word exported ts _ hname hword hrest =>
    obtain ⟨hcur, hlt, hdropts⟩ := Program.tokenAt_of_drop hts
    obtain ⟨hcur₁, hlt₁, hdropts₁⟩ := Program.tokenAt_of_drop hdropts
    obtain ⟨hcur₂, hlt₂, hdropts₂⟩ := Program.tokenAt_of_drop hdropts₁
    have has : plan.program.isNameAt (n + 1) "as".toList = true
        ∧ plan.program.isTypeAt (n + 1) = false := by
      simp [Program.isNameAt, Program.isTypeAt, Program.kindAt, Program.textAt, hcur₁, hword.kind,
        hword.text, hword.isType]
    rw [hcur, if_neg hname.ne.1, if_neg hname.ne.2.1,
      if_neg (by simp [hname.isType, hname.ne.2.2.1]), ends_bind]
    apply ends_specifierName
    rw [ends_bind, ends_remove_eraseTo hn hlt, ends_bind, ends_isName, Work.index_eraseTo,
      Work.index_eraseTo, hcur, has.1, ends_bind, ends_isType, Work.index_eraseTo, has.2,
      if_pos (show (true && !false) = true from rfl), ends_bind,
      ends_remove_eraseTo (by omega) hlt₁, ends_bind]
    apply ends_specifierName
    rw [ends_bind, ends_remove_eraseTo (by omega) hlt₂, Work.index_eraseTo, hcur₂]
    simp only [List.length_cons] at hlength
    refine ⟨⟨n + 1 + 1 + 1, ts, _, rfl, by omega, ⟨hdropts₂, hrest⟩, List.append_assoc ..,
      by omega⟩, ?_⟩
    rw [Work.index_eraseTo]
    omega

/-- An export list of another module. -/
theorem ends_exportList {opening closing word path : Token}
    (hb : plan.bindings = some b) (hdrop : plan.program.tokens.toList.drop (w.index + 1)
      = opening :: (items ++ closing :: word :: path :: rest)) (hopening : opening.kind = .braceL)
    (hclosing : closing.kind = .braceR)
    (hitems : Separated plan.program.source (ExportItem plan.program.source) items)
    (hnames : Specifies plan.program.source items names)
    (hword : IsWord plan.program.source "from" word) (hk : k = w.index + 1 + items.length + 3)
    (hnone : b.moduleName? (unquote (plan.program.textAt k)) = none →
      E (.invariant (.moduleName (unquote (plan.program.textAt k))))) :
    Ends plan exportList w (fun _ w' => ∃ v, b.moduleName? (unquote (plan.program.textAt k)) = some v
      ∧ w' = w.loadAt plan.program b k (names.map fun n => getterCode v n.1 n.2).flatten) E := by
  obtain ⟨-, hlt₁, hdropItems⟩ := Program.tokenAt_of_drop hdrop
  obtain ⟨hcloseToken, hcloseLt, hdropWord⟩ := Program.tokenAt_append hdropItems
  obtain ⟨hwordToken, -, hdropPath⟩ := Program.tokenAt_of_drop hdropWord
  obtain ⟨-, hlt, -⟩ := Program.tokenAt_of_drop hdropPath
  have hclose : plan.program.seek (w.index + 2) (fun i => plan.program.kindAt i == .braceR)
      = w.index + 1 + 1 + items.length := by
    apply Program.search_eq (by omega)
    · omega
    · intro _
      rw [Program.kindAt, hcloseToken, hclosing]
      rfl
    · intro n hn hnlt
      have hmem := Program.tokenAt_mem hdropItems hn hnlt
      simpa [Program.kindAt] using hitems.kind_ne_braceR hmem
  have hfrom : plan.program.skipTypes (w.index + 1 + 1 + items.length + 1)
      = w.index + 1 + 1 + items.length + 1 := by
    apply Program.skipTypes_eq_self
    rw [Program.isTypeAt, hwordToken, hword.isType]
  have hname : plan.program.isNameAt (w.index + 1 + 1 + items.length + 1) "from".toList = true := by
    simp [Program.isNameAt, Program.kindAt, Program.textAt, hwordToken, hword.kind, hword.text]
  obtain rfl : k = w.index + 1 + 1 + items.length + 1 + 1 := by omega
  unfold exportList
  rw [ends_bind, ends_program, ends_bind, ends_index]
  dsimp only
  rw [hclose, if_neg (by omega), hfrom, if_pos hname]
  unfold reexportNames
  rw [ends_bind, ends_program, ends_bind, ends_removeInitial, if_pos (by omega), Work.eraseTo_first]
  refine (ends_specifiers (Nat.lt_succ_self _) hdrop hopening hclosing hnames).bind ?_
  rintro _ _ ⟨rfl, rfl⟩
  refine (ends_removeTo_index (by omega) (by omega) (by omega)).bind ?_
  rintro _ _ rfl
  rw [ends_bind, ends_claimLoad hb, ends_bind]
  refine ends_moduleVariable hb hnone fun v hv => ?_
  exact (ends_load hlt rfl rfl).mono fun _ w' hw' => ⟨v, hv, hw'⟩

end

end Lower

end Downlevel
