import Downlevel.Proofs.Grammar.Contexts
import Downlevel.Proofs.Lower.Loading
import Downlevel.Proofs.Lower.Paths
import Mathlib.Logic.Relation

/-!
# Every module is loaded once

Lowering goes through a program token by token.  The first declaration that names a path
writes the statement that loads it, and later ones do not.  A keyword that belongs to no
declaration, like the name of a property, is lowered as if it did; it can take the place
of the first declaration.
-/

namespace Downlevel

open Linkage

variable {tokens : Array Token} {source : Text} {o : Options}

theorem Program.closesOnce_of_parse (h : Grammar.parse source o = .ok tokens) :
    Program.ClosesOnce { source, tokens } where
  unique hkind hid hkind' hid' :=
    Program.index_eq_of_brace (p := { source, tokens }) h (.inr rfl) hkind hid hkind' hid'

namespace Lower

/-! ## Steps -/

/-- The next token is lowered. -/
def Next (plan : Plan) (w w' : Work) : Prop :=
  token plan w = .ok () w'

/-- Lowering comes from one work to another token by token. -/
abbrev Reaches (plan : Plan) : Work → Work → Prop :=
  Relation.ReflTransGen (Next plan)

/-- A step of lowering a program. -/
structure Visit (plan : Plan) (start w w' : Work) : Prop where
  reaches : Reaches plan start w
  next : Next plan w w'

section

variable {plan : Plan} {start w w' : Work} {i : Nat} {c : Grammar.Setting}

theorem loading_of_reaches [plan.program.ClosesOnce] (h : Reaches plan w w') :
    Loading plan w w' := by
  induction h with
  | refl => exact .refl w
  | tail _ hnext ih => exact ih.trans (loading_of_token hnext)

theorem ends_balanced_reaches :
    Ends plan (balanced token) w (fun _ w' => Reaches plan w w') fun _ => True := by
  unfold balanced
  rw [ends_bind]
  refine Ends.loop_partial (fun _ v => Reaches plan w v) trivial (fun s v hv => ?_) .refl
  have htoken : Ends plan token v (fun _ v' => Reaches plan w v') fun _ => True :=
    Ends.self.mono fun _ v' hnext => hv.tail hnext
  obtain ⟨braces, parens⟩ := s
  rw [ends_bind, ends_atEnd]
  refine Ends.ite (fun _ => hv) fun _ => ?_
  rw [ends_bind, ends_cur]
  split
  case h_3 => exact Ends.ite (fun _ => hv) fun _ => htoken.bind fun _ _ hv' => hv'
  case h_5 => exact Ends.ite (fun _ => hv) fun _ => htoken.bind fun _ _ hv' => hv'
  all_goals exact htoken.bind fun _ _ hv' => hv'

/-- Lowering a program comes to its end. -/
theorem exists_reaches_of_finish {code : Text} (h : finish plan start = .ok code w') :
    ∃ w, Reaches plan start w ∧ plan.program.count ≤ w.index := by
  have hends : Ends plan finish start
      (fun _ _ => ∃ w, Reaches plan start w ∧ plan.program.count ≤ w.index) fun _ => True := by
    unfold finish
    refine ends_balanced_reaches.bind fun _ w hw => ?_
    rw [ends_bind, ends_atEnd]
    refine Ends.ite (fun hend => ?_) fun _ => trivial
    exact Ends.trivial.mono fun _ _ _ => ⟨w, hw, of_decide_eq_true hend⟩
  exact hends.of_ok h

/-- Every token on the way is passed by a step. -/
theorem exists_visit (h : Reaches plan start w) (hi : start.index ≤ i) (hlt : i < w.index) :
    ∃ v v', Visit plan start v v' ∧ v.index ≤ i ∧ i < v'.index := by
  induction h with
  | refl => omega
  | @tail v v' hreaches hnext ih =>
    rcases Nat.lt_or_ge i v.index with hbefore | hat
    · exact ih hbefore
    · exact ⟨v, v', ⟨hreaches, hnext⟩, hat, hlt⟩

/-- A token that is passed together with others is not the first of them, unless the first
one is not lowered by itself. -/
theorem eq_or_not_isSingleAt (h : Next plan w w') (hi : w.index ≤ i) (hlt : i < w'.index)
    (hcount : i < plan.program.count) : w.index = i ∨ ¬plan.program.IsSingleAt w.index := by
  rcases Nat.eq_or_lt_of_le hi with heq | hbefore
  · exact .inl heq
  · refine .inr fun hsingle => ?_
    have hindex := (ends_token_isSingleAt (by omega) hsingle).of_ok h
    omega

/-! ## Declarations -/

/-- The declaration of a module at an index has its path at another. -/
structure NamesPath (c : Grammar.Setting) (p : Program) (i k : Nat) : Prop where
  value : p.isTypeAt i = false
  depth : (p.tokenAt i).depth = 0
  isPathAt : p.isPathAt k = true
  stands : ∃ j, i < k ∧ k < j ∧ (Grammar.ImportStands c p.tokens i j
    ∨ Grammar.ExportStands c p.tokens i j ∧ (p.kindAt (i + 1) = .star ∨ p.kindAt (i + 1) = .braceL))

/-- The declaration at an index names a path. -/
def Declares (c : Grammar.Setting) (p : Program) (i : Nat) (path : Text) : Prop :=
  ∃ k, NamesPath c p i k ∧ unquote (p.textAt k) = path

/-- A keyword that is lowered as if it was that of a declaration with a path. -/
def IsStray (c : Grammar.Setting) (p : Program) (i : Nat) (path : Text) : Prop :=
  p.Asks i path ∧ ¬Declares c p i path

/-- The code that a declaration goes on with once the module is loaded: none for an import. -/
def IsDeclarationCode (b : Bindings) (path code : Text) : Prop :=
  code = [] ∨ ∃ v, b.moduleName? path = some v ∧ IsExportCode b v code

theorem NamesPath.forms {p : Program} {k : Nat} (h : NamesPath c p i k)
    (hc : c.source = p.source) : (∃ j, ImportForms p i j k) ∨ ∃ j, ExportForms p i j k := by
  obtain ⟨hvalue, -, hpath, j, hik, hkj, himport | ⟨hexport, hfirst⟩⟩ := h
  · obtain ⟨k', hforms⟩ : ∃ k', ImportForms p i j k' := importForms_of_stands hc himport hvalue
    obtain rfl := hforms.toPathStands.eq hik hkj hpath
    exact .inl ⟨j, hforms⟩
  · exact .inr ⟨j, exportForms_of_stands hc hexport hvalue hfirst hik hkj hpath⟩

/-- Lowering a declaration with a path loads the path, and the path is a dependency. -/
theorem loadAt_of_namesPath {b : Bindings} {ds : Dependencies} {k : Nat}
    (hprogram : plan.program = { source, tokens }) (himports : plan.options.has .imports = true)
    (hb : plan.bindings = some b) (hc : c.source = source)
    (hds : Dependencies.ofTokens source tokens.toList o = .ok ds) (hserves : b.Serves ds)
    (hnames : NamesPath c plan.program w.index k) (hnext : Next plan w w') :
    (∃ code, IsDeclarationCode b (unquote (plan.program.textAt k)) code
        ∧ w' = w.loadAt plan.program b k code)
      ∧ ∃ d, ds.at? (unquote (plan.program.textAt k)) = some d := by
  obtain ⟨hvalue, hdepth, hpath, j, hik, hkj, hstands⟩ := hnames
  rcases hstands with himport | ⟨hexport, hfirst⟩
  · obtain ⟨ds₀, hscan, hpruned⟩ := Dependencies.exists_of_ofTokens hds
    rw [hprogram] at himport hvalue hdepth
    obtain ⟨k', im, d, hfound⟩ := exists_importFound hscan hc himport hvalue hdepth
    obtain ⟨d', hd', -⟩ := exists_at?_of_ofTokens hpruned hfound.entry
    rw [← hprogram] at hfound hd' hvalue hdepth
    obtain rfl := hfound.toPathStands.eq hik hkj hpath
    refine ⟨⟨[], .inl rfl, ?_⟩, d', hd'⟩
    have htoken := token_of_import himports hb hfound.kind hvalue hdepth hfound.next hfound.lt
      hfound.lt_count hfound.isPathAt hfound.before
    exact (EStateM.Result.ok.inj (hnext.symm.trans htoken)).2
  · rw [hprogram] at hexport hvalue hfirst hpath
    have hforms := exportForms_of_stands hc hexport hvalue hfirst hik hkj hpath
    rw [← hprogram] at hforms hvalue
    obtain ⟨v, hv, code, hcode, hw'⟩ := (ends_token_of_exportForms (E := fun _ => True) hb himports
      hforms hvalue hdepth rfl ⟨fun _ => trivial, fun _ _ => trivial, fun _ => trivial⟩).of_ok hnext
    obtain ⟨d, hd, -⟩ := (hserves.isSome_moduleName? _).mp (Option.isSome_iff_exists.mpr ⟨v, hv⟩)
    exact ⟨⟨code, .inr ⟨v, hv, hcode⟩, hw'⟩, d, hd⟩

theorem mem_loaded_loadAt (w : Work) (p : Program) (b : Bindings) (k : Nat) (code : Text) :
    unquote (p.textAt k) ∈ (w.loadAt p b k code).loaded := by
  have hmarked : unquote (p.textAt k)
      ∈ ((w.eraseTo p k).markLoaded (unquote (p.textAt k))).loaded :=
    Work.mem_loaded_markLoaded.mpr (.inl rfl)
  unfold Work.loadAt Work.dropSemicolon
  dsimp only
  split
  · exact hmarked
  · exact hmarked

end

/-! ## The whole program -/

theorem loaded_of_prepare {plan : Plan} {start : Work}
    (h : Plan.prepare source tokens o = .ok (plan, start)) : start.loaded = [] := by
  rw [(made_of_prepare h).2.2]

/-- The variables of paths are different from each other and from all other names. -/
structure HasOwnNames (b : Bindings) (source : Text) (tokens : Array Token) : Prop where
  injective : ∀ path path' v, b.moduleName? path = some v → b.moduleName? path' = some v →
    path = path'
  not_helper : ∀ path v, b.moduleName? path = some v → v ∉ b.helpers.names
  not_token : ∀ path v, b.moduleName? path = some v → ∀ t ∈ tokens,
    t.kind = .name ∨ t.kind = .jsxName → t.text source ≠ v

theorem hasOwnNames_of_fresh {b : Bindings} {names : Names}
    (h : Fresh (Names.ofTokens source tokens.toList).used
      (b.helpers.names ++ b.moduleNames.map Prod.snd) names) : HasOwnNames b source tokens := by
  obtain ⟨-, hnodup, hdisjoint⟩ := List.nodup_append.mp h.nodup
  have hmem : ∀ {path v}, b.moduleName? path = some v → v ∈ b.moduleNames.map Prod.snd :=
    fun hv => List.mem_map.mpr ⟨_, mem_of_lookup hv, rfl⟩
  refine ⟨fun path path' v hv hv' => ?_, fun path v hv hhelper => ?_, fun path v hv t ht hkind => ?_⟩
  · have hentry := List.inj_on_of_nodup_map hnodup (mem_of_lookup hv) (mem_of_lookup hv') rfl
    exact congrArg Prod.fst hentry
  · exact hdisjoint v hhelper v (hmem hv) rfl
  · rintro rfl
    refine h.free _ (List.mem_append_right _ (hmem hv)) (List.mem_map.mpr ⟨t, ?_, rfl⟩)
    simpa [List.mem_filter, ht] using hkind

/-- What is written to load the path of a declaration that is come to.  The first
declaration with the path writes the statement that loads it, unless a stray keyword is
before it.  No later one does. -/
structure LoadsOnce (plan : Plan) (start : Work) (c : Grammar.Setting) (b : Bindings)
    (ds : Dependencies) (w : Work) (path : Text) : Prop where
  load : ∃ d, ds.at? path = some d ∧ unquote d.rawPath = path ∧ b.IsLoad path d (b.load path)
  first : (∀ i < w.index, ¬Declares c plan.program i path) →
    (∀ i < w.index, ¬IsStray c plan.program i path) → b.loadOnce w.loaded path = b.load path
  later : ∀ v v', Visit plan start v v' → Reaches plan v' w → Declares c plan.program v.index path →
    b.loadOnce w.loaded path = []

/-- The work after a number of tokens is lowered. -/
def lowerTokens (plan : Plan) : Nat → Work → Option Work
  | 0, w => some w
  | n + 1, w =>
    match token plan w with
    | .ok _ w' => lowerTokens plan n w'
    | .error _ _ => none

theorem reaches_of_lowerTokens {plan : Plan} {n : Nat} {w w' : Work}
    (h : lowerTokens plan n w = some w') : Reaches plan w w' := by
  induction n generalizing w with
  | zero =>
    cases h
    exact .refl
  | succ n ih =>
    rw [lowerTokens] at h
    split at h
    · rename_i v hnext
      exact .head hnext (ih h)
    · cases h

/-- One path, written in two ways. -/
def twoQuotesSource : Text :=
  "import a from 'm';\nexport \x7bb\x7d from \"m\";\na;".toList

/-- A property that is named like a keyword, in front of a name and a literal. -/
def keywordNameSource : Text :=
  "a.import\nfrom\n'm';\nimport x from 'm';\nx;".toList

end Lower

end Downlevel
