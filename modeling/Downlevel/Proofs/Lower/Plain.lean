import Downlevel.Proofs.Lower.Declines
import Downlevel.Proofs.Lower.Walk

/-!
# Programs without extensions

A program without types, imports, exports, elements and component calls is left
to the last two rules, whatever the options are: those for number literals and
for catch clauses.
-/

namespace Downlevel

variable {E : Error → Prop}

theorem Program.exists_tokenAt {p : Program} {t : Token} (h : t ∈ p.tokens) :
    ∃ i, p.tokenAt i = t := by
  obtain ⟨i, hi⟩ := Array.mem_iff_getElem?.mp h
  exact ⟨i, by rw [Program.tokenAt, hi, Option.getD_some]⟩

/-- A program without types, imports, exports, elements and component calls. -/
structure Program.IsPlain (p : Program) : Prop where
  untyped : ∀ i, p.isTypeAt i = false
  noModule : ∀ i, p.kindAt i ≠ .kwImport ∧ p.kindAt i ≠ .kwExport
  noElement : ∀ i, p.kindAt i ≠ .jsxTagStart
  noComponent : ∀ i, p.kindAt i = .name → p.nameAt i ≠ "createReactClass".toList
  noReactClass : ∀ i, p.matchesAt i [.name, .dot, .name] = true → p.nameAt i = "React".toList →
    p.nameAt (i + 2) ≠ "createClass".toList

theorem Program.isPlain_iff {p : Program} :
    p.IsPlain ↔ ∀ i < p.count, p.isTypeAt i = false
      ∧ (p.kindAt i ≠ .kwImport ∧ p.kindAt i ≠ .kwExport) ∧ p.kindAt i ≠ .jsxTagStart
      ∧ (p.kindAt i = .name → p.nameAt i ≠ "createReactClass".toList)
      ∧ (p.matchesAt i [.name, .dot, .name] = true → p.nameAt i = "React".toList →
        p.nameAt (i + 2) ≠ "createClass".toList) := by
  constructor
  · intro h i _
    exact ⟨h.untyped i, h.noModule i, h.noElement i, h.noComponent i, h.noReactClass i⟩
  · intro h
    refine ⟨fun i => ?_, fun i => ⟨?_, ?_⟩, fun i => ?_, fun i hi => ?_, fun i hi => ?_⟩
    · by_cases hi : i < p.count
      · exact (h i hi).1
      · rw [isTypeAt, tokenAt, Array.getElem?_eq_none (Nat.le_of_not_lt hi)]
        rfl
    · intro hi
      exact (h i (lt_count_of_kindAt hi (by decide))).2.1.1 hi
    · intro hi
      exact (h i (lt_count_of_kindAt hi (by decide))).2.1.2 hi
    · intro hi
      exact (h i (lt_count_of_kindAt hi (by decide))).2.2.1 hi
    · exact (h i (lt_count_of_kindAt hi (by decide))).2.2.2.1 hi
    · have hlt := lt_count_of_kindAt (kindAt_of_matchesAt hi) (by decide)
      exact (h i hlt).2.2.2.2 hi

instance (p : Program) : Decidable p.IsPlain :=
  decidable_of_iff _ Program.isPlain_iff.symm

namespace Lower

/-! ## Rules that do not apply -/

section

variable {plan : Plan} {token : Lower Unit} {w : Work}

/-- In a plain program only the rules for number literals and catch clauses are left. -/
theorem ends_rules {Q : Unit → Work → Prop} (hp : plan.program.IsPlain)
    (hbindings : plan.options.has .imports = true →
      ∃ b, plan.bindings = some b ∧ b.replacements = [])
    (h : Ends plan (firstOf [numericSeparators, catchBinding]) w Q E) :
    Ends plan (firstOf (rules plan.options token)) w Q E := by
  refine ends_firstOf_append (fun rule hrule => ?_) h
  simp only [List.mem_append] at hrule
  rcases hrule with ((hrule | hrule) | hrule) | hrule <;> split at hrule <;> rename_i hhas <;>
    simp only [List.mem_cons, List.not_mem_nil, or_false] at hrule
  · rcases hrule with rfl | rfl
    · exact declines_elementRule (hp.noElement _)
    · exact declines_componentRule fun hname _ => ⟨hp.noComponent _ hname, hp.noReactClass _⟩
  · subst hrule
    obtain ⟨b, hb, hnone⟩ := hbindings hhas
    obtain ⟨himport, hexport⟩ := hp.noModule w.index
    exact declines_moduleRule fun _ => ⟨himport, hexport, fun _ => declines_reference hb hnone⟩
  · rcases hrule with rfl | rfl
    · exact declines_arrowParametersEnd fun _ => hp.untyped _
    · exact declines_typeRun (hp.untyped _)
  · rcases hrule with rfl | rfl | rfl
    · exact declines_arrowParametersEnd fun _ => hp.untyped _
    · exact declines_asyncTypeParameters fun _ _ => hp.untyped _
    · exact declines_typeRun (hp.untyped _)

/-- A number literal is rewritten and a catch clause gets a name, and all other
tokens are copied. -/
theorem ends_lastRules (hlt : w.index < plan.program.count) :
    Ends plan (firstOf [numericSeparators, catchBinding]) w
      (fun _ w' => w'.index = w.index + 1) E := by
  refine ends_firstOf_cons ?_ (ends_firstOf_cons ?_ ?_)
  · unfold numericSeparators
    simp only [ends_bind, ends_is]
    refine Ends.ite (fun _ => ?_) fun _ => rfl
    rw [ends_bind, ends_curText]
    refine Ends.ite (fun _ => ?_) fun _ => rfl
    rw [ends_bind, ends_replace, if_pos hlt]
    rfl
  · unfold catchBinding claim
    rw [ends_bind, ends_comes]
    refine Ends.ite (fun _ => ?_) fun _ => rfl
    simp only [ends_bind, ends_copy, if_pos hlt]
    rfl
  · unfold firstOf
    rw [ends_copy, if_pos hlt]
    rfl

end

/-! ## Preparing -/

open Linkage in
theorem scan_plain {source : Text} {ds : Dependencies} {ts : List Token}
    (h : ∀ t ∈ ts, t.kind ≠ .kwImport ∧ t.kind ≠ .kwExport) :
    Dependencies.scan source ds ts = .ok ds := by
  induction ts with
  | nil => rfl
  | cons t ts ih =>
    obtain ⟨himport, hexport⟩ := h t (List.mem_cons_self ..)
    rw [Dependencies.scan, decide_eq_false himport, Bool.false_and,
      ih fun t ht => h t (List.mem_cons_of_mem _ ht)]
    simp [hexport]

/-- Without imports and exports there is nothing to link. -/
theorem bindings_plain {source : Text} {ts : List Token} {o : Options} {names : Names}
    (h : ∀ t ∈ ts, t.kind ≠ .kwImport ∧ t.kind ≠ .kwExport) :
    Linkage.Bindings.ofTokens source ts o names = .ok ({}, names) := by
  have hdependencies : Linkage.Dependencies.ofTokens source ts o = .ok {} := by
    unfold Linkage.Dependencies.ofTokens
    rw [scan_plain h]
    dsimp only
    split <;> rfl
  unfold Linkage.Bindings.ofTokens
  rw [hdependencies]
  rfl

end Lower

/-- The plan for a program without imports, exports and elements. -/
def Plan.plain (source : Text) (tokens : Array Token) (o : Options) : Plan :=
  { program := { source, tokens }
    options := o
    bindings := if o.has .imports then some {} else none
    declared := if o.has .typescript then some (declaredValues source false tokens.toList)
      else none }

/-- The work before the first token of a program that links to nothing. -/
def Work.plain (source : Text) (tokens : Array Token) : Work :=
  { names := Names.ofTokens source tokens.toList }

namespace Lower

section

variable {source : Text} {tokens : Array Token} {o : Options} {Q : Text → Work → Prop}

theorem prepare_plain (hp : Program.IsPlain { source, tokens }) :
    Plan.prepare source tokens o = .ok (Plan.plain source tokens o, Work.plain source tokens) := by
  have hlink : ∀ t ∈ tokens.toList, t.kind ≠ .kwImport ∧ t.kind ≠ .kwExport := by
    intro t ht
    obtain ⟨i, rfl⟩ := Program.exists_tokenAt (p := { source, tokens }) (Array.mem_toList_iff.mp ht)
    exact hp.noModule i
  have helement : (tokens.any fun t => t.kind = .jsxTagStart) = false := by
    rw [Array.any_eq_false']
    intro t ht
    obtain ⟨i, rfl⟩ := Program.exists_tokenAt (p := { source, tokens }) ht
    exact mt of_decide_eq_true (hp.noElement i)
  unfold Plan.prepare Plan.plain Work.plain
  dsimp only
  rw [bindings_plain hlink, helement, Bool.and_false]
  split <;> rfl

theorem bindings_plan_plain (h : (Plan.plain source tokens o).options.has .imports = true) :
    ∃ b, (Plan.plain source tokens o).bindings = some b ∧ b.replacements = [] :=
  ⟨{}, if_pos h, rfl⟩

theorem isUntyped_of_isPlain (hp : Program.IsPlain { source, tokens }) :
    Grammar.IsUntyped tokens := by
  intro t ht
  obtain ⟨i, rfl⟩ := Program.exists_tokenAt (p := { source, tokens }) ht
  exact ⟨hp.untyped i, hp.noModule i⟩

/-! ## Putting the output together -/

theorem ends_postamble {w : Work} (h : Q [] w) :
    Ends (Plan.plain source tokens o) postamble w Q E := by
  unfold postamble Plan.plain
  rw [ends_bind, ends_read]
  by_cases himports : o.has .imports = true <;> simp [himports, h]

/-- If all tokens are passed, the output is put together from what is written. -/
theorem ends_finish {w : Work} {P : Text → Work → Prop}
    (h : Ends (Plan.plain source tokens o) (balanced token) w (fun _ w' =>
      w'.index = tokens.size ∧ Ends (Plan.plain source tokens o) preamble w'
        (fun before w'' => P before w' ∧ w'' = w') E) E) :
    Ends (Plan.plain source tokens o) finish w (fun code w' => ∃ before, P before w'
      ∧ code = shebang source ++ before
        ++ (w'.draft.out ++ Program.gapBefore { source, tokens } tokens.size)) E := by
  unfold finish
  refine h.bind fun _ w' hw' => ?_
  obtain ⟨hindex, hbefore⟩ := hw'
  have hend : (Plan.plain source tokens o).program.count ≤ w'.index := Nat.le_of_eq hindex.symm
  rw [ends_bind, ends_atEnd, decide_eq_true hend, if_pos rfl]
  refine hbefore.bind ?_
  rintro before w'' ⟨hP, rfl⟩
  rw [ends_bind]
  refine ends_postamble ?_
  rw [ends_bind, ends_finishDraft, if_pos hend, ends_bind, ends_program, ends_pure,
    List.append_nil, hindex]
  exact ⟨before, hP, rfl⟩

/-- What is shown of lowering a plain program holds of its output. -/
theorem transform_of_ends (hvalid : o.validate = .ok ())
    (hparse : Grammar.parse source o = .ok tokens) (hp : Program.IsPlain { source, tokens })
    (h : Ends (Plan.plain source tokens o) finish (Work.plain source tokens) Q E) :
    (∃ code w, transform source o = .ok code ∧ Q code w)
      ∨ ∃ e, transform source o = .error e ∧ E e := by
  have htransform := transform_eq hvalid hparse (prepare_plain hp)
  unfold Ends at h
  cases hfinish : finish (Plan.plain source tokens o) (Work.plain source tokens) with
  | ok code w =>
    rw [hfinish] at h htransform
    exact .inl ⟨code, w, htransform, h⟩
  | error e w =>
    rw [hfinish] at h htransform
    exact .inr ⟨e, htransform, h⟩

end

end Lower

end Downlevel
