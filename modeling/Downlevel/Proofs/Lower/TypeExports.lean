import Downlevel.Proofs.Lower.Paths

/-!
# Exports of types

An export that has nothing but types is a type as a whole: it is passed when the
dependencies are collected, and erased.  That does not hold for an export of a default,
whose `default` is no type.  It counts as an export, and what comes behind the erased
types is exported in their place.
-/

namespace Downlevel

open Linkage

/-- With the start of an assignment in place of `export default`. -/
def Work.assignDefault (w : Work) (p : Program) : Work :=
  ((w.write (p.gapBefore w.index ++ "exports.default =".toList)).moveTo (w.index + 1)).replaceNext p []

namespace Lower

section

variable {plan : Plan} {w : Work} {E : Error → Prop}

/-- The code that exports a default is the last in front of the program, or it is written. -/
def ExportsDefault (w : Work) : Prop :=
  (∃ before name, w.hoisted = before ++ [exportCode "default".toList name])
    ∨ ∃ before after, w.draft.out = before ++ ("exports.default =".toList ++ after)

theorem exportsDefault_assignDefault (w : Work) (p : Program) :
    ExportsDefault (w.assignDefault p) := by
  right
  refine ⟨w.draft.out ++ p.gapBefore w.index, Text.newlines (p.gapBefore (w.index + 1)), ?_⟩
  change w.draft.out ++ (_ ++ _) ++ (_ ++ []) = _
  simp only [List.append_assoc, List.append_nil]
  rfl

theorem exportsDefault_append (w : Work) (name : Text) :
    ExportsDefault (w.write (" ".toList ++ exportCode "default".toList name)) := by
  right
  refine ⟨w.draft.out ++ " ".toList, " ".toList ++ (name ++ ";".toList), ?_⟩
  have hstart : "exports.".toList ++ "default".toList ++ " = ".toList
      = "exports.default =".toList ++ " ".toList := by decide +kernel
  have hcode : exportCode "default".toList name
      = "exports.default =".toList ++ " ".toList ++ name ++ ";".toList :=
    congrArg (fun t => t ++ name ++ ";".toList) hstart
  change w.draft.out ++ (" ".toList ++ exportCode "default".toList name) = _
  rw [hcode]
  simp only [List.append_assoc]

theorem ends_removeTo_next (hlt : w.index < plan.program.count) :
    Ends plan (repeatTo (w.index + 1) remove) w (fun _ v => v = w.replaceNext plan.program []) E := by
  refine Ends.repeatWhile (fun v => v = w ∨ v = w.replaceNext plan.program []) ?_ (.inl rfl)
  rintro v (rfl | rfl)
  · refine ⟨Nat.le_of_lt hlt, ?_⟩
    rw [ends_bind, ends_index]
    rw [ends_pure, if_pos (by simp), ends_remove, if_pos hlt, Work.replaceNext, List.append_nil]
    exact ⟨.inr rfl, Nat.lt_succ_self _⟩
  · have hindex : (w.replaceNext plan.program []).index = w.index + 1 := rfl
    refine ⟨hlt, ?_⟩
    rw [ends_bind, ends_index, hindex, ends_pure, if_neg (by simp)]

/-- Does the export of a default at an index give a function or a class a name? -/
def namesDefault (p : Program) (start : Nat) : Bool :=
  (defaultFunctionName? p start).isSome || isNamedClassAt p start

/-- An export of a default that ends without an error has written one, whatever is
exported.  It starts an assignment if that is neither a function nor a class with a name. -/
theorem ends_exportDefault (hkind : plan.program.kindAt (w.index + 1) = .kwDefault) :
    Ends plan (exportDefault token (w.index + 1)) w
      (fun _ w' => ExportsDefault w'
        ∧ (namesDefault plan.program (plan.program.skipTypes (w.index + 2)) = false →
          w' = w.assignDefault plan.program))
      fun _ => namesDefault plan.program (plan.program.skipTypes (w.index + 2)) = true := by
  have hlt : w.index + 1 < plan.program.count := Program.lt_count_of_kindAt hkind (by decide)
  unfold exportDefault
  rw [ends_bind, ends_program]
  dsimp only
  cases hfunction : defaultFunctionName? plan.program (plan.program.skipTypes (w.index + 2)) with
  | some nameIndex =>
    have hnames : namesDefault plan.program (plan.program.skipTypes (w.index + 2)) = true := by
      simp [namesDefault, hfunction]
    dsimp only
    rw [hnames, ends_bind]
    refine Ends.trivial.weaken (fun _ w₁ _ => ?_) fun _ _ => rfl
    rw [ends_bind]
    refine Ends.trivial.weaken (fun name w₂ _ => ?_) fun _ _ => rfl
    exact ⟨.inl ⟨w₂.hoisted, name, rfl⟩, by simp⟩
  | none =>
    dsimp only
    by_cases hclass : isNamedClassAt plan.program (plan.program.skipTypes (w.index + 2)) = true
    · have hnames : namesDefault plan.program (plan.program.skipTypes (w.index + 2)) = true := by
        simp [namesDefault, hclass]
      rw [if_pos hclass, hnames, ends_bind]
      refine Ends.trivial.weaken (fun _ w₁ _ => ?_) fun _ _ => rfl
      rw [ends_bind]
      refine Ends.trivial.weaken (fun _ w₂ _ => ?_) fun _ _ => rfl
      rw [ends_append]
      exact ⟨exportsDefault_append w₂ _, by simp⟩
    · rw [if_neg hclass, ends_bind, ends_replace, if_pos (Nat.lt_of_succ_lt hlt)]
      have hlt' : ((w.write (plan.program.gapBefore w.index ++ "exports.default =".toList)).moveTo
          (w.index + 1)).index < plan.program.count := hlt
      refine (ends_removeTo_next hlt').mono ?_
      rintro _ _ rfl
      exact ⟨exportsDefault_assignDefault w plan.program, fun _ => rfl⟩

/-- Types are passed when the dependencies are collected. -/
theorem scan_drop {p : Program} {ds : Dependencies} {i j : Nat} (hij : i ≤ j)
    (htypes : ∀ k, i ≤ k → k < j → p.isTypeAt k = true) :
    Dependencies.scan p.source ds (p.tokens.toList.drop i)
      = Dependencies.scan p.source ds (p.tokens.toList.drop j) := by
  induction hij with
  | refl => rfl
  | @step j hij ih =>
    have htype := htypes j hij (Nat.lt_succ_self j)
    rw [ih fun k hik hkj => htypes k hik (Nat.lt_succ_of_lt hkj),
      Program.drop_eq_cons (Program.lt_count_of_isTypeAt htype)]
    exact Dependencies.scan_cons_of_isType htype

theorem any_isType (p : Program) (k : Nat) : (p.tokens[k]?).any Token.isType = p.isTypeAt k := by
  unfold Program.isTypeAt Program.tokenAt
  cases p.tokens[k]? <;> rfl

/-- The index of what an export exports. -/
def exportedIndex (p : Program) (i : Nat) : Nat :=
  if p.kindAt (i + 1) = .kwDefault then i + 2 else i + 1

end

/-- **Exports of types vanish.**  Take an export at the top level of a program with imports
lowered and types erased, read as the tokens from `i` up to `j`, and suppose that what it
exports is only types.  Then its keyword is part of a type, too, collecting the
dependencies goes on behind it as if it was not there, and lowering erases it together
with the types behind it.

An export of a default whose `default` is no type is different.  Its keyword is no type
either, the program has a default export by it, and lowering writes one of what comes
behind the types. -/
theorem type_exports_vanish {source : Text} {o : Options} {tokens : Array Token} {plan : Plan}
    {start : Work} {c : Grammar.Setting} {i j : Nat}
    (hprepare : Plan.prepare source tokens o = .ok (plan, start))
    (himports : o.has .imports = true)
    (htypes : o.has .typescript = true ∨ o.has .flow = true)
    (hstands : Grammar.ExportStands c tokens i j) (hdepth : (plan.program.tokenAt i).depth = 0)
    (hlt : exportedIndex plan.program i < j)
    (honly : ∀ k, exportedIndex plan.program i ≤ k → k < j → plan.program.isTypeAt k = true) :
    (plan.program.kindAt (i + 1) ≠ .kwDefault ∨ plan.program.isTypeAt (i + 1) = true →
      plan.program.isTypeAt i = true
      ∧ (∀ ds, Dependencies.scan source ds (tokens.toList.drop i)
        = Dependencies.scan source ds (tokens.toList.drop j))
      ∧ plan.program.skipTypes i = plan.program.skipTypes j
      ∧ ∀ w : Work, w.index = i →
        token plan w = .ok () (w.eraseTo plan.program (plan.program.skipTypes j)))
    ∧ (plan.program.kindAt (i + 1) = .kwDefault → plan.program.isTypeAt (i + 1) = false →
      plan.program.isTypeAt i = false
      ∧ (∃ b, plan.bindings = some b ∧ b.hasDefaultExport = true)
      ∧ ∀ w : Work, w.index = i →
        (namesDefault plan.program (plan.program.skipTypes j) = false →
          token plan w = .ok () (w.assignDefault plan.program))
        ∧ ∀ w', token plan w = .ok () w' → ExportsDefault w') := by
  obtain ⟨hprogram, hoptions, -⟩ := eq_of_prepare hprepare
  obtain ⟨t, hget, hkind⟩ := hstands.kind_first
  have htokens : plan.program.tokens = tokens := by rw [hprogram]
  have hfirst : plan.program.kindAt i = .kwExport := by
    rw [Program.kindAt, Program.tokenAt, htokens, hget, Option.getD_some, hkind]
  have hbound : i + 1 ≤ exportedIndex plan.program i := by
    unfold exportedIndex
    split <;> omega
  refine ⟨fun hsecond => ?_, fun hdefault hvalue => ?_⟩
  · have hsecond' : plan.program.isTypeAt (i + 1) = true := by
      rcases hsecond with hne | htype
      · exact honly (i + 1) (Nat.le_of_eq (if_neg hne)) (by omega)
      · exact htype
    have htype : plan.program.isTypeAt i = true := by
      rw [← any_isType, htokens]
      refine hstands.isType (by omega) ?_ ?_
      · rw [← htokens, any_isType, hsecond']
      · rw [← htokens, any_isType, honly (j - 1) (by omega) (by omega)]
    have hall : ∀ k, i ≤ k → k < j → plan.program.isTypeAt k = true := by
      intro k hik hkj
      by_cases hfirst : k = i
      · rw [hfirst, htype]
      · by_cases hnext : k = i + 1
        · rw [hnext, hsecond']
        · refine honly k ?_ hkj
          unfold exportedIndex
          split <;> omega
    have hskip := Program.skipTypes_eq_skipTypes (by omega) hall
    refine ⟨htype, fun ds => ?_, hskip, ?_⟩
    · have hscan : Dependencies.scan plan.program.source ds (plan.program.tokens.toList.drop i) = _ :=
        scan_drop (by omega) hall
      rwa [hprogram] at hscan
    · rintro w rfl
      rw [← hskip]
      exact token_of_isType (hoptions ▸ htypes) htype (by simp [hfirst]) (by simp [hfirst])
  · have hexported : exportedIndex plan.program i = i + 2 := if_pos hdefault
    have hsecond : tokens[i + 1]? = some (plan.program.tokenAt (i + 1)) := by
      rw [← htokens]
      exact Program.tokenAt_of_lt (Program.lt_count_of_kindAt hdefault (by decide))
    have hkeyword : plan.program.isTypeAt i = false := by
      rw [← any_isType, htokens]
      exact hstands.not_isType (by omega) hsecond hdefault hvalue
    have hskip : plan.program.skipTypes (i + 2) = plan.program.skipTypes j :=
      Program.skipTypes_eq_skipTypes (by omega) fun k hik hkj => honly k (by omega) hkj
    refine ⟨hkeyword, ?_, ?_⟩
    · obtain ⟨b, names, hb, hofTokens⟩ := exists_bindings_of_prepare hprepare himports
      obtain ⟨ds, hds, -, hflag, -⟩ := Bindings.exists_of_ofTokens hofTokens
      obtain ⟨ds₀, hscan, hpruned⟩ := Dependencies.exists_of_ofTokens hds
      obtain ⟨ds₁, hrest⟩ := Dependencies.exists_scan_drop hscan i
      rw [← htokens, Program.drop_eq_cons (Program.lt_count_of_kindAt hfirst (by decide)),
        Program.drop_eq_cons (Program.lt_count_of_kindAt hdefault (by decide))] at hrest
      have hscanned : ds₀.hasDefaultExport = true :=
        Dependencies.hasDefaultExport_of_scan_export hfirst hkeyword hdepth hdefault hvalue hrest
      refine ⟨b, hb, hflag.trans ?_⟩
      rw [hpruned]
      split
      · exact hscanned
      · exact hscanned
    · rintro w rfl
      have hends := ends_token_of_export (hoptions ▸ himports) hfirst hkeyword hdepth
        (Q := fun _ w' => ExportsDefault w'
          ∧ (namesDefault plan.program (plan.program.skipTypes (w.index + 2)) = false →
            w' = w.assignDefault plan.program))
        (E := fun _ => namesDefault plan.program (plan.program.skipTypes (w.index + 2)) = true) (by
          unfold exportDeclaration
          rw [ends_bind, ends_program, ends_bind, ends_index]
          dsimp only
          rw [Program.skipTypes_eq_self hvalue, hdefault]
          exact ends_exportDefault hdefault)
      rw [hskip] at hends
      refine ⟨fun hnames => ?_, fun w' hrun => (hends.of_ok hrun).1⟩
      obtain ⟨_, w', hrun, -, hexact⟩ := exists_ok_of_ends
        (hends.weaken (fun _ _ h => h) fun _ hnames' => by simp [hnames] at hnames')
      rw [hrun, hexact hnames]

/-- A signature is exported in front of its function. -/
def signatureSource : Text :=
  "export function f(): void;\nexport function f() \x7b\x7d".toList

/-- An interface is exported as the default. -/
def defaultInterfaceSource : Text :=
  "export default interface A \x7b\x7d".toList

/-- An export of types at the start of a source. -/
def exportsTypes (source : Text) (j : Nat) (plan : Plan) : Bool :=
  decide ((plan.program.tokenAt 0).depth = 0 ∧ exportedIndex plan.program 0 < j
    ∧ ∀ k < j, exportedIndex plan.program 0 ≤ k → plan.program.isTypeAt k = true)
  && Grammar.readsFirst .kwExport (Grammar.exportRule Grammar.run)
    (.ofOptions source typedOptions) plan.program.tokens j

/-- The export of a signature is erased. -/
theorem type_exports_vanish_signatureSource : ∃ tokens plan start,
    Grammar.parse signatureSource typedOptions = .ok tokens
    ∧ Plan.prepare signatureSource tokens typedOptions = .ok (plan, start)
    ∧ plan.program.isTypeAt 0 = true
    ∧ token plan start = .ok () (start.eraseTo plan.program 8) := by
  have h : preparesWith signatureSource typedOptions
      (fun plan start => exportsTypes signatureSource 8 plan
        && decide (start.index = 0 ∧ plan.program.kindAt 1 ≠ .kwDefault
          ∧ plan.program.skipTypes 8 = 8)) = true := by decide +kernel
  obtain ⟨tokens, plan, start, hparse, hprepare, htest⟩ := exists_of_preparesWith h
  simp only [exportsTypes, Bool.and_eq_true, decide_eq_true_eq] at htest
  obtain ⟨⟨⟨hdepth, hlt, honly⟩, hreads⟩, hstart, hkind, hskip⟩ := htest
  obtain ⟨hprogram, -⟩ := eq_of_prepare hprepare
  have hstands : Grammar.ExportStands (.ofOptions signatureSource typedOptions) tokens 0 8 := by
    have hstands' := Grammar.exportStands_of_readsAfter hreads
    rwa [hprogram] at hstands'
  obtain ⟨hvanishes, -⟩ := type_exports_vanish hprepare (by decide) (by decide) hstands hdepth hlt
    fun k hle hlt => honly k hlt hle
  obtain ⟨htype, -, -, htoken⟩ := hvanishes (.inl hkind)
  rw [hskip] at htoken
  exact ⟨tokens, plan, start, hparse, hprepare, htype, htoken start hstart⟩

/-- Not every export of types is erased. -/
theorem not_token_of_type_export :
    ¬∀ (source : Text) (o : Options) (tokens : Array Token) (plan : Plan) (start : Work)
        (c : Grammar.Setting) (i j : Nat),
      Grammar.parse source o = .ok tokens → Plan.prepare source tokens o = .ok (plan, start) →
      o.has .imports = true → o.has .typescript = true ∨ o.has .flow = true →
      Grammar.ExportStands c tokens i j → (plan.program.tokenAt i).depth = 0 →
      exportedIndex plan.program i < j →
      (∀ k, exportedIndex plan.program i ≤ k → k < j → plan.program.isTypeAt k = true) →
      ∀ w : Work, w.index = i →
        token plan w = .ok () (w.eraseTo plan.program (plan.program.skipTypes j)) := by
  intro hall
  have h : preparesWith defaultInterfaceSource typedOptions
      (fun plan start => exportsTypes defaultInterfaceSource 6 plan
        && decide (start.index = 0)
        && okWith (token plan start) fun _ w => decide (w.index ≠ plan.program.skipTypes 6)) = true := by
    decide +kernel
  obtain ⟨tokens, plan, start, hparse, hprepare, htest⟩ := exists_of_preparesWith h
  simp only [exportsTypes, Bool.and_eq_true, decide_eq_true_eq] at htest
  obtain ⟨⟨⟨⟨hdepth, hlt, honly⟩, hreads⟩, hstart⟩, hindex⟩ := htest
  obtain ⟨hprogram, -⟩ := eq_of_prepare hprepare
  have hstands : Grammar.ExportStands (.ofOptions defaultInterfaceSource typedOptions) tokens 0 6 := by
    have hstands' := Grammar.exportStands_of_readsAfter hreads
    rwa [hprogram] at hstands'
  rw [hall _ _ tokens plan start _ 0 6 hparse hprepare (by decide) (by decide) hstands hdepth hlt
    (fun k hle hlt => honly k hlt hle) start hstart] at hindex
  exact absurd rfl (of_decide_eq_true hindex)

end Lower

end Downlevel
