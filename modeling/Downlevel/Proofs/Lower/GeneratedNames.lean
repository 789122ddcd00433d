import Downlevel.Proofs.Linkage.Bindings
import Downlevel.Proofs.Lower.Progress
import Downlevel.Proofs.Lower.Trace

/-!
# Generated names of a program

The variables of modules, the helpers and the variable for the name of the file are taken
before a program is lowered, and the other variables while it is.  All of them are taken from
one stock of names, which starts with the identifiers of the program and only grows, so no two
of them are the same.
-/

set_option synthInstance.maxSize 1000000000

namespace Downlevel

variable {plan : Plan}

namespace Lower

/-- Names change by claims, and each variable that is declared in front of the program is
claimed for that. -/
theorem Trace.exists_claimAll {w w' : Work} (h : Trace plan w w') :
    ∃ bases declared, w'.names = (w.names.claimAll bases).2
      ∧ w'.generated = w.generated ++ declared ∧ declared.Sublist (w.names.claimAll bases).1 := by
  induction h with
  | refl => exact ⟨[], [], rfl, (List.append_nil _).symm, .slnil⟩
  | edit _ _ ih => exact ih
  | note _ _ _ ih => exact ih
  | claim base _ ih =>
    obtain ⟨bases, declared, hnames, hgenerated, hsub⟩ := ih
    refine ⟨bases ++ [base], declared, ?_, hgenerated, ?_⟩
    · rw [Names.claimAll_append, hnames]
      rfl
    · rw [Names.claimAll_append]
      exact hsub.trans (List.sublist_append_left _ _)
  | generate base _ ih =>
    rename_i v _
    obtain ⟨bases, declared, hnames, hgenerated, hsub⟩ := ih
    refine ⟨bases ++ [base], declared ++ [(v.names.claim base).1], ?_, ?_, ?_⟩
    · rw [Names.claimAll_append, hnames]
      rfl
    · rw [hgenerated, List.append_assoc]
    · rw [Names.claimAll_append]
      rw [hnames]
      exact hsub.append (List.Sublist.refl _)
  | trial _ _ ih ih' =>
    obtain ⟨bases, declared, hnames, hgenerated, hsub⟩ := ih
    obtain ⟨bases', declared', hnames', hgenerated', hsub'⟩ := ih'
    refine ⟨bases ++ bases', declared ++ declared', ?_, ?_, ?_⟩
    · rw [Names.claimAll_append, hnames', hnames]
    · rw [hgenerated', hgenerated, List.append_assoc]
    · rw [Names.claimAll_append]
      rw [hnames] at hsub'
      exact hsub.append hsub'

/-- What is claimed at some point is among the names that are claimed in all. -/
theorem Trace.mem_claimAll {w v v' w' : Work} {base : String} {name : Text} {bases : List Text}
    (h : Trace plan w v) (hclaim : Lower.claim base plan v = .ok name v') (h' : Trace plan v' w')
    (hnames : w'.names = (w.names.claimAll bases).2) :
    name ∈ (w.names.claimAll bases).1 := by
  obtain ⟨before, -, hbefore, -, -⟩ := h.exists_claimAll
  obtain ⟨after, -, hafter, -, -⟩ := h'.exists_claimAll
  cases hclaim
  have hused : (v.names.claim base.toList).1 ∈ w'.names.used := by
    rw [hafter, Names.used_claimAll]
    exact List.mem_append_right _ List.mem_cons_self
  rw [hnames, Names.used_claimAll] at hused
  rcases List.mem_append.mp hused with hmem | hmem
  · exact List.mem_reverse.mp hmem
  · have hmem' : (v.names.claim base.toList).1 ∈ v.names.used := by
      rw [congrArg Names.used hbefore, Names.used_claimAll]
      exact List.mem_append_right _ hmem
    exact absurd hmem' (v.names.findFree_not_mem base.toList)

end Lower

namespace Plan

/-- The variables that are taken before a program is lowered: the helpers, the variables of
modules, and the one for the name of the file. -/
def variableNames (plan : Plan) : List Text :=
  plan.fileNameVariable.toList
    ++ plan.bindings.toList.flatMap fun b => b.helpers.names ++ b.moduleNames.map Prod.snd

theorem fresh_of_prepare {source : Text} {tokens : Array Token} {o : Options} {w : Work}
    (h : Plan.prepare source tokens o = .ok (plan, w)) :
    Linkage.Fresh (Names.ofTokens source tokens.toList).used plan.variableNames w.names := by
  have hfile {b : Option Linkage.Bindings} {names : Names}
      (hfresh : Linkage.Fresh (Names.ofTokens source tokens.toList).used
        (b.toList.flatMap fun b => b.helpers.names ++ b.moduleNames.map Prod.snd) names)
      (hplan : plan.bindings = b)
      (hnames : (plan.fileNameVariable, w.names) =
        if o.has .jsx && o.filePath.isSome && tokens.any fun t => t.kind = .jsxTagStart then
          (some (names.claim "_jsxFileName".toList).1, (names.claim "_jsxFileName".toList).2)
        else (none, names)) :
      Linkage.Fresh (Names.ofTokens source tokens.toList).used plan.variableNames w.names := by
    unfold Plan.variableNames
    rw [hplan]
    split at hnames <;> obtain ⟨hvariable, hleft⟩ := Prod.mk.inj hnames <;> rw [hvariable, hleft]
    · exact hfresh.claim _
    · simpa using hfresh
  unfold Plan.prepare at h
  dsimp only at h
  split at h
  · cases hbindings : Linkage.Bindings.ofTokens source tokens.toList o
        (Names.ofTokens source tokens.toList) with
    | error e =>
      rw [hbindings] at h
      cases h
    | ok found =>
      rw [hbindings] at h
      obtain ⟨-, -, -, -, -, hfresh⟩ := Linkage.Bindings.exists_of_ofTokens hbindings
      obtain ⟨rfl, rfl⟩ := Prod.mk.inj (Except.ok.inj h)
      exact hfile (b := some found.1) (by simpa using hfresh) rfl rfl
  · obtain ⟨rfl, rfl⟩ := Prod.mk.inj (Except.ok.inj h)
    exact hfile (b := none) (.nil _) rfl rfl

end Plan

/-- **Generated names are fresh.**  Whatever names are asked for one after the other, each
result is the base or the first free number after it, and no two of them are the same, nor is
one of them an identifier of the program.  So it is when a program is lowered: the names that
are claimed on the way, some of them for variables that are declared in front of the program,
and the ones that were taken before it, are different from each other and from all
identifiers. -/
theorem generatedNames_fresh {source : Text} {tokens : Array Token} {o : Options} {plan : Plan}
    {w : Work} (hprepare : Plan.prepare source tokens o = .ok (plan, w)) :
    (∀ (source : Text) (tokens : List Token) (bases : List Text),
      let n := Names.ofTokens source tokens
      (∀ base, (n.claimAll bases).2.IsFirstFree base ((n.claimAll bases).2.claim base).1)
        ∧ (n.claimAll bases).1.Nodup
        ∧ ∀ name ∈ (n.claimAll bases).1, ∀ t ∈ tokens, t.kind = .name ∨ t.kind = .jsxName →
          t.text source ≠ name)
    ∧ ∃ bases, (stateAfter (Lower.finish plan w)).names = (w.names.claimAll bases).2
      ∧ (∀ base v name v', Lower.Trace plan w v → Lower.claim base plan v = .ok name v' →
        Lower.Trace plan v' (stateAfter (Lower.finish plan w)) → name ∈ (w.names.claimAll bases).1)
      ∧ (stateAfter (Lower.finish plan w)).generated.Sublist (w.names.claimAll bases).1
      ∧ (plan.variableNames ++ (w.names.claimAll bases).1).Nodup
      ∧ ∀ name ∈ plan.variableNames ++ (w.names.claimAll bases).1, ∀ t ∈ tokens,
        t.kind = .name ∨ t.kind = .jsxName → t.text source ≠ name := by
  have hspelled {source : Text} {tokens : List Token} {name : Text}
      (hname : name ∉ (Names.ofTokens source tokens).used) {t : Token} (ht : t ∈ tokens)
      (hkind : t.kind = .name ∨ t.kind = .jsxName) : t.text source ≠ name := by
    rintro rfl
    refine hname (List.mem_map.mpr ⟨t, ?_, rfl⟩)
    simpa [List.mem_filter, ht] using hkind
  refine ⟨fun source tokens bases => ?_, ?_⟩
  · obtain ⟨hnodup, hfree⟩ := (Names.ofTokens source tokens).nodup_claimAll bases
    exact ⟨fun base => Names.isFirstFree_claim _ base, hnodup, fun name hname t ht hkind =>
      hspelled (hfree name hname) ht hkind⟩
  · obtain ⟨bases, declared, hnames, hgenerated, hsub⟩ :=
      ((inferInstance : Lower.Traced plan Lower.finish Lower.Counted.finish).trace w).exists_claimAll
    have hfresh := Plan.fresh_of_prepare hprepare
    obtain ⟨hnodup, hfree⟩ := w.names.nodup_claimAll bases
    have hstart : w.generated = [] := congrArg Work.generated (made_of_prepare hprepare).2.2
    rw [hstart, List.nil_append] at hgenerated
    refine ⟨bases, hnames, fun _ _ _ _ h hclaim h' => h.mem_claimAll hclaim h' hnames,
      hgenerated ▸ hsub, ?_, ?_⟩
    · refine List.nodup_append.mpr ⟨hfresh.nodup, hnodup, ?_⟩
      rintro name hvariable _ hclaimed rfl
      exact hfree name hclaimed (hfresh.taken name hvariable)
    · intro name hname t ht hkind
      refine hspelled ?_ (Array.mem_toList_iff.mpr ht) hkind
      rcases List.mem_append.mp hname with hvariable | hclaimed
      · exact hfresh.free name hvariable
      · exact fun hused => hfree name hclaimed (hfresh.used hused)

/-- A class expression with a static field whose name looks generated, and an element in it. -/
def classNameSource : Text :=
  "x = class \x7b static _class = <a/> \x7d; try \x7b\x7d catch \x7b\x7d".toList

theorem generatedNames_of_classNameSource : ∃ tokens plan w bases,
    Grammar.parse classNameSource { transforms := [.jsx], filePath := some "f".toList } = .ok tokens
    ∧ Plan.prepare classNameSource tokens { transforms := [.jsx], filePath := some "f".toList }
      = .ok (plan, w)
    ∧ plan.variableNames = ["_jsxFileName".toList]
    ∧ (stateAfter (Lower.finish plan w)).generated = ["_class2".toList]
    ∧ (stateAfter (Lower.finish plan w)).names = (w.names.claimAll bases).2
    ∧ (plan.variableNames ++ (w.names.claimAll bases).1).Nodup := by
  have h : preparesWith classNameSource { transforms := [.jsx], filePath := some "f".toList }
      (fun plan w => decide (plan.variableNames = ["_jsxFileName".toList]
        ∧ (stateAfter (Lower.finish plan w)).generated = ["_class2".toList])) = true := by
    decide +kernel
  obtain ⟨tokens, plan, w, hparse, hprepare, htest⟩ := exists_of_preparesWith h
  obtain ⟨hvariables, hgenerated⟩ := of_decide_eq_true htest
  obtain ⟨-, bases, hnames, -, -, hnodup, -⟩ := generatedNames_fresh hprepare
  exact ⟨tokens, plan, w, bases, hparse, hprepare, hvariables, hgenerated, hnames, hnodup⟩

end Downlevel
