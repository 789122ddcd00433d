import Downlevel.Proofs.Lower.Advances
import Mathlib.Data.List.Forall2

/-!
# Every rule goes on

Each rule that applies passes the token it is for before it lowers others.  A
class is gone through twice, but what the first time does to the draft is taken
back.
-/

namespace Downlevel.Lower

namespace Advances

/-! ## Classes -/

set_option synthInstance.maxSize 1000000000

instance : Mild .matchingContext := ⟨rfl⟩
instance : Mild .initializerEnd := ⟨rfl⟩
instance : Mild .computedName := ⟨rfl⟩
instance : Mild .classContext := ⟨rfl⟩
instance : Mild .classBody := ⟨rfl⟩
instance : Mild .constructorParameters := ⟨rfl⟩
instance : Mild .constructorBody := ⟨rfl⟩
instance : Mild .classBraceContext := ⟨rfl⟩
instance : Mild .classEnd := ⟨rfl⟩
instance : Mild .className := ⟨rfl⟩

section

variable {plan : Plan} {lo : Nat} {past : Bool} {token token' : Lower Unit} {layout : ClassLayout}

instance : Advances plan lo past Always computedNameEnd computedNameEnd := by
  unfold computedNameEnd
  refine @bind_passed _ _ _ _ _ _ _ _ _ _ (of_iterate (R := Always) (fun _ => trivial)
    (fun _ => id) ?_) inferInstance
  rintro ⟨depth, stop⟩
  refine .after fun t => ?_
  split <;> infer_instance

instance : Advances plan lo past Always memberAccess memberAccess := by
  unfold memberAccess
  refine .after fun t => ?_
  split <;> infer_instance

instance : Advances plan lo past Always classHead classHead := by
  unfold classHead
  dsimp only
  refine .after fun t => ?_
  refine .after fun id => ?_
  refine .after_passing fun _ => ?_
  refine .after fun isName => ?_
  refine .after fun isType => ?_
  split <;> infer_instance

theorem isFatal_parameterProperties {p : Program} {stop n i : Nat} {e : Error}
    (h : ClassLayout.parameterProperties p stop n i = .error e) : e.isFatal = false := by
  induction n generalizing i with
  | zero => cases h
  | succ n ih =>
    rw [ClassLayout.parameterProperties] at h
    split at h
    · cases h
    split at h
    · dsimp only at h
      split at h
      · cases hrest : ClassLayout.parameterProperties p stop n
          ((p.seek i fun j => !ClassLayout.isPropertyModifierAt p j) + 1) with
        | ok names =>
          rw [hrest] at h
          cases h
        | error e' =>
          rw [hrest] at h
          cases h
          exact ih hrest
      · cases h
        rfl
    · exact ih h

instance : Advances plan lo past Always constructorLayout constructorLayout := by
  unfold constructorLayout
  dsimp only
  refine .after_passing fun _ => ?_
  refine .after fun _ => ?_
  refine .after fun p => ?_
  refine .after fun open_ => ?_
  refine .after fun close => ?_
  cases h : ClassLayout.parameterProperties p close (close - open_) (open_ + 1) with
  | ok names => infer_instance
  | error e => exact @bind _ _ _ _ _ _ _ _ _ _ (of_error (isFatal_parameterProperties h)) fun _ => inferInstance

variable [Advances plan lo true Always token token']

/-- Output that only grew is taken back to where it was. -/
theorem restore_onward {w w' : Work} (h : Onward plan w w') :
    w'.draft.restore w.draft.snapshot = w.draft := by
  obtain ⟨t, ht⟩ := h.grows
  have hout : Text.takeBytes w'.draft.out (Text.size w.draft.out) = w.draft.out := by
    rw [← ht, Text.takeBytes_append]
  simp only [Draft.restore, Draft.snapshot, hout]

/-- Going through a class leaves no trace in the draft. -/
theorem ends_classLayout {w : Work} (hscan : Heads plan Always (scanClass token) w) :
    Ends plan (classLayout token) w (fun _ w' => w'.draft = w.draft) fun e => e.isFatal = false := by
  refine hscan.classLayout.mono fun layout w' hw' => ?_
  obtain ⟨v, ⟨honward, -⟩, rfl⟩ := hw'
  exact restore_onward honward

instance : Advances plan lo past Never (classLayout token) (classLayout token') where
  same hw := by
    have h : Advances plan lo past Always (scanClass token) (scanClass token') := inferInstance
    rw [classLayout_apply, classLayout_apply, h.same hw]
  heads hw := by
    have h : Advances plan lo past Always (scanClass token) (scanClass token') := inferInstance
    exact (ends_classLayout (h.heads hw)).mono fun _ _ heq => ⟨.of_draft hw.le heq, False.elim⟩

instance {initializers : Text} {id : Nat} : Advances plan lo true Never
    (classMembers token layout initializers id) (classMembers token' layout initializers id) := by
  unfold classMembers
  refine .before (.rounds fun fields => .after fun isEnd => ?_)
  cases fields with
  | nil => infer_instance
  | cons field rest =>
    obtain ⟨start, stop⟩ := field
    infer_instance

instance : Advances plan lo past Never (staticsName layout) (staticsName layout) := by
  unfold staticsName
  have hmodify : ∀ name, Advances plan lo past Never
      (modify fun w : Work => { w with generated := w.generated ++ [name] } : Lower Unit)
      (modify fun w => { w with generated := w.generated ++ [name] }) :=
    fun _ => of_draft fun _ => rfl
  infer_instance

end

/-! ## Brackets and types -/

section

variable {plan : Plan} {lo : Nat} {past : Bool} {token token' : Lower Unit} {start : Nat}

instance balanced [Advances plan lo past Always token token'] :
    Advances plan lo past Never (balanced token) (balanced token') := by
  unfold Lower.balanced
  refine .before (.rounds fun (braces, parens) => .after fun isEnd => ?_)
  split
  · infer_instance
  · refine .after fun t => ?_
    split <;> infer_instance

variable [Advances plan lo true Always token token']

/-! ## Elements -/

instance : Mild .tagName := ⟨rfl⟩
instance : Mild .elementChild := ⟨rfl⟩
instance : Mild .closingTag := ⟨rfl⟩
instance : Mild .tagEnd := ⟨rfl⟩

instance :
    Advances plan lo past Never (debugProperties start) (debugProperties start) := by
  unfold debugProperties
  refine .after fun plan' => ?_
  split <;> infer_instance

instance :
    Advances plan lo true Never (properties token start) (properties token' start) := by
  unfold properties
  refine .after fun debug => ?_
  cases debug <;> infer_instance

/-! ## Component calls -/

theorem isFatal_needsDisplayName {p : Program} {i : Nat} {e : Error}
    (h : needsDisplayName p i = .error e) : e.isFatal = false := by
  unfold needsDisplayName at h
  grind [Error.isFatal]

instance :
    Advances plan lo true Never (nameComponent token start) (nameComponent token' start) := by
  unfold nameComponent
  refine .after fun p => .after fun plan' => ?_
  cases displayName? p plan'.options.filePath start with
  | none => infer_instance
  | some name =>
    refine .after fun i => ?_
    cases h : needsDisplayName p i with
    | error e => exact of_error (isFatal_needsDisplayName h)
    | ok needed => cases needed <;> infer_instance

instance : Advances plan lo past Applied (componentRule token) (componentRule token') := by
  unfold componentRule
  refine .after fun p => .after fun start => ?_
  split
  · split
    · refine .after fun code => ?_
      cases code <;> infer_instance
    · infer_instance
  · infer_instance

/-! ## Imports and exports -/

instance : Mild .noBindings := ⟨rfl⟩
instance : Mild .importSource := ⟨rfl⟩
instance : Mild .functionParameters := ⟨rfl⟩
instance : Mild .functionBody := ⟨rfl⟩
instance : Mild .exportedFunctionName := ⟨rfl⟩
instance : Mild .exportedClassName := ⟨rfl⟩
instance : Mild .declarationEnd := ⟨rfl⟩
instance : Mild .exportSpecifiers := ⟨rfl⟩
instance : Mild .exportSource := ⟨rfl⟩
instance : Mild .splitCharacter := ⟨rfl⟩
instance : Mild .starHelper := ⟨rfl⟩
instance : Mild .exportForm := ⟨rfl⟩
instance {path : Text} : Mild (.moduleName path) := ⟨rfl⟩

instance {path : Text} : Advances plan lo past Never (claimLoad path) (claimLoad path) := by
  unfold claimLoad
  have hmodify : Advances plan lo past Never
      (modify fun w : Work => { w with loaded := path :: w.loaded } : Lower Unit)
      (modify fun w => { w with loaded := path :: w.loaded }) :=
    of_draft fun _ => rfl
  infer_instance

instance : Advances plan lo past Applied reference reference := by
  unfold reference
  refine .after fun t => ?_
  split
  · refine .after fun name => .after fun b => ?_
    split <;> infer_instance
  · infer_instance

instance : Advances plan lo past Always (exportVariables token) (exportVariables token') := by
  unfold exportVariables
  refine .after fun p => .after fun start => .after fun t => ?_
  cases t.rhsEnd with
  | none => infer_instance
  | some stop => cases stop <;> infer_instance

instance {defaultIndex : Nat} : Advances plan lo past Always (exportDefault token defaultIndex)
    (exportDefault token' defaultIndex) := by
  unfold exportDefault
  refine .after fun p => ?_
  dsimp only
  cases defaultFunctionName? p (p.skipTypes (defaultIndex + 1)) <;> infer_instance

instance {name exported : Text} :
    Advances plan lo past Never (specifierExport name exported) (specifierExport name exported) := by
  unfold specifierExport
  dsimp only
  refine .after fun b => ?_
  split
  · infer_instance
  · refine .after fun plan' => ?_
    split <;> infer_instance

instance : Advances plan lo past Always exportAll exportAll := by
  unfold exportAll
  refine .after fun p => .after fun i => .after fun name => ?_
  cases name <;> infer_instance

instance : Advances plan lo past Always (exportDeclaration token) (exportDeclaration token') := by
  unfold exportDeclaration
  dsimp only
  refine .after fun p => .after fun i => ?_
  split <;> infer_instance

/-! ## All rules -/

theorem firstOf {l l' : List (Lower Bool)}
    (h : List.Forall₂ (Advances plan lo past Applied) l l') :
    Advances plan lo past Always (Lower.firstOf l) (Lower.firstOf l') := by
  induction h with
  | nil => exact inferInstanceAs (Advances plan lo past Always copy copy)
  | @cons rule rule' l l' hrule _ ih =>
    -- either the rule applies and passes a token, or one of the others does
    refine bind_of (T := fun b _ => b = false) hrule (fun b => ?_)
      (fun _ _ _ hw honward _ => hw.onward honward) fun b _ _ => (Bool.eq_false_or_eq_true b)
    cases b with
    | true => exact ⟨fun _ => rfl, fun hw => ⟨.refl hw.le, nofun⟩⟩
    | false => exact ⟨ih.same, fun hw => (ih.heads hw).mono fun _ _ hw' => ⟨hw'.1, fun _ => hw'.2 trivial⟩⟩

theorem rules {o : Options} :
    List.Forall₂ (Advances plan lo past Applied) (Lower.rules o token) (Lower.rules o token') := by
  unfold Lower.rules
  refine List.rel_append (List.rel_append (List.rel_append (List.rel_append ?_ ?_) ?_) ?_) ?_
  · split
    · exact .cons inferInstance (.cons inferInstance .nil)
    · exact .nil
  · split
    · exact .cons inferInstance .nil
    · exact .nil
  · split
    · exact .cons inferInstance (.cons inferInstance .nil)
    · exact .nil
  · split
    · exact .cons inferInstance (.cons inferInstance (.cons inferInstance .nil))
    · exact .nil
  · exact .cons inferInstance (.cons inferInstance .nil)

instance tokenStep : Advances plan lo past Always (Lower.tokenStep token) (Lower.tokenStep token') := by
  unfold Lower.tokenStep
  refine .after fun t => ?_
  split
  · infer_instance
  · exact .after fun plan' => firstOf rules

end

end Advances

end Downlevel.Lower
