import Downlevel.Proofs.Edit.Line
import Downlevel.Proofs.Lower.ClassScan
import Downlevel.Proofs.Lower.Counted
import Downlevel.Proofs.Lower.Declines
import Downlevel.Proofs.Lower.Unfold
import Mathlib.Data.List.Forall2

/-!
# What lowering does to its work

Whatever is lowered, and whether it goes through or fails, the work changes by edits of
the draft, by names that are taken, and by notes of what was loaded, hoisted or generated.
A class is gone through on trial before it is written, and after the trial the draft is put
back.  `Traced plan p q` says so for a step `p`, and that `q`, which counts lines from the
start of the source, does the same from a draft with the right line; it is put together from
what the parts of the step do, so most of it is found by instances.
-/

set_option synthInstance.maxSize 1000000000

namespace Downlevel.Lower

/-- What steps of lowering can make of some work. -/
inductive Trace (plan : Plan) : Work → Work → Prop
  | refl {w : Work} : Trace plan w w
  | edit {w v : Work} (o : Operation) (h : Trace plan w v) :
      Trace plan w { v with draft := o.apply plan.program v.draft }
  | claim {w v : Work} (base : Text) (h : Trace plan w v) :
      Trace plan w { v with names := (v.names.claim base).2 }
  | generate {w v : Work} (base : Text) (h : Trace plan w v) :
      Trace plan w { v with
        names := (v.names.claim base).2, generated := v.generated ++ [(v.names.claim base).1] }
  | note {w v : Work} (loaded hoisted : List Text) (h : Trace plan w v) :
      Trace plan w { v with loaded, hoisted }
  | trial {w v v' : Work} (h : Trace plan w v) (h' : Trace plan v v') :
      Trace plan w { v' with draft := v'.draft.restore v.draft.snapshot }

section

variable {plan : Plan} {w w' w'' : Work}

theorem Trace.trans (h : Trace plan w w') (h' : Trace plan w' w'') : Trace plan w w'' := by
  induction h' with
  | refl => exact h
  | edit o _ ih => exact (ih h).edit o
  | claim base _ ih => exact (ih h).claim base
  | generate base _ ih => exact (ih h).generate base
  | note loaded hoisted _ ih => exact (ih h).note loaded hoisted
  | trial _ hv' ih _ => exact (ih h).trial hv'

/-- The draft changes by a script, in which trials are previews. -/
theorem Trace.exists_script (h : Trace plan w w') :
    ∃ s : Script, w'.draft = s.run plan.program w.draft := by
  induction h with
  | refl => exact ⟨.done, rfl⟩
  | edit o _ ih =>
    obtain ⟨s, hs⟩ := ih
    refine ⟨s.andThen (.step o .done), ?_⟩
    rw [Script.run_andThen, ← hs]
    rfl
  | claim _ _ ih => exact ih
  | generate _ _ ih => exact ih
  | note _ _ _ ih => exact ih
  | trial _ _ ih ih' =>
    obtain ⟨s, hs⟩ := ih
    obtain ⟨inner, hinner⟩ := ih'
    refine ⟨s.andThen (.preview inner .done), ?_⟩
    rw [Script.run_andThen, ← hs, hinner]
    rfl

/-- Nothing puts the line wrong that was asked for last. -/
theorem Trace.lineRight (h : Trace plan w w') (hw : w.draft.LineRight plan.program) :
    w'.draft.LineRight plan.program := by
  induction h with
  | refl => exact hw
  | edit o _ ih => exact (ih hw).apply o
  | claim _ _ ih => exact ih hw
  | generate _ _ ih => exact ih hw
  | note _ _ _ ih => exact ih hw
  | trial _ _ ih _ => exact (ih hw).restore

end

/-- A step that only does what leaves a trace, also if it fails, and that does the same as
another one from a draft with the right line. -/
class Traced {α : Type} (plan : Plan) (p q : Lower α) : Prop where
  trace : ∀ w, Trace plan w (stateAfter (p plan w))
  same : ∀ w, w.draft.LineRight plan.program → p plan w = q plan w

namespace Traced

section

variable {α β σ : Type} {plan : Plan} {p p' q q' : Lower α} {f f' : α → Lower β} {kind : Kind}
  {t : Text} {step step' : σ → Lower (ForInStep σ)}

/-! ## Single steps -/

theorem of_still (h : ∀ w, stateAfter (p plan w) = w) : Traced plan p p where
  trace w := by
    rw [h w]
    exact .refl
  same _ _ := rfl

instance (priority := low) [Looks p] : Traced plan p p :=
  of_still fun w => by
    obtain ⟨a, ha⟩ := Looks.exists_eq p plan w
    rw [ha]
    rfl

instance : Traced plan (get : Lower Work) get := of_still fun _ => rfl
instance {e : Error} : Traced plan (throw e : Lower α) (throw e) := of_still fun _ => rfl
instance {b : Breach} : Traced plan (breach b : Lower α) (breach b) := of_still fun _ => rfl

instance {o : Option α} {b : Breach} : Traced plan (orBreach o b) (orBreach o b) :=
  of_still fun _ => by cases o <;> rfl

instance {base : String} : Traced plan (claim base) (claim base) where
  trace _ := .claim base.toList .refl
  same _ _ := rfl

instance {code : Text} : Traced plan (hoist code) (hoist code) where
  trace w := .note w.loaded (w.hoisted ++ [code]) .refl
  same _ _ := rfl

theorem of_operation {p : Lower Unit} (o : Operation) (h : p = edit o.edit) : Traced plan p p where
  trace w := by
    have hafter : stateAfter (edit o.edit plan w) = { w with draft := o.apply plan.program w.draft } := by
      unfold edit Operation.apply
      cases o.edit plan.program w.draft <;> rfl
    rw [h, hafter]
    exact .edit o .refl
  same _ _ := rfl

instance : Traced plan skip skip := of_operation .skip rfl
instance : Traced plan copy copy := of_operation .copy rfl
instance : Traced plan (copyExpected kind) (copyExpected kind) :=
  of_operation (.copyExpected kind) rfl
instance : Traced plan (replace t) (replace t) := of_operation (.replace t) rfl
instance : Traced plan (replaceTrimmed t) (replaceTrimmed t) :=
  of_operation (.replaceTrimmed t) rfl
instance : Traced plan remove remove := of_operation .remove rfl
instance : Traced plan removeInitial removeInitial := of_operation .removeInitial rfl
instance : Traced plan (append t) (append t) := of_operation (.append t) rfl

instance {offset : Nat} : Traced plan (edit (Edit.lineAt offset)) (Counted.lineAt offset) where
  trace _ := .edit (.lineAt offset) .refl
  same w hw := by
    have hline : Text.byteLine plan.program.source (min offset (Text.size plan.program.source))
        = Text.newlinesBefore plan.program.source offset + 1 := by
      rw [Text.byteLine, Text.count_take_bytes, Text.newlinesBefore_min]
    have hcounted : Counted.lineAt offset plan w = .ok
        (Text.byteLine plan.program.source (min offset (Text.size plan.program.source)))
        { w with draft := { w.draft with
          lineOffset := min offset (Text.size plan.program.source)
          line := Text.byteLine plan.program.source
            (min offset (Text.size plan.program.source)) } } := rfl
    rw [hcounted, hline]
    unfold edit
    rw [hw.lineAt]
    rfl

/-! ## Putting steps together -/

theorem bind_of (hp : Traced plan p p') (hf : ∀ a, Traced plan (f a) (f' a)) :
    Traced plan (p >>= f) (p' >>= f') where
  trace w := by
    have htrace := hp.trace w
    rw [bind_apply]
    cases hrun : p plan w with
    | error e w' =>
      rw [hrun] at htrace
      exact htrace
    | ok a w' =>
      rw [hrun] at htrace
      exact htrace.trans ((hf a).trace w')
  same w hw := by
    have htrace := hp.trace w
    rw [bind_apply, bind_apply, ← hp.same w hw]
    cases hrun : p plan w with
    | error e w' => rfl
    | ok a w' =>
      rw [hrun] at htrace
      exact (hf a).same w' (htrace.lineRight hw)

instance bind [hp : Traced plan p p'] [hf : ∀ a, Traced plan (f a) (f' a)] :
    Traced plan (p >>= f) (p' >>= f') :=
  bind_of hp hf

theorem after [hp : Traced plan p p'] (hf : ∀ a, Traced plan (f a) (f' a)) :
    Traced plan (p >>= f) (p' >>= f') :=
  bind_of hp hf

theorem before (hp : Traced plan p p') [hf : ∀ a, Traced plan (f a) (f' a)] :
    Traced plan (p >>= f) (p' >>= f') :=
  bind_of hp hf

instance {P : Prop} [Decidable P] [hp : Traced plan p p'] [hq : Traced plan q q'] :
    Traced plan (if P then p else q) (if P then p' else q') := by
  by_cases h : P
  · rwa [if_pos h, if_pos h]
  · rwa [if_neg h, if_neg h]

instance {h : α → β} [Traced plan p p'] : Traced plan (h <$> p) (h <$> p') := by
  rw [map_eq_pure_bind, map_eq_pure_bind]
  infer_instance

instance {h h' : β → Lower α} [∀ b, Traced plan (h b) (h' b)] {l : List β} :
    Traced plan (l.mapM h) (l.mapM h') := by
  induction l with
  | nil => exact inferInstanceAs (Traced plan (pure []) (pure []))
  | cons b l ih =>
    rw [List.mapM_cons, List.mapM_cons]
    infer_instance

theorem rounds {s : σ}
    (hstep : ∀ s, Traced plan (step s) (step' s)) : Traced plan (loop s step) (loop s step') := by
  have hiterate (n : Nat) (s : σ) : Traced plan (iterate (breach .noProgress) step n s)
      (iterate (breach .noProgress) step' n s) := by
    induction n generalizing s with
    | zero => exact inferInstanceAs (Traced plan (breach .noProgress) (breach .noProgress))
    | succ n ih =>
      rw [Downlevel.iterate, Downlevel.iterate]
      apply bind_of (hstep s)
      intro r
      cases r with
      | done s' => exact inferInstanceAs (Traced plan (pure s' : Lower σ) (pure s'))
      | yield s' => exact ih s'
  unfold loop
  exact after fun plan' => hiterate _ s

instance {s : σ}
    [hstep : ∀ s, Traced plan (step s) (step' s)] : Traced plan (loop s step) (loop s step') :=
  rounds hstep

instance (priority := low) [h : Unfolds p q] [h' : Unfolds p' q'] [hq : Traced plan q q'] :
    Traced plan p p' := by
  rw [h.eq, h'.eq]
  exact hq

end

/-! ## Classes -/

section

variable {plan : Plan} {token token' : Lower Unit} {layout : ClassLayout}

instance : Traced plan computedNameEnd computedNameEnd := by
  unfold computedNameEnd
  refine .before (.rounds fun (depth, stop) => .after fun t => ?_)
  split <;> infer_instance

instance : Traced plan memberAccess memberAccess := by
  unfold memberAccess
  refine .after fun t => ?_
  split <;> infer_instance

instance : Traced plan constructorLayout constructorLayout := by
  unfold constructorLayout
  dsimp only
  refine .after fun _ => .after fun _ => .after fun p => .after fun open_ => .after fun close => ?_
  split <;> infer_instance

instance : Traced plan (staticsName layout) (staticsName layout) := by
  have hgenerate : Traced plan (do
      let name ← claim "_class"
      modify fun w => { w with generated := w.generated ++ [name] }
      return name) (do
      let name ← claim "_class"
      modify fun w => { w with generated := w.generated ++ [name] }
      return name) :=
    ⟨fun _ => .generate "_class".toList .refl, fun _ _ => rfl⟩
  have hrest (name : Text) : Traced plan (do
      append (" (".toList ++ name ++ " =".toList)
      return some name) (do
      append (" (".toList ++ name ++ " =".toList)
      return some name) := inferInstance
  have h := bind_of hgenerate hrest
  simp only [bind_assoc, pure_bind] at h
  unfold staticsName
  infer_instance

variable [Traced plan token token']

/-- Going through a class is a trial. -/
instance : Traced plan (classLayout token) (classLayout token') where
  trace w := by
    have htraced : Traced plan (scanClass token) (scanClass token') := inferInstance
    have htrace := htraced.trace w
    rw [classLayout_apply]
    cases hscan : scanClass token plan w with
    | ok layout w' =>
      rw [hscan] at htrace
      exact .trial .refl htrace
    | error e w' =>
      rw [hscan] at htrace
      exact .trial .refl htrace
  same w hw := by
    have htraced : Traced plan (scanClass token) (scanClass token') := inferInstance
    rw [classLayout_apply, classLayout_apply, htraced.same w hw]

instance {initializers : Text} {id : Nat} :
    Traced plan (classMembers token layout initializers id)
      (classMembers token' layout initializers id) := by
  unfold classMembers
  refine .before (.rounds fun fields => ?_)
  cases fields with
  | nil => infer_instance
  | cons field rest => infer_instance

end

/-! ## Brackets and types -/

section

variable {plan : Plan} {token token' : Lower Unit} {start : Nat}

instance balanced [Traced plan token token'] :
    Traced plan (balanced token) (balanced token') := by
  unfold Lower.balanced
  refine .before (.rounds fun (braces, parens) => .after fun isEnd => ?_)
  split
  · infer_instance
  · refine .after fun t => ?_
    split <;> infer_instance

variable [Traced plan token token']

/-! ## Elements and component calls -/

instance :
    Traced plan (debugProperties start) (Counted.debugProperties start) := by
  unfold debugProperties Counted.debugProperties
  refine .after fun plan' => ?_
  cases plan'.fileNameVariable <;> infer_instance

instance : Traced plan (properties token start) (Counted.properties token' start) := by
  unfold properties Counted.properties
  refine .after fun debug => ?_
  cases debug <;> infer_instance

instance : Traced plan (elementRule token) (Counted.elementRule token') := by
  unfold elementRule element Counted.elementRule Counted.element
  dsimp only
  infer_instance

instance : Traced plan (nameComponent token start) (nameComponent token' start) := by
  unfold nameComponent
  refine .after fun p => .after fun plan' => ?_
  cases displayName? p plan'.options.filePath start with
  | none => infer_instance
  | some name =>
    refine .after fun i => ?_
    cases needsDisplayName p i with
    | error e => infer_instance
    | ok needed => cases needed <;> infer_instance

instance : Traced plan (componentRule token) (componentRule token') := by
  unfold componentRule
  refine .after fun p => .after fun start => ?_
  split
  · split
    · refine .after fun code => ?_
      cases code <;> infer_instance
    · infer_instance
  · infer_instance

/-! ## Exports of this module -/

instance : Traced plan reference reference := by
  unfold reference
  refine .after fun t => ?_
  split
  · refine .after fun name => .after fun b => ?_
    split <;> infer_instance
  · infer_instance

instance : Traced plan (exportVariables token) (exportVariables token') := by
  unfold exportVariables
  refine .after fun p => .after fun start => .after fun t => ?_
  rcases t.rhsEnd with - | - | last <;> infer_instance

instance {name exported : Text} :
    Traced plan (specifierExport name exported) (specifierExport name exported) := by
  unfold specifierExport
  dsimp only
  refine .after fun b => ?_
  split
  · infer_instance
  · refine .after fun plan' => ?_
    split <;> infer_instance

instance {defaultIndex : Nat} :
    Traced plan (exportDefault token defaultIndex) (exportDefault token' defaultIndex) := by
  unfold exportDefault
  refine .after fun p => ?_
  dsimp only
  split <;> infer_instance

instance {path : Text} : Traced plan (claimLoad path) (claimLoad path) := by
  unfold claimLoad
  have hmodify : Traced plan
      (modify fun w : Work => { w with loaded := path :: w.loaded } : Lower Unit)
      (modify fun w : Work => { w with loaded := path :: w.loaded }) :=
    ⟨fun w => .note (path :: w.loaded) w.hoisted .refl, fun _ _ => rfl⟩
  infer_instance

instance : Traced plan exportAll exportAll := by
  unfold exportAll
  refine .after fun p => .after fun i => .after fun name => ?_
  cases name <;> infer_instance

instance : Traced plan (exportDeclaration token) (exportDeclaration token') := by
  unfold exportDeclaration
  refine .after fun p => .after fun i => ?_
  dsimp only
  split <;> infer_instance

/-! ## Tokens -/

omit [Traced plan token token'] in
theorem firstOf_of {l l' : List (Lower Bool)} (h : List.Forall₂ (Traced plan) l l') :
    Traced plan (firstOf l) (firstOf l') := by
  induction h with
  | nil => exact inferInstanceAs (Traced plan copy copy)
  | cons _ _ ih =>
    unfold firstOf
    infer_instance

theorem rules_of (o : Options) :
    List.Forall₂ (Traced plan) (rules o token) (Counted.rules o token') := by
  have hite {P : Prop} [Decidable P] {l l' : List (Lower Bool)}
      (h : List.Forall₂ (Traced plan) l l') :
      List.Forall₂ (Traced plan) (if P then l else []) (if P then l' else []) := by
    split
    · exact h
    · exact .nil
  unfold rules Counted.rules
  refine List.rel_append (List.rel_append (List.rel_append (List.rel_append (hite ?_) (hite ?_))
    (hite ?_)) (hite ?_)) ?_
  all_goals repeat' refine .cons inferInstance ?_
  all_goals exact .nil

omit [Traced plan token token'] in
instance (depth : Nat) : Traced plan (tokenWithin depth) (Counted.tokenWithin depth) := by
  induction depth with
  | zero => exact inferInstanceAs (Traced plan (breach .noProgress) (breach .noProgress))
  | succ depth ih =>
    unfold tokenWithin Counted.tokenWithin tokenStep
    refine .after fun t => ?_
    split
    · infer_instance
    · exact .after fun plan' => firstOf_of (rules_of _)

omit [Traced plan token token'] in
instance : Traced plan finish Counted.finish := by
  have htoken : Traced plan Lower.token
      (do Counted.tokenWithin ((← read).program.count + 2)) := by
    unfold Lower.token
    infer_instance
  have hpreamble : Traced plan preamble preamble := of_still fun _ => rfl
  have hpostamble : Traced plan postamble postamble := by
    unfold postamble
    refine .after fun plan' => ?_
    split <;> infer_instance
  have hbody : Traced plan (edit Edit.finish) (edit Edit.finish) := of_still fun w => by
    unfold edit
    rw [Edit.finish_apply]
    by_cases hend : plan.program.count ≤ w.draft.index <;> simp only [hend, if_true, if_false] <;> rfl
  unfold finish Counted.finish
  infer_instance

end

end Traced

/-! ## Trials -/

/-- Going through a class on trial changes neither the next token nor the output nor the
line that was asked for last, whether the trial goes through or fails and whatever is
lowered inside the class.  This is so because every script of edits can be undone from a
snapshot, with other scripts tried out inside it to any depth. -/
theorem classLayout_keeps_draft :
    (∀ (plan : Plan) (depth : Nat) (w : Work), classLayout (tokenWithin depth) plan w =
      match scanClass (tokenWithin depth) plan w with
      | .ok layout w' => .ok layout { w' with draft := w.draft }
      | .error e w' => .error e { w' with draft := w.draft })
    ∧ ∀ (p : Program) (s : Script) (d : Draft), (s.run p d).restore d.snapshot = d := by
  refine ⟨?_, Script.restore_run⟩
  intro plan depth w
  have htraced : Traced plan (scanClass (tokenWithin depth)) (scanClass (Counted.tokenWithin depth)) :=
    inferInstance
  obtain ⟨s, hs⟩ := (htraced.trace w).exists_script
  have hback := s.restore_run plan.program w.draft
  rw [← hs] at hback
  rw [classLayout_apply]
  cases hscan : scanClass (tokenWithin depth) plan w with
  | ok layout w' =>
    rw [hscan] at hback
    simp only [show w'.draft.restore w.draft.snapshot = w.draft from hback]
  | error e w' =>
    rw [hscan] at hback
    simp only [show w'.draft.restore w.draft.snapshot = w.draft from hback]

end Downlevel.Lower
