import Downlevel.Proofs.Lower.Ends
import Downlevel.Proofs.Lower.Unfold
import Downlevel.Proofs.Text.Offset

/-!
# Going through a class

A class without fields is gone through by passing tokens and nothing else, so
its layout depends on the tokens only, and not on what is written already or on
how tokens are lowered.  What looks like a class and has no body cannot be gone
through.
-/

set_option synthInstance.maxSize 1000000000

namespace Downlevel.Lower

/-! ## Steps that only pass tokens -/

/-- A step whose result depends on the next token alone, and that does nothing
but pass tokens. -/
class Scans {α : Type} (p : Lower α) : Prop where
  again : ∀ {plan w a w'}, p plan w = .ok a w' → ∀ v : Work, v.index = w.index →
    p plan v = .ok a (v.moveTo w'.index)

section

variable {α β σ : Type} {s : σ} {step : σ → Lower (ForInStep σ)}

theorem exists_of_bind {p : Lower α} {f : α → Lower β} {plan : Plan} {w w' : Work} {b : β}
    (h : (p >>= f) plan w = .ok b w') :
    ∃ a w₁, p plan w = .ok a w₁ ∧ f a plan w₁ = .ok b w' := by
  rw [bind_apply] at h
  cases hp : p plan w with
  | error e w₁ => simp [hp] at h
  | ok a w₁ => exact ⟨a, w₁, rfl, by simpa [hp] using h⟩

theorem bind_eq {p : Lower α} {f : α → Lower β} {plan : Plan} {w w' : Work} {a : α}
    (h : p plan w = .ok a w') : (p >>= f) plan w = f a plan w' := by
  rw [bind_apply, h]

instance (priority := low) {p : Lower α} [hp : Looks p] : Scans p where
  again := by
    intro plan w a w' h v hv
    obtain ⟨a', ha⟩ := hp.looks plan w.index
    rw [ha w rfl] at h
    cases h
    rw [ha v hv, ← hv, v.moveTo_index]

instance {e : Error} : Scans (throw e : Lower α) where
  again h := nomatch h

instance {b : Breach} : Scans (breach b : Lower α) where
  again h := nomatch h

instance {o : Option α} {b : Breach} : Scans (orBreach o b) := by
  cases o with
  | none => exact inferInstanceAs (Scans (breach b : Lower α))
  | some a => exact inferInstanceAs (Scans (pure a : Lower α))

instance Scans.bind {p : Lower α} {f : α → Lower β} [hp : Scans p] [hf : ∀ a, Scans (f a)] :
    Scans (p >>= f) where
  again := by
    intro plan w b w' h v hv
    obtain ⟨a, w₁, hp₁, hf₁⟩ := exists_of_bind h
    rw [bind_eq (hp.again hp₁ v hv)]
    exact (hf a).again hf₁ (v.moveTo w₁.index) rfl

instance {P : Prop} [Decidable P] {p q : Lower α} [hp : Scans p] [hq : Scans q] :
    Scans (if P then p else q) := by
  split
  · exact hp
  · exact hq

instance {f : α → β} {p : Lower α} [Scans p] : Scans (f <$> p) := by
  rw [map_eq_pure_bind]
  infer_instance

instance : Scans skip where
  again := by
    intro plan w a w' h v hv
    rw [skip_apply] at h ⊢
    split at h
    · rename_i hlt
      cases h
      rw [if_pos (hv ▸ hlt), hv]
      rfl
    · cases h

instance {stalled : Lower σ} {n : Nat} [Scans stalled]
    [∀ s, Scans (step s)] : Scans (iterate stalled step n s) := by
  induction n generalizing s with
  | zero => assumption
  | succ n ih =>
    have hrest : ∀ r : ForInStep σ, Scans (match r with
        | .done s' => (pure s' : Lower σ)
        | .yield s' => iterate stalled step n s') := by
      intro r
      cases r with
      | done s' => exact inferInstanceAs (Scans (pure s' : Lower σ))
      | yield s' => exact ih
    exact Scans.bind

instance Scans.loop [∀ s, Scans (step s)] : Scans (loop s step) := by
  unfold Lower.loop
  infer_instance

instance (priority := low) {p p' : Lower σ} [h : Unfolds p p'] [hscans : Scans p'] : Scans p := by
  rw [h.eq]
  exact hscans

/-! ## Members are passed -/

instance : Scans skipMember := by
  unfold skipMember initializerEnd
  dsimp only
  infer_instance

instance : Scans classHead := by
  unfold classHead
  dsimp only
  refine @Scans.bind _ _ _ _ inferInstance fun t => ?_
  refine @Scans.bind _ _ _ _ inferInstance fun id => ?_
  have hloop : Scans (loop false fun found => do
      if ← isInContext .braceL id then return .done found
      else if ← atEnd then breach .classBody
      else
        let found := found || ((← is .kwExtends) && !(← isType))
        skip
        return .yield found) := inferInstance
  infer_instance

instance : Scans computedNameEnd := by
  unfold computedNameEnd
  refine @Scans.bind _ _ _ _ (@Scans.loop _ _ _ ?_) inferInstance
  rintro ⟨depth, stop⟩
  refine @Scans.bind _ _ _ _ inferInstance fun t => ?_
  split <;> infer_instance

instance : Scans memberAccess := by
  unfold memberAccess
  refine @Scans.bind _ _ _ _ inferInstance fun t => ?_
  split <;> infer_instance

instance : Scans constructorLayout := by
  unfold constructorLayout
  dsimp only
  refine @Scans.bind _ _ _ _ inferInstance fun _ => ?_
  refine @Scans.bind _ _ _ _ inferInstance fun _ => ?_
  refine @Scans.bind _ _ _ _ inferInstance fun p => ?_
  refine @Scans.bind _ _ _ _ inferInstance fun open_ => ?_
  refine @Scans.bind _ _ _ _ inferInstance fun close => ?_
  split <;> infer_instance

/-! ## Going the same way again -/

/-- If `p` goes through with a result in `R`, then `q` goes through with the same
result from any work with the same next token, and only passes the same tokens. -/
def Retraces (plan : Plan) (p q : Lower α) (R : α → Prop) : Prop :=
  ∀ w a w', p plan w = .ok a w' → R a → ∀ v : Work, v.index = w.index →
    q plan v = .ok a (v.moveTo w'.index)

namespace Retraces

variable {plan : Plan} {p q : Lower α} {f g : α → Lower β} {R : α → Prop} {R' : β → Prop}

theorem of_scans [h : Scans p] : Retraces plan p p R :=
  fun _ _ _ hp _ => h.again hp

/-- A step that never ends like that. -/
theorem of_never (h : ∀ w, Ends plan p w (fun a _ => ¬R a) fun _ => True) : Retraces plan p q R :=
  fun w _ _ hp hR => absurd hR ((h w).of_ok hp)

theorem bind (hp : Retraces plan p q R) (hf : ∀ a, Retraces plan (f a) (g a) R')
    (hback : ∀ a w, Ends plan (f a) w (fun b _ => R' b → R a) fun _ => True) :
    Retraces plan (p >>= f) (q >>= g) R' := by
  intro w b w' h hR v hv
  obtain ⟨a, w₁, hp₁, hf₁⟩ := exists_of_bind h
  rw [bind_eq (hp w a w₁ hp₁ ((hback a w₁).of_ok hf₁ hR) v hv)]
  exact hf a w₁ b w' hf₁ hR (v.moveTo w₁.index) rfl

theorem bind_scans [Scans p] (hf : ∀ a, Retraces plan (f a) (g a) R') :
    Retraces plan (p >>= f) (p >>= g) R' :=
  bind (R := fun _ => True) of_scans hf fun _ _ => Ends.trivial.mono fun _ _ _ _ => trivial

theorem ite {P : Prop} [Decidable P] {p' q' : Lower α} (hp : Retraces plan p q R)
    (hq : Retraces plan p' q' R) :
    Retraces plan (if P then p else p') (if P then q else q') R := by
  split
  · exact hp
  · exact hq

/-- The state that the step of a loop leaves. -/
def state : ForInStep σ → σ
  | .done s => s
  | .yield s => s

theorem loop {step step' : σ → Lower (ForInStep σ)} {S : σ → Prop}
    (hstep : ∀ s, Retraces plan (step s) (step' s) fun r => S (state r))
    (hback : ∀ s w, Ends plan (step s) w (fun r _ => S (state r) → S s) fun _ => True) :
    Retraces plan (loop s step) (loop s step') S := by
  have hiterate : ∀ n s, Retraces plan (iterate (breach .noProgress) step n s)
        (iterate (breach .noProgress) step' n s) S
      ∧ ∀ w, Ends plan (iterate (breach .noProgress) step n s) w (fun s' _ => S s' → S s)
        fun _ => True := by
    intro n
    induction n with
    | zero => exact fun s => ⟨fun _ _ _ h => (nomatch h), fun _ => trivial⟩
    | succ n ih =>
      intro s
      constructor
      · refine bind (hstep s) (fun r => ?_) fun r w => ?_
        · cases r with
          | done s' => exact of_scans
          | yield s' => exact (ih s').1
        · cases r with
          | done s' => exact id
          | yield s' => exact (ih s').2 w
      · intro w
        refine (hback s w).bind fun r w' hr => ?_
        cases r with
        | done s' => exact hr
        | yield s' => exact ((ih s').2 w').mono fun s'' _ h hs'' => hr (h hs'')
  exact bind_scans fun _ => (hiterate _ s).1

end Retraces

end

/-! ## Classes without fields -/

section

open ClassLayout

variable {plan : Plan} {token token' : Lower Unit} {w : Work} {layout : ClassLayout}

/-- What passing a member does to the layout of a class.  A token of types, a static block, a method
and a private member leave it as it is. -/
inductive LayoutStep (token : Lower Unit) (plan : Plan) (layout : ClassLayout) (w : Work) :
    ClassLayout → Work → Prop
  | same {w' : Work} : LayoutStep token plan layout w layout w'
  | semicolon {w' : Work} (hvalue : plan.program.isTypeAt w.index = false)
      (hw' : w'.index = w.index + 1) : LayoutStep token plan layout w
        { layout with fields := layout.fields ++ [(w.index, w.index + 1)] } w'
  | constructor_ {v w' : Work} {isStatic : Bool} {assignments : List Text} {pos : Nat}
      (hmodifiers : skipModifiers plan w = .ok isStatic v)
      (hrun : constructorLayout plan v = .ok (assignments, pos) w') :
      LayoutStep token plan layout w { layout with
        initializers := assignments ++ layout.initializers, insertPos := some pos } w'
  | field {v v₁ v₂ w' : Work} {isStatic : Bool} {access : Text} {l : ClassLayout}
      (hvalue : plan.program.isTypeAt w.index = false) (haccess : memberAccess plan v = .ok access v₁)
      (htypes : skipTypes plan v₁ = .ok () v₂)
      (hrun : fieldLayout token layout w.index isStatic access plan v₂ = .ok l w') :
      LayoutStep token plan layout w l w'

theorem ends_memberLayout_step :
    Ends plan (memberLayout token layout) w (LayoutStep token plan layout w) fun _ => True := by
  unfold memberLayout
  rw [ends_bind, ends_isType]
  refine Ends.ite (fun _ => Ends.trivial.bind fun _ _ _ => .same) fun htype => ?_
  have hvalue : plan.program.isTypeAt w.index = false := Bool.eq_false_iff.mpr htype
  rw [ends_bind, ends_is]
  refine Ends.ite (fun _ => ?_) fun _ => ?_
  · rw [ends_bind, ends_index, ends_bind, ends_skip]
    split
    · exact .semicolon hvalue rfl
    · exact trivial
  rw [ends_bind, ends_isName, ends_bind, ends_program, ends_bind, ends_index]
  refine Ends.ite (fun _ => ?_) fun _ => ?_
  · exact Ends.trivial.bind fun _ _ _ => Ends.trivial.bind fun _ _ _ => .same
  unfold namedMemberLayout
  rw [ends_bind, ends_index]
  refine Ends.self.bind fun isStatic v hmodifiers => ?_
  rw [ends_bind, ends_isName]
  refine Ends.ite (fun _ => Ends.self.bind fun _ _ hrun => .constructor_ hmodifiers hrun) fun _ => ?_
  rw [ends_bind, ends_is]
  refine Ends.ite (fun _ => Ends.trivial.bind fun _ _ _ => .same) fun _ => ?_
  refine Ends.self.bind fun access v₁ haccess => Ends.self.bind fun _ v₂ htypes => ?_
  rw [ends_bind, ends_is]
  refine Ends.ite (fun _ => Ends.trivial.bind fun _ _ _ => .same) fun _ => ?_
  exact Ends.self.mono fun _ _ hrun => .field hvalue haccess htypes hrun

theorem ends_fieldLayout_fields {start : Nat} {isStatic : Bool} {access : Text} :
    Ends plan (fieldLayout token layout start isStatic access) w
      (fun l w' => l.fields = layout.fields ++ [(start, w'.index)]
        ∧ l.insertPos = layout.insertPos ∧ (l.initializers = layout.initializers
          ∨ ∃ value, l.initializers = layout.initializers ++ ["this".toList ++ value]))
      fun _ => True := by
  have hadd : ∀ (l : ClassLayout) (w : Work), l.fields = layout.fields →
      l.insertPos = layout.insertPos → (l.initializers = layout.initializers
        ∨ ∃ value, l.initializers = layout.initializers ++ ["this".toList ++ value]) →
      Ends plan (do return { l with fields := l.fields ++ [(start, ← index)] }) w
      (fun l w' => l.fields = layout.fields ++ [(start, w'.index)]
        ∧ l.insertPos = layout.insertPos ∧ (l.initializers = layout.initializers
          ∨ ∃ value, l.initializers = layout.initializers ++ ["this".toList ++ value]))
      fun _ => True := by
    intro l w hfields hpos hinitializers
    rw [ends_bind, ends_index, ends_pure]
    exact ⟨congrArg (· ++ _) hfields, hpos, hinitializers⟩
  unfold fieldLayout
  dsimp only
  refine Ends.trivial.bind fun b w _ => Ends.ite (fun _ => ?_) fun _ => hadd layout w rfl rfl (.inl rfl)
  refine Ends.trivial.bind fun stop w _ => Ends.trivial.bind fun _ w _ => ?_
  refine Ends.trivial.bind fun work w _ => Ends.trivial.bind fun _ w _ => ?_
  refine Ends.trivial.bind fun work w _ => ?_
  rw [ends_bind, ends_pure]
  split
  · exact hadd _ w rfl rfl (.inl rfl)
  · exact hadd _ w rfl rfl (.inr ⟨_, rfl⟩)

theorem retraces_namedMemberLayout :
    Retraces plan (namedMemberLayout token layout) (namedMemberLayout token' layout)
      fun l => l.fields = [] := by
  unfold namedMemberLayout
  refine .bind_scans fun start => .bind_scans fun isStatic => .bind_scans fun isConstructor => ?_
  refine .ite .of_scans (.bind_scans fun isPrivate => .ite .of_scans ?_)
  refine .bind_scans fun access => .bind_scans fun _ => .bind_scans fun isMethod => ?_
  refine .ite .of_scans (.of_never fun _ => ends_fieldLayout_fields.mono fun l _ hl => ?_)
  simp [hl.1]

theorem retraces_memberLayout :
    Retraces plan (memberLayout token layout) (memberLayout token' layout)
      fun l => l.fields = [] := by
  unfold memberLayout
  refine .bind_scans fun isType => .ite .of_scans (.bind_scans fun isSemi => .ite .of_scans ?_)
  refine .bind_scans fun isStatic => .bind_scans fun p => .bind_scans fun i => ?_
  exact .ite .of_scans retraces_namedMemberLayout

theorem parameterProperties_untyped {p : Program} (h : ∀ i, p.isTypeAt i = false)
    (stop n i : Nat) : parameterProperties p stop n i = .ok [] := by
  induction n generalizing i with
  | zero => rfl
  | succ n ih =>
    have hi : isPropertyModifierAt p i = false := by simp [isPropertyModifierAt, h i]
    rw [parameterProperties, hi]
    split
    · rfl
    · exact ih (i + 1)

theorem ends_constructorLayout (h : ∀ i, plan.program.isTypeAt i = false) :
    Ends plan constructorLayout w (fun r _ => r.1 = []) fun _ => True := by
  unfold constructorLayout
  refine Ends.trivial.bind fun _ w _ => Ends.trivial.bind fun _ w _ => ?_
  rw [ends_bind, ends_program]
  refine Ends.trivial.bind fun open_ w _ => Ends.trivial.bind fun close w _ => ?_
  rw [parameterProperties_untyped h, ends_bind, ends_pure]
  refine Ends.trivial.bind fun _ w _ => Ends.trivial.bind fun _ w _ => ?_
  refine Ends.trivial.bind fun _ w _ => Ends.trivial.bind fun _ w _ => ?_
  exact Ends.trivial.bind fun _ w _ => rfl

/-- A member that is no field adds nothing to a layout. -/
theorem ends_memberLayout (h : ∀ i, plan.program.isTypeAt i = false) :
    Ends plan (memberLayout token layout) w
      (fun l _ => l.fields = [] → layout.fields = [] ∧ l.initializers = layout.initializers
        ∧ l.statics = layout.statics) fun _ => True := by
  refine ends_memberLayout_step.mono fun l w' hstep hfields => ?_
  cases hstep with
  | same => exact ⟨hfields, rfl, rfl⟩
  | semicolon => simp at hfields
  | @constructor_ _ _ _ assignments _ _ hrun =>
    obtain rfl : assignments = [] := (ends_constructorLayout h).of_ok hrun
    exact ⟨hfields, rfl, rfl⟩
  | field _ _ _ hrun => simp [(ends_fieldLayout_fields.of_ok hrun).1] at hfields

theorem retraces_scanClass (h : ∀ i, plan.program.isTypeAt i = false) :
    Retraces plan (scanClass token) (scanClass token') fun l => l.fields = [] := by
  unfold scanClass
  refine .bind_scans fun head => .bind_scans fun t => .bind_scans fun id => .bind_scans fun _ => ?_
  refine .loop (fun layout => ?_) fun layout w => ?_
  · refine .bind_scans fun isEnd => .ite .of_scans (.bind_scans fun atEnd => .ite .of_scans ?_)
    exact .bind retraces_memberLayout (fun _ => .of_scans) fun _ _ hfields => hfields
  · refine Ends.trivial.bind fun isEnd w _ => Ends.ite (fun _ hfields => hfields) fun _ => ?_
    refine Ends.trivial.bind fun atEnd w _ => Ends.ite (fun _ => trivial) fun _ => ?_
    refine (ends_memberLayout h).bind fun l w hl hfields => ?_
    exact (hl hfields).1

/-- A class without fields has no assignments. -/
theorem ends_scanClass (h : ∀ i, plan.program.isTypeAt i = false) :
    Ends plan (scanClass token) w
      (fun l _ => l.fields = [] → l.initializers = [] ∧ l.statics = []) fun _ => True := by
  unfold scanClass
  refine Ends.trivial.bind fun head w _ => Ends.trivial.bind fun t w _ => ?_
  refine Ends.trivial.bind fun id w _ => Ends.trivial.bind fun _ w _ => ?_
  refine Ends.loop_partial (fun l _ => l.fields = [] → l.initializers = [] ∧ l.statics = [])
    trivial (fun layout w hlayout => ?_) fun _ => ⟨rfl, rfl⟩
  refine Ends.trivial.bind fun isEnd w _ => Ends.ite (fun _ => hlayout) fun _ => ?_
  refine Ends.trivial.bind fun atEnd w _ => Ends.ite (fun _ => trivial) fun _ => ?_
  refine (ends_memberLayout h).bind fun l w hl hfields => ?_
  obtain ⟨hlayoutFields, hinitializers, hstatics⟩ := hl hfields
  rw [hinitializers, hstatics]
  exact hlayout hlayoutFields

theorem classLayout_apply (token : Lower Unit) (plan : Plan) (w : Work) :
    classLayout token plan w =
      match scanClass token plan w with
      | .ok layout w' => .ok layout { w' with draft := w'.draft.restore w.draft.snapshot }
      | .error e w' => .error e { w' with draft := w'.draft.restore w.draft.snapshot } := by
  have hget : (get : Lower Work) plan w = .ok w w := rfl
  unfold classLayout
  rw [bind_apply, hget]
  simp only
  rw [bind_apply, tryCatch_apply, bind_apply]
  cases scanClass token plan w <;> rfl

theorem Ends.classLayout {Q : ClassLayout → Work → Prop} {E : Error → Prop}
    (h : Ends plan (scanClass token) w Q E) :
    Ends plan (classLayout token) w (fun l w' => ∃ v, Q l v
      ∧ w' = { v with draft := v.draft.restore w.draft.snapshot }) E := by
  unfold Ends at h ⊢
  rw [classLayout_apply]
  cases hscan : scanClass token plan w with
  | ok layout v =>
    rw [hscan] at h
    exact ⟨v, h, rfl⟩
  | error e v =>
    rw [hscan] at h
    exact h

theorem restore_moveTo (w : Work) (i : Nat) :
    { w.moveTo i with draft := (w.moveTo i).draft.restore w.draft.snapshot } = w := by
  have hout : Text.takeBytes w.draft.out (Text.size w.draft.out) = w.draft.out := by
    simpa using Text.takeBytes_append w.draft.out []
  simp only [Work.moveTo, Draft.restore, Draft.snapshot, hout]

/-- The class at an index has no fields. -/
def IsFieldless (plan : Plan) (i : Nat) (layout : ClassLayout) : Prop :=
  layout.fields = [] ∧ ∃ (token : Lower Unit) (w w' : Work), w.index = i
    ∧ classLayout token plan w = .ok layout w'

/-- The layout of a class without fields is the same whenever it is asked for. -/
theorem IsFieldless.classLayout_eq (h : ∀ i, plan.program.isTypeAt i = false)
    (hlayout : IsFieldless plan w.index layout) :
    classLayout token plan w = .ok layout w ∧ layout.initializers = [] ∧ layout.statics = [] := by
  obtain ⟨hfields, token₀, w₀, w₀', hindex, hok⟩ := hlayout
  obtain ⟨w₁, hscan, -⟩ := (Ends.classLayout Ends.self).of_ok hok
  have hagain : scanClass token plan w = .ok layout (w.moveTo w₁.index) :=
    retraces_scanClass h w₀ layout w₁ hscan hfields w hindex.symm
  refine ⟨?_, (ends_scanClass h).of_ok hscan hfields⟩
  rw [classLayout_apply, hagain]
  simp only [restore_moveTo]

/-- The layout of the class at an index, if it has one without fields. -/
def fieldlessLayout? (plan : Plan) (i : Nat) : Option ClassLayout :=
  match classLayout Lower.token plan (Work.moveTo { names := { used := [] } } i) with
  | .ok layout _ => if layout.fields = [] then some layout else none
  | .error .. => none

theorem fieldlessLayout?_eq_some_iff {i : Nat} (h : ∀ i, plan.program.isTypeAt i = false) :
    fieldlessLayout? plan i = some layout ↔ IsFieldless plan i layout := by
  unfold fieldlessLayout?
  constructor
  · intro hlayout
    split at hlayout
    · rename_i layout' w' hok
      split at hlayout
      · rename_i hfields
        cases hlayout
        exact ⟨hfields, _, _, w', rfl, hok⟩
      · cases hlayout
    · cases hlayout
  · intro hlayout
    have hok : classLayout Lower.token plan (Work.moveTo { names := { used := [] } } i)
        = .ok layout (Work.moveTo { names := { used := [] } } i) :=
      (hlayout.classLayout_eq (w := Work.moveTo _ i) h).1
    simp only [hok, hlayout.1, if_true]

/-- The brace of the class at an index is at another: it is the first one after
the index in the context of the class. -/
structure IsBodyAt (p : Program) (i b id : Nat) : Prop where
  lt : i < b
  context : (p.tokenAt i).context = some id
  kind_brace : p.kindAt b = .braceL
  context_brace : (p.tokenAt b).context = some id
  first : ∀ k, i < k → k < b → ¬(p.kindAt k = .braceL ∧ (p.tokenAt k).context = some id)

/-- Passing the tokens of a head ends at the first brace in the context of the class, and without
one at the end. -/
theorem ends_classHead_loop {id : Nat} (hid : (plan.program.tokenAt w.index).context = some id)
    (hcount : w.index < plan.program.count) :
    Ends plan (loop false fun found => do
        if ← isInContext .braceL id then return .done found
        else if ← atEnd then breach .classBody
        else
          let found := found || ((← is .kwExtends) && !(← isType))
          skip
          return .yield found) (w.moveTo (w.index + 1))
      (fun _ w' => w'.index ≤ plan.program.count
        ∧ ∃ id, IsBodyAt plan.program w.index w'.index id)
      fun e => e = .invariant .classContext ∨ e = .invariant .classBody := by
  refine Ends.loop (fun _ v => w.index < v.index ∧ v.index ≤ plan.program.count
    ∧ ∀ k, w.index < k → k < v.index → ¬(plan.program.kindAt k = .braceL
      ∧ (plan.program.tokenAt k).context = some id)) ?_ ?_
  · rintro found v ⟨hgt, hle, hfirst⟩
    refine ⟨hle, ?_⟩
    rw [ends_bind, ends_isInContext]
    refine Ends.ite (fun hbody => ?_) fun hnot => ?_
    · obtain ⟨hkind, hcontext⟩ := of_decide_eq_true hbody
      exact ⟨hle, id, hgt, hid, hkind, hcontext, hfirst⟩
    · rw [ends_bind, ends_atEnd]
      refine Ends.ite (fun _ => .inr rfl) fun hnext => ?_
      have hlt : v.index < plan.program.count := by simpa using hnext
      simp only [ends_bind, ends_is, ends_isType, ends_skip, if_pos hlt, ends_pure]
      refine ⟨⟨Nat.lt_succ_of_lt hgt, hlt, fun k hk hkv => ?_⟩, Nat.lt_succ_self _⟩
      rcases Nat.lt_or_eq_of_le (Nat.lt_succ_iff.mp hkv) with hkv | rfl
      · exact hfirst k hk hkv
      · simpa using hnot
  · refine ⟨Nat.lt_succ_self _, hcount, fun k hk hkv => ?_⟩
    rw [Work.index_moveTo] at hkv
    omega

/-- The head of a class is passed up to its brace. -/
theorem ends_classHead_body :
    Ends plan classHead w (fun _ w' => w'.index ≤ plan.program.count
      ∧ ∃ id, IsBodyAt plan.program w.index w'.index id)
      fun e => e = .invariant .classContext ∨ e = .invariant .classBody := by
  unfold classHead
  rw [ends_bind, ends_cur, ends_bind, ends_orBreach]
  cases hid : (plan.program.tokenAt w.index).context with
  | none => exact .inl rfl
  | some id =>
    have hcount : w.index < plan.program.count := by
      refine Nat.lt_of_not_le fun hle => ?_
      rw [Program.tokenAt_of_le hle] at hid
      cases hid
    rw [Option.elim_some, ends_bind, ends_skip, if_pos hcount]
    have hloop := ends_classHead_loop hid hcount
    simp only [ends_bind, ends_is, ends_isType]
    refine Ends.ite (fun _ => ?_) fun _ => ?_
    · rw [ends_bind, ends_map, ends_curName]
      exact hloop.bind fun _ w' hw' => hw'
    · rw [ends_bind, ends_pure]
      exact hloop.bind fun _ w' hw' => hw'

/-- What has no body in its context cannot be gone through as a class. -/
theorem ends_classLayout_bodiless
    (hbody : ∀ id, (plan.program.tokenAt w.index).context = some id → ∀ j, w.index < j →
      plan.program.kindAt j = .braceL → (plan.program.tokenAt j).context ≠ some id) :
    Ends plan (classLayout token) w (fun _ _ => False)
      fun e => e = .invariant .classContext ∨ e = .invariant .classBody := by
  have hscan : Ends plan (scanClass token) w (fun _ _ => False)
      fun e => e = .invariant .classContext ∨ e = .invariant .classBody := by
    unfold scanClass
    refine ends_classHead_body.bind fun _ w₁ h₁ => ?_
    obtain ⟨-, id, h⟩ := h₁
    exact absurd h.context_brace (hbody id h.context w₁.index h.lt h.kind_brace)
  exact hscan.classLayout.mono fun _ _ ⟨_, h, _⟩ => h

end

end Downlevel.Lower
