import Downlevel.Lower.Transform
import Downlevel.Proofs.Edit.Program

/-!
# How lowering ends

`Ends plan p w Q E` says how running `p` on the work `w` ends: either it goes
through and `Q` holds of the result and the work after it, or it fails with an
error for which `E` holds.  The rules here turn a statement about a program into
one about its parts, and a statement about a step into one about the work.
-/

namespace Downlevel

namespace Work

/-- The index of the next token. -/
def index (w : Work) : Nat := w.draft.index

/-- With another next token. -/
def moveTo (w : Work) (i : Nat) : Work := { w with draft := { w.draft with index := i } }

/-- With more output. -/
def write (w : Work) (t : Text) : Work := { w with draft := { w.draft with out := w.draft.out ++ t } }

/-- With the next token copied. -/
def copyNext (w : Work) (p : Program) : Work :=
  (w.write (p.gapBefore w.index ++ p.textAt w.index)).moveTo (w.index + 1)

@[simp] theorem index_moveTo (w : Work) (i : Nat) : (w.moveTo i).index = i := rfl

@[simp] theorem index_write (w : Work) (t : Text) : (w.write t).index = w.index := rfl

@[simp] theorem index_copyNext (w : Work) (p : Program) : (w.copyNext p).index = w.index + 1 := rfl

theorem moveTo_index (w : Work) : w.moveTo w.index = w := rfl

theorem write_nil (w : Work) : w.write [] = w := by
  unfold write
  rw [List.append_nil]

theorem write_write (w : Work) (s t : Text) : (w.write s).write t = w.write (s ++ t) := by
  simp [write]

end Work

namespace Edit

theorem skip_apply (p : Program) (d : Draft) :
    skip p d = if d.index < p.count then .ok () { d with index := d.index + 1 }
      else .error (.invariant .endOfInput) d := by
  change (if decide (p.count ≤ d.index) = true then (throw (.invariant .endOfInput) : Edit Unit)
    else modify fun d => { d with index := d.index + 1 }) p d = _
  by_cases h : d.index < p.count
  · rw [if_pos h, if_neg (by simpa using h)]
    rfl
  · rw [if_neg h, if_pos (by simpa using h)]
    rfl

theorem copyExpected_apply (kind : Kind) (p : Program) (d : Draft) :
    copyExpected kind p d = if p.kindAt d.index = kind then copy p d
      else .error (.invariant (.wrongToken kind (p.kindAt d.index))) d := by
  change (if p.kindAt d.index = kind then copy
    else throw (.invariant (.wrongToken kind (p.kindAt d.index)))) p d = _
  split <;> rfl

theorem finish_apply (p : Program) (d : Draft) :
    finish p d = if p.count ≤ d.index then .ok (d.out ++ p.gapBefore d.index) d
      else .error (.invariant .unfinished) d := by
  change (if decide (p.count ≤ d.index) = true then (do return (← get).out ++ (← gap))
    else throw (.invariant .unfinished) : Edit Text) p d = _
  by_cases h : p.count ≤ d.index
  · rw [if_pos h, if_pos (decide_eq_true h)]
    rfl
  · rw [if_neg h, if_neg (by simpa using h)]
    rfl

end Edit

namespace Lower

/-- How running a step of lowering ends. -/
def Ends {α : Type} (plan : Plan) (p : Lower α) (w : Work) (Q : α → Work → Prop)
    (E : Error → Prop) : Prop :=
  match p plan w with
  | .ok a w' => Q a w'
  | .error e _ => E e

section

variable {α β : Type} {plan : Plan} {p : Lower α} {f : α → Lower β} {w : Work}
  {Q Q' : α → Work → Prop} {M : β → Work → Prop} {E E' : Error → Prop} {kind : Kind} {t : Text}
  {σ : Type} {a : α} {s : σ} {kinds : List Kind} {step : σ → Lower (ForInStep σ)}

/-! ## Putting steps together -/

theorem bind_apply (p : Lower α) (f : α → Lower β) (plan : Plan) (w : Work) :
    (p >>= f) plan w =
      match p plan w with
      | .ok a w' => f a plan w'
      | .error e w' => .error e w' := by
  change EStateM.bind (p plan) (fun a => f a plan) w = _
  unfold EStateM.bind
  cases p plan w <;> rfl

theorem tryCatch_apply (p : Lower α) (h : Error → Lower α) (plan : Plan) (w : Work) :
    tryCatch p h plan w =
      match p plan w with
      | .ok a w' => .ok a w'
      | .error e w' => h e plan w' := by
  change EStateM.tryCatch (p plan) (fun e => h e plan) w = _
  unfold EStateM.tryCatch
  cases p plan w <;> rfl

@[simp] theorem ends_pure : Ends plan (pure a) w Q E ↔ Q a w := Iff.rfl

@[simp] theorem ends_bind :
    Ends plan (p >>= f) w M E ↔ Ends plan p w (fun a w' => Ends plan (f a) w' M E) E := by
  unfold Ends
  rw [bind_apply]
  cases p plan w <;> rfl

theorem Ends.weaken (h : Ends plan p w Q E) (hQ : ∀ a w', Q a w' → Q' a w')
    (hE : ∀ e, E e → E' e) : Ends plan p w Q' E' := by
  unfold Ends at h ⊢
  cases hp : p plan w with
  | ok a w' =>
    rw [hp] at h
    exact hQ a w' h
  | error e w' =>
    rw [hp] at h
    exact hE e h

/-- What is known of the end of a step is used for what comes after it. -/
theorem Ends.mono (h : Ends plan p w Q E) (hQ : ∀ a w', Q a w' → Q' a w') : Ends plan p w Q' E :=
  h.weaken hQ fun _ => id

theorem Ends.bind (h : Ends plan p w Q E) (hf : ∀ a w', Q a w' → Ends plan (f a) w' M E) :
    Ends plan (p >>= f) w M E :=
  ends_bind.mpr (h.mono hf)

theorem Ends.and (h : Ends plan p w Q E) (h' : Ends plan p w Q' E') :
    Ends plan p w (fun a w' => Q a w' ∧ Q' a w') fun e => E e ∧ E' e := by
  unfold Ends at h h' ⊢
  cases hp : p plan w with
  | ok a w' =>
    rw [hp] at h h'
    exact ⟨h, h'⟩
  | error e w' =>
    rw [hp] at h h'
    exact ⟨h, h'⟩

theorem Ends.of_ok {w' : Work} (h : Ends plan p w Q E) (hp : p plan w = .ok a w') :
    Q a w' := by
  unfold Ends at h
  rw [hp] at h
  exact h

theorem ends_of_eq {w' : Work} (hp : p plan w = .ok a w') :
    Ends plan p w Q E ↔ Q a w' := by
  unfold Ends
  rw [hp]

theorem Ends.self : Ends plan p w (fun a w' => p plan w = .ok a w') fun _ => True := by
  unfold Ends
  cases p plan w with
  | ok a w' => exact rfl
  | error e w' => exact True.intro

theorem Ends.trivial : Ends plan p w (fun _ _ => True) fun _ => True := by
  unfold Ends
  cases p plan w <;> exact True.intro

theorem Ends.ite {P : Prop} [Decidable P] {p q : Lower α} (hp : P → Ends plan p w Q E)
    (hq : ¬P → Ends plan q w Q E) : Ends plan (if P then p else q) w Q E := by
  split
  · rename_i h
    exact hp h
  · rename_i h
    exact hq h

/-! ## Steps that look -/

@[simp] theorem ends_read {Q : Plan → Work → Prop} : Ends plan read w Q E ↔ Q plan w := Iff.rfl

@[simp] theorem ends_get {Q : Work → Work → Prop} : Ends plan get w Q E ↔ Q w w := Iff.rfl

@[simp] theorem ends_throw {e : Error} : Ends plan (throw e : Lower α) w Q E ↔ E e := Iff.rfl

@[simp] theorem ends_program {Q : Program → Work → Prop} :
    Ends plan program w Q E ↔ Q plan.program w := Iff.rfl

@[simp] theorem ends_index {Q : Nat → Work → Prop} : Ends plan index w Q E ↔ Q w.index w := Iff.rfl

@[simp] theorem ends_atEnd {Q : Bool → Work → Prop} :
    Ends plan atEnd w Q E ↔ Q (decide (plan.program.count ≤ w.index)) w := Iff.rfl

@[simp] theorem ends_cur {Q : Token → Work → Prop} :
    Ends plan cur w Q E ↔ Q (plan.program.tokenAt w.index) w := Iff.rfl

@[simp] theorem ends_curText {Q : Text → Work → Prop} :
    Ends plan curText w Q E ↔ Q (plan.program.textAt w.index) w := Iff.rfl

@[simp] theorem ends_curName {Q : Text → Work → Prop} :
    Ends plan curName w Q E ↔ Q (plan.program.nameAt w.index) w := Iff.rfl

@[simp] theorem ends_is {Q : Bool → Work → Prop} :
    Ends plan (is kind) w Q E ↔ Q (decide (plan.program.kindAt w.index = kind)) w := Iff.rfl

@[simp] theorem ends_comes {Q : Bool → Work → Prop} :
    Ends plan (comes kinds) w Q E ↔ Q (plan.program.matchesAt w.index kinds) w := Iff.rfl

@[simp] theorem ends_isName {word : String} {Q : Bool → Work → Prop} :
    Ends plan (isName word) w Q E ↔ Q (plan.program.isNameAt w.index word.toList) w := Iff.rfl

@[simp] theorem ends_isType {Q : Bool → Work → Prop} :
    Ends plan isType w Q E ↔ Q (plan.program.isTypeAt w.index) w := Iff.rfl

@[simp] theorem ends_isInContext {id : Nat} {Q : Bool → Work → Prop} :
    Ends plan (isInContext kind id) w Q E ↔
      Q (decide (plan.program.kindAt w.index = kind
        ∧ (plan.program.tokenAt w.index).context = some id)) w := by
  rw [Bool.decide_and]
  rfl

@[simp] theorem ends_orBreach {o : Option α} {b : Breach} :
    Ends plan (orBreach o b) w Q E ↔ o.elim (E (.invariant b)) fun a => Q a w := by
  cases o <;> rfl

/-! ## Steps that write -/

@[simp] theorem ends_append {Q : Unit → Work → Prop} :
    Ends plan (append t) w Q E ↔ Q () (w.write t) := Iff.rfl

theorem skip_apply (plan : Plan) (w : Work) :
    skip plan w = if w.index < plan.program.count then .ok () (w.moveTo (w.index + 1))
      else .error (.invariant .endOfInput) w := by
  unfold skip edit
  rw [Edit.skip_apply]
  by_cases h : w.draft.index < plan.program.count
  · rw [if_pos h, if_pos (show w.index < _ from h)]
    rfl
  · rw [if_neg h, if_neg (show ¬w.index < _ from h)]

@[simp] theorem ends_skip {Q : Unit → Work → Prop} :
    Ends plan skip w Q E ↔
      if w.index < plan.program.count then Q () (w.moveTo (w.index + 1))
      else E (.invariant .endOfInput) := by
  unfold Ends
  rw [skip_apply]
  by_cases h : w.index < plan.program.count
  · rw [if_pos h, if_pos h]
  · rw [if_neg h, if_neg h]

@[simp] theorem ends_replace {Q : Unit → Work → Prop} :
    Ends plan (replace t) w Q E ↔
      if w.index < plan.program.count then
        Q () ((w.write (plan.program.gapBefore w.index ++ t)).moveTo (w.index + 1))
      else E (.invariant .endOfInput) := by
  rw [← Work.write_write]
  exact ends_skip (w := (w.write (plan.program.gapBefore w.index)).write t)

@[simp] theorem ends_copy {Q : Unit → Work → Prop} :
    Ends plan copy w Q E ↔
      if w.index < plan.program.count then Q () (w.copyNext plan.program)
      else E (.invariant .endOfInput) :=
  ends_replace

@[simp] theorem ends_removeInitial {Q : Unit → Work → Prop} :
    Ends plan removeInitial w Q E ↔
      if w.index < plan.program.count then
        Q () ((w.write (plan.program.gapBefore w.index)).moveTo (w.index + 1))
      else E (.invariant .endOfInput) := by
  have h : Ends plan (replace []) w Q E ↔ _ := ends_replace
  rwa [List.append_nil] at h

@[simp] theorem ends_replaceTrimmed {Q : Unit → Work → Prop} :
    Ends plan (replaceTrimmed t) w Q E ↔
      if w.index < plan.program.count then
        Q () ((w.write (Text.newlines (plan.program.gapBefore w.index) ++ t)).moveTo (w.index + 1))
      else E (.invariant .endOfInput) := by
  rw [← Work.write_write]
  exact ends_skip (w := (w.write (Text.newlines (plan.program.gapBefore w.index))).write t)

@[simp] theorem ends_remove {Q : Unit → Work → Prop} :
    Ends plan remove w Q E ↔
      if w.index < plan.program.count then
        Q () ((w.write (Text.newlines (plan.program.gapBefore w.index))).moveTo (w.index + 1))
      else E (.invariant .endOfInput) := by
  have h : Ends plan (replaceTrimmed []) w Q E ↔ _ := ends_replaceTrimmed
  rwa [List.append_nil] at h

@[simp] theorem ends_map {g : α → β} :
    Ends plan (g <$> p) w M E ↔ Ends plan p w (fun a w' => M (g a) w') E := by
  rw [map_eq_pure_bind, ends_bind]
  rfl

@[simp] theorem ends_copyExpected {Q : Unit → Work → Prop} :
    Ends plan (copyExpected kind) w Q E ↔
      if plan.program.kindAt w.index = kind then Ends plan copy w Q E
      else E (.invariant (.wrongToken kind (plan.program.kindAt w.index))) := by
  unfold Ends copyExpected copy edit
  rw [Edit.copyExpected_apply]
  by_cases h : plan.program.kindAt w.draft.index = kind
  · rw [if_pos h, if_pos (show plan.program.kindAt w.index = kind from h)]
  · rw [if_neg h, if_neg (show ¬plan.program.kindAt w.index = kind from h)]
    rfl

@[simp] theorem ends_finishDraft {Q : Text → Work → Prop} :
    Ends plan (edit Edit.finish) w Q E ↔
      if plan.program.count ≤ w.index then Q (w.draft.out ++ plan.program.gapBefore w.index) w
      else E (.invariant .unfinished) := by
  unfold Ends edit
  rw [Edit.finish_apply]
  by_cases h : plan.program.count ≤ w.draft.index
  · rw [if_pos h, if_pos (show _ ≤ w.index from h)]
    rfl
  · rw [if_neg h, if_neg (show ¬_ ≤ w.index from h)]

/-! ## Steps that only look -/

/-- A step whose result depends on the next token alone, and that changes nothing. -/
class Looks {α : Type} (p : Lower α) : Prop where
  looks : ∀ plan i, ∃ a, ∀ w : Work, w.index = i → p plan w = .ok a w

theorem Looks.of_index (g : Plan → Nat → α) (h : ∀ plan w, p plan w = .ok (g plan w.index) w) :
    Looks p :=
  ⟨fun plan i => ⟨g plan i, fun w hw => hw ▸ h plan w⟩⟩

theorem Looks.exists_eq (p : Lower α) [h : Looks p] (plan : Plan) (w : Work) :
    ∃ a, p plan w = .ok a w := by
  obtain ⟨a, ha⟩ := h.looks plan w.index
  exact ⟨a, ha w rfl⟩

theorem Ends.of_looks [Looks p] (h : ∀ a, Q a w) : Ends plan p w Q E := by
  obtain ⟨a, ha⟩ := Looks.exists_eq p plan w
  exact (ends_of_eq ha).mpr (h a)

instance : Looks (pure a : Lower α) := .of_index (fun _ _ => a) fun _ _ => rfl
instance : Looks (read : Lower Plan) := .of_index (fun plan _ => plan) fun _ _ => rfl
instance : Looks program := .of_index (fun plan _ => plan.program) fun _ _ => rfl
instance : Looks index := .of_index (fun _ i => i) fun _ _ => rfl
instance : Looks atEnd := .of_index (fun plan i => decide (plan.program.count ≤ i)) fun _ _ => rfl
instance : Looks cur := .of_index (fun plan i => plan.program.tokenAt i) fun _ _ => rfl
instance : Looks curText := .of_index (fun plan i => plan.program.textAt i) fun _ _ => rfl
instance : Looks curName := .of_index (fun plan i => plan.program.nameAt i) fun _ _ => rfl
instance : Looks isType := .of_index (fun plan i => plan.program.isTypeAt i) fun _ _ => rfl
instance : Looks (is kind) :=
  .of_index (fun plan i => decide (plan.program.kindAt i = kind)) fun _ _ => rfl
instance : Looks (comes kinds) :=
  .of_index (fun plan i => plan.program.matchesAt i kinds) fun _ _ => rfl
instance {word : String} : Looks (isName word) :=
  .of_index (fun plan i => plan.program.isNameAt i word.toList) fun _ _ => rfl
instance {name : Text} : Looks (replacement? name) :=
  .of_index (fun plan _ => plan.bindings.bind (·.replacement? name)) fun _ _ => rfl
instance {id : Nat} : Looks (isInContext kind id) :=
  .of_index (fun plan i => decide (plan.program.kindAt i = kind)
    && decide ((plan.program.tokenAt i).context = some id)) fun _ _ => rfl

/-! ## Steps that pass a token -/

/-- A step that passes the next token and writes a text, at least if there is a next token. -/
class Passes (p : Lower Unit) : Prop where
  exists_text : ∀ plan w, ∃ t, ∀ Q E, Ends plan p w Q E ↔
    if w.index < plan.program.count then Q () ((w.write t).moveTo (w.index + 1))
    else E (.invariant .endOfInput)

theorem Ends.of_passes {p : Lower Unit} {Q : Unit → Work → Prop} [hp : Passes p]
    (h : ∀ t, w.index < plan.program.count → Q () ((w.write t).moveTo (w.index + 1)))
    (hE : E (.invariant .endOfInput)) : Ends plan p w Q E := by
  obtain ⟨t, ht⟩ := hp.exists_text plan w
  rw [ht]
  split
  · exact h t ‹_›
  · exact hE

instance : Passes skip := ⟨fun _ _ => ⟨[], fun _ _ => by simp [Work.write]⟩⟩
instance : Passes (replace t) := ⟨fun _ _ => ⟨_, fun _ _ => ends_replace⟩⟩
instance : Passes copy := ⟨fun _ _ => ⟨_, fun _ _ => ends_copy⟩⟩
instance : Passes (replaceTrimmed t) := ⟨fun _ _ => ⟨_, fun _ _ => ends_replaceTrimmed⟩⟩
instance : Passes removeInitial := ⟨fun _ _ => ⟨_, fun _ _ => ends_removeInitial⟩⟩
instance : Passes remove := ⟨fun _ _ => ⟨_, fun _ _ => ends_remove⟩⟩

/-! ## Loops -/

theorem Ends.iterate {Q : σ → Work → Prop} {stalled : Lower σ} {n : Nat} (I : σ → Work → Prop)
    (hstep : ∀ s w, I s w → w.index ≤ plan.program.count ∧ Ends plan (step s) w
      (fun r w' => match r with
        | .done s' => Q s' w'
        | .yield s' => I s' w' ∧ w.index < w'.index) E) (hn : plan.program.count < n + w.index)
    (h : I s w) :
    Ends plan (iterate stalled step n s) w Q E := by
  induction n generalizing s w with
  | zero =>
    have := (hstep s w h).1
    omega
  | succ n ih =>
    rw [Downlevel.iterate]
    refine (hstep s w h).2.bind fun r w' hr => ?_
    cases r with
    | done s' => exact hr
    | yield s' => exact ih (by omega) hr.1

/-- A loop that passes a token each time but the last comes to an end. -/
theorem Ends.loop {Q : σ → Work → Prop} (I : σ → Work → Prop)
    (hstep : ∀ s w, I s w → w.index ≤ plan.program.count ∧ Ends plan (step s) w
      (fun r w' => match r with
        | .done s' => Q s' w'
        | .yield s' => I s' w' ∧ w.index < w'.index) E) (h : I s w) :
    Ends plan (loop s step) w Q E := by
  unfold Lower.loop
  rw [ends_bind, ends_read]
  exact Ends.iterate I hstep (by omega) h

/-- What holds along a loop holds at its end, if the loop comes to one. -/
theorem Ends.loop_partial {Q : σ → Work → Prop}
    (I : σ → Work → Prop) (hE : E (.invariant .noProgress))
    (hstep : ∀ s w, I s w → Ends plan (step s) w
      (fun r w' => match r with
        | .done s' => Q s' w'
        | .yield s' => I s' w') E) (h : I s w) : Ends plan (Lower.loop s step) w Q E := by
  unfold Lower.loop
  rw [ends_bind, ends_read]
  generalize plan.program.count + 2 = n
  induction n generalizing s w with
  | zero => exact hE
  | succ n ih =>
    rw [Downlevel.iterate]
    refine (hstep s w h).bind fun r w' hr => ?_
    cases r with
    | done s' => exact hr
    | yield s' => exact ih hr

theorem Ends.repeatWhile {condition : Lower Bool} {body : Lower Unit} {Q : Unit → Work → Prop}
    (I : Work → Prop)
    (hstep : ∀ w, I w → w.index ≤ plan.program.count ∧ Ends plan condition w
      (fun b w' => if b then Ends plan body w' (fun _ w'' => I w'' ∧ w.index < w''.index) E
        else Q () w') E)
    (h : I w) : Ends plan (repeatWhile condition body) w Q E := by
  unfold Lower.repeatWhile
  refine Ends.loop (fun _ => I) (fun _ w hw => ⟨(hstep w hw).1, ?_⟩) h
  refine (hstep w hw).2.bind fun b w' hb => ?_
  cases b with
  | false => exact hb
  | true => exact Ends.bind hb fun _ w'' hw'' => hw''

end

end Lower

/-- A source that is parsed and prepared lowers to what finishing its plan gives. -/
theorem transform_eq {source : Text} {o : Options} {tokens : Array Token} {plan : Plan} {w : Work}
    (hvalid : o.validate = .ok ()) (hparse : Grammar.parse source o = .ok tokens)
    (hprepare : Plan.prepare source tokens o = .ok (plan, w)) :
    transform source o =
      match Lower.finish plan w with
      | .ok code _ => .ok code
      | .error e _ => .error e := by
  unfold transform
  rw [hvalid, hparse]
  change (Plan.prepare source tokens o >>= _) = _
  rw [hprepare]
  rfl

end Downlevel
