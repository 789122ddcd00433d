import Downlevel.Proofs.Grammar.Progress.Basic
import Downlevel.Proofs.Lower.ClassScan

/-!
# Lowering goes on

No step of lowering goes back or takes output back, and wherever a step is
repeated or called again inside itself a token was passed before.  So no loop
runs as often as its bound allows, and two ways of lowering the tokens inside a
token that do the same give the same for the token itself.
-/

namespace Downlevel.Lower

/-- The next token is at `lo` or later, and later if `past`. -/
structure Reached (plan : Plan) (lo : Nat) (past : Bool) (w : Work) : Prop where
  ge : lo ≤ w.index
  gt : past = true → lo < w.index
  le : w.index ≤ plan.program.count

/-- A work that comes later: it has not gone back, and only added to the output. -/
structure Onward (plan : Plan) (w w' : Work) : Prop where
  index_le : w.index ≤ w'.index
  le_count : w'.index ≤ plan.program.count
  grows : w.draft.out <+: w'.draft.out

section

variable {plan : Plan} {lo : Nat} {past : Bool} {w w' w'' : Work}

theorem Onward.refl (h : w.index ≤ plan.program.count) : Onward plan w w :=
  ⟨Nat.le_refl _, h, List.prefix_refl _⟩

theorem Onward.trans (h : Onward plan w w') (h' : Onward plan w' w'') : Onward plan w w'' :=
  ⟨Nat.le_trans h.index_le h'.index_le, h'.le_count, h.grows.trans h'.grows⟩

theorem Onward.of_draft (h : w.index ≤ plan.program.count) (heq : w'.draft = w.draft) :
    Onward plan w w' := by
  have hindex : w'.index = w.index := congrArg Draft.index heq
  exact ⟨by omega, by omega, heq ▸ List.prefix_refl _⟩

theorem Reached.onward (h : Reached plan lo past w) (h' : Onward plan w w') :
    Reached plan lo past w' :=
  ⟨Nat.le_trans h.ge h'.index_le, fun hpast => Nat.lt_of_lt_of_le (h.gt hpast) h'.index_le,
    h'.le_count⟩

theorem Reached.passed (h : Reached plan lo past w) (h' : Onward plan w w')
    (hlt : w.index < w'.index) : Reached plan lo true w' :=
  ⟨Nat.le_trans h.ge h'.index_le, fun _ => Nat.lt_of_le_of_lt h.ge hlt, h'.le_count⟩

end

/-! ## Steps that go on -/

/-- The step comes to an end and goes on, and it passes a token if its result is
in `R`. -/
def Heads {α : Type} (plan : Plan) (R : α → Prop) (p : Lower α) (w : Work) : Prop :=
  Ends plan p w (fun a w' => Onward plan w w' ∧ (R a → w.index < w'.index))
    fun e => e.isFatal = false

/-- Two steps that go on and do the same, from every work that has come far
enough. -/
class Advances {α : Type} (plan : Plan) (lo : Nat) (past : Bool) (R : α → Prop) (p q : Lower α) :
    Prop where
  same : ∀ {w}, Reached plan lo past w → p plan w = q plan w
  heads : ∀ {w}, Reached plan lo past w → Heads plan R p w

/-- An assumption that sources can break, other than that a run comes to its end. -/
class Mild (b : Breach) : Prop where
  not_fatal : (Error.invariant b).isFatal = false

namespace Advances

section

variable {α β σ : Type} {plan : Plan} {lo : Nat} {past : Bool} {R : α → Prop} {R' : β → Prop}
  {p q : Lower α} {f g : α → Lower β} {kind : Kind} {t : Text}

/-! ## Looking -/

instance (priority := low) [Looks p] : Advances plan lo past Never p p where
  same _ := rfl
  heads hw := .of_looks fun _ => ⟨.refl hw.le, False.elim⟩

instance (priority := low) of_always [h : Advances plan lo past Always p q] :
    Advances plan lo past Never p q where
  same := h.same
  heads hw := (h.heads hw).mono fun _ _ hw' => ⟨hw'.1, False.elim⟩

instance : Advances plan lo past Applied (pure false : Lower Bool) (pure false) where
  same _ := rfl
  heads hw := ⟨.refl hw.le, nofun⟩

instance {s : σ} :
    Advances plan lo past Again (pure (.done s) : Lower (ForInStep σ)) (pure (.done s)) where
  same _ := rfl
  heads hw := ⟨.refl hw.le, False.elim⟩

instance : Advances plan lo past Never (get : Lower Work) get where
  same _ := rfl
  heads hw := ⟨.refl hw.le, False.elim⟩

/-! ## Writing -/

theorem of_draft (h : ∀ w, Ends plan p w (fun _ w' => w'.draft = w.draft)
    fun e => e.isFatal = false) : Advances plan lo past Never p p where
  same _ := rfl
  heads hw := (h _).mono fun _ _ heq => ⟨.of_draft hw.le heq, False.elim⟩

instance {p : Lower Unit} [Passes p] : Advances plan lo past Always p p where
  same _ := rfl
  heads _ := .of_passes (fun _ hlt => ⟨⟨Nat.le_succ _, hlt, List.prefix_append ..⟩,
    fun _ => Nat.lt_succ_self _⟩) rfl

instance : Advances plan lo past Never (append t) (append t) where
  same _ := rfl
  heads hw := ⟨⟨Nat.le_refl _, hw.le, List.prefix_append ..⟩, False.elim⟩

instance : Advances plan lo past Always (copyExpected kind) (copyExpected kind) where
  same _ := rfl
  heads hw := by
    unfold Heads
    rw [ends_copyExpected]
    split
    · exact heads (q := copy) hw
    · rfl

instance {offset : Nat} :
    Advances plan lo past Never (edit (Edit.lineAt offset)) (edit (Edit.lineAt offset)) where
  same _ := rfl
  heads hw := ⟨⟨Nat.le_refl _, hw.le, List.prefix_refl _⟩, False.elim⟩

instance {base : String} : Advances plan lo past Never (claim base) (claim base) :=
  of_draft fun _ => rfl

instance {code : Text} : Advances plan lo past Never (hoist code) (hoist code) :=
  of_draft fun _ => rfl

/-! ## Failing -/

theorem of_error {e : Error} (h : e.isFatal = false) :
    Advances plan lo past R (throw e : Lower α) (throw e) where
  same _ := rfl
  heads _ := h

instance {b : Breach} [h : Mild b] : Advances plan lo past R (breach b : Lower α) (breach b) :=
  of_error h.not_fatal

instance {o : Option α} {b : Breach} [Mild b] :
    Advances plan lo past Never (orBreach o b) (orBreach o b) := by
  cases o with
  | none => exact inferInstanceAs (Advances plan lo past Never (breach b : Lower α) (breach b))
  | some a => exact inferInstanceAs (Advances plan lo past Never (pure a : Lower α) (pure a))

/-! ## Putting steps together -/

/-- One step after the other passes a token if one of them does so. -/
theorem bind_of {S : α → Prop} {T : α → β → Prop} {past' : Bool}
    (hp : Advances plan lo past S p q) (hf : ∀ a, Advances plan lo past' (T a) (f a) (g a))
    (hreached : ∀ a {w w'}, Reached plan lo past w → Onward plan w w' →
      (S a → w.index < w'.index) → Reached plan lo past' w')
    (hR : ∀ a b, R' b → S a ∨ T a b) : Advances plan lo past R' (p >>= f) (q >>= g) where
  same {w} hw := by
    have hheads := hp.heads hw
    rw [bind_apply, bind_apply, ← hp.same hw]
    unfold Heads Ends at hheads
    cases hpw : p plan w with
    | error e w' => rfl
    | ok a w' =>
      rw [hpw] at hheads
      exact (hf a).same (hreached a hw hheads.1 hheads.2)
  heads hw := by
    refine Ends.bind (hp.heads hw) fun a w' ⟨honward, hpassed⟩ => ?_
    refine ((hf a).heads (hreached a hw honward hpassed)).mono fun b w'' ⟨honward', hpassed'⟩ => ?_
    refine ⟨honward.trans honward', fun hb => ?_⟩
    rcases hR a b hb with ha | hb'
    · exact Nat.lt_of_lt_of_le (hpassed ha) honward'.index_le
    · exact Nat.lt_of_le_of_lt honward.index_le (hpassed' hb')

instance bind [hp : Advances plan lo past Never p q]
    [hf : ∀ a, Advances plan lo past R' (f a) (g a)] :
    Advances plan lo past R' (p >>= f) (q >>= g) :=
  bind_of hp hf (fun _ _ _ hw honward _ => hw.onward honward) fun _ _ => .inr

instance (priority := high) bind_passed [hp : Advances plan lo past Always p q]
    [hf : ∀ a, Advances plan lo true Never (f a) (g a)] :
    Advances plan lo past R' (p >>= f) (q >>= g) :=
  bind_of hp hf (fun _ _ _ hw honward hpassed => hw.passed honward (hpassed trivial))
    fun _ _ _ => .inl trivial

theorem after [Advances plan lo past Never p q] (hf : ∀ a, Advances plan lo past R' (f a) (g a)) :
    Advances plan lo past R' (p >>= f) (q >>= g) :=
  bind

theorem before (hp : Advances plan lo past Never p q)
    [∀ a, Advances plan lo past R' (f a) (g a)] : Advances plan lo past R' (p >>= f) (q >>= g) :=
  bind

theorem after_passing [Advances plan lo past Always p q]
    (hf : ∀ a, Advances plan lo true Never (f a) (g a)) :
    Advances plan lo past R' (p >>= f) (q >>= g) :=
  bind_passed

instance {P : Prop} [Decidable P] {p' q' : Lower α} [hp : Advances plan lo past R p q]
    [hp' : Advances plan lo past R p' q'] :
    Advances plan lo past R (if P then p else p') (if P then q else q') := by
  split
  · exact hp
  · exact hp'

instance {h : α → β} [Advances plan lo past Never p q] :
    Advances plan lo past Never (h <$> p) (h <$> q) := by
  rw [map_eq_pure_bind, map_eq_pure_bind]
  infer_instance

instance mapM {h : β → Lower α} [hh : ∀ b, Advances plan lo past Never (h b) (h b)] {l : List β} :
    Advances plan lo past Never (l.mapM h) (l.mapM h) := by
  induction l with
  | nil => exact inferInstanceAs (Advances plan lo past Never (pure []) (pure []))
  | cons b l ih =>
    rw [List.mapM_cons]
    infer_instance

end

/-! ## Loops -/

section

variable {σ : Type} {plan : Plan} {lo : Nat} {past : Bool} {step step' : σ → Lower (ForInStep σ)}
  {R' : σ → Prop} {s : σ} {body body' : Lower Unit}

/-- A loop comes to an end if each round but the last passes a token.  It passes
one itself if the last round does so, too. -/
theorem iterate {stalled : Lower σ} {R : ForInStep σ → Prop} (hR : ∀ s, R (.yield s))
    (hR' : ∀ s, R' s → R (.done s)) (hstep : ∀ s, Advances plan lo past R (step s) (step' s))
    {n : Nat} {w : Work} (hw : Reached plan lo past w) (hn : plan.program.count < n + w.index) :
    iterate stalled step n s plan w = iterate stalled step' n s plan w
      ∧ Heads plan R' (iterate stalled step n s) w := by
  induction n generalizing s w with
  | zero =>
    have := hw.le
    omega
  | succ n ih =>
    have hends := (hstep s).heads hw
    unfold Heads
    simp only [Downlevel.iterate, bind_apply, ends_bind, ← (hstep s).same hw]
    unfold Heads Ends at hends
    unfold Ends
    cases hs : step s plan w with
    | error e w' =>
      rw [hs] at hends
      exact ⟨rfl, hends⟩
    | ok r w' =>
      rw [hs] at hends
      obtain ⟨honward, hpassed⟩ := hends
      cases r with
      | done s' => exact ⟨rfl, honward, fun hs' => hpassed (hR' s' hs')⟩
      | yield s' =>
        have hlt := hpassed (hR s')
        obtain ⟨hsame, hheads⟩ := ih (s := s') (hw.onward honward) (by omega)
        refine ⟨hsame, hheads.mono fun _ w'' hw'' => ?_⟩
        exact ⟨honward.trans hw''.1, fun _ => Nat.lt_of_lt_of_le hlt hw''.1.index_le⟩

theorem of_iterate {R : ForInStep σ → Prop} (hR : ∀ s, R (.yield s))
    (hR' : ∀ s, R' s → R (.done s)) (hstep : ∀ s, Advances plan lo past R (step s) (step' s)) :
    Advances plan lo past R' (loop s step) (loop s step') where
  same hw := (iterate hR hR' hstep hw (by omega)).1
  heads hw := (iterate hR hR' hstep hw (by omega)).2

theorem rounds (hstep : ∀ s, Advances plan lo past Again (step s) (step' s)) :
    Advances plan lo past Never (Lower.loop s step) (Lower.loop s step') :=
  of_iterate (fun _ => trivial) (fun _ => id) hstep

instance loop [hstep : ∀ s, Advances plan lo past Again (step s) (step' s)] :
    Advances plan lo past Never (Lower.loop s step) (Lower.loop s step') :=
  rounds hstep

instance {condition : Lower Bool}
    [Advances plan lo past Never condition condition] [Advances plan lo past Always body body'] :
    Advances plan lo past Never (repeatWhile condition body) (repeatWhile condition body') := by
  unfold repeatWhile
  infer_instance

instance {stop : Nat} [Advances plan lo past Always body body'] :
    Advances plan lo past Never (repeatTo stop body) (repeatTo stop body') := by
  unfold repeatTo
  infer_instance

instance (priority := low) {α : Type} {R : α → Prop} {p p' q q' : Lower α} [h : Unfolds p p']
    [h' : Unfolds q q'] [hadvances : Advances plan lo past R p' q'] : Advances plan lo past R p q := by
  rw [h.eq, h'.eq]
  exact hadvances

end

end Advances

end Downlevel.Lower
