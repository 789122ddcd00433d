import Downlevel.Proofs.Grammar.Takes

/-!
# Types, bindings, functions and classes keep the frame

Every part of the grammar is run with rules that obey what is asked of them
(`Calls`), and each part ends in the frame it started in.
-/

set_option synthInstance.maxSize 1000000000000000000
set_option synthInstance.maxHeartbeats 200000

namespace Downlevel.Grammar

open Grammar.Parser

variable {c : Setting} {call : Reference} {n : Nat} {f : Frame} {v : View} {kind : Kind}
  {isStatement : Bool} {role : Role}

/-! ## Types -/

instance {part : Parser Unit}
    [hpart : ∀ kind, Takes c n (f.push (.brace none)) kind part (f.push (.brace none))] :
    Takes c n f kind (templateWith part) f where
  runs v _ := by
    unfold templateWith
    refine (Runs.expectIn (.neutral rfl) (by simp [Frame.plain]) (by simp [Frame.plain])).bind
      fun _ w _ => ?_
    refine Runs.loop (I := fun _ _ => True) trivial fun _ w _ => ?_
    refine (Runs.expectIn (.neutral rfl) (by simp [Frame.after]) (by simp [Frame.after])).bind
      fun _ w _ => ?_
    simp only [runs_looks]
    refine Runs.ite (fun h => ?_) fun _ => ?_
    · have hkind : w.cur.kind = .backQuote := of_decide_eq_true h
      exact (Runs.nextAt hkind (.neutral rfl)).bind fun _ w _ => Runs.pure rfl trivial
    · refine (Runs.expect .dollarBraceL).bind fun _ w _ => ?_
      refine (hpart w.cur.kind).runs w rfl |>.bind fun _ w _ => ?_
      refine (Runs.expectIn .braceR (by simp [Frame.plain]) (by simp [Frame.plain])).bind
        fun _ w _ => ?_
      exact Runs.pure rfl trivial

section

variable [Calls c call]

instance [Loose f] : Takes c n f kind (balanced call) f := by
  unfold balanced
  refine Takes.bind_of (Takes.of_rounds fun stack _ => Takes.after_cur fun t => ?_) inferInstance
  dsimp only
  cases closerOf t.kind with
  | some closer => infer_instance
  | none => cases stack <;> infer_instance

instance [Loose f] : Takes c n f kind (typeOperand call) f := by
  unfold typeOperand
  refine Takes.bind_of inferInstance fun _ _ => Takes.bind_of inferInstance fun _ _ =>
    Takes.after_cur fun t => ?_
  split <;> infer_instance

end

theorem maybeAnnotation_keeps (hc : Calls c call) : Keeps c ( maybeAnnotation call) :=
  Takes.keeps

theorem keeps_maybeReturnType (hc : Calls c call) : Keeps c (maybeReturnType call) :=
  Takes.keeps

theorem keeps_maybeTypeParameters (hc : Calls c call) : Keeps c (maybeTypeParameters call) :=
  Takes.keeps

/-- The speculation of `callTypeArguments`. -/
theorem keeps_typeArguments_then (hc : Calls c call) {kinds : List Kind} :
    Keeps c (do
      typeArguments call
      if ← isOneOf kinds then return else unexpected) :=
  Takes.keeps

/-! ## Bindings -/

theorem runs_bindingList (hc : Calls c call) {close : Kind} {holes modifiers : Bool} :
    Runs c n f.plain v (bindingList call close role holes modifiers) (fun _ => f.plain)
      fun _ w => w.cur.kind = close :=
  EndsAt.runs v

theorem keeps_propertyBinding (hc : Calls c call) :
    Keeps c (propertyBinding call role) := by
  intro n f v
  unfold propertyBinding
  simp only [runs_looks]
  refine Runs.ite (fun h => ?_) fun _ => Runs.ite (fun h => ?_) fun _ =>
    Runs.ite (fun h => ?_) fun _ => Runs.ite (fun h => ?_) fun _ => Runs.unexpected
  · exact (Runs.nextAt h (.neutral rfl)).bind fun _ w _ => Takes.run
  · exact (Runs.nextAt h (.neutral rfl)).bind fun _ w _ => Takes.run
  · exact (Runs.next_neutral (Calms.eq h)).bind fun _ w _ => Takes.run
  · refine Runs.peekIs.bind fun b w hw => ?_
    obtain ⟨kind, rfl, rfl⟩ := hw
    refine Runs.ite (fun ht => ?_) fun _ => Takes.run
    -- the token that was looked at is the one ahead after the key
    refine (Runs.next (v := { v with after := some (.normal, kind) })
      (.neutral (isNeutral_of_isNameLike h))).bind fun _ w hw => ?_
    have hkind : w.cur.kind = .colon := (hw.kind kind rfl).trans (of_decide_eq_true ht)
    exact (Runs.nextAt hkind (.neutral rfl)).bind fun _ w _ => Takes.run

instance [hc : Calls c call] : Takes c n f kind (propertyBinding call role) f :=
  Takes.of_keeps (keeps_propertyBinding hc)

instance [Calls c call] : Takes c n f kind (binding call role) f := by
  unfold binding
  refine Takes.after_cur fun t => ?_
  generalize t.kind = kind
  split <;> infer_instance

/-! ## Functions -/

theorem runs_statements (hc : Calls c call) :
    Runs c n f.plain v (statements call) (fun _ => f.plain) fun _ w => w.cur.kind = .braceR :=
  EndsAt.runs v

theorem keeps_functionBody (hc : Calls c call) : Keeps c (functionBody call) :=
  Takes.keeps

theorem keeps_parameters (hc : Calls c call) {modifiers : Bool} :
    Keeps c (parameters call modifiers) :=
  Takes.keeps

instance {start m : Nat} [h : AtMost n start] : AtMost n ((some start).getD m) := h

instance {m : Nat} [h : AtMost n m] : AtMost n ((none : Option Nat).getD m) := h

/-- A function whose `async` is finished already changes that token too. -/
theorem runs_function (hc : Calls c call) {isStatement isAsync : Bool}
    (hasync : isAsync = true → n < v.count) :
    Runs c n f.plain v (function call isStatement isAsync) (fun _ => f.plain)
      fun _ _ => True := by
  unfold function
  refine Runs.tokenCount fun m hm hv => ?_
  have : AtMost n (if isAsync = true then m - 1 else m) := ⟨by
    split
    · rename_i h
      have := hasync h
      omega
    · exact hm⟩
  exact Takes.run

section

variable [Calls c call]

instance : Takes c n f kind (function call isStatement false) f :=
  ⟨fun _ _ => runs_function inferInstance nofun⟩

instance (priority := high) [hp : PassesTo f kind f] :
    Takes c n f kind (next >>= fun _ => function call isStatement true) f :=
  ⟨fun _ hv => Runs.assume fun hn => (Runs.next (hv ▸ hp.passes)).bind fun _ _ hw =>
    runs_function inferInstance fun _ => Nat.lt_of_le_of_lt hn hw.count⟩

instance (priority := high) {β : Type} {g : Frame} {k : Unit → Parser β} [PassesTo f kind f]
    [∀ kind', Takes c n f kind' (k ()) g] :
    Takes c n f kind (next >>= fun _ => function call isStatement true >>= k) g := by
  rw [← bind_assoc]
  infer_instance

instance : Shifts c n f kind (arrowParameters call) fun _ => f.deeper := by
  have : Takes c n f kind (arrowParameters call) f.deeper := by
    unfold arrowParameters
    infer_instance
  exact ⟨this.runs⟩

instance : Shifts c n f.deeper kind (arrowBody call) fun _ => f := by
  have : Takes c n f.deeper kind (arrowBody call) f := by
    unfold arrowBody
    infer_instance
  exact ⟨this.runs⟩

end

/-- The scope that the parameters of an arrow function enter stays open. -/
theorem runs_arrowParameters (hc : Calls c call) :
    Runs c n f.plain v (arrowParameters call) (fun _ => f.deeper.plain) fun _ _ => True :=
  Takes.run

theorem keeps_genericArrow (hc : Calls c call) : Keeps c (genericArrow call) :=
  Takes.keeps

/-! ## Classes -/

/-- The tokens that tell an index signature from a computed name. -/
theorem runs_indexSignature_ahead (hkind : v.cur.kind = .bracketL) :
    Runs c n f.plain v (do
      next
      if ← is .name then
        next
        is .colon
      else return false) (fun _ => f.plain) fun _ _ => True :=
  Takes.runs v hkind

theorem runs_field (hc : Calls c call) : Keeps c (field call) :=
  Takes.keeps

theorem keeps_classMember (hc : Calls c call) : Keeps c (classMember call) :=
  Takes.keeps

theorem keeps_maybeClassName : Keeps c (maybeClassName isStatement) :=
  Takes.keeps

theorem keeps_classHeritage (hc : Calls c call) : Keeps c (classHeritage call) :=
  Takes.keeps

/-- The body of a class ends what its keyword opened. -/
theorem runs_classBody (hc : Calls c call) {id : Nat} :
    Runs c n ((f.push (.head id)).inContext id).plain v (classBody call id) (fun _ => f.plain)
      fun _ _ => True := by
  unfold classBody
  simp only [runs_looks]
  refine Runs.ite (fun h => ?_) fun _ => Runs.unexpected
  have hkind : (v.stamped id).cur.kind = .braceL := of_decide_eq_true h
  refine Runs.stamp.bind fun _ w hw => ?_
  subst hw
  refine (Runs.nextIn (g := (f.inContext id).push (.body id)) ?_ (by simp) ?_).bind fun _ w _ => ?_
  · rw [hkind]
    exact Passes.class_body (f := f.inContext id)
  · simp [hkind, isNeutral]
  refine Runs.enterScope.bind fun _ w _ => ?_
  refine (EndsAt.runs w).bind fun _ w hw => ?_
  refine Runs.leaveScope.bind fun _ w' hw' => ?_
  subst hw'
  have hend : (w'.stamped id).cur.kind = .braceR := hw
  refine Runs.closing (f := f.push (.body id)) rfl (Runs.any (Runs.nextIn (g := f) ?_ (by simp) ?_))
  · rw [hend]
    exact Passes.class_end
  · simp [hend, isNeutral]

instance [hc : Calls c call] :
    Takes c n f kind (classRule call isStatement) f where
  runs v _ := by
    have hsplit : ∀ id : Nat,
        (modifyCur fun t => { t with context := some id, isExpression := !isStatement }) =
          (stamp id >>= fun _ => modifyCur fun t => { t with isExpression := !isStatement }) :=
      fun _ => rfl
    unfold classRule
    simp only [hsplit, bind_assoc]
    refine Runs.opening fun id => ?_
    refine Runs.value.bind fun _ w _ => ?_
    refine (Runs.expectIn (g := (f.push (.head id)).inContext id) Passes.kwClass
      (by simp) (by simp)).bind fun _ w _ => ?_
    refine keeps_maybeClassName.run.bind fun _ w _ => ?_
    refine (keeps_maybeTypeParameters hc).run.bind fun _ w _ => ?_
    exact (keeps_classHeritage hc).run.bind fun _ w _ => runs_classBody hc

end Downlevel.Grammar
