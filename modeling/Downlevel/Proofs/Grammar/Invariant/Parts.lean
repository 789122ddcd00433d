import Downlevel.Proofs.Grammar.Invariant.Basic

/-!
# What each part of the grammar keeps

An invariant of ordinary code is kept by every part of the grammar that keeps to ordinary
code.  Three places are left to the invariant, since it depends on it whether they do: an
element, the head of an asynchronous arrow function, in front of which nobody asks whether
the source can have types, and an export, which may become part of a type afterwards.
-/

set_option synthInstance.maxSize 1000000000000000000

namespace Downlevel.Grammar

open Grammar.Parser

/-- The rules of types keep an invariant. -/
class TypeRulesMaintain (c : Setting) (I : State → Prop) (call : Reference) : Prop where
  type : ∀ conditional, Maintains c True I (call (.type conditional))
  typeOperand : Maintains c True I (call .typeOperand)

/-- The rules of ordinary code keep an invariant. -/
class RulesMaintain (c : Setting) (I : State → Prop) (call : Reference) : Prop where
  calls : Calls c call
  rule : ∀ r, (∀ mode, r ≠ .element mode) → Maintains c True I (call r)

/-- An element keeps an invariant where it can stand. -/
class ElementMaintains (c : Setting) (I : State → Prop) (call : Reference) : Prop where
  element : c.jsx = true → ∀ {st st' : State}, st.cur.kind = .lessThan → I st →
    call (.element .normal) c st = .ok () st' → I st'

/-- The head of an asynchronous arrow function keeps an invariant. -/
class AsyncMaintains (c : Setting) (I : State → Prop) (call : Reference) : Prop where
  head : ∀ {st st' : State}, st.cur.kind = .name → st.cur.text c.source = "async".toList → I st →
    asyncArrowHead call c st = .ok () st' → I st'

/-- An export keeps an invariant. -/
class ExportMaintains (c : Setting) (I : State → Prop) (call : Reference) : Prop where
  rule : ∀ {st st' : State}, st.cur.kind = .kwExport → I st →
    exportRule call c st = .ok () st' → I st'

namespace Maintains

/-! ## Types -/

section

variable {c : Setting} {A : Prop} {I : State → Prop} {call : Reference} [Invariant c I]

omit [Invariant c I] in
instance [hc : RulesMaintain c I call] : TypeRulesMaintain c I call :=
  ⟨fun _ => hc.rule _ nofun, hc.rule _ nofun⟩

omit [Invariant c I] in
instance {conditional : Bool} [hc : TypeRulesMaintain c I call] :
    Maintains c A I (call (.type conditional)) :=
  (hc.type conditional).mono fun _ => trivial

omit [Invariant c I] in
instance [hc : TypeRulesMaintain c I call] : Maintains c A I (call .typeOperand) :=
  hc.typeOperand.mono fun _ => trivial

variable [TypeRulesMaintain c I call]

instance : Maintains c A I (balanced call) := by
  unfold balanced
  refine before (loop_of fun stack => after fun t => ?_)
  dsimp only
  split
  · infer_instance
  · split
    · split <;> infer_instance
    · infer_instance

instance : Maintains c A I (typeOperand call) := by
  unfold typeOperand
  refine after fun _ => after fun _ => after fun t => ?_
  split <;> infer_instance

/-! ## Types where a value could stand -/

variable [AllowsTypes c A I]

end

section

variable {c : Setting} {A : Prop} {I : State → Prop} {call : Reference} [hI : Invariant c I]
  [hT : AllowsTypes c (c.hasTypes = true) I] [hc : RulesMaintain c I call]

instance : Maintains c A I (call .statement) := (hc.rule .statement nofun).mono fun _ => trivial

instance {noIn : Bool} : Maintains c A I (call (.assignment noIn)) :=
  (hc.rule (.assignment noIn) nofun).mono fun _ => trivial

instance : Maintains c A I (call .unary) := (hc.rule .unary nofun).mono fun _ => trivial

instance : Maintains c A I (call .newExpression) := (hc.rule .newExpression nofun).mono fun _ => trivial

instance {role : Role} : Maintains c A I (call (.binding role)) :=
  (hc.rule (.binding role) nofun).mono fun _ => trivial

instance [AllowsTypes c A I] : Maintains c A I (callTypeArguments call) := by
  unfold callTypeArguments
  exact attempt_of fun _ => ⟨_, (keeps_typeArguments_then hc.calls).run⟩

/-! ## Bindings -/

instance {role : Role} : Maintains c A I (binding call role) := by
  unfold binding
  refine after fun t => ?_
  split <;> infer_instance

/-! ## Classes -/

instance {id : Nat} : Maintains c A I (classBody call id) := by
  have hclose : Maintains c A I (do
      match ← popContext with
      | none => throw (.invariant .classContextUnderflow)
      | some id =>
        stamp id
        next : Parser Unit) := by
    refine after fun id => ?_
    split <;> infer_instance
  unfold classBody
  infer_instance

/-! ## Expressions -/

instance : Maintains c A I (optionalMember call) := by
  unfold optionalMember
  refine after fun _ => after fun t => ?_
  split <;> infer_instance

instance {noCall : Bool} : Maintains c A I (subscripts call noCall) := by
  unfold subscripts
  refine loop_of fun _ => after fun t => ?_
  split <;> infer_instance

/-- Only what is like a name becomes a key. -/
instance {id : Nat} {hasModifier : Bool} : Maintains c A I (objectKey call id hasModifier) where
  of_ok hA st a st' hst hok := by
    unfold objectKey at hok
    obtain ⟨t, st₁, hcur, hok⟩ := Parser.exists_of_bind hok
    cases hcur
    dsimp only at hok
    split at hok
    · exact ok hA hst hok
    · split at hok
      · exact ok hA hst hok
      · split at hok
        · rename_i hname
          obtain ⟨t, st₁, hpeek, hmore⟩ := Parser.exists_of_bind hok
          have hstill : Maintains c True (· = st) peek := inferInstance
          have hst₁ : st₁ = st := hstill.of_ok trivial rfl hpeek
          rw [hst₁] at hmore
          obtain ⟨_, st₂, hmark, hrest⟩ := Parser.exists_of_bind hmore
          cases hmark
          have hmarked (role : Role) :
              I { st with cur := { st.cur with role := some role, context := some id } } :=
            hI.context (some id) st.cur.isExpression (hI.role (some role) (fun _ => hname) hst)
          exact ok hA (hmarked _) hrest
        · exact ok hA hst hok

/-- The head of an asynchronous arrow function is tried where `async` is ahead. -/
instance [hasync : AsyncMaintains c I call] : Maintains c A I (nameOperand call) where
  of_ok hA st a st' hst hok := by
    unfold nameOperand at hok
    obtain ⟨isAsync, st₁, hname, hok⟩ := Parser.exists_of_bind hok
    obtain ⟨hisAsync, rfl⟩ := EStateM.Result.ok.inj hname
    cases isAsync with
    | false => exact ok hA hst hok
    | true =>
      obtain ⟨hkind, htext⟩ := by simpa using hisAsync
      rw [if_pos rfl] at hok
      obtain ⟨t, st₁, hpeek, hrest⟩ := Parser.exists_of_bind hok
      have hstill : Maintains c True (· = st) peek := inferInstance
      have hst₁ : st₁ = st := hstill.of_ok trivial rfl hpeek
      rw [hst₁] at hrest
      by_cases hnewline : t.newlineBefore = true
      · rw [if_pos hnewline] at hrest
        exact ok hA hst hrest
      · rw [if_neg hnewline] at hrest
        have hattempt {b : Bool} {st₂ : State} (h : attempt (asyncArrowHead call) c st = .ok b st₂) :
            I st₂ :=
          attempt_ok (runs_asyncArrowHead hc.calls (.loose st.frame_isLoose)) hst
            (fun _ _ => hasync.head hkind htext hst) h
        by_cases hhead : t.kind = .parenL ∨ t.kind = .lessThan
        · have htry : (do
              if ← attempt (asyncArrowHead call) then
                arrowBody call
                return true
              else plainName call : Parser Bool) c st = .ok a st' := by
            rcases hhead with hhead | hhead <;> simpa only [hhead] using hrest
          obtain ⟨isHead, st₂, hhead, hmore⟩ := Parser.exists_of_bind htry
          exact ok hA (hattempt hhead) hmore
        · refine Maintains.run ?_ hA hst hrest
          split
          case h_3 heq => exact absurd (.inl heq) hhead
          case h_4 heq => exact absurd (.inr heq) hhead
          all_goals infer_instance

instance : Maintains c A I (attempt (arrowParameters call)) :=
  attempt_of fun _ => ⟨_, runs_arrowParameters hc.calls⟩

instance [AllowsTypes c A I] : Maintains c A I (attempt (genericArrow call)) :=
  attempt_of fun _ => ⟨_, (keeps_genericArrow hc.calls).run⟩

/-- An element that does not go through may be the type parameters of an arrow function. -/
theorem angled_ok [helement : ElementMaintains c I call] {st st' : State} {b : Bool}
    (hkind : st.cur.kind = .lessThan) (hst : I st) (hok : angled call c st = .ok b st') : I st' := by
  have hresults : Results c (angled call) st (fun _ => I) fun _ _ => True := by
    refine Results.angled (F := fun _ st' => st'.restore st.snapshot = st) (fun hjsx => ?_)
      (fun e st' htypes hback => ?_) (fun _ _ _ => trivial) fun _ => results trivial hst
    · have hruns : Runs c st.tokens.size st.frame.plain st.view (call (.element .normal))
          (fun _ => st.frame.after .normal) fun _ _ => True := hc.calls.element (.inl hkind)
      unfold Results
      cases hrun : call (.element .normal) c st with
      | ok x st' => exact helement.element hjsx hkind hst hrun
      | error e st' => exact (hruns.kept_of_error hrun).restore_snapshot
    · rw [hback]
      refine (results htypes hst).weaken (fun b _ h => ?_) fun _ _ h => h
      cases b with
      | true => exact h
      | false => trivial
  unfold Results at hresults
  rwa [hok] at hresults

section

variable [AsyncMaintains c I call] [ElementMaintains c I call]

instance : Maintains c A I (operand call) where
  of_ok hA st a st' hst hok := by
    unfold operand at hok
    obtain ⟨t, st₁, hcur, hok⟩ := Parser.exists_of_bind hok
    cases hcur
    by_cases hkind : st.cur.kind = .lessThan
    · rw [hkind] at hok
      exact angled_ok hkind hst hok
    · refine Maintains.run ?_ hA hst hok
      split
      case h_22 heq => exact absurd heq hkind
      all_goals infer_instance

end

/-! ## Statements -/

instance : Maintains c A I (exported call) := by
  unfold exported
  refine after fun t => ?_
  split <;> infer_instance

instance [hexport : ExportMaintains c I call] : Maintains c A I (statement call) where
  of_ok hA st a st' hst hok := by
    unfold statement at hok
    obtain ⟨t, st₁, hcur, hok⟩ := Parser.exists_of_bind hok
    cases hcur
    by_cases hkind : st.cur.kind = .kwExport
    · rw [hkind] at hok
      exact hexport.rule hkind hst hok
    · refine Maintains.run ?_ hA hst hok
      split
      case h_20 heq => exact absurd heq hkind
      all_goals infer_instance

/-- Where types are always allowed, nothing is special about the head of an asynchronous arrow
function and about an export. -/
instance [AllowsTypes c True I] : AsyncMaintains c I call :=
  ⟨fun _ _ hst hok => ok trivial hst hok⟩

instance [AllowsTypes c True I] : ExportMaintains c I call :=
  ⟨fun _ hst hok => ok trivial hst hok⟩

end

end Maintains

/-! ## The grammar -/

variable {c : Setting} {I : State → Prop} {call : Reference}

/-- The rules keep an invariant if those that they refer to do. -/
theorem maintains_define [Invariant c I] [AllowsTypes c (c.hasTypes = true) I] [RulesMaintain c I call]
    [ElementMaintains c I call] [AsyncMaintains c I call] [ExportMaintains c I call] {rule : Rule}
    (hrule : ∀ mode, rule ≠ .element mode) : Maintains c True I (define call rule) := by
  cases rule with
  | statement => exact (inferInstance : Maintains c True I (statement call))
  | assignment noIn => exact (inferInstance : Maintains c True I (assignment call noIn))
  | unary => exact (inferInstance : Maintains c True I (unary call))
  | newExpression => exact (inferInstance : Maintains c True I (newExpression call))
  | binding role => exact (inferInstance : Maintains c True I (binding call role))
  | type conditional => exact (inferInstance : Maintains c True I (typeRule call conditional))
  | typeOperand => exact (inferInstance : Maintains c True I (typeOperand call))
  | element after => exact absurd rfl (hrule after)

end Downlevel.Grammar
