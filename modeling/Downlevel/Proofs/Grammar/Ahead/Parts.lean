import Downlevel.Proofs.Grammar.Ahead.Basic
import Downlevel.Proofs.Grammar.Statement

/-!
# What each part of the grammar leaves ahead

Every part of the grammar but those inside of tags leaves the token that was
ahead or one that is fresh.  A mark on the token ahead is always followed by
finishing it.
-/

set_option synthInstance.maxSize 1000000000000000000

namespace Downlevel.Grammar

open Grammar.Parser

/-- The rules leave a token ahead that is the one before or fresh.  After an element
the token is read in the mode that is asked for. -/
class RulesLeave (c : Setting) (call : Reference) : Prop where
  rule : ∀ r, (∀ mode, r ≠ .element mode) → Leaves c .settled (call r)
  element : ∀ mode, Leaves c .any (call (.element mode))
  element_normal : Leaves c .fresh (call (.element .normal))

namespace Leaves

section

variable {c : Setting} {call : Reference} [hc : RulesLeave c call]

/-! ## Rules -/

instance : Leaves c .settled (call .statement) := hc.rule _ nofun

instance {noIn : Bool} : Leaves c .settled (call (.assignment noIn)) := hc.rule _ nofun

instance : Leaves c .settled (call .unary) := hc.rule _ nofun

instance : Leaves c .settled (call .newExpression) := hc.rule _ nofun

instance {role : Role} : Leaves c .settled (call (.binding role)) := hc.rule _ nofun

instance {conditional : Bool} : Leaves c .settled (call (.type conditional)) := hc.rule _ nofun

instance : Leaves c .settled (call .typeOperand) := hc.rule _ nofun

instance {after : Lexer.Mode} : Leaves c .any (call (.element after)) := hc.element after

/-! ## Types -/

/-- Only the last round of a template reads ordinary code. -/
instance {part : Parser Unit} [hpart : Leaves c .any part] :
    Leaves c .fresh (templateWith part) := by
  unfold templateWith
  refine then_fresh fun _ => loop_fresh inferInstance fun _ _ st st' hst h => ?_
  obtain ⟨_, st₁, hchunk, h⟩ := Parser.exists_of_bind h
  obtain ⟨isLast, st₂, hlook, h⟩ := Parser.exists_of_bind h
  cases hlook
  have hexpect : Leaves c .any (expectIn .template .templateEnd) := inferInstance
  have hst₁ : Tight st₁ := (hexpect.of_ok hst hchunk).2.1
  split at h
  · obtain ⟨_, st₃, hnext, h⟩ := Parser.exists_of_bind h
    cases h
    have hlast : Leaves c .fresh next := inferInstance
    exact (hlast.of_ok hst₁ hnext).2.2
  · obtain ⟨_, _, -, h⟩ := Parser.exists_of_bind h
    obtain ⟨_, _, -, h⟩ := Parser.exists_of_bind h
    obtain ⟨_, _, -, h⟩ := Parser.exists_of_bind h
    cases h

instance : Leaves c .settled (balanced call) := by
  unfold balanced
  refine then_settled (loop_settled fun stack => settled_then fun t => ?_)
  dsimp only
  split
  · infer_instance
  · split
    · split <;> infer_instance
    · infer_instance

instance : Leaves c .settled (typeOperand call) := by
  unfold typeOperand
  refine settled_then fun _ => settled_then fun _ => settled_then fun t => ?_
  split <;> infer_instance

instance : Leaves c .settled (typeAlias call) := by
  unfold typeAlias
  refine in_type (settled_then fun isOpaque => ?_)
  dsimp only
  split <;> infer_instance

/-! ## Bindings -/

instance {role : Role} : Leaves c .settled (binding call role) := by
  unfold binding
  refine settled_then fun t => ?_
  split <;> infer_instance

/-! ## Classes -/

instance {id : Nat} : Leaves c .settled (classBody call id) := by
  have hclose : Leaves c .settled (do
      match ← popContext with
      | none => throw (.invariant .classContextUnderflow)
      | some id =>
        stamp id
        next : Parser Unit) := by
    refine settled_then fun id => ?_
    split <;> infer_instance
  unfold classBody
  infer_instance

/-! ## Elements -/

instance {start : Nat} : Leaves c .settled (textFrom start) :=
  of_rests fun _ => ⟨rfl, rfl, rfl, rfl⟩

instance : Leaves c .any (tagAttribute call) := by
  have hvalue : ∀ t : Token, Leaves c .any (match t.kind with
      | .string => nextIn .tag
      | .braceL => do
        next
        call (.assignment false)
        expectIn .braceR .tag
      | .jsxTagStart => call (.element .tag)
      | _ => fault .badAttributeValue : Parser Unit) := by
    intro t
    split <;> infer_instance
  unfold tagAttribute
  infer_instance

instance : Leaves c .any (children call) := by
  unfold children
  refine loop_any fun _ => any_then fun t => ?_
  split <;> infer_instance

/-! ## Expressions -/

instance : Leaves c .settled (optionalMember call) := by
  unfold optionalMember
  refine settled_then fun _ => settled_then fun t => ?_
  split <;> infer_instance

instance {noCall : Bool} : Leaves c .settled (subscripts call noCall) := by
  unfold subscripts
  refine loop_settled fun _ => settled_then fun t => ?_
  split <;> infer_instance

instance : Leaves c .settled (nameOperand call) := by
  have hafter : ∀ after : Token, Leaves c .settled (match after.kind with
      | .kwFunction => do
        next
        function call false true
        return false
      | .name => do
        next
        simpleArrow call
        return true
      | .parenL | .lessThan => do
        if ← attempt (asyncArrowHead call) then
          arrowBody call
          return true
        else plainName call
      | _ => plainName call : Parser Bool) := by
    intro after
    split <;> infer_instance
  unfold nameOperand
  infer_instance

/-- An element that does not go through may be the type parameters of an arrow
function. -/
instance : Leaves c .settled (angled call) := by
  have harrow : Leaves c .settled (attempt (genericArrow call)) := inferInstance
  have hplain : Leaves c .settled (do
      if ← hasTypes then
        genericArrow call
        return true
      else unexpected : Parser Bool) := inferInstance
  refine ⟨fun st hst => Results.angled (fun _ => Results.weaken (hc.element_normal.ends st hst)
    (fun _ _ ⟨hgrows, hst', hfresh⟩ => ⟨hgrows, hst', .inr hfresh⟩) fun _ _ h => h)
    (fun e st' _ h => ?_) (fun _ _ h => h) fun _ => hplain.ends st hst⟩
  obtain ⟨hgrows, hback, hrests⟩ := restore_ends (c := c) hst h
  refine Results.weaken (harrow.ends _ hback) (fun b st'' ⟨hgrows', hst'', hsettled⟩ => ?_)
    fun _ _ => hgrows.trans
  cases b with
  | true => exact ⟨hgrows.trans hgrows', hst'', Ahead.settled_trans hgrows' hrests hsettled⟩
  | false => exact hgrows.trans hgrows'

instance : Leaves c .settled (operand call) := by
  unfold operand
  refine settled_then fun t => ?_
  split <;> infer_instance

/-! ## Statements -/

instance : Leaves c .settled (exported call) := by
  unfold exported
  refine settled_then fun t => ?_
  split <;> infer_instance

instance : Leaves c .settled (statement call) := by
  unfold statement
  refine settled_then fun t => ?_
  split <;> infer_instance

end

end Leaves

/-! ## The grammar -/

section

variable {c : Setting} {call : Reference}

/-- The rules leave what is asked of them if those that they refer to do. -/
theorem leaves_define (hc : RulesLeave c call) : RulesLeave c (define call) where
  rule r hr := by
    cases r with
    | statement => exact (inferInstance : Leaves c .settled (statement call))
    | assignment noIn => exact (inferInstance : Leaves c .settled (assignment call noIn))
    | unary => exact (inferInstance : Leaves c .settled (unary call))
    | newExpression => exact (inferInstance : Leaves c .settled (newExpression call))
    | binding role => exact (inferInstance : Leaves c .settled (binding call role))
    | type conditional => exact (inferInstance : Leaves c .settled (typeRule call conditional))
    | typeOperand => exact (inferInstance : Leaves c .settled (typeOperand call))
    | element after => exact absurd rfl (hr after)
  element after := (inferInstance : Leaves c .any (element call after))
  element_normal := (inferInstance : Leaves c .fresh (element call .normal))

/-- What holds of the rules below every bound, of whatever weight a state has,
holds of all of them. -/
theorem RulesLeave.of_apply (h : ∀ r st, ∃ call', RulesLeave c call' ∧ call r c st = call' r c st) :
    RulesLeave c call where
  rule r hr := by
    refine ⟨fun st hst => ?_⟩
    obtain ⟨call', hcall', heq⟩ := h r st
    rw [heq]
    exact (hcall'.rule r hr).ends st hst
  element after := by
    refine ⟨fun st hst => ?_⟩
    obtain ⟨call', hcall', heq⟩ := h (.element after) st
    rw [heq]
    exact (hcall'.element after).ends st hst
  element_normal := by
    refine ⟨fun st hst => ?_⟩
    obtain ⟨call', hcall', heq⟩ := h (.element .normal) st
    rw [heq]
    exact hcall'.element_normal.ends st hst

theorem rulesLeave_stalled (c : Setting) : RulesLeave c fun _ => stalled :=
  ⟨fun _ _ => inferInstance, fun _ => inferInstance, inferInstance⟩

theorem rulesLeave_runBelow (c : Setting) (bound : Nat) : RulesLeave c (runBelow bound) := by
  induction bound using Nat.strongRecOn with
  | ind bound ih =>
    refine RulesLeave.of_apply fun rule st => ?_
    by_cases hlt : weight c rule st < bound
    · refine ⟨_, leaves_define (ih _ hlt), ?_⟩
      rw [runBelow, if_pos hlt, run_apply]
    · refine ⟨_, rulesLeave_stalled c, ?_⟩
      rw [runBelow, if_neg hlt]

instance rulesLeave_run (c : Setting) : RulesLeave c run :=
  RulesLeave.of_apply fun rule st =>
    ⟨_, leaves_define (rulesLeave_runBelow c (weight c rule st)), run_apply rule c st⟩

end

end Downlevel.Grammar
