import Downlevel.Proofs.Grammar.Invariant.Parts

/-!
# What the parts of an element keep

An invariant that does not depend on how tokens are read (`TagInvariant`) is kept by elements
as it is by ordinary code.
-/

namespace Downlevel.Grammar

open Grammar.Parser

/-- A token that an element can start with. -/
def OpensElement (t : Token) : Prop :=
  t.kind = .lessThan ∨ t.kind = .jsxTagStart

/-- What is also kept inside tags and between them. -/
class TagInvariant (c : Setting) (I : State → Prop) : Prop extends Invariant c I where
  finishIn : ∀ {st : State} {mode : Lexer.Mode} {t : Token} {pos : Nat}, mode = .tag ∨ mode = .child →
    Lexer.read mode st.isType c.source st.pos = .ok t pos → I st → I (st.finish t pos)
  openElement : ∀ {st : State}, OpensElement st.cur → I st →
    I { st with cur := { st.cur with kind := .jsxTagStart } }

/-- The rule of elements keeps an invariant. -/
class ElementRuleMaintains (c : Setting) (I : State → Prop) (call : Reference) : Prop where
  element : ∀ {mode : Lexer.Mode} {st st' : State}, OpensElement st.cur → I st →
    call (.element mode) c st = .ok () st' → I st'

namespace Maintains

set_option synthInstance.maxSize 1000000000000000000

variable {c : Setting} {A : Prop} {I : State → Prop} {call : Reference}

instance [helement : ElementRuleMaintains c I call] : ElementMaintains c I call :=
  ⟨fun _ _ _ hkind hst hok => helement.element (.inl hkind) hst hok⟩

/-- What depends on the token ahead. -/
theorem at_cur {α : Type} {f : Token → Parser α}
    (hf : ∀ {st : State} {a : α} {st' : State}, A → I st → f st.cur c st = .ok a st' → I st') :
    Maintains c A I (cur >>= f) where
  of_ok hA _ _ _ hst hok := by
    obtain ⟨t, st₁, hcur, hok⟩ := Parser.exists_of_bind hok
    cases hcur
    exact hf hA hst hok

instance {start : Nat} : Maintains c A I (textFrom start) :=
  of_still fun _ _ _ hok => (EStateM.Result.ok.inj hok).2.symm

instance {byte : Nat} : Maintains c A I (scan (Lexer.nextByteIs byte)) := by
  refine of_still fun st b st' hok => ?_
  unfold scan at hok
  cases hlook : Lexer.nextByteIs byte c.source st.pos with
  | error failure pos => simp [hlook] at hok
  | ok b' pos =>
    rw [hlook] at hok
    cases hok
    rw [Lexer.nextByteIs_pos hlook]

section

variable [hI : TagInvariant c I]

instance {mode : Lexer.Mode} : Maintains c A I (nextIn mode) := by
  cases mode with
  | tag => exact nextIn_of (hI.finishIn (.inl rfl))
  | child => exact nextIn_of (hI.finishIn (.inr rfl))
  | normal => infer_instance
  | templateChunk => infer_instance
  | templateEnd => infer_instance

end

section

variable [hI : TagInvariant c I] [RulesMaintain c I call] [helement : ElementRuleMaintains c I call]

instance : Maintains c A I (tagAttribute call) := by
  have hvalue : Maintains c A I (do
      match (← cur).kind with
      | .string => nextIn .tag
      | .braceL =>
        next
        call (.assignment false)
        expectIn .braceR .tag
      | .jsxTagStart => call (.element .tag)
      | _ => fault .badAttributeValue : Parser Unit) := by
    refine at_cur fun {st a st'} hA hst hok => ?_
    by_cases hkind : st.cur.kind = .jsxTagStart
    · rw [hkind] at hok
      exact helement.element (.inr hkind) hst hok
    · refine Maintains.run ?_ hA hst hok
      split
      case h_3 heq => exact absurd heq hkind
      all_goals infer_instance
  unfold tagAttribute
  infer_instance

instance : Maintains c A I (children call) := by
  unfold children
  refine loop_of fun _ => at_cur fun {st a st'} hA hst hok => ?_
  by_cases hkind : st.cur.kind = .jsxTagStart
  · rw [hkind] at hok
    obtain ⟨isClosing, st₁, hlook, hmore⟩ := Parser.exists_of_bind hok
    have hstill : Maintains c True (· = st) (scan (Lexer.nextByteIs (Character.leadByte '/'))) :=
      inferInstance
    have hst₁ : st₁ = st := hstill.of_ok trivial rfl hlook
    rw [hst₁] at hmore
    cases isClosing with
    | true =>
      rw [if_pos rfl] at hmore
      exact ok hA hst hmore
    | false =>
      obtain ⟨_, st₂, helem, hdone⟩ := Parser.exists_of_bind hmore
      exact ok hA (helement.element (.inr hkind) hst helem) hdone
  · refine Maintains.run ?_ hA hst hok
    split
    case h_3 heq => exact absurd heq hkind
    all_goals infer_instance

/-- An element keeps what its parts keep, once its bracket is read as one. -/
theorem element_ok {mode : Lexer.Mode} {st st' : State} (hopens : OpensElement st.cur)
    (hst : I st) (hok : element call mode c st = .ok () st') : I st' := by
  unfold element at hok
  obtain ⟨_, st₁, hmark, hok⟩ := Parser.exists_of_bind hok
  cases hmark
  refine Maintains.run (A := True) ?_ trivial (hI.openElement hopens hst) hok
  infer_instance

end

end Maintains

/-! ## Every rule -/

/-- The result of a rule keeps an invariant; an element is only read where one starts. -/
def RuleKeeps (I : State → Prop) (rule : Rule) (st : State)
    (result : EStateM.Result Error State Unit) : Prop :=
  (∀ mode, rule = .element mode → OpensElement st.cur) → I st →
    ∀ st', result = .ok () st' → I st'

section

variable {c : Setting} {I : State → Prop} {call : Reference}

theorem rulesMaintain_of_keeps (hcalls : Calls c call)
    (h : ∀ rule st, RuleKeeps I rule st (call rule c st)) : RulesMaintain c I call where
  calls := hcalls
  rule r hr := ⟨fun _ st _ st' hst hok => h r st (fun mode heq => absurd heq (hr mode)) hst st' hok⟩

theorem elementRuleMaintains_of_keeps (h : ∀ rule st, RuleKeeps I rule st (call rule c st)) :
    ElementRuleMaintains c I call :=
  ⟨fun {mode st st'} hopens hst hok => h (.element mode) st (fun _ _ => hopens) hst st' hok⟩

theorem keeps_define [TagInvariant c I] [AllowsTypes c (c.hasTypes = true) I] [RulesMaintain c I call]
    [ElementRuleMaintains c I call] [AsyncMaintains c I call] [ExportMaintains c I call]
    (rule : Rule) (st : State) : RuleKeeps I rule st (define call rule c st) := by
  intro hopens hst st' hok
  by_cases hrule : ∃ mode, rule = .element mode
  · obtain ⟨mode, rfl⟩ := hrule
    exact Maintains.element_ok (hopens mode rfl) hst hok
  · exact (maintains_define fun mode heq => hrule ⟨mode, heq⟩).of_ok trivial hst hok

/-- An invariant that allows types everywhere is kept by every rule. -/
theorem keeps_run [TagInvariant c I] [AllowsTypes c True I] (rule : Rule) (st : State) :
    RuleKeeps I rule st (run rule c st) := by
  have hT : AllowsTypes c (c.hasTypes = true) I :=
    ⟨fun _ => AllowsTypes.enterType c (A := True) trivial,
      fun _ => AllowsTypes.leaveType c (A := True) trivial,
      fun _ => AllowsTypes.retype c (A := True) trivial⟩
  refine run_induction (fun rule st _ _ st' hok => ?_) (fun call hcalls ih rule st => ?_) rule st
  · cases hok
  · have hc := rulesMaintain_of_keeps hcalls ih
    have helement := elementRuleMaintains_of_keeps ih
    exact keeps_define rule st

/-- What statements keep, holds when a program is parsed. -/
theorem exists_of_parse {source : Text} {o : Options} {tokens : Array Token}
    (hstatement : Maintains (.ofOptions source o) True I (run .statement))
    (hinitial : ∀ st, State.initial source = .ok st → I st) (h : parse source o = .ok tokens) :
    ∃ st, I st ∧ st.tokens = tokens := by
  obtain ⟨st, st', hinit, hprogram, htokens⟩ := exists_program_of_parse h
  have hmaintains : Maintains (.ofOptions source o) True I program := by
    unfold program
    infer_instance
  exact ⟨st', hmaintains.of_ok trivial (hinitial st hinit) hprogram, htokens⟩

end

end Downlevel.Grammar
