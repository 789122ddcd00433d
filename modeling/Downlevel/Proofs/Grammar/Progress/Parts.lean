import Downlevel.Proofs.Grammar.Progress.Basic
import Downlevel.Proofs.Grammar.Unfold

/-!
# Every part of the grammar goes on

A part that refers to a rule before it has finished a token needs room for the rank of that rule.
-/

set_option synthInstance.maxSize 1000000000000000000
set_option synthInstance.maxHeartbeats 200000

namespace Downlevel.Grammar

open Grammar.Parser

variable {rule : Rule}

/-- Can the rule be run at a token of this kind?  Only `new` and elements are
never run elsewhere. -/
def Rule.Fits : Rule → Kind → Prop
  | .newExpression, kind => kind = .kwNew
  | .element after, kind =>
    after ≠ .templateChunk ∧ (kind = .lessThan ∨ kind = .jsxTagStart)
  | _, _ => True

/-- Rules go on below a weight, and finish at least one token. -/
class Answers (c : Setting) (W : Nat) (call : Reference) : Prop where
  goes : ∀ rule {st}, rule.Fits st.cur.kind → Ready c st → Room c W (rule.rank + 1) st.cur.start →
    Goes c (call rule) (fun _ => Onward c st True) st

namespace Makes

variable {c : Setting} {W k : Nat} {kind : Kind} {call : Reference}

theorem of_rule [h : Answers c W call] (hfits : rule.Fits kind) (hrank : rule.rank < k) :
    Makes c W k kind Always (call rule) where
  goes hkind hready hroom := h.goes rule (hkind ▸ hfits) hready (by omega)

section

variable [Answers c W call] {role : Role} {noIn : Bool} {after : Lexer.Mode}

instance : Makes c W (k + 4) kind Always (call .statement) := of_rule trivial (by simp [Rule.rank])
instance : Makes c W (k + 3) kind Always (call (.assignment noIn)) :=
  of_rule trivial (by simp [Rule.rank])
instance : Makes c W (k + 2) kind Always (call .unary) := of_rule trivial (by simp [Rule.rank])
instance {conditional : Bool} : Makes c W (k + 2) kind Always (call (.type conditional)) :=
  of_rule trivial (by simp [Rule.rank])
instance : Makes c W (k + 1) kind Always (call .typeOperand) := of_rule trivial (by simp [Rule.rank])
instance : Makes c W (k + 1) kind Always (call (.binding role)) :=
  of_rule trivial (by simp [Rule.rank])
instance : Makes c W (k + 1) .kwNew Always (call .newExpression) := of_rule rfl (by simp [Rule.rank])
instance : Makes c W (k + 1) .lessThan Always (call (.element .normal)) :=
  of_rule ⟨nofun, .inl rfl⟩ (by simp [Rule.rank])
instance {mode : Lexer.Mode} [h : NotChunk mode] :
    Makes c W (k + 1) .jsxTagStart Always (call (.element mode)) :=
  of_rule ⟨h.ne, .inr rfl⟩ (by simp [Rule.rank])

/-! ## Types -/

/-- Chunks of a template may be empty, but the marks around them are not. -/
instance {part : Parser Unit} [hpart : ∀ kind, Makes c W 4 kind Never part] :
    Makes c W k kind Always (templateWith part) where
  goes {st} _ hready hroom := by
    unfold templateWith
    refine hready.aligned.goes_expectIn.bind fun _ st₁ ⟨hkind, haligned, hle, _⟩ => ?_
    have hlt : st.cur.start < st₁.cur.start :=
      Nat.lt_of_lt_of_le (hready.start_lt (by rw [hkind]; decide)) hle
    refine Goes.loop (I := fun st' => Aligned c 0 st' ∧ st.cur.start < st'.cur.start) ⟨haligned, hlt⟩
      fun _ st' ⟨haligned, hlt⟩ => ?_
    refine haligned.goes_expectIn.bind fun _ st₁ ⟨_, haligned₁, hle, hready⟩ => ?_
    have hready := hready (by decide)
    have hle : st'.cur.start ≤ st₁.cur.start := Nat.le_trans haligned.le hle
    change Goes c (if decide (st₁.cur.kind = .backQuote) = true then _ else _) _ st₁
    refine .ite (fun _ => ?_) fun _ => ?_
    · have hnext : Makes c W 4 st₁.cur.kind Never next := inferInstance
      refine (hnext.goes rfl hready (by omega)).bind fun _ st₂ h => ?_
      exact ⟨h.ready, by have := h.le; omega, fun _ => by have := h.le; omega⟩
    · have hopen : Makes c W 4 st₁.cur.kind Always (expect .dollarBraceL >>= fun _ => part) :=
        inferInstance
      have hopened := hopen.goes rfl hready (by omega)
      rw [← bind_assoc]
      refine hopened.bind fun _ st₂ h => ?_
      refine h.ready.aligned.goes_expectIn.bind fun _ st₃ ⟨_, haligned₃, hle', _⟩ => ?_
      have hlt := h.lt trivial
      have hpos := h.ready.aligned.le
      exact ⟨⟨haligned₃, by omega⟩, by omega, haligned₃.start_le⟩

instance : Makes c W k kind Always (balanced call) := by
  unfold balanced
  dsimp only
  refine @bind_passed _ _ _ _ _ _ _ _ _ (of_rounds (S := Always) (fun _ => trivial) (fun _ => id)
    fun stack kind => after_cur fun t => ?_) inferInstance
  cases hcloser : closerOf t.kind with
  | some closer =>
    have : NotEof t.kind := ⟨by
      rintro heof
      rw [heof] at hcloser
      cases hcloser⟩
    infer_instance
  | none => cases stack <;> infer_instance

instance : Makes c W k kind Always (typeOperand call) := by
  unfold typeOperand atTypePrefix atTypeOperator
  refine bind_of_never fun _ _ => bind_of_never fun _ _ => after_cur fun t => ?_
  generalize t.kind = kind
  dsimp only
  split <;> infer_instance

/-! ## Bindings and functions -/

instance : Makes c W k kind Always (binding call role) := by
  unfold binding
  refine after_cur fun t => ?_
  generalize t.kind = kind
  split <;> infer_instance

instance {modifiers : Bool} : Makes c W k kind Always (parameters call modifiers) := by
  unfold parameters
  infer_instance

instance {isStatement isAsync : Bool} :
    Makes c W k kind Always (function call isStatement isAsync) := by
  unfold function
  dsimp only
  infer_instance

/-! ## Classes -/

instance {isStatement : Bool} : Makes c W k kind Always (classRule call isStatement) := by
  unfold classRule
  infer_instance

/-! ## Elements -/

instance : Makes c W k kind Always (tagAttribute call) := by
  unfold tagAttribute
  have : ∀ kind, Makes c W 4 kind Never (do
      match (← cur).kind with
      | .string => nextIn .tag
      | .braceL =>
        next
        call (.assignment false)
        expectIn .braceR .tag
      | .jsxTagStart => call (.element .tag)
      | _ => fault .badAttributeValue) := fun _ => after_cur fun t => by
    generalize t.kind = kind
    split <;> infer_instance
  infer_instance

/-- A glance at the next byte moves nothing. -/
instance {β : Type} {R : β → Prop} {byte : Nat} {f : Bool → Parser β}
    [hf : ∀ b, Makes c W k kind R (f b)] : Makes c W k kind R (scan (Lexer.nextByteIs byte) >>= f) := by
  refine bind_look (Q := fun _ => True) (fun {st} _ hready => ?_) fun b _ => hf b
  unfold Goes scan
  cases hscan : Lexer.nextByteIs byte c.source st.pos with
  | ok b pos =>
    obtain rfl := Lexer.nextByteIs_pos hscan
    exact ⟨⟨trivial, hready⟩, rfl⟩
  | error failure pos =>
    exact fun _ => ⟨failure, rfl, Lexer.isBoundary_of_nextByteIs_error hready.aligned.pos hscan⟩

instance : Makes c W (k + 1) kind Always (children call) := by
  unfold children
  refine of_rounds (S := Always) (fun _ => trivial) (fun _ => id) fun _ kind => after_cur fun t => ?_
  generalize t.kind = kind
  split <;> infer_instance

/-- The error is raised where the closing tag starts. -/
instance {name : Text} [NotChunk after] : Makes c W k kind Always (closingTag name after) := by
  refine bind_look (Q := fun t => Text.IsBoundary c.source t.start)
    (fun _ hready => ⟨⟨hready.aligned.start, hready⟩, rfl⟩) fun t hplace => ?_
  have : ∀ kind, Makes c W k kind Always
      (faultAt (.unclosedElement name) t.start : Parser Unit) := fun _ => ⟨fun _ _ _ => .faultAt hplace⟩
  infer_instance

/-- The bracket that starts an element is of the right kind from then on. -/
instance [NotChunk after] [h : NotEof kind] : Makes c W k kind Always (element call after) := by
  have hrest : Makes c W k .jsxTagStart Always (do
      nextIn .tag
      if ← is .jsxTagEnd then
        nextIn .child
        children call
        if ← is .jsxTagEnd then nextIn after else fault .unclosedFragment
      else namedElement call after) := inferInstance
  refine bind_of (Q := fun st _ st' => st' = { st with cur := { st.cur with kind := .jsxTagStart } }
    ∧ Ready c st') (fun {st} hkind hready _ => ⟨rfl, ?_⟩) ?_
  · obtain ⟨hs, hp, hle, -⟩ := hready.aligned
    exact .of_aligned ⟨hs, hp, hle, Nat.zero_le _⟩ fun _ => hready.start_lt (hkind ▸ h.ne)
  · rintro st _ _ _ hroom ⟨rfl, hready⟩
    exact (hrest.goes rfl hready hroom).mono fun _ _ h => ⟨h.ready, h.le, h.lt⟩

/-! ## Expressions -/

theorem optionalTail : Makes c W 4 kind Always (do
    match (← cur).kind with
    | .parenL => arguments call
    | .bracketL => index call
    | .lessThan =>
      if ← hasTypes then
        typeArguments call
        arguments call
      else propertyName
    | _ => propertyName) := by
  refine after_cur fun t => ?_
  generalize t.kind = kind
  split <;> infer_instance

instance [NotEof kind] : Makes c W k kind Always (optionalMember call) := by
  unfold optionalMember
  have (kind : Kind) := @optionalTail c W kind call _
  infer_instance

instance {noCall : Bool} : Makes c W k kind Never (subscripts call noCall) := by
  unfold subscripts
  refine rounds fun _ kind => after_cur fun t => ?_
  generalize t.kind = kind
  split <;> infer_instance

instance : Makes c W k kind Always (nameOperand call) := by
  unfold nameOperand
  refine after_isName ?_ inferInstance
  rw [if_pos rfl]
  refine after_peek fun after => ?_
  split
  · infer_instance
  · split <;> infer_instance

/-- Where no element fits, an arrow function with type parameters may do so. -/
instance : Makes c W (k + 1) .lessThan Always (angled call) where
  goes {st} hkind hready hroom := by
    have hgeneric : Makes c W (k + 1) .lessThan Applied (attempt (genericArrow call)) := inferInstance
    have helement : Makes c W (k + 1) .lessThan Always (call (.element .normal)) := inferInstance
    have hplain : Makes c W (k + 1) .lessThan Always (do
        if ← hasTypes then
          genericArrow call
          return true
        else unexpected) := inferInstance
    refine Results.angled (fun _ => helement.goes hkind hready hroom) (fun e st' _ he => ?_)
      (fun _ _ he => he) fun _ => hplain.goes hkind hready hroom
    refine Results.weaken (@hgeneric.goes (st'.restore st.snapshot) hkind (hready.congr rfl rfl rfl)
      hroom) (fun b _ h => ?_) fun _ _ he' => he'
    cases b with
    | true => exact ⟨h.ready, h.le, fun _ => h.lt rfl⟩
    | false => exact he

/-- A slash is read again as the start of a regular expression. -/
theorem goes_rereadRegex {st : State} (hready : Ready c st)
    (hslash : (st.cur.text c.source).head? = some '/') :
    Goes c rereadRegex (fun _ st' => st'.cur.kind = .regex ∧ Onward c st False st') st := by
  obtain ⟨hs, -, -, -⟩ := hready.aligned
  unfold Goes
  rw [rereadRegex_apply]
  cases hread : Lexer.regex st.cur.start c.source st.pos with
  | error failure pos =>
    exact fun _ => ⟨failure, rfl, Lexer.offset_of_regex_error hread ▸ hs⟩
  | ok token pos =>
    obtain ⟨-, -, -, rfl⟩ := Lexer.exists_of_regex hread
    obtain ⟨hpos, hlt⟩ := Lexer.span_of_regex hs hslash hread
    exact ⟨rfl, .of_aligned ⟨hs, hpos, Nat.le_of_lt hlt, Nat.zero_le _⟩ fun _ => hlt, Nat.le_refl _,
      False.elim⟩

instance : Makes c W (k + 1) kind Always (operand call) where
  goes {st} _ hready hroom := by
    have hregex : Goes c (do
        if (← textOf st.cur).head? = some '/' then
          rereadRegex
          next
          return false
        else unexpected) (fun _ => Onward c st True) st := by
      change Goes c (if (st.cur.text c.source).head? = some '/' then _ else _) _ st
      refine .ite (fun hslash => ?_) fun _ => Makes.goes (W := W) (k := k + 1) rfl hready hroom
      refine (goes_rereadRegex hready hslash).bind fun _ st' ⟨hkind, h⟩ => ?_
      have hnext : Makes c W (k + 1) .regex Always (next >>= fun _ => pure false) := inferInstance
      refine (hnext.goes hkind h.ready (by have := h.le; omega)).mono fun _ _ h' => ?_
      exact h.trans h' .inr
    refine Goes.bind (Q := fun t st' => t = st.cur ∧ st' = st) ⟨rfl, rfl⟩ ?_
    rintro _ _ ⟨rfl, rfl⟩
    split
    case h_12 => exact hregex
    case h_13 => exact hregex
    case h_24 => exact Makes.goes (W := W) (k := k + 1) rfl hready hroom
    all_goals exact Makes.goes (W := W) (k := k + 1) ‹_› hready hroom

/-! ## Statements -/

instance : Makes c W (k + 3) kind Always (exported call) := by
  unfold exported
  refine after_cur fun t => ?_
  generalize t.kind = kind
  split <;> infer_instance

instance : Makes c W (k + 3) kind Always (statement call) := by
  unfold statement
  refine after_cur fun t => ?_
  generalize t.kind = kind
  split <;> infer_instance

end

end Makes

/-! ## Rules -/

section

variable {c : Setting} {W : Nat} {call : Reference} {st : State}

theorem goes_define [Answers c W call] (hfits : rule.Fits st.cur.kind) (hready : Ready c st)
    (hroom : Room c W rule.rank st.cur.start) :
    Goes c (define call rule) (fun _ => Onward c st True) st := by
  cases rule with
  | statement => exact Makes.goes (W := W) (k := 3) (R := Always) (p := statement call) rfl hready hroom
  | assignment noIn => exact Makes.goes (W := W) (k := 2) (R := Always) (p := assignment call noIn) rfl hready hroom
  | unary => exact Makes.goes (W := W) (k := 1) (R := Always) (p := unary call) rfl hready hroom
  | newExpression => exact Makes.goes (W := W) (k := 0) (R := Always) (p := newExpression call) hfits hready hroom
  | binding role => exact Makes.goes (W := W) (k := 0) (R := Always) (p := binding call role) rfl hready hroom
  | type conditional => exact Makes.goes (W := W) (k := 1) (R := Always) (p := typeRule call conditional) rfl hready hroom
  | typeOperand => exact Makes.goes (W := W) (k := 0) (R := Always) (p := typeOperand call) rfl hready hroom
  | element after =>
    obtain ⟨hafter, hkind⟩ := hfits
    have : NotChunk after := ⟨hafter⟩
    rcases hkind with hkind | hkind
    · exact Makes.goes (W := W) (k := 0) (R := Always) (p := element call after) hkind hready hroom
    · exact Makes.goes (W := W) (k := 0) (R := Always) (p := element call after) hkind hready hroom

/-- Running a rule goes on: a rule it refers to after less of the source, or a rule of lower
rank at the same place, has less weight. -/
theorem goes_run (hfits : rule.Fits st.cur.kind) (hready : Ready c st) :
    Goes c (run rule) (fun _ => Onward c st True) st := by
  induction hweight : weight c rule st using Nat.strongRecOn generalizing rule st with
  | ind n ih =>
    have hbelow : Answers c n (runBelow n) := ⟨fun rule' st' hfits' hready' hroom => by
      have hlt : weight c rule' st' < n := by
        have hstart := hready'.aligned.start_le
        unfold weight Setting.remaining
        omega
      unfold Goes runBelow
      rw [if_pos hlt]
      exact ih _ hlt hfits' hready' rfl⟩
    have hroom : Room c n rule.rank st.cur.start := by
      unfold weight Setting.remaining at hweight
      omega
    have hdefine := @goes_define rule c n (runBelow n) st _ hfits hready hroom
    unfold Goes at hdefine ⊢
    rw [run_apply, hweight]
    exact hdefine

instance answers_run : Answers c W run :=
  ⟨fun _ _ hfits hready _ => goes_run hfits hready⟩

/-- So does a whole program. -/
theorem goes_program (hready : Ready c st) :
    Goes c program (fun _ => Onward c st False) st := by
  have hprogram : Makes c (4 * c.size + 4) 4 st.cur.kind Never program := by
    unfold program
    infer_instance
  exact hprogram.goes rfl hready (by omega)

end

/-! ## Programs -/

section

variable {source : Text} {o : Options} {st : State} {e : Error}

/-- A parse starts at a token of the source. -/
theorem ready_initial (h : State.initial source = .ok st) : Ready (Setting.ofOptions source o) st := by
  obtain ⟨token, pos, hread, rfl⟩ := State.exists_of_initial h
  obtain ⟨hplaced, hstop⟩ := Lexer.placed_of_read (Text.isBoundary_shebangSize source) hread
  have hne : token.kind ≠ .template := Lexer.kind_of_read (by decide) hread
  refine .of_aligned ⟨hplaced.isBoundary_start, hstop ▸ hplaced.isBoundary_stop,
    hstop ▸ hplaced.start_le, Nat.zero_le _⟩ fun heof => ?_
  exact hstop ▸ hplaced.start_lt hne heof

theorem located_of_initial (h : State.initial source = .error e) : Located source e := by
  unfold State.initial at h
  split at h
  · rename_i failure pos hread
    cases h
    have hread : Lexer.read .normal _ source _ = _ := hread
    exact ⟨failure, rfl, Lexer.isBoundary_of_read_error (Text.isBoundary_shebangSize source) hread⟩
  · cases h

/-- A parse that fails blames the source, at an offset between characters. -/
theorem located_of_parse (h : parse source o = .error e) : Located source e := by
  unfold parse at h
  cases hinitial : State.initial source with
  | error e' =>
    rw [hinitial] at h
    cases h
    exact located_of_initial hinitial
  | ok st =>
    have hprogram := goes_program (ready_initial (o := o) hinitial)
    have hleads : Leads program st.region fun _ => st.region := inferInstance
    have hopen := hleads.leads (Setting.ofOptions source o) st rfl
    rw [hinitial] at h
    dsimp only [bind, Except.bind] at h
    unfold Goes at hprogram
    cases hrun : program (Setting.ofOptions source o) st with
    | ok a st' =>
      rw [hrun] at h
      cases h
    | error e' st' =>
      rw [hrun] at h hprogram hopen
      cases h
      exact hprogram hopen

end

end Downlevel.Grammar
