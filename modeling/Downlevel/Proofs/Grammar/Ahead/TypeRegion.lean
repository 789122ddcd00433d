import Downlevel.Proofs.Grammar.Ahead.Parts
import Downlevel.Proofs.Grammar.Lossless
import Downlevel.Proofs.Lexer.Greater

/-!
# The token after a type

Ordinary code goes on behind a type, but the token ahead was read while the type
was not over yet.  An operator that starts with `>` is therefore split there, and
no other token is read differently.
-/

namespace Downlevel.Grammar

open Grammar.Parser

/-- The rules as the grammar refers to them: all, or those of less weight than the one
that is run. -/
inductive IsReference : Reference → Prop
  | run : IsReference run
  | below (bound : Nat) : IsReference (runBelow bound)

/-- What the grammar runs inside a type, with the rules that it refers to. -/
inductive TypeRegion (call : Reference) : {α : Type} → Parser α → Prop
  /-- A mark or a modifier, as the `!` behind an operand. -/
  | mark : TypeRegion call (inType next)
  | annotated : TypeRegion call ( typeAnnotation call)
  | returnType : TypeRegion call (inType do
      next
      if !((← flow) && (← is .modulo)) then call (.type true)
      if (← flow) && (← is .modulo) then
        next
        if ← isName "checks" then next)
  | arguments : TypeRegion call (typeArguments call)
  | alias : TypeRegion call (typeAlias call)
  | interface : TypeRegion call (interface call)
  /-- What is asserted by `as` or `satisfies`. -/
  | asserted : TypeRegion call (assertedType call)
  /-- A type inside of another region. -/
  | inner : TypeRegion call (inType (call (.type true)))
  /-- A typed `this` in front of the parameters. -/
  | thisParameter : TypeRegion call (inType do
      next
      typeAnnotation call
      eat .comma)
  /-- The end of a function without a body. -/
  | signatureEnd : TypeRegion call (inType semicolon)
  | indexSignature : TypeRegion call (inType do
      balanced call
      maybeAnnotation call
      semicolon)
  /-- What a class implements. -/
  | implemented : TypeRegion call (inType do
      next
      loop () fun _ => do
        inType (call (.type true))
        if ← eat .comma then return .yield () else return .done ())
  | importSpecifier : TypeRegion call (inType do
      next
      plainImportSpecifier)
  | importDeclaration : TypeRegion call (inType importDeclaration)
  | exportSpecifier : TypeRegion call (inType do
      next
      exportSpecifier)
  | exported : TypeRegion call (inType do
      next
      typeExport call)
  | declared : TypeRegion call (inType do
      next
      call .statement)

section

variable {α : Type} {call : Reference} {p : Parser α} {c : Setting} {x : α} {st st' : State}

theorem IsReference.leave (h : IsReference call) (c : Setting) : RulesLeave c call := by
  cases h with
  | run => exact rulesLeave_run c
  | below bound => exact rulesLeave_runBelow c bound

theorem TypeRegion.exists_inType (h : TypeRegion call p) : ∃ q, p = inType q := by
  cases h <;> exact ⟨_, rfl⟩

set_option synthInstance.maxSize 1000000000 in
theorem TypeRegion.leaves [RulesLeave c call] (h : TypeRegion call p) : Leaves c .settled p := by
  cases h <;> infer_instance

/-- The state in front of a region makes no difference but that it is come back to. -/
theorem inType_apply_typed (q : Parser α) (c : Setting) (st : State) :
    inType q c st = match inType q c { st with isType := true } with
      | .ok x st' => .ok x { st' with isType := st.isType }
      | .error e st' => .error e { st' with isType := st.isType } := by
  unfold inType
  cases q c { st with isType := true } <;> rfl

/-- A region that finishes a token leaves one ahead that was read in the type. -/
theorem TypeRegion.fresh [RulesLeave c call] (h : TypeRegion call p) (hpos : st.pos = st.cur.stop)
    (hrun : p c st = .ok x st') (hlt : st.tokens.size < st'.tokens.size) : Fresh c st' := by
  obtain ⟨q, rfl⟩ := h.exists_inType
  rw [inType_apply_typed] at hrun
  split at hrun
  case h_2 => cases hrun
  rename_i x' typed htyped
  cases hrun
  have htight : Tight { st with isType := true } := ⟨rfl, hpos⟩
  obtain ⟨-, -, hahead⟩ := h.leaves.of_ok htight htyped
  rcases hahead with hrests | hfresh
  · have hsize : typed.tokens.size = st.tokens.size := hrests.size
    have hlt : st.tokens.size < typed.tokens.size := hlt
    omega
  · exact hfresh

end

/-- Every state of a parse reads the next token behind the one ahead.  From such a state
a region of a type that finishes a token leaves ahead what the type reads behind it.  That
is the token of ordinary code, unless an operator starts with `>` there: then only its `>`
is ahead. -/
theorem token_after_type (c : Setting) :
    (∀ (first : State) (y : Stage × State), State.initial c.source = .ok first →
      Steps c 0 (Frame.outer.plain, first) y → y.2.pos = y.2.cur.stop)
    ∧ ∀ (call : Reference) (α : Type) (p : Parser α) (x : α) (st st' : State),
      IsReference call → TypeRegion call p → st.pos = st.cur.stop → p c st = .ok x st' →
      st.tokens.size < st'.tokens.size →
      ∃ t, st'.tokens.back? = some t
        ∧ Lexer.next true c.source t.stop = .ok st'.cur st'.pos
        ∧ (Lexer.next false c.source t.stop = .ok st'.cur st'.pos
          ↔ Lexer.splits (Text.dropBytes c.source st'.cur.start) = false)
        ∧ (Lexer.splits (Text.dropBytes c.source st'.cur.start) = true →
          st'.cur.kind = .greaterThan ∧ st'.cur.stop = st'.cur.start + 1
            ∧ ∃ op, Lexer.next false c.source t.stop = .ok op op.stop
              ∧ op.start = st'.cur.start ∧ st'.cur.stop < op.stop) := by
  constructor
  · intro first y hinit hsteps
    have htiles : Tiles c.source y.1.inTag y.2 := hsteps.tiles (tiles_initial hinit)
    exact htiles.pos
  · intro call α p x st st' hcall hregion hpos hrun hlt
    have hleave := hcall.leave c
    obtain ⟨t, hback, hread⟩ := hregion.fresh hpos hrun hlt
    exact ⟨t, hback, hread, Lexer.next_inType_iff hread, Lexer.next_of_splits hread⟩

/-! ## Two comparisons -/

/-- Does the parser go through behind the first token of the source, with states before
and after it that pass the test? -/
def passesSecond {α : Type} (c : Setting) (p : Parser α) (test : State → State → State → Bool) :
    Bool :=
  match State.initial c.source with
  | .ok first =>
    match next c first with
    | .ok _ st =>
      match p c st with
      | .ok _ st' => test first st st'
      | .error _ _ => false
    | .error _ _ => false
  | .error _ => false

theorem exists_of_passesSecond {α : Type} {c : Setting} {p : Parser α}
    {test : State → State → State → Bool} (h : passesSecond c p test = true) :
    ∃ first st x st', State.initial c.source = .ok first ∧ next c first = .ok () st
      ∧ p c st = .ok x st' ∧ test first st st' = true := by
  unfold passesSecond at h
  split at h
  case h_2 => cases h
  rename_i first hinit
  split at h
  case h_2 => cases h
  rename_i st hnext
  split at h
  case h_2 => cases h
  rename_i x st' hrun
  exact ⟨first, st, x, st', hinit, hnext, hrun, h⟩

theorem steps_of_next {c : Setting} {f : Frame} {st st' : State}
    (hneutral : isNeutral st.cur.kind = true) (h : next c st = .ok () st') :
    Steps c 0 (f.plain, st) (f.plain, st') := by
  unfold next at h
  rw [nextIn_apply] at h
  split at h
  case h_2 => cases h
  rename_i token pos hread
  cases h
  exact .single (.finish hread nofun nofun (.neutral hneutral))

/-- A comparison with an asserted operand. -/
def assertedSetting : Setting where
  source := "x as T >= y".toList
  typescript := true

theorem token_after_assertedSetting : ∃ first st st' t op,
    State.initial assertedSetting.source = .ok first ∧ next assertedSetting first = .ok () st
    ∧ assertedType run assertedSetting st = .ok () st' ∧ st'.tokens.back? = some t
    ∧ Lexer.next true assertedSetting.source t.stop = .ok st'.cur st'.pos
    ∧ st'.cur.kind = .greaterThan
    ∧ Lexer.next false assertedSetting.source t.stop = .ok op op.stop
    ∧ op.start = st'.cur.start ∧ st'.cur.stop < op.stop := by
  have h : passesSecond assertedSetting (assertedType run) (fun first st st' =>
      decide (isNeutral first.cur.kind = true ∧ st.tokens.size < st'.tokens.size
        ∧ Lexer.splits (Text.dropBytes assertedSetting.source st'.cur.start) = true)) = true := by
    decide +kernel
  obtain ⟨first, st, _, st', hinit, hnext, hrun, htest⟩ := exists_of_passesSecond h
  obtain ⟨hneutral, hlt, hsplits⟩ := of_decide_eq_true htest
  have hpos := (token_after_type assertedSetting).1 _ _ hinit (steps_of_next hneutral hnext)
  obtain ⟨t, hback, hread, -, hsplit⟩ :=
    (token_after_type assertedSetting).2 _ _ _ _ _ _ .run .asserted hpos hrun hlt
  obtain ⟨hkind, -, op, hop, hstart, hstop⟩ := hsplit hsplits
  exact ⟨first, st, st', t, op, hinit, hnext, hrun, hback, hread, hkind, hop, hstart, hstop⟩

/-- A comparison whose first operand is not null. -/
def nonNullSetting : Setting where
  source := "a! >= b".toList
  typescript := true

/-- The `!` is all of a type, but only the `>` of the comparison is ahead of it, and the
source is not parsed.  Without the `!` it is. -/
theorem comparison_split :
    (∃ first st st' t op, State.initial nonNullSetting.source = .ok first
      ∧ next nonNullSetting first = .ok () st ∧ st.isType = false
      ∧ inType next nonNullSetting st = .ok () st' ∧ st.tokens.size < st'.tokens.size
      ∧ st'.tokens.back? = some t
      ∧ Lexer.next false nonNullSetting.source t.stop = .ok op op.stop ∧ op.kind = .relational
      ∧ st'.cur.kind = .greaterThan)
    ∧ (∀ tokens, parse "a! >= b".toList { transforms := [.imports, .typescript] } ≠ .ok tokens)
    ∧ ∃ tokens, parse "a >= b".toList { transforms := [.imports, .typescript] } = .ok tokens := by
  refine ⟨?_, fun tokens hparse => ?_, ?_⟩
  · have h : passesSecond nonNullSetting (inType next) (fun _ st st' =>
        st'.tokens.back?.any fun t =>
          okWith (Lexer.next false nonNullSetting.source t.stop) fun op stop =>
            decide (st.isType = false ∧ st.tokens.size < st'.tokens.size
              ∧ stop = op.stop ∧ op.kind = .relational ∧ st'.cur.kind = .greaterThan)) = true := by
      decide +kernel
    obtain ⟨first, st, _, st', hinit, hnext, hrun, htest⟩ := exists_of_passesSecond h
    obtain ⟨t, hback, htest⟩ := Option.any_eq_true _ _ |>.mp htest
    obtain ⟨op, stop, hop, htest⟩ := exists_of_okWith htest
    obtain ⟨hcode, hlt, rfl, hrelational, hgreater⟩ := of_decide_eq_true htest
    exact ⟨first, st, st', t, op, hinit, hnext, hcode, hrun, hlt, hback, hop, hrelational,
      hgreater⟩
  · have hfails : (parse "a! >= b".toList { transforms := [.imports, .typescript] }).isOk
        = false := by decide +kernel
    rw [hparse] at hfails
    cases hfails
  · have hok : (parse "a >= b".toList { transforms := [.imports, .typescript] }).isOk = true := by
      decide +kernel
    cases hparse : parse "a >= b".toList { transforms := [.imports, .typescript] } with
    | error e =>
      rw [hparse] at hok
      cases hok
    | ok tokens => exact ⟨tokens, rfl⟩

end Downlevel.Grammar
