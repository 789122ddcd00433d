import Downlevel.Proofs.Lower.Resolve

/-!
# Calls of imported functions

A function that is a property of its module is called through a comma, so that it does not
get the module as its receiver.  The call has to stand right behind the name or the types
behind it: a call behind `?.` is not taken for one.
-/

namespace Downlevel.Lower

open Linkage

variable {plan : Plan} {w : Work} {b : Bindings} {ds : Dependencies} {code : Text} {i j : Nat}

/-- The first token behind an index that is not of a type. -/
structure IsNextValue (p : Program) (i j : Nat) : Prop where
  lt : i < j
  types : ∀ l, i < l → l < j → p.isTypeAt l = true
  value : p.isTypeAt j = false

theorem IsNextValue.skipTypes_eq {p : Program} (h : IsNextValue p i j) :
    p.skipTypes (i + 1) = j := by
  rw [Program.skipTypes_eq_skipTypes (Nat.succ_le_of_lt h.lt) fun l hl => h.types l hl,
    Program.skipTypes_eq_self h.value]

/-- The name at an index is called by the token at another, other than by `new`. -/
structure CallsAt (p : Program) (i j : Nat) : Prop where
  next : p.kindAt j = .parenL ∨ p.kindAt j = .backQuote
  before : 0 < i → p.kindAt (i - 1) ≠ .kwNew

/-- The text is a property of the variable of a module. -/
def IsMember (b : Bindings) (code : Text) : Prop :=
  ∃ path v member, b.moduleName? path = some v ∧ code = v ++ '.' :: member

theorem isCalled_iff {p : Program} (h : IsNextValue p i j) : isCalled p i = true ↔ CallsAt p i j := by
  have hbefore : (!(decide (0 < i) && p.kindAt (i - 1) == .kwNew)) = true
      ↔ (0 < i → p.kindAt (i - 1) ≠ .kwNew) := by simp [Nat.pos_iff_ne_zero, Decidable.imp_iff_not_or]
  rw [isCalled, h.skipTypes_eq, Bool.and_eq_true, Bool.or_eq_true, beq_iff_eq, beq_iff_eq, hbefore]
  exact ⟨fun ⟨hnext, hnew⟩ => ⟨hnext, hnew⟩, fun ⟨hnext, hnew⟩ => ⟨hnext, hnew⟩⟩

/-- A reference to an imported name is lowered by the rule for imports, the first that there
is without elements. -/
theorem token_of_reference (himports : plan.options.has .imports = true)
    (hjsx : plan.options.has .jsx = false) (hb : plan.bindings = some b)
    (hkind : plan.program.kindAt w.index = .name) (hvalue : plan.program.isTypeAt w.index = false)
    (href : (plan.program.tokenAt w.index).isReference = true)
    (hcode : b.replacement? (plan.program.nameAt w.index) = some code) :
    token plan w = .ok () ((w.write (plan.program.gapBefore w.index
      ++ referenceCode plan.program w.index code)).moveTo (w.index + 1)) := by
  have hlower := reference_of_replacement hb href hcode
  have hcur : (plan.program.tokenAt w.index).isType = false
      ∧ (plan.program.tokenAt w.index).kind = .name := ⟨hvalue, hkind⟩
  have hrules : ∃ rest, rules plan.options token = moduleRule token :: rest := by
    simp [rules, himports, hjsx]
  obtain ⟨rest, hrules⟩ := hrules
  apply eq_ok_of_ends
  rw [Ends, token_eq_tokenStep (Nat.le_of_lt (lt_count_of_isReference href)), ← Ends]
  unfold tokenStep
  rw [ends_bind, ends_cur, if_neg (by simp [hcur.2]), ends_bind, ends_read, hrules, firstOf,
    ends_bind]
  unfold moduleRule
  rw [ends_bind, ends_cur, if_neg (by simp [hcur.1]), if_neg (by simp [hcur.2]),
    if_neg (by simp [hcur.2]), if_pos (by simp [hcur.2]), Ends, hlower]
  exact ⟨rfl, rfl⟩

/-- **Calls of imported functions have no receiver, unless they are optional.**  Take a
program with imports lowered and elements left as they are, a reference to an imported
name and the next token behind it that is no type.  The name is a default, a module or a
name of one, and the reference is lowered to its expression.  A shorthand property keeps
its name as the key.  A property of a module that is called or tags a template right there,
other than by `new`, is called through a comma.  Everywhere else, and so in front of `?.`,
the expression is as it is. -/
theorem imported_calls_have_no_receiver {source : Text} {o : Options} {tokens : Array Token}
    {start : Work} (hprepare : Plan.prepare source tokens o = .ok (plan, start))
    (himports : o.has .imports = true) (hjsx : o.has .jsx = false) :
    ∃ b ds, plan.bindings = some b ∧ Dependencies.ofTokens source tokens.toList o = .ok ds
      ∧ ∀ (w : Work) (j : Nat) (code : Text), plan.program.kindAt w.index = .name →
        plan.program.isTypeAt w.index = false →
        (plan.program.tokenAt w.index).isReference = true →
        b.replacement? (plan.program.nameAt w.index) = some code →
        IsNextValue plan.program w.index j →
        b.Origin ds (plan.program.nameAt w.index) code
        ∧ ∃ text, token plan w = .ok ()
            ((w.write (plan.program.gapBefore w.index ++ text)).moveTo (w.index + 1))
          ∧ ((plan.program.tokenAt w.index).role = some .shorthand →
            text = plan.program.nameAt w.index ++ ": ".toList ++ code)
          ∧ ((plan.program.tokenAt w.index).role = some .access →
            CallsAt plan.program w.index j → IsMember b code → text = "(0, ".toList ++ code ++ ")".toList)
          ∧ ((plan.program.tokenAt w.index).role = some .access →
            ¬CallsAt plan.program w.index j ∨ ¬IsMember b code → text = code) := by
  obtain ⟨-, hoptions, -⟩ := eq_of_prepare hprepare
  obtain ⟨b, names, hb, hofTokens⟩ := exists_bindings_of_prepare hprepare himports
  obtain ⟨ds, hds, hserves, -⟩ := Bindings.exists_of_ofTokens hofTokens
  refine ⟨b, ds, hb, hds, fun w j code hkind hvalue href hcode hnext => ?_⟩
  have horigin := hserves.origin hcode
  have hdot : code.contains '.' = true ↔ IsMember b code := by
    rw [List.contains_iff_mem]
    constructor
    · intro hmem
      cases horigin with
      | default _ hv => exact ⟨_, _, _, hv, rfl⟩
      | wildcard _ hv => exact absurd hmem (hserves.variable_eq hv).2
      | named _ hv => exact ⟨_, _, _, hv, rfl⟩
    · rintro ⟨path, v, member, -, rfl⟩
      simp
  refine ⟨horigin, _, token_of_reference (hoptions ▸ himports) (hoptions ▸ hjsx) hb hkind hvalue href
    hcode, fun hrole => if_pos hrole, fun hrole hcalls hmember => ?_, fun hrole hbare => ?_⟩
  · rw [referenceCode, if_neg (by simp [hrole]),
      if_pos (by rw [(isCalled_iff hnext).mpr hcalls, hdot.mpr hmember]; rfl)]
  · rw [referenceCode, if_neg (by simp [hrole]), if_neg]
    rw [Bool.and_eq_true, isCalled_iff hnext, hdot]
    exact not_and_or.mpr hbare

/-- A function that is called with types. -/
def typedCallSource : Text :=
  "import {f} from 'm';\nf<T>(1);".toList

/-- The call is found behind the types. -/
theorem imported_calls_have_no_receiver_typedCallSource : ∃ tokens plan start,
    Grammar.parse typedCallSource typedOptions = .ok tokens
    ∧ Plan.prepare typedCallSource tokens typedOptions = .ok (plan, start)
    ∧ token plan (start.moveTo 7)
      = .ok () (((start.moveTo 7).write "\n(0, _m.f)".toList).moveTo 8) := by
  have h : preparesWith typedCallSource typedOptions (fun plan _ =>
      decide (plan.program.kindAt 7 = .name ∧ plan.program.isTypeAt 7 = false
        ∧ (plan.program.tokenAt 7).role = some .access
        ∧ plan.program.isTypeAt 8 = true ∧ plan.program.isTypeAt 9 = true
        ∧ plan.program.isTypeAt 10 = true ∧ plan.program.isTypeAt 11 = false
        ∧ plan.program.kindAt 11 = .parenL ∧ plan.program.kindAt 6 = .semi
        ∧ plan.program.gapBefore 7 = "\n".toList)
      && plan.bindings.any fun b => decide (b.moduleName? "m".toList = some "_m".toList
        ∧ b.replacement? (plan.program.nameAt 7) = some "_m.f".toList)) = true := by decide +kernel
  obtain ⟨tokens, plan, start, hparse, hprepare, htest⟩ := exists_of_preparesWith h
  rw [Bool.and_eq_true, decide_eq_true_eq] at htest
  obtain ⟨⟨hkind, hvalue, hrole, hopen, htype, hclose, hnext, hparen, hsemi, hgap⟩, hbindings⟩ := htest
  have htypes : ∀ l, 7 < l → l < 11 → plan.program.isTypeAt l = true := by
    intro l hl hlt
    obtain rfl | rfl | rfl : l = 8 ∨ l = 9 ∨ l = 10 := by omega
    · exact hopen
    · exact htype
    · exact hclose
  obtain ⟨b, ds, hb, -, hlower⟩ :=
    imported_calls_have_no_receiver hprepare (by decide) (by decide)
  rw [hb, Option.any_some, decide_eq_true_eq] at hbindings
  obtain ⟨-, text, htoken, -, hcalls, -⟩ := hlower (start.moveTo 7) 11 _ hkind hvalue
    (by rw [Token.isReference, Work.index_moveTo, hrole]; rfl) hbindings.2
    ⟨(show 7 < 11 by decide), htypes, hnext⟩
  have htext := hcalls hrole ⟨.inl hparen, fun _ => by rw [Work.index_moveTo, hsemi]; decide⟩
    ⟨_, _, "f".toList, hbindings.1, by decide⟩
  refine ⟨tokens, plan, start, hparse, hprepare, ?_⟩
  rw [htoken, htext, Work.index_moveTo, hgap]
  rfl

/-- A function that is called if there is one. -/
def optionalCallSource : Text :=
  "import {a} from 'm'; a?.();".toList

/-- Not every call of an imported function is one through a comma. -/
theorem not_comma_of_optional_call :
    ¬∀ (source : Text) (o : Options) (tokens : Array Token) (plan : Plan) (start w : Work)
        (b : Bindings) (code : Text) (j k : Nat),
      Grammar.parse source o = .ok tokens → Plan.prepare source tokens o = .ok (plan, start) →
      o.has .imports = true → o.has .jsx = false → plan.bindings = some b →
      plan.program.kindAt w.index = .name → plan.program.isTypeAt w.index = false →
      (plan.program.tokenAt w.index).role = some .access →
      b.replacement? (plan.program.nameAt w.index) = some code → IsMember b code →
      IsNextValue plan.program w.index j → plan.program.kindAt j = .questionDot →
      IsNextValue plan.program j k → plan.program.kindAt k = .parenL →
      (0 < w.index → plan.program.kindAt (w.index - 1) ≠ .kwNew) →
      token plan w = .ok () ((w.write (plan.program.gapBefore w.index
        ++ ("(0, ".toList ++ code ++ ")".toList))).moveTo (w.index + 1)) := by
  intro hall
  have h : preparesWith optionalCallSource moduleOptions (fun plan start =>
      decide (plan.program.kindAt 7 = .name ∧ plan.program.isTypeAt 7 = false
        ∧ (plan.program.tokenAt 7).role = some .access ∧ plan.program.isTypeAt 8 = false
        ∧ plan.program.kindAt 8 = .questionDot ∧ plan.program.isTypeAt 9 = false
        ∧ plan.program.kindAt 9 = .parenL ∧ plan.program.kindAt 6 = .semi
        ∧ plan.program.gapBefore 7 = " ".toList)
      && (plan.bindings.any fun b => decide (b.moduleName? "m".toList = some "_m".toList
        ∧ b.replacement? (plan.program.nameAt 7) = some "_m.a".toList))
      && okWith (token plan (start.moveTo 7)) fun _ w =>
        decide (start.draft.out = [] ∧ w.draft.out = " _m.a".toList)) = true := by decide +kernel
  obtain ⟨tokens, plan, start, hparse, hprepare, htest⟩ := exists_of_preparesWith h
  rw [Bool.and_eq_true, Bool.and_eq_true, decide_eq_true_eq] at htest
  obtain ⟨⟨⟨hkind, hvalue, hrole, hnext, hoptional, hnext', hparen, hsemi, hgap⟩, hbindings⟩, hout⟩ :=
    htest
  cases hb : plan.bindings with
  | none => simp [hb] at hbindings
  | some b =>
    rw [hb, Option.any_some, decide_eq_true_eq] at hbindings
    have hlower := hall _ _ tokens plan start (start.moveTo 7) b _ 8 9 hparse hprepare (by decide)
      (by decide) hb hkind hvalue hrole hbindings.2 ⟨_, _, "a".toList, hbindings.1, by decide⟩
      ⟨Nat.lt_succ_self 7, fun l hl hlt => by rw [Work.index_moveTo] at hl; omega, hnext⟩ hoptional
      ⟨by decide, fun l hl hlt => by omega, hnext'⟩ hparen
      (fun _ => by rw [Work.index_moveTo, hsemi]; decide)
    rw [hlower, Work.index_moveTo, hgap] at hout
    obtain ⟨hempty, hout⟩ := of_decide_eq_true hout
    change start.draft.out ++ _ = _ at hout
    rw [hempty] at hout
    exact absurd hout (by decide)

end Downlevel.Lower
