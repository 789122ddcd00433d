import Downlevel.Proofs.Grammar.Lossless
import Downlevel.Proofs.Lower.Declines
import Downlevel.Proofs.Lower.Gaps

/-!
# Types in front of an operand

No line break may come between `return` or `throw` and its operand.  Types are
erased up to the line feeds in the gaps between them, so an operand that starts
with a type on several lines, or that follows one on another line, is cut off.
There is no other way for that to happen.
-/

namespace Downlevel

namespace Program

/-- The line feeds in the gaps before the tokens from `i` up to `j`. -/
def lineFeeds (p : Program) (i j : Nat) : Text :=
  ((List.range' i (j - i)).map fun k => Text.newlines (p.gapBefore k)).flatten

theorem lineFeeds_self (p : Program) (i : Nat) : p.lineFeeds i i = [] := by
  simp [lineFeeds]

theorem lineFeeds_succ (p : Program) {i j : Nat} (h : i ≤ j) :
    p.lineFeeds i (j + 1) = p.lineFeeds i j ++ Text.newlines (p.gapBefore j) := by
  have hrange : List.range' i (j + 1 - i) = List.range' i (j - i) ++ [j] := by
    rw [Nat.succ_sub h, List.range'_concat, Nat.one_mul, Nat.add_sub_cancel' h]
  simp [lineFeeds, hrange]

/-- What the types from `i` up to `j` leave behind. -/
def typeTrace (p : Program) (i j : Nat) : Text :=
  p.gapBefore i ++ p.lineFeeds (i + 1) j

end Program

/-- The work after the types from here up to an index are erased. -/
def Work.eraseTo (w : Work) (p : Program) (j : Nat) : Work :=
  (w.write (p.typeTrace w.index j)).moveTo j

theorem Work.eraseTo_first (w : Work) (p : Program) :
    (w.write (p.gapBefore w.index)).moveTo (w.index + 1) = w.eraseTo p (w.index + 1) := by
  rw [eraseTo, Program.typeTrace, Program.lineFeeds_self, List.append_nil]

theorem Work.eraseTo_next (w : Work) (p : Program) {j : Nat} (h : w.index < j) :
    ((w.eraseTo p j).write (Text.newlines (p.gapBefore j))).moveTo (j + 1) = w.eraseTo p (j + 1) := by
  have hfeeds := p.lineFeeds_succ (show w.index + 1 ≤ j from h)
  simp only [eraseTo, Program.typeTrace, hfeeds, ← List.append_assoc, ← write_write]
  rfl

namespace Lower

variable {p : Program}

section

variable {plan : Plan} {w : Work}

theorem eq_ok_of_ends {α : Type} {p : Lower α} {a : α} {w' : Work}
    (h : Ends plan p w (fun b v => b = a ∧ v = w') fun _ => False) : p plan w = .ok a w' := by
  unfold Ends at h
  cases hp : p plan w with
  | error e v =>
    rw [hp] at h
    exact h.elim
  | ok b v =>
    rw [hp] at h
    obtain ⟨rfl, rfl⟩ := h
    rfl

/-! ## Erasing types -/

/-- A run of types is passed as a whole, and leaves the gap before it and line
feeds. -/
theorem ends_typeRun (h : plan.program.isTypeAt w.index = true) :
    Ends plan typeRun w (fun b w' => b = true
      ∧ w' = w.eraseTo plan.program (plan.program.skipTypes w.index)) fun _ => False := by
  have hlt : w.index < plan.program.count := Program.lt_count_of_isTypeAt h
  unfold typeRun
  rw [ends_bind, ends_isType, if_pos h, ends_bind, ends_removeInitial, if_pos hlt,
    Work.eraseTo_first, ends_bind]
  -- all tokens up to the next one are types, and erased
  refine Ends.repeatWhile (fun v => ∃ j, v = w.eraseTo plan.program j ∧ w.index < j
    ∧ j ≤ plan.program.count ∧ ∀ k, w.index ≤ k → k < j → plan.program.isTypeAt k = true) ?_ ?_
  · rintro v ⟨j, rfl, hgt, hle, htypes⟩
    have hindex : (w.eraseTo plan.program j).index = j := rfl
    refine ⟨hle, ?_⟩
    rw [ends_isType, hindex]
    by_cases htype : plan.program.isTypeAt j = true
    · have hlt' : j < plan.program.count := Program.lt_count_of_isTypeAt htype
      rw [if_pos htype, ends_remove, hindex, if_pos hlt', w.eraseTo_next plan.program hgt]
      refine ⟨⟨j + 1, rfl, by omega, hlt', fun k hk hkj => ?_⟩, Nat.lt_succ_self _⟩
      rcases Nat.lt_or_eq_of_le (Nat.lt_succ_iff.mp hkj) with hkj | rfl
      · exact htypes k hk hkj
      · exact htype
    · rw [if_neg htype, ends_pure, Program.skipTypes_eq (Nat.le_of_lt hgt) hle htypes
        (Bool.eq_false_iff.mpr htype)]
      exact ⟨rfl, rfl⟩
  · refine ⟨w.index + 1, rfl, by omega, hlt, fun k hk hkj => ?_⟩
    obtain rfl : k = w.index := by omega
    exact h

/-- With types, their rule comes after rules that do not apply to them. -/
theorem exists_typeRun {o : Options} (token : Lower Unit)
    (h : o.has .typescript = true ∨ o.has .flow = true) :
    ∃ l l', rules o token = l ++ typeRun :: l' ∧ ∀ rule ∈ l,
      rule = elementRule token ∨ rule = componentRule token ∨ rule = moduleRule token
        ∨ rule = arrowParametersEnd ∨ rule = asyncTypeParameters token := by
  by_cases hflow : o.has .flow = true
  · refine ⟨(if o.has .jsx then [elementRule token, componentRule token] else [])
      ++ (if o.has .imports then [moduleRule token] else []) ++ [arrowParametersEnd],
      (if o.has .typescript then [arrowParametersEnd, asyncTypeParameters token, typeRun] else [])
      ++ [numericSeparators, catchBinding], ?_, ?_⟩
    · simp only [rules, if_pos hflow, List.append_assoc, List.cons_append, List.nil_append]
    · intro rule hrule
      simp only [List.mem_append] at hrule
      grind
  · have htypescript : o.has .typescript = true := h.resolve_right hflow
    refine ⟨(if o.has .jsx then [elementRule token, componentRule token] else [])
      ++ (if o.has .imports then [moduleRule token] else [])
      ++ [arrowParametersEnd, asyncTypeParameters token], [numericSeparators, catchBinding], ?_, ?_⟩
    · simp only [rules, if_neg hflow, if_pos htypescript, List.append_assoc, List.cons_append,
        List.nil_append]
    · intro rule hrule
      simp only [List.mem_append] at hrule
      grind

theorem token_of_isType_of_ne
    (htypes : plan.options.has .typescript = true ∨ plan.options.has .flow = true)
    (h : plan.program.isTypeAt w.index = true)
    (hparen : plan.program.matchesAt w.index [.parenR, .colon] = true →
      plan.program.isTypeAt (w.index + 1) = true →
      plan.program.kindAt (plan.program.skipTypes (w.index + 1)) ≠ .arrow)
    (htag : plan.program.kindAt w.index ≠ .jsxTagStart) :
    token plan w = .ok () (w.eraseTo plan.program (plan.program.skipTypes w.index)) := by
  have hle : w.index ≤ plan.program.count := Nat.le_of_lt (Program.lt_count_of_isTypeAt h)
  have hvalue : ∀ {P : Prop}, plan.program.isTypeAt w.index = false → P := by
    intro P hfalse
    rw [hfalse] at h
    cases h
  obtain ⟨l, l', hrules, hl⟩ := exists_typeRun token htypes
  have hdeclines : ∀ rule ∈ l, Declines plan w rule := by
    intro rule hrule
    rcases hl rule hrule with rfl | rfl | rfl | rfl | rfl
    · exact declines_elementRule htag
    · exact declines_componentRule fun _ => hvalue
    · exact declines_moduleRule hvalue
    · exact declines_arrowParametersEnd_of_ne hparen
    · exact declines_asyncTypeParameters fun _ => hvalue
  rw [token_eq_tokenStep hle]
  refine eq_ok_of_ends ?_
  have hisType : (plan.program.tokenAt w.index).isType = true := h
  unfold tokenStep
  rw [ends_bind, ends_cur, hisType, Bool.not_true, Bool.and_false, if_neg Bool.false_ne_true,
    ends_bind, ends_read, hrules]
  refine ends_firstOf_append hdeclines ?_
  rw [firstOf, ends_bind]
  refine (ends_typeRun h).mono fun b w' hb => ?_
  obtain ⟨rfl, rfl⟩ := hb
  exact ⟨rfl, rfl⟩

theorem token_of_isType (htypes : plan.options.has .typescript = true ∨ plan.options.has .flow = true)
    (h : plan.program.isTypeAt w.index = true) (hparen : plan.program.kindAt w.index ≠ .parenR)
    (htag : plan.program.kindAt w.index ≠ .jsxTagStart) :
    token plan w = .ok () (w.eraseTo plan.program (plan.program.skipTypes w.index)) :=
  token_of_isType_of_ne htypes h
    (fun hmatches _ => absurd (Program.kindAt_of_matchesAt hmatches) hparen) htag

/-! ## Keywords and their operands -/

/-- The keywords of restricted productions that an operand follows. -/
def isRestricted (kind : Kind) : Bool :=
  kind == .kwReturn || kind == .kwThrow

/-- The keyword itself is copied. -/
theorem token_of_isRestricted (hkind : isRestricted (plan.program.kindAt w.index) = true)
    (hvalue : plan.program.isTypeAt w.index = false) :
    token plan w = .ok () (w.copyNext plan.program) := by
  have hne : ∀ {kind : Kind}, isRestricted kind = false → plan.program.kindAt w.index ≠ kind := by
    rintro kind hfalse rfl
    exact Bool.false_ne_true (hfalse.symm.trans hkind)
  have hlt : w.index < plan.program.count :=
    Program.lt_count_of_kindAt rfl (hne (by decide))
  have hdeclines : ∀ rule ∈ rules plan.options token, Declines plan w rule := by
    intro rule hrule
    have hname : plan.program.kindAt w.index ≠ .name := hne (by decide)
    rcases mem_rules hrule with rfl | rfl | rfl | rfl | rfl | rfl | rfl | rfl
    · exact declines_elementRule (hne (by decide))
    · exact declines_componentRule fun h => absurd h hname
    · refine declines_moduleRule fun _ => ⟨hne (by decide), hne (by decide), fun h => ?_⟩
      exact (h.elim hname (hne (by decide))).elim
    · exact declines_arrowParametersEnd fun h => absurd h (hne (by decide))
    · exact declines_asyncTypeParameters fun h => absurd h hname
    · exact declines_typeRun hvalue
    · exact declines_numericSeparators fun h => (h.elim (hne (by decide)) (hne (by decide))).elim
    · refine declines_catchBinding (Bool.eq_false_iff.mpr fun h => ?_)
      exact hne (by decide) (Program.kindAt_of_matchesAt h)
  have hclass : (plan.program.tokenAt w.index).kind ≠ .kwClass := hne (by decide)
  rw [token_eq_tokenStep (Nat.le_of_lt hlt)]
  refine eq_ok_of_ends ?_
  unfold tokenStep
  rw [ends_bind, ends_cur, decide_eq_false hclass, Bool.false_and, if_neg Bool.false_ne_true,
    ends_bind, ends_read, ← List.append_nil (rules plan.options token)]
  refine ends_firstOf_append hdeclines ?_
  rw [firstOf, ends_copy, if_pos hlt]
  exact ⟨rfl, rfl⟩

end

/-! ## Line breaks -/

theorem isUnbroken_newlines {t : Text} : IsUnbroken (Text.newlines t) ↔ '\n' ∉ t := by
  constructor
  · intro h hmem
    have hbreak := h '\n' (List.mem_filter.mpr ⟨hmem, rfl⟩)
    cases hbreak
  · intro h c hc
    obtain ⟨hmem, heq⟩ := List.mem_filter.mp hc
    exact absurd (eq_of_beq heq ▸ hmem) h

theorem isUnbroken_lineFeeds {i j : Nat} :
    IsUnbroken (p.lineFeeds i j) ↔ ∀ k, i ≤ k → k < j → '\n' ∉ p.gapBefore k := by
  have hrange : ∀ k, k ∈ List.range' i (j - i) ↔ i ≤ k ∧ k < j := by
    intro k
    rw [List.mem_range'_1]
    omega
  constructor
  · intro h k hik hkj
    refine isUnbroken_newlines.mp fun c hc => h c ?_
    exact List.mem_flatten.mpr ⟨_, List.mem_map.mpr ⟨k, (hrange k).mpr ⟨hik, hkj⟩, rfl⟩, hc⟩
  · intro h c hc
    obtain ⟨feeds, hfeeds, hmem⟩ := List.mem_flatten.mp hc
    obtain ⟨k, hk, rfl⟩ := List.mem_map.mp hfeeds
    obtain ⟨hik, hkj⟩ := (hrange k).mp hk
    exact isUnbroken_newlines.mpr (h k hik hkj) c hmem

/-- A token knows whether the gap before it is broken. -/
theorem isUnbroken_gapBefore {i : Nat} (h : ∀ i t, p.tokens[i]? = some t →
      Grammar.Follows p.source (Grammar.gapStart p.source p.tokens i) t) (hi : i < p.count) :
    IsUnbroken (p.gapBefore i) ↔ (p.tokenAt i).newlineBefore = false := by
  have ht := Program.tokenAt_of_lt hi
  have hnewline := (h i _ ht).newlineBefore
  have hgap : p.gapBefore i
      = Text.slice p.source (Grammar.gapStart p.source p.tokens i) (p.tokenAt i).start := by
    have heq : Program.gapBefore ⟨p.source, p.tokens⟩ i = _ := Grammar.gapBefore_eq i
    rwa [ht, Option.elim_some] at heq
  rw [← hgap, ← Grammar.any_isLineTerminator] at hnewline
  rw [← Bool.not_eq_true, hnewline]
  simp [IsUnbroken]

/-- What is written between a keyword and the token that its operand, which starts
at an index, begins with when types are erased. -/
def operandGap (p : Program) (i : Nat) : Text :=
  (if p.isTypeAt i then p.typeTrace i (p.skipTypes i) else [])
    ++ p.gapBefore (p.skipTypes i)

theorem isUnbroken_operandGap {i : Nat} (h : ∀ i t, p.tokens[i]? = some t →
      Grammar.Follows p.source (Grammar.gapStart p.source p.tokens i) t)
    (hline : (p.tokenAt i).newlineBefore = false) (hnext : p.skipTypes i < p.count) :
    IsUnbroken (operandGap p i)
      ↔ (p.isTypeAt i = true → (∀ k, i < k → k < p.skipTypes i → '\n' ∉ p.gapBefore k)
        ∧ (p.tokenAt (p.skipTypes i)).newlineBefore = false) := by
  have hnextGap := isUnbroken_gapBefore h hnext
  rw [operandGap, isUnbroken_append, hnextGap]
  by_cases htype : p.isTypeAt i = true
  · have hgap := isUnbroken_gapBefore h (Program.lt_count_of_isTypeAt htype)
    rw [if_pos htype, Program.typeTrace, isUnbroken_append, hgap, isUnbroken_lineFeeds]
    simp only [hline, htype, true_and, forall_const]
    rfl
  · have hskip : p.skipTypes i = i := Program.skipTypes_eq_self (Bool.eq_false_iff.mpr htype)
    rw [if_neg htype, hskip]
    exact ⟨fun _ htype' => absurd htype' htype, fun _ => ⟨nofun, hline⟩⟩

/-- **Types in front of an operand are erased up to line breaks.**  Take a `return`
or `throw` in a program with types, whose operand starts on its line.  It is
copied.  A type that the operand starts with, and that itself does not start with a
closing parenthesis or a tag, is erased as a whole and leaves the gap before it and
the line feeds of its other gaps.  What comes next is written behind its gap, perhaps
after the variable of a class.  So there is no line break in between exactly if the
type is on one line, if there is a type, and what comes next is on that line, too. -/
theorem operand_follows_keyword {source : Text} {o : Options} {tokens : Array Token} {plan : Plan}
    {start w : Work} (hparse : Grammar.parse source o = .ok tokens)
    (hprepare : Plan.prepare source tokens o = .ok (plan, start))
    (htypes : o.has .typescript = true ∨ o.has .flow = true)
    (hkeyword : isRestricted (plan.program.kindAt w.index) = true)
    (hvalue : plan.program.isTypeAt w.index = false)
    (hline : (plan.program.tokenAt (w.index + 1)).newlineBefore = false)
    (hnext : plan.program.skipTypes (w.index + 1) < plan.program.count) :
    token plan w = .ok () (w.copyNext plan.program)
    ∧ (plan.program.isTypeAt (w.index + 1) = true →
      plan.program.kindAt (w.index + 1) ≠ .parenR →
      plan.program.kindAt (w.index + 1) ≠ .jsxTagStart →
      token plan (w.copyNext plan.program) = .ok () ((w.copyNext plan.program).eraseTo plan.program
        (plan.program.skipTypes (w.index + 1))))
    ∧ (∀ v, v.index = plan.program.skipTypes (w.index + 1) →
      Ends plan token v (fun _ v' => ∃ lead, IsLead plan v lead
        ∧ v.draft.out ++ lead ++ plan.program.gapBefore v.index <+: v'.draft.out) fun _ => True)
    ∧ (IsUnbroken (operandGap plan.program (w.index + 1))
      ↔ (plan.program.isTypeAt (w.index + 1) = true →
        (∀ k, w.index + 1 < k → k < plan.program.skipTypes (w.index + 1) →
          '\n' ∉ plan.program.gapBefore k)
        ∧ (plan.program.tokenAt (plan.program.skipTypes (w.index + 1))).newlineBefore = false)) := by
  obtain ⟨hprogram, hoptions, -⟩ := eq_of_prepare hprepare
  have hfollows : ∀ i t, plan.program.tokens[i]? = some t → Grammar.Follows plan.program.source
      (Grammar.gapStart plan.program.source plan.program.tokens i) t := by
    intro i t ht
    rw [hprogram] at ht ⊢
    exact Grammar.follows_of_placed ((Grammar.placed_of_parse hparse).1 i t ht)
  refine ⟨token_of_isRestricted hkeyword hvalue, fun htype hparen htag => ?_, fun v hv => ?_,
    isUnbroken_operandGap hfollows hline hnext⟩
  · exact token_of_isType (w := w.copyNext plan.program) (hoptions ▸ htypes) htype hparen htag
  · exact ends_token_gap (by omega)

/-- A type assertion on two lines in front of what is returned. -/
def splitOperandSource : Text :=
  "function f(x) \x7b return <T\n>x; \x7d".toList

/-- With types and imports lowered. -/
def typedOptions : Options :=
  { transforms := [.imports, .typescript] }

theorem exists_splitOperand : ∃ tokens plan start,
    Grammar.parse splitOperandSource typedOptions = .ok tokens
    ∧ Plan.prepare splitOperandSource tokens typedOptions = .ok (plan, start)
    ∧ isRestricted (plan.program.kindAt 6) = true ∧ plan.program.isTypeAt 6 = false
    ∧ (plan.program.tokenAt 7).newlineBefore = false ∧ plan.program.skipTypes 7 < plan.program.count
    ∧ plan.program.isTypeAt 7 = true ∧ plan.program.kindAt 7 ≠ .parenR
    ∧ plan.program.kindAt 7 ≠ .jsxTagStart ∧ ¬IsUnbroken (operandGap plan.program 7) := by
  have h : preparesWith splitOperandSource typedOptions
      (fun plan _ => decide (
        isRestricted (plan.program.kindAt 6) = true ∧ plan.program.isTypeAt 6 = false
        ∧ (plan.program.tokenAt 7).newlineBefore = false
        ∧ plan.program.skipTypes 7 < plan.program.count
        ∧ plan.program.isTypeAt 7 = true ∧ plan.program.kindAt 7 ≠ .parenR
        ∧ plan.program.kindAt 7 ≠ .jsxTagStart
        ∧ ¬IsUnbroken (operandGap plan.program 7))) = true := by decide +kernel
  obtain ⟨tokens, plan, start, hparse, hprepare, htest⟩ := exists_of_preparesWith h
  exact ⟨tokens, plan, start, hparse, hprepare, of_decide_eq_true htest⟩

/-- The line break in the assertion stays. -/
theorem operand_splitOperandSource : ∃ tokens plan start,
    Grammar.parse splitOperandSource typedOptions = .ok tokens
    ∧ Plan.prepare splitOperandSource tokens typedOptions = .ok (plan, start)
    ∧ token plan (start.moveTo 6) = .ok () ((start.moveTo 6).copyNext plan.program)
    ∧ token plan ((start.moveTo 6).copyNext plan.program)
      = .ok () (((start.moveTo 6).copyNext plan.program).eraseTo plan.program
        (plan.program.skipTypes 7)) := by
  obtain ⟨tokens, plan, start, hparse, hprepare, hkeyword, hvalue, hline, hnext, htype, hparen,
    htag, -⟩ := exists_splitOperand
  have h := operand_follows_keyword (w := start.moveTo 6) hparse hprepare (.inl (by decide))
    hkeyword hvalue hline hnext
  exact ⟨tokens, plan, start, hparse, hprepare, h.1, h.2.1 htype hparen htag⟩

/-- Not every operand that starts on the line of its keyword stays there. -/
theorem not_isUnbroken_operandGap :
    ¬∀ (source : Text) (o : Options) (code : Text) (tokens : Array Token) (plan : Plan)
        (start : Work) (i : Nat),
      transform source o = .ok code → Grammar.parse source o = .ok tokens →
      Plan.prepare source tokens o = .ok (plan, start) →
      o.has .typescript = true ∨ o.has .flow = true →
      isRestricted (plan.program.kindAt i) = true → plan.program.isTypeAt i = false →
      (plan.program.tokenAt (i + 1)).newlineBefore = false →
      plan.program.skipTypes (i + 1) < plan.program.count →
      IsUnbroken (operandGap plan.program (i + 1)) := by
  intro h
  obtain ⟨tokens, plan, start, hparse, hprepare, hkeyword, hvalue, hline, hnext, -, -, -, hbroken⟩ :=
    exists_splitOperand
  have htransform : transform splitOperandSource typedOptions
      = .ok "\"use strict\";function f(x) \x7b return \nx; \x7d".toList := by decide +kernel
  exact hbroken (h _ _ _ tokens plan start 6 htransform hparse hprepare (.inl (by decide)) hkeyword
    hvalue hline hnext)

end Lower

end Downlevel
