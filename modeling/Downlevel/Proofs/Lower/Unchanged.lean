import Downlevel.Proofs.Grammar.Lossless
import Downlevel.Proofs.Lower.Plain

/-!
# Programs with nothing to lower

In a plain program without number separators, catch clauses that bind nothing
and classes with fields every rule declines every token, so all tokens are
copied with the gaps before them.  Since tokens and gaps make up the source, the
output is the source, except for what goes between its `#!` line and the rest.
-/

namespace Downlevel

variable {i : Nat}

namespace Text

/-- A source with a text behind its `#!` line, which gets a line feed if it has
none, or in front if there is no such line. -/
def insertAfterShebang (source t : Text) : Text :=
  if "#!".toList.isPrefixOf source then
    source.takeWhile (· != '\n') ++ '\n' :: t ++ (source.dropWhile (· != '\n')).tail
  else t ++ source

theorem shebang_append {line rest : Text} (t : Text)
    (h : shebangSize (line ++ rest) = size line) :
    Lower.shebang (line ++ rest) ++ t ++ dropBytes (line ++ rest) (shebangSize (line ++ rest))
      = (if line.isEmpty || line.getLast? = some '\n' then line else line ++ ['\n']) ++ t ++ rest := by
  rw [Lower.shebang, h, takeBytes_append, dropBytes_append]

theorem shebang_append_dropBytes (source t : Text) :
    Lower.shebang source ++ t ++ dropBytes source (shebangSize source)
      = insertAfterShebang source t := by
  unfold insertAfterShebang
  by_cases hstart : "#!".toList.isPrefixOf source = true
  · have hne : source ≠ [] := by
      rintro rfl
      exact absurd hstart (by decide)
    rw [if_pos hstart]
    have hcut := cut_eq '\n' source
    by_cases hmem : '\n' ∈ source
    · rw [if_pos hmem] at hcut
      generalize source.takeWhile (· != '\n') = line, (source.dropWhile (· != '\n')).tail = rest
        at hcut ⊢
      obtain rfl : source = (line ++ ['\n']) ++ rest := by
        rw [eq_append_of_cut hcut, List.append_assoc]
        rfl
      have hsize : shebangSize (line ++ ['\n'] ++ rest) = size (line ++ ['\n']) := by
        rw [shebangSize, if_pos hstart, hcut, size_append]
        rfl
      rw [shebang_append t hsize]
      simp
    · rw [if_neg hmem] at hcut
      have hline : source.takeWhile (· != '\n') = source := (eq_of_cut hcut).symm
      have hrest : source.dropWhile (· != '\n') = [] := by
        have hsplit := List.takeWhile_append_dropWhile (p := (· != '\n')) (l := source)
        rw [hline] at hsplit
        exact List.append_right_eq_self.mp hsplit
      have hsize : shebangSize (source ++ []) = size source := by
        rw [List.append_nil, shebangSize, if_pos hstart, hcut, hline]
      have hlast : source.getLast? ≠ some '\n' := fun h => hmem (List.mem_of_getLast? h)
      have hoverall := shebang_append t hsize
      rw [List.append_nil] at hoverall
      rw [hoverall, hline, hrest]
      simp [hne, hlast]
  · rw [if_neg hstart]
    have hsize : shebangSize ([] ++ source) = size [] := by
      rw [List.nil_append, shebangSize, if_neg hstart]
      rfl
    exact shebang_append t hsize

end Text

namespace Program

/-- The first tokens with the gaps before them. -/
def copied (p : Program) : Nat → Text
  | 0 => []
  | i + 1 => p.copied i ++ (p.gapBefore i ++ p.textAt i)

section

open Grammar

variable {source : Text} {tokens : Array Token}

/-- The gap before a token and the token itself stand in the source one after the other. -/
theorem exists_of_placed {t : Token} (ht : tokens[i]? = some t)
    (hplaced : Lexer.Placed source (gapStart source tokens i) t True) :
    ∃ pre rest, source = pre ++ (gapBefore { source, tokens } i
        ++ (textAt { source, tokens } i ++ rest))
      ∧ Text.size pre = gapStart source tokens i
      ∧ t.start = Text.size (pre ++ gapBefore { source, tokens } i)
      ∧ t.stop = Text.size (pre ++ gapBefore { source, tokens } i ++ textAt { source, tokens } i) := by
  have htext : textAt { source, tokens } i = t.text source := by
    rw [textAt, tokenAt, ht, Option.getD_some]
  rw [gapBefore_eq, htext, Token.text, ht, Option.elim_some]
  obtain ⟨pre, gap, body, rest, hsource, hpos, hstart, hstop, -, -, heof, -⟩ := hplaced
  rw [← hpos] at hstart ⊢
  have hgap : Text.slice source (Text.size pre) t.start = gap := by
    rw [hsource, hstart, Text.slice_append]
  have hbody : (if t.kind = .eof then [] else Text.slice source t.start t.stop) = body := by
    split
    · rename_i hkind
      rw [(List.append_eq_nil_iff.mp (heof hkind)).1]
    · rw [hstop, hstart, ← Text.size_append, hsource, ← List.append_assoc, Text.slice_append]
  rw [hgap, hbody]
  refine ⟨pre, rest, hsource, rfl, ?_, ?_⟩
  · rw [hstart, Text.size_append]
  · rw [hstop, hstart, Text.size_append, Text.size_append]

/-- A token and the gap before it lead from one gap to the next. -/
theorem dropBytes_gapStart {t : Token} (ht : tokens[i]? = some t)
    (hplaced : Lexer.Placed source (gapStart source tokens i) t True) :
    Text.dropBytes source (gapStart source tokens i)
      = gapBefore { source, tokens } i ++ textAt { source, tokens } i
        ++ Text.dropBytes source (gapStart source tokens (i + 1)) := by
  obtain ⟨pre, rest, hsource, hpos, -, hstop⟩ := exists_of_placed ht hplaced
  generalize gapBefore { source, tokens } i = gap at hsource hstop ⊢
  generalize textAt { source, tokens } i = body at hsource hstop ⊢
  have hhere : Text.dropBytes source (Text.size pre) = gap ++ (body ++ rest) := by
    rw [hsource, Text.dropBytes_append]
  have hrest : Text.dropBytes source t.stop = rest := by
    rw [hstop, hsource, ← List.append_assoc, ← List.append_assoc, Text.dropBytes_append]
  rw [← hpos, hhere, gapStart, ht, Option.elim_some, hrest, List.append_assoc]

/-- Behind the `#!` line the source is made up of its tokens and gaps. -/
theorem dropBytes_shebangSize {o : Options} (hparse : parse source o = .ok tokens) :
    Text.dropBytes source (Text.shebangSize source)
      = copied { source, tokens } tokens.size ++ gapBefore { source, tokens } tokens.size := by
  obtain ⟨hplaced, pre, gap, hsource, hsize, -⟩ := placed_of_parse hparse
  have hcopied : ∀ i, i ≤ tokens.size → Text.dropBytes source (Text.shebangSize source)
      = copied { source, tokens } i ++ Text.dropBytes source (gapStart source tokens i) := by
    intro i
    induction i with
    | zero => exact fun _ => rfl
    | succ i ih =>
      intro hi
      have ht := Array.getElem?_eq_getElem hi
      rw [ih (Nat.le_of_succ_le hi), dropBytes_gapStart ht (hplaced i _ ht), copied]
      simp only [List.append_assoc]
  rw [hcopied _ (Nat.le_refl _), gapBefore_eq, Array.getElem?_eq_none (Nat.le_refl _),
    Option.elim_none, ← hsize, hsource, Text.dropBytes_append]
  have hslice := Text.slice_append pre gap []
  rw [List.append_nil, ← Text.size_append] at hslice
  rw [hslice]

end

end Program

/-- A program in which nothing is to be lowered: it is plain, its numbers have no
separators, its catch clauses bind something, and its classes have no fields. -/
structure Plan.IsLowered (plan : Plan) : Prop where
  plain : plan.program.IsPlain
  noSeparator : ∀ i, plan.program.kindAt i = .num ∨ plan.program.kindAt i = .bigInt →
    '_' ∉ plan.program.textAt i
  noBareCatch : ∀ i, plan.program.matchesAt i [.kwCatch, .braceL] = false
  fieldless : ∀ i, plan.program.kindAt i = .kwClass → ∃ layout, Lower.IsFieldless plan i layout

theorem Plan.isLowered_iff {plan : Plan} :
    plan.IsLowered ↔ plan.program.IsPlain ∧ ∀ i < plan.program.count,
      (plan.program.kindAt i = .num ∨ plan.program.kindAt i = .bigInt →
        '_' ∉ plan.program.textAt i)
      ∧ plan.program.matchesAt i [.kwCatch, .braceL] = false
      ∧ (plan.program.kindAt i = .kwClass → (Lower.fieldlessLayout? plan i).isSome = true) := by
  constructor
  · intro h
    refine ⟨h.plain, fun i _ => ⟨h.noSeparator i, h.noBareCatch i, fun hkind => ?_⟩⟩
    obtain ⟨layout, hlayout⟩ := h.fieldless i hkind
    rw [(Lower.fieldlessLayout?_eq_some_iff h.plain.untyped).mpr hlayout]
    rfl
  · rintro ⟨hp, h⟩
    refine ⟨hp, fun i hi => ?_, fun i => ?_, fun i hi => ?_⟩
    · have hlt : i < plan.program.count := by
        rcases hi with hi | hi <;> exact Program.lt_count_of_kindAt hi (by decide)
      exact (h i hlt).1 hi
    · refine Bool.eq_false_iff.mpr fun hmatches => ?_
      have hlt := Program.lt_count_of_kindAt (Program.kindAt_of_matchesAt hmatches) (by decide)
      exact Bool.false_ne_true ((h i hlt).2.1.symm.trans hmatches)
    · have hlt := Program.lt_count_of_kindAt hi (by decide)
      obtain ⟨layout, hlayout⟩ := Option.isSome_iff_exists.mp ((h i hlt).2.2 hi)
      exact ⟨layout, (Lower.fieldlessLayout?_eq_some_iff hp.untyped).mp hlayout⟩

instance (plan : Plan) : Decidable plan.IsLowered :=
  decidable_of_iff _ Plan.isLowered_iff.symm

/-- The work after the first tokens are copied. -/
def Work.copying (source : Text) (tokens : Array Token) (i : Nat) : Work :=
  ((Work.plain source tokens).write (Program.copied { source, tokens } i)).moveTo i

theorem Work.copyNext_copying (source : Text) (tokens : Array Token) (i : Nat) :
    (copying source tokens i).copyNext { source, tokens } = copying source tokens (i + 1) := rfl

namespace Lower

open Grammar

section

variable {plan : Plan} {w : Work} {source : Text} {tokens : Array Token} {o : Options}
  {E : Error → Prop}

/-- A token that all rules decline is copied. -/
theorem ends_rules_copy {token : Lower Unit} {Q : Unit → Work → Prop} (h : plan.IsLowered)
    (hbindings : plan.options.has .imports = true →
      ∃ b, plan.bindings = some b ∧ b.replacements = [])
    (hlt : w.index < plan.program.count) (hQ : Q () (w.copyNext plan.program)) :
    Ends plan (firstOf (rules plan.options token)) w Q E := by
  have hcopy : Ends plan (firstOf []) w Q E := by
    rw [firstOf, ends_copy, if_pos hlt]
    exact hQ
  have hseparator : Declines plan w numericSeparators :=
    declines_numericSeparators fun hkind => by simpa using h.noSeparator w.index hkind
  exact ends_rules h.plain hbindings (hseparator.ends_firstOf
    ((declines_catchBinding (h.noBareCatch _)).ends_firstOf hcopy))

/-- A `class` that has a layout begins a class. -/
theorem beginsClass_of_isFieldless {layout : ClassLayout} (hn : IsNested plan.program.tokens)
    (hkind : plan.program.kindAt i = .kwClass) (h : IsFieldless plan i layout) :
    BeginsClass plan.program.tokens i := by
  obtain ⟨-, token, w, w', rfl, hok⟩ := h
  exact Classical.byContradiction fun hbegins =>
    (ends_classLayout_stray hn hkind hbegins).of_ok hok

theorem walkable_copying (hparse : parse source o = .ok tokens)
    (h : (Plan.plain source tokens o).IsLowered) :
    Walkable (Plan.plain source tokens o) (fun w => w = Work.copying source tokens w.index)
      fun _ => False := by
  have hn : IsNested tokens := nesting_of_parse hparse (isUntyped_of_isPlain h.plain)
  have hcopy : ∀ w : Work, w = Work.copying source tokens w.index →
      w.copyNext { source, tokens } = Work.copying source tokens (w.index + 1) := by
    intro w hw
    rw [← Work.copyNext_copying, ← hw]
  refine ⟨hn, h.plain.untyped, ?_, ?_, fun w hw _ _ => hcopy w hw,
    fun _ _ _ _ w hw _ _ => hcopy w hw, ?_⟩
  · intro token w hw hlt _
    exact ends_rules_copy h bindings_plan_plain hlt ⟨hcopy w hw, rfl⟩
  · intro i hbegins
    exact h.fieldless i (kindAt_of_beginsClass hbegins)
  · intro i hkind hbegins
    obtain ⟨layout, hlayout⟩ := h.fieldless i hkind
    exact absurd (beginsClass_of_isFieldless hn hkind hlayout) hbegins

/-- Without bindings and declarations only the mark of strict code goes in front. -/
theorem ends_preamble_copying :
    Ends (Plan.plain source tokens o) preamble (Work.copying source tokens i)
      (fun before w' => before = (if o.has .imports then "\"use strict\";".toList else [])
        ∧ w' = Work.copying source tokens i) E := by
  refine ⟨?_, rfl⟩
  unfold Plan.plain Work.copying
  by_cases himports : o.has .imports = true
  · simp only [himports]
    rfl
  · simp only [himports]
    rfl

/-- A program in which nothing is to be lowered is left as it is, except that
strict code is marked behind its `#!` line if imports are lowered. -/
theorem transform_of_isLowered (hvalid : o.validate = .ok ())
    (hparse : parse source o = .ok tokens) (h : (Plan.plain source tokens o).IsLowered) :
    transform source o = .ok (Text.insertAfterShebang source
      (if o.has .imports then "\"use strict\";".toList else [])) := by
  have hfinish : Ends (Plan.plain source tokens o) finish (Work.plain source tokens)
      (fun code w => ∃ before, (before = (if o.has .imports then "\"use strict\";".toList else [])
          ∧ w.draft.out = Program.copied { source, tokens } tokens.size)
        ∧ code = shebang source ++ before
          ++ (w.draft.out ++ Program.gapBefore { source, tokens } tokens.size))
      fun _ => False := by
    refine ends_finish ((ends_balanced (walkable_copying hparse h) rfl rfl).mono fun _ w hw => ?_)
    obtain ⟨hw, hindex⟩ := hw
    rw [hw, hindex]
    refine ⟨rfl, ends_preamble_copying.mono fun before w' h' => ?_⟩
    exact ⟨⟨h'.1, rfl⟩, h'.2⟩
  obtain ⟨code, w, htransform, _, ⟨rfl, hout⟩, rfl⟩ | ⟨e, -, hfalse⟩ :=
    transform_of_ends hvalid hparse h.plain hfinish
  · rw [htransform, hout, ← Program.dropBytes_shebangSize hparse, Text.shebang_append_dropBytes]
  · exact hfalse.elim

end

/-- A program with a `#!` line and a class that has a method and no fields. -/
def fieldlessSource : Text :=
  "#!x\nclass A { m() { try { f(1) } catch (e) {} } }\n".toList

theorem transform_fieldlessSource :
    ∃ tokens, parse fieldlessSource { transforms := [.imports, .typescript] } = .ok tokens
      ∧ (Plan.plain fieldlessSource tokens { transforms := [.imports, .typescript] }).IsLowered
      ∧ transform fieldlessSource { transforms := [.imports, .typescript] } =
        .ok "#!x\n\"use strict\";class A { m() { try { f(1) } catch (e) {} } }\n".toList := by
  have hlowered : ((parse fieldlessSource { transforms := [.imports, .typescript] }).toOption.any
      fun tokens => decide (Plan.plain fieldlessSource tokens
        { transforms := [.imports, .typescript] }).IsLowered) = true := by decide +kernel
  cases hparse : parse fieldlessSource { transforms := [.imports, .typescript] } with
  | error e =>
    rw [hparse] at hlowered
    cases hlowered
  | ok tokens =>
    rw [hparse] at hlowered
    refine ⟨tokens, rfl, of_decide_eq_true hlowered, ?_⟩
    rw [transform_of_isLowered rfl hparse (of_decide_eq_true hlowered)]
    exact congrArg Except.ok (by decide +kernel)

end Lower

end Downlevel
