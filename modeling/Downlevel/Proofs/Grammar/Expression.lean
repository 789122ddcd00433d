import Downlevel.Grammar.Expression
import Downlevel.Proofs.Grammar.Declaration
import Downlevel.Proofs.Lexer.Scan

/-!
# Elements and expressions keep the frame

Inside a tag the stage says so, since a source that ends there has no token
ahead that could be finished.
-/

set_option synthInstance.maxSize 1000000000000000000
set_option synthInstance.maxHeartbeats 200000

namespace Downlevel.Grammar

open Grammar.Parser

variable {c : Setting} {call : Reference} {n : Nat} {f : Frame} {v : View} {mode : Lexer.Mode}
  {kind : Kind} {id : Nat} {hasModifier : Bool}

/-! ## Elements -/

theorem Calls.element (hc : Calls c call) {b : Bool}
    (hkind : v.cur.kind = .lessThan ∨ v.cur.kind = .jsxTagStart) :
    Runs c n { frame := f, inTag := b } v (call (.element mode)) (fun _ => f.after mode)
      fun _ _ => True :=
  hc.obeys (.element mode) n f b v hkind

theorem runs_tagName :
    Runs c n (f.after .tag) v tagName (fun _ => f.after .tag) fun _ w => v.Passed .tag w := by
  unfold tagName
  simp only [runs_looks]
  refine Runs.ite (fun h => ?_) fun _ => Runs.unexpected
  exact Runs.nextInAt (of_decide_eq_true h) (.neutral rfl) (by decide)

/-- The name of an element has no context when it gets its role. -/
theorem runs_elementName (hcontext : v.cur.context = none) :
    Runs c n (f.after .tag) v elementName (fun _ => f.after .tag) fun _ _ => True := by
  unfold elementName
  refine Runs.tokenCountBare hcontext fun i hi => ?_
  simp only [runs_looks]
  refine runs_tagName.bind fun _ w hw => ?_
  simp only [runs_looks]
  refine Runs.when (fun _ => ?_) fun w => ?_
  · exact (Runs.modifyToken (h := fun t => { t with role := some .access }) hi fun t ht =>
      ⟨rfl, rfl, rfl, rfl, rfl, id, fun hsome => absurd (ht hw.bare) hsome⟩).any
  · simp only [runs_looks]
    refine Runs.ite (fun h => ?_) fun _ => ?_
    · exact (Runs.nextInAt (of_decide_eq_true h) (.neutral rfl) (by decide)).bind fun _ w _ =>
        runs_tagName.any
    · refine (Runs.repeatIf fun w h => ?_).any
      exact (Runs.nextInAt (of_decide_eq_true h) (.neutral rfl) (by decide)).bind fun _ w _ =>
        runs_tagName.any

/-- An expression in braces inside a tag. -/
theorem runs_tagAttribute (hc : Calls c call) :
    Runs c n (f.after .tag) v (tagAttribute call) (fun _ => f.after .tag) fun _ _ => True := by
  have hopen : ∀ w, w.cur.kind = .braceL →
      Runs c n (f.after .tag) w Parser.next (fun _ => (f.push (.brace none)).plain)
        fun _ _ => True :=
    fun w hkind => (Runs.nextInAt hkind .braceL (by decide)).any
  have hclose : ∀ w, Runs c n (f.push (.brace none)).plain w (expectIn .braceR .tag)
      (fun _ => f.after .tag) fun _ _ => True :=
    fun w => (Runs.expectIn .braceR (by simp [Frame.plain]) (by simp [Frame.plain])).any
  unfold tagAttribute
  simp only [runs_looks]
  refine Runs.ite (fun h => ?_) fun _ => ?_
  · refine (hopen v (of_decide_eq_true h)).bind fun _ w _ => ?_
    refine (Runs.expect (.neutral rfl)).bind fun _ w _ => ?_
    exact (Takes.run (p := call (.assignment false))).bind fun _ w _ => hclose w
  · refine runs_tagName.bind fun _ w _ => ?_
    simp only [runs_looks]
    refine Runs.join (fun w => ?_) fun h hrest => ?_
    · simp only [runs_looks]
      refine Runs.maybe fun h => ?_
      refine (Runs.nextInAt (of_decide_eq_true h) (.neutral rfl) (by decide)).bind fun _ w _ => ?_
      simp only [runs_looks]
      split
      · rename_i hkind
        exact (Runs.nextInAt hkind (.neutral rfl) (by decide)).any
      · rename_i hkind
        exact (hopen w hkind).bind fun _ w _ => (Takes.run (p := call (.assignment false))).bind fun _ w _ => hclose w
      · rename_i hkind
        exact hc.element (.inr hkind)
      · exact Runs.fault
    · refine (Runs.nextInAt (of_decide_eq_true h) (.neutral rfl) (by decide)).bind fun _ w _ => ?_
      exact (Runs.expectIn (.neutral rfl) (fun _ => by decide) (by simp [Frame.after])).bind
        fun _ w _ => hrest w

theorem runs_childExpression (hc : Calls c call) (hkind : v.cur.kind = .braceL) :
    Runs c n (f.after .child) v (childExpression call) (fun _ => f.after .child)
      fun _ _ => True := by
  unfold childExpression
  refine (Runs.nextInAt hkind .braceL (by decide)).bind fun _ w _ => ?_
  simp only [runs_looks]
  refine Runs.join (fun w => ?_) fun _ hrest => ?_
  · exact (Runs.expectIn .braceR (by simp [Frame.after]) (by simp [Frame.after])).any
  · rw [Parser.discard_bind]
    refine (Runs.eatKeeping (.neutral rfl)).bind fun b w _ => ?_
    exact (Takes.run (p := expression call false)).bind fun _ w _ => hrest w

/-- Looking at the byte after a gap leaves the state alone.  A slash is the next
token of a tag. -/
theorem Runs.nextByteIs {s : Stage} {β : Type} {k : Bool → Parser β} {s' : β → Stage}
    {L : β → View → Prop}
    (htrue : Runs c n s { v with after := some (.tag, .slash) } (k true) s' L)
    (hfalse : Runs c n s v (k false) s' L) :
    Runs c n s v (scan (Lexer.nextByteIs (Character.leadByte '/')) >>= k) s' L := by
  intro hn st ha hv
  rw [Parser.bind_apply]
  unfold scan
  cases hscan : Lexer.nextByteIs (Character.leadByte '/') c.source st.pos with
  | error failure pos => exact Kept.of_tokens_eq (Nat.le_trans hn hv.count) rfl
  | ok b pos =>
    have hpos : pos = st.pos := Lexer.nextByteIs_pos hscan
    subst hpos
    cases b with
    | false => exact hfalse hn st ha hv
    | true =>
      refine htrue hn st ha ⟨hv.cur, ?_, hv.count, hv.bare⟩
      rintro mode kind ⟨⟩ t pos hread
      exact Lexer.kind_nextTag_of_nextByteIs hscan hread

/-- Between tags, up to the name of the closing tag. -/
theorem runs_children (hc : Calls c call) :
    Runs c n (f.after .child) v (children call) (fun _ => f.after .tag)
      fun _ w => w.cur.context = none := by
  refine Runs.loop (I := fun _ _ => True) trivial fun _ w _ => ?_
  simp only [runs_looks]
  split
  · rename_i hkind
    exact (Runs.nextInAt hkind (.neutral rfl) (by decide)).bind fun _ w _ => Runs.pure rfl trivial
  · rename_i hkind
    exact (runs_childExpression hc hkind).bind fun _ w _ => Runs.pure rfl trivial
  · rename_i hkind
    refine Runs.nextByteIs ?_ ?_
    · refine (Runs.nextInAt (v := { w with after := some (.tag, .slash) }) hkind (.neutral rfl)
        (by decide)).bind fun _ w hw => ?_
      refine (Runs.nextInAt (hw.kind .slash rfl) (.neutral rfl) (by decide)).bind fun _ w hw => ?_
      exact Runs.pure rfl hw.context
    · exact (hc.element (.inr hkind)).bind fun _ w _ => Runs.pure rfl trivial
  · exact Runs.fault
  · exact Runs.unexpected

theorem runs_closingTag {name : Text} (hcontext : v.cur.context = none) :
    Runs c n (f.after .tag) v (closingTag name mode) (fun _ => f.after mode) fun _ _ => True := by
  unfold closingTag
  simp only [runs_looks]
  refine Runs.tokenCount fun i _ _ => ?_
  simp only [runs_looks]
  refine Runs.when (fun _ => runs_elementName hcontext) fun w => ?_
  refine Runs.look (Q := fun _ => True) (fun st _ _ => ⟨_, rfl, trivial⟩) fun text _ => ?_
  refine Runs.ite (fun _ => ?_) fun _ => Runs.faultAt
  exact (Runs.expectIn (.neutral rfl) (fun _ => by decide) (by simp [Frame.after])).any

theorem runs_namedElement (hc : Calls c call) (hcontext : v.cur.context = none) :
    Runs c n (f.after .tag) v (namedElement call mode) (fun _ => f.after mode)
      fun _ _ => True := by
  unfold namedElement
  refine Runs.tokenCount fun i _ _ => ?_
  refine (runs_elementName hcontext).bind fun _ w _ => ?_
  refine Runs.look (Q := fun _ => True) (fun st _ _ => ⟨_, rfl, trivial⟩) fun name _ => ?_
  refine (Runs.repeatIf fun w _ => runs_tagAttribute hc).bind fun _ w hw => ?_
  -- the attributes end at one of two marks
  have hmark : w.cur.kind = .jsxTagEnd ∨ w.cur.kind = .slash := by
    have hmem : [.jsxTagEnd, .slash].contains w.cur.kind = true := (Bool.not_eq_false' _).mp hw
    simpa using List.contains_iff_mem.mp hmem
  simp only [runs_looks]
  refine Runs.ite (fun h => ?_) fun h => ?_
  · refine (Runs.nextInAt (of_decide_eq_true h) (.neutral rfl) (by decide)).bind fun _ w _ => ?_
    exact (Runs.expectIn (.neutral rfl) (fun _ => by decide) (by simp [Frame.after])).any
  · have hkind : w.cur.kind = .jsxTagEnd := hmark.resolve_right fun hk => h (decide_eq_true hk)
    refine (Runs.nextInAt hkind (.neutral rfl) (by decide)).bind fun _ w _ => ?_
    exact (runs_children hc).bind fun _ w hw => runs_closingTag hw

theorem runs_element (hc : Calls c call) {b : Bool}
    (hkind : v.cur.kind = .lessThan ∨ v.cur.kind = .jsxTagStart) :
    Runs c n { frame := f, inTag := b } v (element call mode) (fun _ => f.after mode)
      fun _ _ => True := by
  have hretag : Runs c n { frame := f, inTag := b } v
      (modifyCur fun t => { t with kind := .jsxTagStart }) (fun _ => { frame := f, inTag := b })
      fun _ w => w = { v with cur := { v.cur with kind := .jsxTagStart } } :=
    Runs.step (w := { v with cur := { v.cur with kind := .jsxTagStart } }) (fun h => h)
      (fun _ _ hv => ⟨rfl, .retag (hv.cur ▸ hkind),
        congrArg (fun t : Token => { t with kind := .jsxTagStart }) hv.cur, hv.after, hv.count,
        hv.bare⟩) rfl
  unfold element
  refine hretag.bind fun _ w hw => ?_
  have hstart : w.cur.kind = .jsxTagStart := by rw [hw]
  refine (Runs.nextInAt hstart (.neutral rfl) (by decide)).bind fun _ w hw => ?_
  simp only [runs_looks]
  refine Runs.ite (fun h => ?_) fun _ => runs_namedElement hc hw.context
  refine (Runs.nextInAt (of_decide_eq_true h) (.neutral rfl) (by decide)).bind fun _ w _ => ?_
  refine (runs_children hc).bind fun _ w _ => ?_
  simp only [runs_looks]
  refine Runs.ite (fun h => ?_) fun _ => Runs.fault
  exact (Runs.nextInAt (of_decide_eq_true h) (.neutral rfl) (by decide)).any

/-! ## Members and objects -/

instance [Calls c call] : Takes c n f .questionDot (optionalMember call) f := by
  unfold optionalMember
  refine Takes.bind_shift fun _ _ => Takes.after_cur fun t => ?_
  generalize t.kind = kind
  split <;> infer_instance

instance [Calls c call] {noCall : Bool} : Takes c n f kind (subscripts call noCall) f := by
  unfold subscripts
  refine Takes.of_rounds fun _ _ => Takes.after_cur fun t => ?_
  generalize t.kind = kind
  split <;> infer_instance

theorem IsKey.isNeutral {t : Token} (h : IsKey t) : isNeutral t.kind = true := by
  rcases h with h | h | h | ⟨h, -⟩
  · rw [h]; rfl
  · rw [h]; rfl
  · rw [h]; rfl
  · exact isNeutral_of_isNameLike h

/-- A key is in the context of the braces around it. -/
theorem Runs.nextKey (hkey : IsKey v.cur) :
    Runs c n { frame := f.push (.brace (some id)), mark := .inside id } v Parser.next
      (fun _ => (f.push (.brace (some id))).plain) fun _ _ => True :=
  (Runs.nextIn (g := f.push (.brace (some id))) (.key hkey.isNeutral) (by simp)
    fun _ _ _ => hkey).any

theorem runs_objectKey (hc : Calls c call) :
    Runs c n (f.push (.brace (some id))).plain v (objectKey call id hasModifier)
      (fun _ => (f.push (.brace (some id))).plain) fun _ _ => True := by
  have hsplit : ∀ role : Role,
      (modifyCur fun t => { t with role := some role, context := some id }) =
        (stamp id >>= fun _ => modifyCur fun t => { t with role := some role }) :=
    fun _ => rfl
  unfold objectKey
  simp only [runs_looks]
  refine Runs.ite (fun hkind => ?_) fun _ => Runs.ite (fun h => ?_) fun _ =>
    Runs.ite (fun h => ?_) fun _ => Runs.unexpected
  · exact (Runs.nextAt hkind (.neutral rfl)).bind fun _ w _ => Takes.run
  · have hkey : IsKey (v.stamped id).cur := by
      simp only [Bool.or_eq_true, decide_eq_true_eq, or_assoc] at h
      rcases h with h | h | h
      · exact .inl h
      · exact .inr (.inl h)
      · exact .inr (.inr (.inl h))
    refine Runs.stamp.bind fun _ w hw => ?_
    subst hw
    exact (Runs.nextKey hkey).bind fun _ w _ => Runs.pure rfl trivial
  · refine Runs.peek fun t => ?_
    simp only [hsplit, bind_assoc]
    refine Runs.stamp.bind fun _ w hw => Runs.role.bind fun _ w' hw' => ?_
    have hkey : IsKey w'.cur := by
      rw [hw', hw]
      refine .inr (.inr (.inr ⟨h, ?_⟩))
      simp only [Option.some.injEq]
      split
      · exact .inr rfl
      · exact .inl rfl
    exact (Runs.nextKey hkey).bind fun _ w _ => Runs.pure rfl trivial

instance [hc : Calls c call] :
    Takes c n ((f.push (.brace (some id))).inContext id) kind (objectKey call id hasModifier)
      ((f.push (.brace (some id))).inContext id) :=
  ⟨fun _ _ => runs_objectKey (f := f.inContext id) hc⟩

/-! ## Operands -/

/-- The scope that the head of an arrow function enters stays open. -/
theorem runs_asyncArrowHead (hc : Calls c call) (hp : Passes f v.cur.kind .none f) :
    Runs c n f.plain v (asyncArrowHead call) (fun _ => f.deeper.plain) fun _ _ => True := by
  unfold asyncArrowHead
  exact (Runs.next hp).bind fun _ w _ => Takes.run

instance [Calls c call] : Takes c n f kind (nameOperand call) f := by
  unfold nameOperand
  refine Takes.after_isName ?_ inferInstance
  rw [if_pos rfl]
  refine Takes.after_peek fun after => ?_
  split
  · infer_instance
  · split <;> infer_instance

/-- Where both are allowed, an element is tried before an arrow function. -/
theorem angled_apply_jsx (hjsx : c.jsx = true) (st : State) :
    angled call c st =
      match call (.element .normal) c st with
      | .ok _ st' => .ok false st'
      | .error e st' =>
        if (c.hasTypes && !e.isFatal) = true then
          match attempt (genericArrow call) c (st'.restore st.snapshot) with
          | .ok b st'' => if b = true then .ok true st'' else .error e st''
          | .error e' st'' => .error e' st''
        else .error e st' := by
  unfold angled
  rw [Parser.bind_apply]
  change (if c.jsx = true then _ else _ : Parser Bool) c st = _
  rw [if_pos hjsx, Parser.bind_apply]
  change (tryCatch _ _ >>= _ : Parser Bool) c st = _
  rw [Parser.bind_apply, Parser.tryCatch_apply, Parser.bind_apply]
  cases call (.element .normal) c st with
  | ok a st' => rfl
  | error e st' =>
    have htypes : hasTypes c st' = .ok c.hasTypes st' := rfl
    have hback : restore st.snapshot c st' = .ok () (st'.restore st.snapshot) := rfl
    simp only
    rw [Parser.bind_apply, htypes]
    simp only
    by_cases h : (c.hasTypes && !e.isFatal) = true
    · rw [if_pos h, if_pos h, Parser.bind_apply, hback]
      simp only
      rw [Parser.bind_apply]
      cases attempt (genericArrow call) c (st'.restore st.snapshot) with
      | ok b st'' => cases b <;> rfl
      | error e' st'' => rfl
    · rw [if_neg h, if_neg h]
      rfl

theorem angled_apply_plain (hjsx : ¬c.jsx = true) (st : State) :
    angled call c st = (do
      if ← hasTypes then
        genericArrow call
        return true
      else unexpected : Parser Bool) c st := by
  change (if c.jsx = true then _ else _ : Parser Bool) c st = _
  rw [if_neg hjsx]

/-- An arrow function is tried where an element did not go through, and where there are none. -/
theorem Results.angled {st : State} {Q : Bool → State → Prop} {E F : Error → State → Prop}
    (helement : c.jsx = true → Results c (call (.element .normal)) st (fun _ => Q false) F)
    (harrow : ∀ e st', c.hasTypes = true → F e st' →
      Results c (Parser.attempt (genericArrow call)) (st'.restore st.snapshot)
        (fun b st'' => if b then Q true st'' else E e st'') E)
    (hE : ∀ e st', F e st' → E e st')
    (hplain : ¬c.jsx = true → Results c (do
      if ← hasTypes then
        genericArrow call
        return true
      else unexpected) st Q E) : Results c (angled call) st Q E := by
  unfold Results at *
  by_cases hjsx : c.jsx = true
  · have helement := helement hjsx
    rw [angled_apply_jsx hjsx]
    cases hrun : call (.element .normal) c st with
    | ok a st' =>
      rw [hrun] at helement
      exact helement
    | error e st' =>
      rw [hrun] at helement
      dsimp only
      by_cases hagain : (c.hasTypes && !e.isFatal) = true
      · have harrow := harrow e st' (Bool.and_eq_true_iff.mp hagain).1 helement
        rw [if_pos hagain]
        cases hattempt : Parser.attempt (genericArrow call) c (st'.restore st.snapshot) with
        | error e' st'' =>
          rw [hattempt] at harrow
          exact harrow
        | ok b st'' =>
          rw [hattempt] at harrow
          cases b <;> exact harrow
      · rw [if_neg hagain]
        exact hE e st' helement
  · rw [angled_apply_plain hjsx]
    exact hplain hjsx

theorem keeps_angled (hc : Calls c call) : KeepsAt c .lessThan (angled call) := by
  intro n f v hkind hn st ha hv
  have hm : n ≤ st.tokens.size := Nat.le_trans hn hv.count
  have helement : Runs c st.tokens.size f.plain { v with count := st.tokens.size }
      (call (.element .normal)) (fun _ => f.plain) fun _ _ => True := hc.element (.inl hkind)
  refine Results.angled (F := fun _ st' => Kept st.tokens.size st st') (fun _ => ?_)
    (fun e st' _ hkept => ?_) (fun _ _ hkept => hkept.mono hm) fun _ => ?_
  · refine Results.weaken (helement (Nat.le_refl _) st ha ⟨hv.cur, hv.after, Nat.le_refl _, hv.bare⟩)
      (fun _ st' ⟨hsteps, w, hw, hsees, _⟩ => ?_) fun _ _ h => h
    exact ⟨hsteps.mono hm, w, Nat.le_trans hm hw, hsees, trivial⟩
  · rw [hkept.restore_snapshot]
    refine Results.weaken (Runs.attemptKeeping (fun _ _ => (keeps_genericArrow hc).run) hn st ha hv)
      (fun b _ ⟨hsteps, w, hw, hsees, _⟩ => ?_) fun _ _ h => h
    cases b with
    | true => exact ⟨hsteps, w, hw, hsees, trivial⟩
    | false => exact hsteps.kept hm
  · exact Takes.run hn st ha hv

instance [hc : Calls c call] : Takes c n f .lessThan (angled call) f :=
  ⟨keeps_angled hc n f⟩

/-- A slash is read again as a regular expression. -/
theorem Runs.rereadRegex (h : (v.cur.text c.source).head? = some '/') :
    Runs c n f.plain v rereadRegex (fun _ => f.plain) fun _ w => w.cur.kind = .regex := by
  intro hn st ha hv
  rw [rereadRegex_apply]
  cases hread : Lexer.regex st.cur.start c.source st.pos with
  | error failure pos => exact Kept.of_tokens_eq (Nat.le_trans hn hv.count) rfl
  | ok token pos =>
    have htoken : token.kind = .regex := by
      obtain ⟨cs, -, -, ht⟩ := Lexer.exists_of_regex hread
      rw [ht]
    exact ⟨.single (.regex (hv.cur ▸ h) hread), ⟨_, none, v.count, none⟩, hn,
      ⟨rfl, by simp, hv.count, by simp⟩, htoken⟩

instance [Calls c call] : Takes c n f kind (operand call) f where
  runs v _ := by
    have hregex : Runs c n f.plain v (do
        if (← textOf v.cur).head? = some '/' then
          rereadRegex
          next
          return false
        else unexpected) (fun _ => f.plain) fun _ _ => True := by
      simp only [runs_looks]
      refine Runs.ite (fun h => ?_) fun _ => Runs.unexpected
      refine (Runs.rereadRegex h).bind fun _ w hw => ?_
      exact (Runs.nextAt hw (.neutral rfl)).thenPure
    unfold operand
    simp only [runs_looks]
    split <;> rename_i hkind
    case h_12 | h_13 => exact hregex
    case h_24 => exact Runs.unexpected
    all_goals exact Takes.runs v hkind

end Downlevel.Grammar
