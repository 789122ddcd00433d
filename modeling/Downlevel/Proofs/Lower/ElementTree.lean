import Downlevel.Proofs.Grammar.ElementTree
import Downlevel.Proofs.Lower.Declines
import Downlevel.Proofs.Markup.Literal

/-!
# Lowering a tree of elements

A tree that is written with tags is lowered to the calls that stand for it.
-/

namespace Downlevel

/-- With some tokens passed and a text written for them. -/
def Work.passed (w : Work) (n : Nat) (t : Text) : Work :=
  (w.write t).moveTo (w.index + n)

@[simp] theorem Work.index_passed (w : Work) (n : Nat) (t : Text) :
    (w.passed n t).index = w.index + n := rfl

@[simp] theorem Work.passed_passed (w : Work) (m n : Nat) (s t : Text) :
    (w.passed m s).passed n t = w.passed (m + n) (s ++ t) := by
  simp [passed, moveTo, write, index, Nat.add_assoc]

theorem Work.passed_zero (w : Work) : w.passed 0 [] = w := by
  simp [passed, moveTo, write, index]

namespace Lower

open Markup

/-- The plan under which elements are all that is lowered. -/
def elementPlan (all : List Piece) : Plan :=
  { program := .ofPieces all, options := { transforms := [.jsx] } }

@[simp] theorem program_elementPlan (all : List Piece) : (elementPlan all).program = .ofPieces all :=
  rfl

@[simp] theorem bindings_elementPlan (all : List Piece) : (elementPlan all).bindings = none := rfl

section

variable {α σ : Type} {plan : Plan} {p : Lower α} {a : α} {w w' : Work} {Q : α → Work → Prop}
  {E : Error → Prop}

theorem eq_of_ends (h : Ends plan p w (fun b w₁ => b = a ∧ w₁ = w') fun _ => False) :
    p plan w = .ok a w' := by
  unfold Ends at h
  cases hp : p plan w with
  | error e w₁ => simp [hp] at h
  | ok b w₁ =>
    rw [hp] at h
    rw [h.1, h.2]

variable {step : σ → Lower (ForInStep σ)} {stalled : Lower σ} {s s' : σ} {n : Nat}
  {body : Lower Unit}

theorem iterate_of_done (h : step s plan w = .ok (.done s') w') :
    iterate stalled step (n + 1) s plan w = .ok s' w' := by
  rw [iterate, bind_apply, h]
  rfl

theorem iterate_of_yield (h : step s plan w = .ok (.yield s') w') :
    iterate stalled step (n + 1) s plan w = iterate stalled step n s' plan w' := by
  rw [iterate, bind_apply, h]

/-- A loop that is done in its second round. -/
theorem loop_of_yield_done {s'' : σ} {w'' : Work} (h : step s plan w = .ok (.yield s') w')
    (h' : step s' plan w' = .ok (.done s'') w'') : loop s step plan w = .ok s'' w'' :=
  (iterate_of_yield h).trans (iterate_of_done h')

theorem repeatTo_of_index_eq {stop : Nat} (hstop : stop ≤ plan.program.count)
    (h : w.index = stop) : repeatTo stop body plan w = .ok () w := by
  refine eq_of_ends (Ends.repeatWhile (· = w) ?_ rfl)
  rintro _ rfl
  refine ⟨h ▸ hstop, ?_⟩
  rw [ends_bind, ends_index, ends_pure, if_neg (by simp [h])]
  exact ⟨rfl, rfl⟩

/-- One step goes as far as is asked for. -/
theorem repeatTo_of_eq {stop : Nat} (hstop : stop ≤ plan.program.count)
    (hbody : body plan w = .ok () w') (h : w'.index = stop) (hlt : w.index < stop) :
    repeatTo stop body plan w = .ok () w' := by
  refine eq_of_ends (Ends.repeatWhile (fun w₁ => w₁ = w ∨ w₁ = w') ?_ (.inl rfl))
  rintro _ (rfl | rfl)
  · refine ⟨Nat.le_trans (Nat.le_of_lt hlt) hstop, ?_⟩
    rw [ends_bind, ends_index, ends_pure, if_pos (decide_eq_true hlt), ends_of_eq hbody]
    exact ⟨.inr rfl, h ▸ hlt⟩
  · refine ⟨h ▸ hstop, ?_⟩
    rw [ends_bind, ends_index, ends_pure, if_neg (by simp [h])]
    exact ⟨rfl, rfl⟩

end

/-! ## Steps on known pieces -/

section

variable {all ps : List Piece} {q : Piece} {w : Work} {Q : Unit → Work → Prop} {E : Error → Prop}
  (hshebang : Text.shebangSize (spell all) = 0) (h : StandAt all w.index (q :: ps))
include h

omit h in
theorem ends_append_passed {t : Text} :
    Ends (elementPlan all) (append t) w Q E ↔ Q () (w.passed 0 t) := Iff.rfl

include hshebang

theorem ends_replace_passed {t : Text} :
    Ends (elementPlan all) (replace t) w Q E ↔ Q () (w.passed 1 (q.gap ++ t)) := by
  rw [ends_replace, program_elementPlan, if_pos h.lt_count, h.gapBefore hshebang]
  rfl

theorem ends_copy_passed (hkind : q.kind ≠ .eof) :
    Ends (elementPlan all) copy w Q E ↔ Q () (w.passed 1 q.text) := by
  rw [ends_copy, program_elementPlan, if_pos h.lt_count, Work.copyNext, h.gapBefore hshebang, h.textAt hkind]
  rfl

end

/-! ## One token -/

section

variable {all ps : List Piece} {q : Piece} {w : Work} {d : Nat} {Q : Unit → Work → Prop}
  {E : Error → Prop} (h : StandAt all w.index (q :: ps))
include h

/-- The rules for a token of a tree. -/
theorem ends_elementToken (hkind : q.kind ≠ .kwClass) :
    Ends (elementPlan all) (tokenWithin (d + 1)) w Q E ↔ Ends (elementPlan all)
      (firstOf [elementRule (tokenWithin d), componentRule (tokenWithin d), numericSeparators,
        catchBinding]) w Q E := by
  have hclass : ((Program.ofPieces all).tokenAt w.index).kind ≠ .kwClass := by
    rw [← h.kindAt] at hkind
    exact hkind
  change Ends _ (tokenStep _) _ _ _ ↔ _
  unfold tokenStep
  rw [ends_bind, ends_cur, program_elementPlan, if_neg (by simp [hclass])]
  rfl

/-- A name and a semicolon are copied, unless the name makes a component. -/
theorem tokenWithin_copies (hshebang : Text.shebangSize (spell all) = 0)
    (hkind : q.kind ∈ [.jsxName, .semi, .name])
    (hcomponent : Declines (elementPlan all) w (componentRule (tokenWithin d))) :
    tokenWithin (d + 1) (elementPlan all) w = .ok () (w.passed 1 q.text) := by
  have hne : q.kind ∉ [.kwClass, .jsxTagStart, .num, .bigInt, .kwCatch, .eof] := by
    simp only [List.mem_cons, List.not_mem_nil, or_false] at hkind
    rcases hkind with hk | hk | hk <;> rw [hk] <;> decide
  simp only [List.mem_cons, List.not_mem_nil, or_false, not_or] at hne
  obtain ⟨hclass, htag, hnum, hbig, hcatch, heof⟩ := hne
  refine eq_of_ends ((ends_elementToken h hclass).mpr ?_)
  have hkindAt : (elementPlan all).program.kindAt w.index = q.kind := h.kindAt
  rw [← hkindAt] at htag hnum hbig hcatch
  refine (declines_elementRule htag).ends_firstOf (hcomponent.ends_firstOf ?_)
  refine (declines_numericSeparators fun hk => (hk.elim hnum hbig).elim).ends_firstOf ?_
  refine (declines_catchBinding ?_).ends_firstOf ?_
  · rw [Program.matchesAt, beq_eq_false_iff_ne.mpr hcatch, Bool.false_and]
  · exact (ends_copy_passed hshebang h heof).mpr ⟨rfl, rfl⟩

end

theorem nameComponent_of_none {token : Lower Unit} {plan : Plan} {w : Work} {start : Nat}
    (h : displayName? plan.program plan.options.filePath start = none) :
    nameComponent token start plan w = .ok () w := by
  refine eq_of_ends ?_
  unfold nameComponent
  simp [h]

@[simp] theorem ends_replacement? {plan : Plan} {w : Work} {name : Text} {Q : Option Text → Work → Prop}
    {E : Error → Prop} :
    Ends plan (replacement? name) w Q E ↔ Q (plan.bindings.bind (·.replacement? name)) w := Iff.rfl

theorem role_tokenAt {all : List Piece} (hroles : ∀ q ∈ all, q.role ≠ some .key) (i : Nat) :
    ((Program.ofPieces all).tokenAt i).role ≠ some .key := by
  by_cases hi : i < all.length
  · have hall : all = all.take i ++ all[i] :: all.drop (i + 1) := by simp
    have htoken := Program.tokenAt_ofPieces hall
    rw [List.length_take, Nat.min_eq_left (Nat.le_of_lt hi)] at htoken
    rw [htoken]
    exact hroles _ (List.getElem_mem hi)
  · rw [Program.tokenAt_of_le (by rw [Program.count_ofPieces]; omega)]
    nofun

section

variable {all ps : List Piece} {w : Work} {d : Nat}
  (hshebang : Text.shebangSize (spell all) = 0) (hroles : ∀ q ∈ all, q.role ≠ some .key)
include hshebang hroles

/-- A variable in braces is copied; also one that makes a component gets no name there. -/
theorem tokenWithin_variable (d : Nat) (x : Variable)
    (h : StandAt all w.index (x.piece :: braceR :: ps))
    (hbefore : (Program.ofPieces all).kindAt (w.index - 1) = .braceL) :
    tokenWithin (d + 1) (elementPlan all) w = .ok () (w.passed 1 x.text) := by
  have hname : (Program.ofPieces all).nameAt w.index = x.text := by
    rw [Program.nameAt, h.textAt (by simp)]
    exact x.toWord.decode_text
  have hkindAt := h.kindAt
  have hnone : displayName? (.ofPieces all) none w.index = none := by
    unfold displayName?
    split
    · rfl
    · have hindex : w.index - 2 + 1 = w.index - 1 := by omega
      simp [Program.matchesAt, hindex, hbefore, role_tokenAt hroles]
  by_cases hcomponent : x.text = "createReactClass".toList
  · have hcopy : componentRule (tokenWithin d) (elementPlan all) w = .ok true (w.passed 1 x.text) := by
      refine eq_of_ends ?_
      unfold componentRule
      rw [ends_bind, ends_program, ends_bind, ends_index, program_elementPlan, hkindAt, h.isTypeAt,
        if_pos (by simp), hname, if_pos hcomponent]
      simp only [ends_bind, ends_replacement?, bindings_elementPlan, Option.bind_none]
      have hunnamed : nameComponent (tokenWithin d) w.index (elementPlan all) (w.passed 1 x.text)
          = .ok () (w.passed 1 x.text) := nameComponent_of_none hnone
      rw [ends_copy_passed hshebang h (by simp), show x.piece.text = x.text from rfl, ends_of_eq hunnamed]
      exact ⟨rfl, rfl⟩
    refine eq_of_ends ?_
    rw [ends_elementToken h (by simp)]
    refine (declines_elementRule (by rw [program_elementPlan, hkindAt]; simp)).ends_firstOf ?_
    rw [firstOf, ends_bind, ends_of_eq hcopy]
    exact ⟨rfl, rfl⟩
  · have hmatch : (Program.ofPieces all).matchesAt w.index [.name, .dot, .name] = false := by
      simp [Program.matchesAt, h.tail.kindAt]
    refine tokenWithin_copies h hshebang (by simp) (declines_componentRule fun _ _ => ⟨?_, ?_⟩)
    · rw [program_elementPlan, hname]
      exact hcomponent
    · simp [hmatch]

end

/-! ## Attributes -/

section

variable {all ps : List Piece} {q : Piece} {w : Work}
  (hshebang : Text.shebangSize (spell all) = 0)
include hshebang

omit hshebang in
/-- What stands behind an attribute. -/
theorem exists_aheadOf (as : List Attribute) (ps : List Piece) :
    ∃ ps', as.flatMap Attribute.pieces ++ ending :: ps = aheadOf as :: ps'
      ∧ ((aheadOf as).kind = .jsxName ∨ (aheadOf as).kind = .jsxTagEnd) := by
  cases as with
  | nil => exact ⟨ps, rfl, .inr rfl⟩
  | cons a as => exact ⟨_, rfl, .inl rfl⟩

theorem propertyKey_attribute (a : Attribute) (h : StandAt all w.index (a.namePiece :: q :: ps))
    (hkind : q.kind ≠ .colon) :
    propertyKey (elementPlan all) w = .ok () (w.passed 1 (' ' :: a.name.text)) := by
  have hmatch : (Program.ofPieces all).matchesAt w.index [.jsxName, .colon, .jsxName] = false := by
    simp [Program.matchesAt, h.tail.kindAt, hkind]
  have hname : (Program.ofPieces all).nameAt w.index = a.name.text := by
    rw [Program.nameAt, h.textAt (by simp)]
    exact a.name.decode_text
  have hdash : a.name.text.contains '-' = false := by
    rw [Bool.eq_false_iff, ne_eq, List.contains_iff_mem]
    intro hmem
    exact absurd (a.name.letters _ hmem) (by decide)
  refine eq_of_ends ?_
  unfold propertyKey
  rw [ends_bind, ends_program, ends_bind, ends_index, program_elementPlan, hmatch, if_neg (by simp), hname]
  dsimp only
  rw [hdash, if_neg (by simp), ends_copy_passed hshebang h (by simp)]
  exact ⟨rfl, rfl⟩

theorem propertyValue_quoted (token : Lower Unit) (v : Value)
    (h : StandAt all w.index (v.pieces ++ ps)) :
    propertyValue token (elementPlan all) w = .ok () (w.passed 2 (": \"".toList ++ v.text ++ "\"".toList)) := by
  have htext : (Program.ofPieces all).textAt (w.index + 1) = v.piece.body :=
    StandAt.textAt (StandAt.tail h) (by simp)
  have hbody : v.piece.body.tail.dropLast = v.text := by simp [Value.piece]
  have hstring : (Program.ofPieces all).kindAt (w.index + 1) = .string := StandAt.kindAt (StandAt.tail h)
  have hplain : IsPlain v.text := v.plain
  have hnext : StandAt all (w.passed 1 ([] ++ ": ".toList)).index (v.piece :: ps) := StandAt.tail h
  refine eq_of_ends ?_
  unfold propertyValue quotedProperty
  rw [ends_bind, ends_is, program_elementPlan, StandAt.kindAt h, if_pos (by simp), ends_bind,
    ends_replace_passed hshebang h, ends_bind, ends_is, program_elementPlan, Work.index_passed, hstring,
    if_neg (by simp), ends_bind, ends_is, program_elementPlan, Work.index_passed, hstring, if_neg (by simp),
    ends_bind, ends_curText, program_elementPlan, Work.index_passed, htext, hbody]
  dsimp only
  rw [hplain.attributeLiteral, hplain.layout, ends_replace_passed hshebang hnext, Work.passed_passed]
  exact ⟨rfl, by simp [Value.piece]⟩

/-- An attribute becomes a property. -/
theorem attribute_lowers {ρ : Type} (token : Lower Unit) (a : Attribute) (r : ρ)
    (h : StandAt all w.index (a.pieces ++ q :: ps)) (hkind : q.kind = .jsxName ∨ q.kind = .jsxTagEnd) :
    (do propertyKey; propertyValue token; append ",".toList; return r : Lower ρ) (elementPlan all) w
      = .ok r (w.passed a.pieces.length a.render) := by
  refine eq_of_ends ?_
  unfold Attribute.pieces Attribute.render at *
  cases hvalue : a.value with
  | none =>
    rw [hvalue] at h
    change StandAt all w.index (a.namePiece :: q :: ps) at h
    have hnone : propertyValue token (elementPlan all) (w.passed 1 (' ' :: a.name.text))
        = .ok () ((w.passed 1 (' ' :: a.name.text)).passed 0 ": true".toList) := by
      refine eq_of_ends ?_
      unfold propertyValue
      rw [ends_bind, ends_is, program_elementPlan, Work.index_passed, h.tail.kindAt,
        if_neg (by rcases hkind with hk | hk <;> simp [hk]), ends_append]
      exact ⟨rfl, rfl⟩
    rw [ends_bind, ends_of_eq (propertyKey_attribute hshebang a h (by rcases hkind with hk | hk <;> simp [hk])),
      ends_bind, ends_of_eq hnone, ends_bind, ends_append_passed]
    simp
  | some v =>
    rw [hvalue] at h
    have hvalue := propertyValue_quoted hshebang token v (w := w.passed 1 (' ' :: a.name.text))
      (StandAt.tail h)
    rw [ends_bind, ends_of_eq (propertyKey_attribute hshebang a h (by simp)),
      ends_bind, ends_of_eq hvalue, ends_bind, ends_append_passed]
    simp [Value.pieces]

omit hshebang in
/-- A loop that lowers one attribute each time lowers them all. -/
theorem loop_attributes {step : Unit → Lower (ForInStep Unit)}
    (hattribute : ∀ (a : Attribute) (w : Work) (q : Piece) (ps : List Piece),
      StandAt all w.index (a.pieces ++ q :: ps) → q.kind = .jsxName ∨ q.kind = .jsxTagEnd →
      step () (elementPlan all) w = .ok (.yield ()) (w.passed a.pieces.length a.render))
    (hending : ∀ (w : Work) (ps : List Piece), StandAt all w.index (ending :: ps) →
      step () (elementPlan all) w = .ok (.done ()) w)
    (as : List Attribute) (w : Work)
    (h : StandAt all w.index (as.flatMap Attribute.pieces ++ ending :: ps)) :
    loop () step (elementPlan all) w
      = .ok () (w.passed (as.flatMap Attribute.pieces).length (as.flatMap Attribute.render)) := by
  have hcount : (as.flatMap Attribute.pieces).length < (Program.ofPieces all).count + 2 := by
    have := h.add_length
    rw [List.length_append] at this
    omega
  change iterate (breach .noProgress) step ((Program.ofPieces all).count + 2) () (elementPlan all) w = _
  generalize (Program.ofPieces all).count + 2 = n at hcount
  induction as generalizing w n with
  | nil =>
    obtain ⟨n, rfl⟩ := Nat.exists_eq_add_one.mpr (Nat.zero_lt_of_lt hcount)
    rw [iterate_of_done (hending w ps h)]
    exact congrArg _ (Work.passed_zero w).symm
  | cons a as ih =>
    obtain ⟨ps', hps, hkind⟩ := exists_aheadOf as ps
    have hpos : 0 < a.pieces.length := Nat.zero_lt_succ _
    rw [List.flatMap_cons, List.append_assoc] at h
    rw [List.flatMap_cons, List.length_append] at hcount
    obtain ⟨n, rfl⟩ := Nat.exists_eq_add_one.mpr (Nat.zero_lt_of_lt hcount)
    rw [iterate_of_yield (hattribute a w _ _ (hps ▸ h) hkind),
      ih (w.passed a.pieces.length a.render) h.drop n (by omega)]
    simp

/-- The attributes of an element become one argument. -/
theorem properties_lowers (token : Lower Unit) (as : List Attribute) (start : Nat)
    (h : StandAt all w.index (as.flatMap Attribute.pieces ++ ending :: ps)) :
    properties token start (elementPlan all) w
      = .ok () (w.passed (as.flatMap Attribute.pieces).length (renderAttributes as)) := by
  have hdebug : debugProperties start (elementPlan all) w = .ok none w := rfl
  refine eq_of_ends ?_
  unfold properties
  rw [ends_bind, ends_of_eq hdebug, ends_bind, ends_is, ends_bind, ends_is]
  cases as with
  | nil =>
    rw [program_elementPlan, StandAt.kindAt h, if_neg (by simp)]
    exact ⟨rfl, rfl⟩
  | cons a as =>
    rw [program_elementPlan, StandAt.kindAt h, if_pos (by simp), ends_bind, ends_append_passed, ends_bind]
    refine (ends_of_eq (loop_attributes ?_ ?_ (a :: as) (w.passed 0 ", \x7b".toList) h)).mpr ?_
    · intro a w q ps h hkind
      refine eq_of_ends ?_
      rw [ends_bind, ends_is, program_elementPlan, StandAt.kindAt h, if_pos (by simp)]
      exact (ends_of_eq (attribute_lowers hshebang token a (ForInStep.yield ()) h hkind)).mpr ⟨rfl, rfl⟩
    · intro w ps h
      refine eq_of_ends ?_
      rw [ends_bind, ends_is, program_elementPlan, h.kindAt, if_neg (by simp), ends_bind, ends_is,
        program_elementPlan, h.kindAt, if_neg (by simp)]
      exact ⟨rfl, rfl⟩
    · rw [ends_append_passed, Work.passed_passed, Work.passed_passed, Nat.zero_add]
      exact ⟨rfl, rfl⟩

end

/-! ## Tags -/

section

variable {all ps : List Piece} {q : Piece} {w : Work}
  (hshebang : Text.shebangSize (spell all) = 0)
include hshebang

/-- The closing tag of an element becomes the end of the call. -/
theorem closingTag_lowers (name : Word) (h : StandAt all w.index (closing name ++ ps)) :
    closingTag (elementPlan all) w = .ok () (w.passed 4 ")".toList) := by
  have hends : StandAt all (w.passed 3 []).index (ending :: ps) := h.tail.tail.tail
  -- up to the bracket that ends the tag nothing is written
  have hpiece (n : Nat) (hn : n < 3) : ∃ q ps', StandAt all (w.passed n []).index (q :: ps')
      ∧ q.gap = [] ∧ q.kind ≠ .jsxTagEnd := by
    match n, hn with
    | 0, _ => exact ⟨_, _, h, rfl, by simp⟩
    | 1, _ => exact ⟨_, _, h.tail, rfl, by simp⟩
    | 2, _ => exact ⟨_, _, h.tail.tail, rfl, by simp⟩
  refine eq_of_ends ?_
  unfold closingTag
  rw [ends_bind]
  refine Ends.repeatWhile (fun w' => ∃ n, n ≤ 3 ∧ w' = w.passed n []) ?_ ⟨0, Nat.zero_le 3, w.passed_zero.symm⟩
  rintro _ ⟨n, hn, rfl⟩
  obtain rfl | hlt := Nat.eq_or_lt_of_le hn
  · refine ⟨Nat.le_of_lt hends.lt_count, ?_⟩
    rw [ends_bind, ends_is, program_elementPlan, hends.kindAt, ends_pure, if_neg (by simp),
      ends_replace_passed hshebang hends]
    exact ⟨rfl, Work.passed_passed ..⟩
  · obtain ⟨q, ps', hq, hgap, hkind⟩ := hpiece n hlt
    refine ⟨Nat.le_of_lt hq.lt_count, ?_⟩
    rw [ends_bind, ends_is, program_elementPlan, hq.kindAt, ends_pure, if_pos (by simpa using hkind),
      ends_bind, ends_atEnd, program_elementPlan, decide_eq_false (Nat.not_le_of_lt hq.lt_count), if_neg Bool.false_ne_true,
      ends_replace_passed hshebang hq]
    refine ⟨⟨n + 1, hlt, ?_⟩, Nat.lt_succ_self _⟩
    rw [Work.passed_passed, hgap]
    rfl

omit hshebang in
/-- Behind one word the name of an element has ended. -/
theorem elementNameEnd_word {i : Nat} (name : Word) (h : StandAt all i (name.piece :: q :: ps))
    (hkind : q.kind = .jsxName ∨ q.kind = .jsxTagEnd) : elementNameEnd (.ofPieces all) (i + 1) = i + 1 := by
  obtain ⟨n, hn⟩ := Nat.exists_eq_add_of_lt h.tail.lt_count
  have hstop : (Program.ofPieces all).count - (i + 1) = n + 1 := by omega
  unfold elementNameEnd Program.seek
  rw [hstop, Program.search, if_pos]
  rcases hkind with hk | hk <;>
    simp [Program.matchesAt, h.kindAt, h.tail.kindAt, h.tail.isTypeAt, hk]

/-- The name of an element becomes a string if it starts in lower case, and is copied if not. -/
theorem elementName_lowers (name : Word) {d : Nat} (h : StandAt all w.index (name.piece :: q :: ps))
    (hkind : q.kind = .jsxName ∨ q.kind = .jsxTagEnd) :
    elementName (tokenWithin (d + 1)) (elementPlan all) w = .ok () (w.passed 1 name.render) := by
  have hname : (Program.ofPieces all).nameAt w.index = name.text := by
    rw [Program.nameAt, h.textAt (by simp)]
    exact name.decode_text
  have hcount := h.tail.lt_count
  refine eq_of_ends ?_
  unfold elementName
  rw [ends_bind, ends_program, ends_bind, ends_index, program_elementPlan]
  dsimp only
  rw [elementNameEnd_word name h hkind, if_neg (by omega), if_pos rfl, hname]
  unfold Word.render
  split
  · have hdone : repeatTo (w.index + 1) (tokenWithin (d + 1)) (elementPlan all)
        (w.passed 1 (singleQuoted name.text)) = .ok () (w.passed 1 (singleQuoted name.text)) :=
      repeatTo_of_index_eq (Nat.le_of_lt hcount) (Work.index_passed ..)
    rw [ends_bind, ends_replace_passed hshebang h, show name.piece.gap = [] from rfl, List.nil_append,
      ends_of_eq hdone]
    exact ⟨rfl, rfl⟩
  · have htoken : tokenWithin (d + 1) (elementPlan all) w = .ok () (w.passed 1 name.text) :=
      tokenWithin_copies h hshebang (by simp) (declines_componentRule fun hk => by
        rw [program_elementPlan, h.kindAt] at hk
        cases hk)
    have hdone := repeatTo_of_eq (Nat.le_of_lt hcount) htoken (Work.index_passed ..) (Nat.lt_succ_self _)
    exact (ends_of_eq hdone).mpr ⟨rfl, rfl⟩

end

/-! ## Children -/

section

variable {all ps : List Piece} {w : Work} {d : Nat}
  (hshebang : Text.shebangSize (spell all) = 0) (hroles : ∀ q ∈ all, q.role ≠ some .key)

/-- What one round of the loop over the children of an element does. -/
structure ChildStep (all : List Piece) (token : Lower Unit) (step : Unit → Lower (ForInStep Unit)) :
    Prop where
  closing {w : Work} {ps : List Piece} (h : StandAt all w.index (opening :: slash :: ps)) :
    step () (elementPlan all) w = .ok (.done ()) w
  braces {w : Work} {x : Variable} {ps : List Piece}
    (h : StandAt all w.index (braceL :: x.piece :: braceR :: ps)) :
    step () (elementPlan all) w = .ok (.yield ()) (w.passed 3 (", ".toList ++ x.text))
  text {w : Work} {t : Content} {ps : List Piece} (h : StandAt all w.index (t.piece :: ps)) :
    step () (elementPlan all) w
      = .ok (.yield ()) (w.passed 1 (", \"".toList ++ t.text ++ "\"".toList))
  element {w w' : Work} {e : Element} {ps : List Piece} (h : StandAt all w.index (e.pieces ++ ps))
    (htoken : token (elementPlan all) (w.passed 0 ", ".toList) = .ok () w') :
    step () (elementPlan all) w = .ok (.yield ()) w'

include hshebang hroles

theorem balanced_variable (d : Nat) (x : Variable)
    (h : StandAt all w.index (x.piece :: braceR :: ps))
    (hbefore : (Program.ofPieces all).kindAt (w.index - 1) = .braceL) :
    balanced (tokenWithin (d + 1)) (elementPlan all) w = .ok () (w.passed 1 x.text) := by
  have htoken := tokenWithin_variable hshebang hroles d x h hbefore
  have hname : ((Program.ofPieces all).tokenAt w.index).kind = .name := h.kindAt
  have hbrace : ((Program.ofPieces all).tokenAt (w.index + 1)).kind = .braceR := h.tail.kindAt
  refine eq_of_ends ?_
  unfold balanced
  rw [ends_bind]
  have hloop {step : Nat × Nat → Lower (ForInStep (Nat × Nat))}
      (hyield : step (0, 0) (elementPlan all) w = .ok (.yield (0, 0)) (w.passed 1 x.text))
      (hdone : step (0, 0) (elementPlan all) (w.passed 1 x.text)
        = .ok (.done (0, 0)) (w.passed 1 x.text)) := loop_of_yield_done hyield hdone
  refine (ends_of_eq (hloop ?_ ?_)).mpr ⟨rfl, rfl⟩
  · refine eq_of_ends ?_
    simp [hname, Nat.not_le.mpr h.lt_count, ends_of_eq htoken]
  · refine eq_of_ends ?_
    simp [hbrace, Nat.not_le.mpr h.tail.lt_count]

theorem exists_childStep (d : Nat) :
    ∃ step, children (tokenWithin (d + 1)) = loop () step ∧ ChildStep all (tokenWithin (d + 1)) step := by
  refine ⟨_, rfl, ?_, ?_, ?_, ?_⟩
  · intro w ps h
    refine eq_of_ends ?_
    rw [ends_bind, ends_comes, program_elementPlan,
      if_pos (by simp [Program.matchesAt, h.kindAt, h.tail.kindAt])]
    exact ⟨rfl, rfl⟩
  · intro w x ps h
    have hbalanced := balanced_variable hshebang hroles d x (w := w.passed 1 ", ".toList) h.tail h.kindAt
    have hclose : StandAt all ((w.passed 1 ", ".toList).passed 1 x.text).index (braceR :: ps) := h.tail.tail
    refine eq_of_ends ?_
    rw [ends_bind, ends_comes, program_elementPlan, if_neg (by simp [Program.matchesAt, h.kindAt]),
      ends_bind, ends_comes, program_elementPlan,
      if_neg (by simp [Program.matchesAt, h.kindAt, h.tail.kindAt]),
      ends_bind, ends_is, program_elementPlan, h.kindAt, if_pos (by simp),
      ends_bind, ends_replace_passed hshebang h, ends_bind]
    refine (ends_of_eq hbalanced).mpr ?_
    rw [ends_bind, ends_replace_passed hshebang hclose]
    simp [braceR]
  · intro w t ps h
    have hplain : IsPlain t.text := fun c hc => (t.plain c hc).imp_right .inl
    have hne : ('\x22' :: t.text ++ ['\x22']) ≠ "\"\"".toList := by
      simpa using t.ne_nil
    refine eq_of_ends ?_
    unfold childText
    rw [ends_bind, ends_comes, program_elementPlan, if_neg (by simp [Program.matchesAt, h.kindAt]),
      ends_bind, ends_comes, program_elementPlan, if_neg (by simp [Program.matchesAt, h.kindAt]),
      ends_bind, ends_is, program_elementPlan, h.kindAt, if_neg (by simp), ends_bind, ends_is,
      program_elementPlan, h.kindAt, if_neg (by simp), ends_bind, ends_is, program_elementPlan, h.kindAt,
      if_pos (by simp), ends_bind, ends_bind, ends_curText, program_elementPlan, h.textAt (by simp)]
    dsimp only
    rw [show t.piece.body = t.text from rfl, hplain.textLiteral, if_neg hne, hplain.layout,
      ends_replace_passed hshebang h]
    simp [Content.piece]
  · intro w w' e ps h htoken
    obtain ⟨name, qs, hpieces⟩ := e.exists_pieces
    rw [hpieces] at h
    have hopen : (Program.ofPieces all).kindAt w.index = .jsxTagStart := StandAt.kindAt h
    have hnext : (Program.ofPieces all).kindAt (w.index + 1) = .jsxName := StandAt.kindAt (StandAt.tail h)
    refine eq_of_ends ?_
    rw [ends_bind, ends_comes, program_elementPlan, if_neg (by simp [Program.matchesAt, hnext]),
      ends_bind, ends_comes, program_elementPlan, if_neg (by simp [Program.matchesAt, hopen]),
      ends_bind, ends_is, program_elementPlan, hopen, if_neg (by simp), ends_bind, ends_is,
      program_elementPlan, hopen, if_pos (by simp), ends_bind, ends_append_passed, ends_bind,
      ends_of_eq htoken]
    exact ⟨rfl, rfl⟩

end

/-! ## Elements -/

section

variable {all ps : List Piece} {w : Work}
  (hshebang : Text.shebangSize (spell all) = 0)
include hshebang

/-- An element becomes a call, when its children become arguments. -/
theorem element_of_children {d : Nat} (name : Word) (as : List Attribute) (cs : Children true)
    (h : StandAt all w.index ((Element.mk name as cs).pieces ++ ps))
    (hchildren : ∀ w' : Work, StandAt all w'.index (cs.pieces ++ (closing name ++ ps)) →
      children (tokenWithin (d + 1)) (elementPlan all) w' = .ok () (w'.passed cs.pieces.length cs.render)) :
    element (tokenWithin (d + 1)) (elementPlan all) w
      = .ok () (w.passed (Element.mk name as cs).pieces.length (Element.mk name as cs).render) := by
  obtain ⟨ps', hps, hkind⟩ := exists_aheadOf as (cs.pieces ++ (closing name ++ ps))
  have hpieces : (Element.mk name as cs).pieces ++ ps = opening :: name.piece
      :: (as.flatMap Attribute.pieces ++ ending :: (cs.pieces ++ (closing name ++ ps))) := by
    simp [Element.pieces_mk, closing]
  rw [hpieces] at h
  let call : Text := "React.createElement(".toList
  have hpragma : pragma (elementPlan all).options.jsxPragma (elementPlan all) w
      = .ok "React.createElement".toList w := rfl
  have hname : StandAt all (w.passed 1 call).index (name.piece :: aheadOf as :: ps') := hps ▸ h.tail
  have hattributes : StandAt all ((w.passed 1 call).passed 1 name.render).index
      (as.flatMap Attribute.pieces ++ ending :: (cs.pieces ++ (closing name ++ ps))) := h.tail.tail
  let w₃ := ((w.passed 1 call).passed 1 name.render).passed (as.flatMap Attribute.pieces).length
    (renderAttributes as)
  have hending : StandAt all w₃.index (ending :: (cs.pieces ++ (closing name ++ ps))) := hattributes.drop
  have hcs := hchildren (w₃.passed 1 []) hending.tail
  have hclosing := closingTag_lowers (w := (w₃.passed 1 []).passed cs.pieces.length cs.render) hshebang name
    hending.tail.drop
  refine eq_of_ends ?_
  unfold element
  rw [ends_bind, ends_read, ends_bind, ends_cur, ends_bind, ends_of_eq hpragma, ends_bind,
    ends_replace_passed hshebang h]
  change Ends _ _ (w.passed 1 call) _ _
  rw [ends_bind, ends_is, program_elementPlan, hname.kindAt, if_neg (by simp), ends_bind,
    ends_of_eq (elementName_lowers hshebang name hname hkind), ends_bind,
    ends_of_eq (properties_lowers hshebang _ as _ hattributes)]
  change Ends _ _ w₃ _ _
  rw [ends_bind, ends_comes, program_elementPlan, if_neg (by simp [Program.matchesAt, hending.kindAt]),
    ends_bind, ends_is, program_elementPlan, hending.kindAt, if_pos (by simp), ends_bind,
    ends_replace_passed hshebang hending]
  change Ends _ _ (w₃.passed 1 []) _ _
  rw [ends_bind, ends_of_eq hcs, ends_of_eq hclosing]
  rw [Element.length_pieces, Element.render_mk]
  refine ⟨rfl, ?_⟩
  simp only [w₃, Work.passed_passed, List.append_assoc, List.append_nil]
  congr 1
  omega

end

mutual

theorem element_lowers {all : List Piece} (hshebang : Text.shebangSize (spell all) = 0)
    (hroles : ∀ q ∈ all, q.role ≠ some .key) : ∀ (e : Element) {d : Nat} {w : Work} {ps : List Piece},
    StandAt all w.index (e.pieces ++ ps) → e.pieces.length ≤ d →
    tokenWithin d (elementPlan all) w = .ok () (w.passed e.pieces.length e.render)
  | .mk name as cs, d, w, ps, h, hd => by
    have hlength := Element.length_pieces name as cs
    obtain ⟨d, rfl⟩ := Nat.exists_eq_add_of_le' (show 2 ≤ d by omega)
    have helement := element_of_children (d := d) hshebang name as cs h fun w' h' => by
      obtain ⟨step, hstep, hchild⟩ := exists_childStep hshebang hroles d
      rw [hstep]
      have hcount : cs.pieces.length < (Program.ofPieces all).count + 2 := by
        have := h'.add_length
        simp only [List.length_append] at this
        omega
      exact children_lowers hshebang hroles cs hchild h' hcount (by omega)
    refine eq_of_ends ((ends_elementToken (q := opening) h (by simp)).mpr ?_)
    have hkind : (Program.ofPieces all).kindAt w.index = .jsxTagStart := StandAt.kindAt h
    unfold firstOf elementRule
    rw [ends_bind, ends_bind, ends_is, program_elementPlan, hkind, if_pos (by simp), ends_bind,
      ends_of_eq helement]
    exact ⟨rfl, rfl⟩

theorem children_lowers {all : List Piece} (hshebang : Text.shebangSize (spell all) = 0)
    (hroles : ∀ q ∈ all, q.role ≠ some .key) {mayBeText : Bool} : ∀ (cs : Children mayBeText)
    {step : Unit → Lower (ForInStep Unit)} {stalled : Lower Unit} {d n : Nat} {w : Work} {name : Word}
    {ps : List Piece}, ChildStep all (tokenWithin d) step →
    StandAt all w.index (cs.pieces ++ (closing name ++ ps)) → cs.pieces.length < n →
    cs.pieces.length ≤ d →
    iterate stalled step n () (elementPlan all) w = .ok () (w.passed cs.pieces.length cs.render)
  | .nil, step, stalled, d, n + 1, w, name, ps, hstep, h, _, _ => by
    rw [iterate_of_done (hstep.closing h)]
    exact congrArg _ w.passed_zero.symm
  | .element e cs, step, stalled, d, n + 1, w, name, ps, hstep, h, hn, hd => by
    obtain ⟨_, qs, hfirst⟩ := e.exists_pieces
    have hpos : 0 < e.pieces.length := by simp [hfirst]
    rw [Children.pieces_element] at h hn hd ⊢
    rw [List.length_append] at hn hd ⊢
    rw [List.append_assoc] at h
    have helement := element_lowers hshebang hroles e (w := w.passed 0 ", ".toList) h
      (show e.pieces.length ≤ d by omega)
    have hrest : iterate stalled step n () (elementPlan all)
        ((w.passed 0 ", ".toList).passed e.pieces.length e.render) = _ :=
      children_lowers hshebang hroles cs hstep h.drop (by omega) (by omega)
    rw [iterate_of_yield (hstep.element h helement), hrest, Children.render_element]
    simp
  | .braces x cs, step, stalled, d, n + 1, w, name, ps, hstep, h, hn, hd => by
    rw [Children.pieces_braces] at h hn hd ⊢
    simp only [List.length_cons] at hn hd ⊢
    have hrest : iterate stalled step n () (elementPlan all) (w.passed 3 (", ".toList ++ x.text)) = _ :=
      children_lowers hshebang hroles cs hstep h.tail.tail.tail (by omega) (by omega)
    rw [iterate_of_yield (hstep.braces h), hrest, Children.render_braces, Work.passed_passed,
      show 3 + cs.pieces.length = cs.pieces.length + 1 + 1 + 1 by omega]
  | .text t cs, step, stalled, d, n + 1, w, name, ps, hstep, h, hn, hd => by
    rw [Children.pieces_text] at h hn hd ⊢
    rw [List.length_cons] at hn hd ⊢
    have hrest : iterate stalled step n () (elementPlan all)
        (w.passed 1 (", \"".toList ++ t.text ++ "\"".toList)) = _ :=
      children_lowers hshebang hroles cs hstep h.tail (by omega) (by omega)
    rw [iterate_of_yield (hstep.text h), hrest, Children.render_text]
    simp [Nat.add_comm]

end

/-! ## The whole program -/

section

variable {plan : Plan} {σ : Type} {s s₁ s₂ s₃ : σ} {w w₁ w₂ w₃ : Work} {step : σ → Lower (ForInStep σ)}

/-- A loop that is done in its third round, if there is a token at all. -/
theorem loop_of_yield_yield_done (hcount : 0 < plan.program.count)
    (h₁ : step s plan w = .ok (.yield s₁) w₁) (h₂ : step s₁ plan w₁ = .ok (.yield s₂) w₂)
    (h₃ : step s₂ plan w₂ = .ok (.done s₃) w₃) : loop s step plan w = .ok s₃ w₃ := by
  obtain ⟨n, hn⟩ := Nat.exists_eq_add_one.mpr hcount
  change iterate _ step (plan.program.count + 2) s plan w = _
  rw [hn, iterate_of_yield h₁, iterate_of_yield h₂, iterate_of_done h₃]

end

section

variable {e : Element} {all : List Piece} (hall : all = e.pieces ++ [semi]) {w : Work}
include hall

theorem shebangSize_element : Text.shebangSize (spell all) = 0 := by
  obtain ⟨_, ps, hpieces⟩ := e.exists_pieces
  rw [hall, hpieces]
  rfl

theorem role_element : ∀ q ∈ all, q.role ≠ some .key := by
  intro q hq
  rw [hall, List.mem_append, List.mem_singleton] at hq
  rcases hq with hq | rfl
  · exact e.role_pieces hq
  · nofun

/-- The element is lowered, and the semicolon is copied. -/
theorem balanced_element (hindex : w.index = 0) : balanced token (elementPlan all) w
      = .ok () (w.passed (e.pieces.length + 1) (e.render ++ ";".toList)) := by
  have hshebang := shebangSize_element hall
  have helement : StandAt all w.index (e.pieces ++ [semi]) := ⟨[], hall, hindex.symm⟩
  have hsemi : StandAt all (w.passed e.pieces.length e.render).index [semi] := helement.drop
  have hcount := helement.add_length
  have htoken : token (elementPlan all) w = .ok () (w.passed e.pieces.length e.render) :=
    element_lowers hshebang (role_element hall) e helement (by
      rw [List.length_append] at hcount
      change _ ≤ (Program.ofPieces all).count + 2
      omega)
  have htoken' : token (elementPlan all) (w.passed e.pieces.length e.render)
      = .ok () (w.passed (e.pieces.length + 1) (e.render ++ ";".toList)) := by
    have hcopy := tokenWithin_copies (d := (Program.ofPieces all).count + 1) hsemi hshebang (by simp)
      (declines_componentRule fun hk => by
        rw [program_elementPlan, hsemi.kindAt] at hk
        cases hk)
    rwa [Work.passed_passed] at hcopy
  have hopening : ((Program.ofPieces all).tokenAt w.index).kind = .jsxTagStart := by
    obtain ⟨_, ps, hpieces⟩ := e.exists_pieces
    rw [hpieces] at helement
    exact StandAt.kindAt helement
  have hkind : ((Program.ofPieces all).tokenAt (w.index + e.pieces.length)).kind = .semi := hsemi.kindAt
  have hlt : w.index < (Program.ofPieces all).count := by
    rw [List.length_append, List.length_singleton] at hcount
    omega
  refine eq_of_ends ?_
  unfold balanced
  rw [ends_bind]
  have hloop {step : Nat × Nat → Lower (ForInStep (Nat × Nat))}
      (h₁ : step (0, 0) (elementPlan all) w = .ok (.yield (0, 0)) (w.passed e.pieces.length e.render))
      (h₂ : step (0, 0) (elementPlan all) (w.passed e.pieces.length e.render)
        = .ok (.yield (0, 0)) (w.passed (e.pieces.length + 1) (e.render ++ ";".toList)))
      (h₃ : step (0, 0) (elementPlan all) (w.passed (e.pieces.length + 1) (e.render ++ ";".toList))
        = .ok (.done (0, 0)) (w.passed (e.pieces.length + 1) (e.render ++ ";".toList))) :=
    loop_of_yield_yield_done (Nat.lt_of_le_of_lt (Nat.zero_le _) hlt) h₁ h₂ h₃
  refine (ends_of_eq (hloop ?_ ?_ ?_)).mpr ⟨rfl, rfl⟩
  · refine eq_of_ends ?_
    simp [hopening, Nat.not_le.mpr hlt, ends_of_eq htoken]
  · refine eq_of_ends ?_
    have := hsemi.lt_count
    simp only [Work.index_passed] at this
    simp [hkind, Nat.not_le.mpr this, ends_of_eq htoken']
  · refine eq_of_ends ?_
    rw [List.length_append, List.length_singleton] at hcount
    simp [← hcount]

omit hall in
theorem preamble_elementPlan (h : w.generated = []) : preamble (elementPlan all) w = .ok [] w := by
  have hpreamble : preamble (elementPlan all) w = .ok ([] ++ [] ++ []
      ++ (w.generated.map fun name => " var ".toList ++ name ++ ";".toList).flatten) w := rfl
  rw [hpreamble, h]
  rfl

omit hall in
theorem shebang_of_shebangSize {source : Text} (h : Text.shebangSize source = 0) : shebang source = [] := by
  have htake : Text.takeBytes source 0 = [] := Text.takeBytes_append [] source
  unfold shebang
  rw [h, htake]
  rfl

/-- Nothing but the tokens is written. -/
theorem finish_element (hindex : w.index = 0) (hout : w.draft.out = [])
    (hgenerated : w.generated = []) :
    Ends (elementPlan all) finish w (fun code _ => code = e.render ++ ";".toList) fun _ => False := by
  have hlength : e.pieces.length + 1 = all.length := by rw [hall, List.length_append, List.length_singleton]
  have hend : (w.passed (e.pieces.length + 1) (e.render ++ ";".toList)).index = all.length := by
    rw [Work.index_passed, hindex, Nat.zero_add, hlength]
  unfold finish
  rw [ends_bind, ends_of_eq (balanced_element hall hindex), ends_bind, ends_atEnd, program_elementPlan,
    Program.count_ofPieces, hend, if_pos (by simp)]
  have hpreamble : preamble (elementPlan all) (w.passed (e.pieces.length + 1) (e.render ++ ";".toList))
      = .ok [] (w.passed (e.pieces.length + 1) (e.render ++ ";".toList)) :=
    preamble_elementPlan hgenerated
  have hpostamble (w : Work) : postamble (elementPlan all) w = .ok [] w := rfl
  rw [ends_bind, ends_of_eq hpreamble, ends_bind, ends_of_eq (hpostamble _), ends_bind, ends_finishDraft,
    program_elementPlan, Program.count_ofPieces, hend, if_pos (Nat.le_refl _),
    Program.gapBefore_ofPieces_length (shebangSize_element hall), ends_bind, ends_program, ends_pure]
  have hshebang : shebang (elementPlan all).program.source = [] :=
    shebang_of_shebangSize (shebangSize_element hall)
  have hwritten : (w.passed (e.pieces.length + 1) (e.render ++ ";".toList)).draft.out
      = w.draft.out ++ (e.render ++ ";".toList) := rfl
  rw [hshebang, hwritten, hout]
  simp

end

end Lower

theorem prepare_element (all : List Piece) :
    ∃ names, Plan.prepare (spell all) (layOut 0 all).toArray { transforms := [.jsx] }
      = .ok (Lower.elementPlan all, { names }) :=
  ⟨_, rfl⟩

open Markup in
/-- **A tree of elements becomes nested calls.**  An element that is written with tags, with a semicolon
behind it, is lowered to the call that stands for it: its name in quotes if it starts in lower case, its
attributes as one object, and its children in order. -/
theorem transform_print (e : Element) :
    transform (e.print ++ ";".toList) { transforms := [.jsx] } = .ok (e.render ++ ";".toList) := by
  have hsource : e.print ++ ";".toList = spell (e.pieces ++ [semi]) := by
    rw [spell_append, e.spell_pieces]
    rfl
  have hparse := Grammar.parse_print e (o := { transforms := [.jsx] }) rfl rfl
  obtain ⟨names, hprepare⟩ := prepare_element (e.pieces ++ [semi])
  have hfinish := Lower.finish_element (e := e) rfl (w := { names }) rfl rfl rfl
  unfold Lower.Ends at hfinish
  rw [hsource]
  split at hfinish
  · rename_i hok
    rw [transform_eq rfl hparse hprepare, hok, hfinish]
  · exact hfinish.elim

end Downlevel
