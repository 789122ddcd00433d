import Downlevel.Proofs.Grammar.Yields
import Downlevel.Proofs.Markup.Pieces

/-!
# Parsing a tree of elements

The tokens of a tree that is written with tags are its pieces (`parse_print`).
-/

namespace Downlevel.Grammar

open Grammar.Parser Markup

variable {c : Setting} {done : List Piece} {rest : Text} {rule rule' : Rule} {q : Piece}

/-! ## Rules in rules -/

theorem rank_le (rule : Rule) : rule.rank ≤ 3 := by
  cases rule <;> simp [Rule.rank]

/-- A rule that is run further on. -/
theorem runBelow_of_remaining {st st' : State} (h : c.remaining st' < c.remaining st) :
    runBelow (weight c rule st) rule' c st' = run rule' c st' := by
  have := rank_le rule'
  unfold runBelow
  rw [if_pos]
  unfold weight
  omega

/-- A rule of less rank that is run at the same place. -/
theorem runBelow_of_rank {st : State} (h : rule'.rank < rule.rank) :
    runBelow (weight c rule st) rule' c st = run rule' c st := by
  unfold runBelow
  rw [if_pos]
  unfold weight
  omega

/-! ## Ends of expressions -/

/-- The token ahead can stand behind an expression, and does not go on with it. -/
def EndsExpression (st : State) : Prop :=
  st.cur.kind = .braceR ∨ st.cur.kind = .semi

section

variable {call : Reference} {st st' : State} (hend : EndsExpression st')
include hend

theorem suffixed_of_operand (hoperand : operand call c st = .ok false st') :
    suffixed call c st = .ok () st' := by
  have hsubscripts : subscripts call false c st' = .ok () st' := by
    refine eq_of_yields ?_
    unfold subscripts
    rw [yields_loop]
    rcases hend with h | h <;> simp [h]
  refine eq_of_yields ?_
  unfold suffixed
  simp only [yields_bind, yields_of_eq hoperand, Bool.not_false, if_true, yields_of_eq hsubscripts]
  rw [yields_repeatWhile]
  rcases hend with h | h <;> simp [h]

theorem assignment_of_unary (htypescript : c.typescript = false)
    (hyield : st.cur.kind = .name → st.cur.text c.source ≠ "yield".toList)
    (hunary : call .unary c st = .ok () st') : assignment call false c st = .ok () st' := by
  have hoperators : operators call false c st = .ok () st' := by
    refine eq_of_yields ?_
    unfold operators
    simp only [yields_bind, yields_of_eq hunary]
    rw [yields_loop]
    rcases hend with h | h <;> simp [h, htypescript, Kind.isBinaryOperator, Kind.binaryOperators]
  have hconditional : conditional call false c st = .ok () st' := by
    refine eq_of_yields ?_
    unfold conditional
    simp only [yields_bind, yields_of_eq hoperators]
    rcases hend with h | h <;> simp [h]
  refine eq_of_yields ?_
  unfold assignment
  simp only [yields_bind, yields_isName]
  rw [if_neg (by simpa using hyield)]
  simp only [yields_bind, yields_of_eq hconditional]
  rcases hend with h | h <;> simp [h]

theorem expression_of_assignment (hassignment : call (.assignment false) c st = .ok () st') :
    expression call false c st = .ok () st' := by
  refine eq_of_yields ?_
  unfold expression
  simp only [yields_bind, yields_of_eq hassignment]
  rw [yields_repeatWhile]
  unfold eat
  rcases hend with h | h <;> simp [h]

end

/-! ## Variables -/

theorem identifier_apply {role : Role} {st : State} (h : st.cur.kind = .name) :
    identifier role c st = next c { st with cur := { st.cur with role := some role } } := by
  unfold identifier
  rw [Parser.bind_apply]
  change (if decide (st.cur.kind = .name) = true then _ else _ : Parser Unit) c st = _
  rw [if_pos (decide_eq_true h)]
  rfl

section

variable (call : Reference) (x : Variable)
  (hsource : c.source = spell done ++ (x.piece.text ++ (braceR.text ++ rest)))
include hsource

theorem peek_variable :
    peek c (stateAt done x.piece.bare)
      = .ok (braceR.token (stateAt done x.piece.bare).pos) (stateAt done x.piece.bare) :=
  peek_stateAt readsIn_braceR hsource

/-- A name in front of a brace is no parameter of an arrow function. -/
theorem plainName_variable (hyield : x.text ≠ "yield".toList) :
    plainName call c (stateAt done x.piece.bare) = .ok false (stateAt (done ++ [x.piece]) braceR) := by
  have hidentifier : identifier .access c (stateAt done x.piece.bare)
      = .ok () (stateAt (done ++ [x.piece]) braceR) := by
    have hrole : x.piece.role = some .access := if_neg hyield
    rw [identifier_apply rfl, ← hrole]
    exact nextIn_stateAt readsIn_braceR hsource
  refine eq_of_yields ?_
  unfold plainName
  simp [yields_of_eq (peek_variable x hsource), yields_of_eq hidentifier]

theorem operand_variable (hyield : x.text ≠ "yield".toList) :
    operand call c (stateAt done x.piece.bare) = .ok false (stateAt (done ++ [x.piece]) braceR) := by
  have hplain := plainName_variable call x hsource hyield
  refine eq_of_yields ?_
  change Yields c (stateAt done x.piece.bare) (nameOperand call) _
  unfold nameOperand
  simp only [yields_bind, yields_isName]
  split
  · simp [yields_of_eq (peek_variable x hsource), yields_of_eq hplain]
  · simp [yields_of_eq hplain]

theorem unary_variable (hyield : x.text ≠ "yield".toList) :
    unary call c (stateAt done x.piece.bare) = .ok () (stateAt (done ++ [x.piece]) braceR) := by
  have hsuffixed := suffixed_of_operand (.inl rfl) (operand_variable call x hsource hyield)
  refine eq_of_yields ?_
  unfold unary
  simp only [yields_bind, yields_cur]
  rw [if_neg (by simp), yields_bind, yields_isName]
  split
  · simp [yields_of_eq (peek_variable x hsource), startsOperand, yields_of_eq hsuffixed]
  · simp [yields_of_eq hsuffixed]

/-- A variable in braces is an expression. -/
theorem run_assignment_variable (htypescript : c.typescript = false) :
    run (.assignment false) c (stateAt done x.piece.bare)
      = .ok () (stateAt (done ++ [x.piece]) braceR) := by
  have htext : (stateAt done x.piece.bare).cur.text c.source = x.text :=
    text_stateAt hsource (by simp)
  rw [run_apply]
  by_cases hyield : x.text = "yield".toList
  · have hbare : x.piece.bare = x.piece := by simp [Variable.piece, Piece.bare, hyield]
    have hnext := nextIn_stateAt (q := x.piece) readsIn_braceR hsource
    refine eq_of_yields ?_
    change Yields _ _ (assignment _ false) _
    unfold assignment next
    simp only [yields_bind, yields_isName, htext, hyield]
    simp [hbare, yields_of_eq hnext, startsOperand]
    rfl
  · refine assignment_of_unary (.inl rfl) htypescript (fun _ => htext ▸ hyield) ?_
    rw [runBelow_of_rank (by decide), run_apply]
    exact unary_variable _ x hsource hyield

end

/-! ## Tags -/

theorem tagName_apply {st : State} (h : st.cur.kind = .jsxName) : tagName c st = nextIn .tag c st := by
  unfold tagName
  rw [Parser.bind_apply]
  change (if decide (st.cur.kind = .jsxName) = true then _ else _ : Parser Unit) c st = _
  rw [if_pos (decide_eq_true h)]

/-- The name of an element is one word, and a reference unless it starts in lower case. -/
theorem elementName_word (name : Word) (hq : GoesOn q rest)
    (hsource : c.source = spell done ++ (name.text ++ (q.text ++ rest))) :
    elementName c (stateAt done name.piece.bare) = .ok () (stateAt (done ++ [name.piece]) q.bare) := by
  obtain ⟨hreads, -, hkind⟩ := hq
  have htag : tagName c (stateAt done name.piece.bare)
      = .ok () (stateAt (done ++ [name.piece.bare]) q.bare) :=
    (tagName_apply rfl).trans (nextIn_stateAt hreads hsource)
  have htext : (stateAt done name.piece.bare).cur.text c.source = name.text :=
    text_stateAt hsource (by simp)
  have hrest : Yields c (stateAt (done ++ [name.piece]) q.bare)
      (do
        if ← is .colon then
          nextIn .tag
          tagName
        else
          repeatWhile (is .dot) do
            nextIn .tag
            tagName) fun a st => a = () ∧ st = stateAt (done ++ [name.piece]) q.bare := by
    simp only [yields_bind, yields_is]
    rw [if_neg (by rcases hkind with h | h <;> simp [h]), yields_repeatWhile, yields_is]
    rcases hkind with h | h <;> simp [h]
  refine eq_of_yields ?_
  unfold elementName
  rw [yields_bind, yields_tokenCount, yields_bind, yields_cur, yields_bind, yields_textOf, htext,
    yields_bind, yields_of_eq htag, yields_bind, yields_is, size_tokens_stateAt]
  have hdot : decide ((stateAt (done ++ [name.piece.bare]) q.bare).cur.kind = .dot) = false := by
    rcases hkind with h | h <;> simp [h]
  rw [hdot, Bool.or_false]
  cases hlower : name.text.head?.any Character.isLower with
  | true =>
    have hbare : name.piece.bare = name.piece := by simp [Word.piece, Piece.bare, hlower]
    rw [hbare]
    exact hrest
  | false =>
    have hrole : { name.piece.bare with role := some .access } = name.piece := by
      simp [Word.piece, Piece.bare, hlower]
    rw [if_pos (by rfl), yields_bind, yields_modifyToken, modify_stateAt, hrole]
    exact hrest

theorem tagAttribute_apply (call : Reference) (a : Attribute) (hq : GoesOn q rest)
    (hsource : c.source = spell done ++ (spell a.pieces ++ (q.text ++ rest))) :
    tagAttribute call c (stateAt done a.namePiece) = .ok () (stateAt (done ++ a.pieces) q.bare) := by
  obtain ⟨hreads, -, hkind⟩ := hq
  refine eq_of_yields ?_
  unfold tagAttribute
  rw [yields_bind, yields_is, if_neg (by simp), yields_bind]
  cases hvalue : a.value with
  | none =>
    have hpieces : a.pieces = [a.namePiece] := by simp [Attribute.pieces, hvalue]
    rw [hpieces] at hsource ⊢
    have hname : tagName c (stateAt done a.namePiece) = _ :=
      (tagName_apply rfl).trans (nextIn_stateAt hreads (by simpa using hsource))
    rw [yields_of_eq hname]
    rcases hkind with h | h <;> simp [h]
  | some v =>
    have hpieces : a.pieces = [a.namePiece, { kind := .eq, body := ['='] }, v.piece] := by
      simp [Attribute.pieces, hvalue, Value.pieces]
    rw [hpieces] at hsource ⊢
    have hname : tagName c (stateAt done a.namePiece)
        = .ok () (stateAt (done ++ [a.namePiece]) { kind := .eq, body := ['='] }) :=
      (tagName_apply rfl).trans (nextIn_stateAt readsIn_eq (by simpa using hsource))
    have heq : nextIn .tag c (stateAt (done ++ [a.namePiece]) { kind := .eq, body := ['='] }) = _ :=
      nextIn_stateAt v.readsIn (by simpa using hsource)
    have hstring : nextIn .tag c
        (stateAt (done ++ [a.namePiece] ++ [{ kind := .eq, body := ['='] }]) v.piece.bare) = _ :=
      nextIn_stateAt hreads (by simpa using hsource)
    rw [yields_of_eq hname]
    simp only [yields_bind, yields_is, kind_stateAt, reduceCtorEq, decide_false, decide_true, if_true,
      Bool.false_eq_true, if_false, yields_of_eq heq, yields_cur, Piece.kind_bare, kind_value,
      yields_of_eq hstring]
    simp
    rfl

/-- The attributes of an element are read up to the end of the tag. -/
theorem attributes_read (call : Reference) (as : List Attribute) (done : List Piece)
    (hsource : c.source = spell done ++ (as.flatMap Attribute.print ++ (ending.text ++ rest))) :
    repeatWhile (return !(← isOneOf [.jsxTagEnd, .slash])) (tagAttribute call) c
        (stateAt done (aheadOf as))
      = .ok () (stateAt (done ++ as.flatMap Attribute.pieces) ending) := by
  induction as generalizing done with
  | nil =>
    refine eq_of_yields ?_
    rw [yields_repeatWhile]
    simp [aheadOf]
  | cons a as ih =>
    obtain ⟨rest', htext, hgoes⟩ := exists_goesOn as rest
    rw [List.flatMap_cons, List.append_assoc, ← spell_attribute] at hsource
    have hattribute := tagAttribute_apply call a hgoes (htext ▸ hsource)
    have hrest := ih (done ++ a.pieces) (by simpa using hsource)
    refine eq_of_yields ?_
    rw [yields_repeatWhile, yields_bind, yields_isOneOf, yields_pure, if_pos (by simp [aheadOf])]
    rw [show stateAt done (aheadOf (a :: as)) = stateAt done a.namePiece from rfl,
      yields_of_eq hattribute, bare_aheadOf]
    refine ⟨remaining_stateAt_lt (by simpa [Attribute.pieces] using hsource) a.name.ne_nil rfl, ?_⟩
    rw [yields_of_eq hrest]
    simp

theorem closingTag_word (name : Word) {after : Lexer.Mode} (hq : q.ReadsIn after rest)
    (hsource : c.source = spell done ++ (name.text ++ (ending.text ++ (q.text ++ rest)))) :
    closingTag name.text after c (stateAt done name.piece.bare)
      = .ok () (stateAt (done ++ [name.piece, ending]) q.bare) := by
  have hname := elementName_word name goesOn_ending hsource
  have htext := textFrom_stateAt (q := name.piece) ending hsource (by simp)
  have hend : nextIn after c (stateAt (done ++ [name.piece]) ending) = _ :=
    nextIn_stateAt hq (by simpa [Piece.text, Word.piece] using hsource)
  have hbody : name.piece.body = name.text := rfl
  refine eq_of_yields ?_
  unfold closingTag expectIn
  simp only [yields_bind, yields_cur, yields_tokenCount, size_tokens_stateAt, yields_is, kind_stateAt,
    Piece.kind_bare, kind_word, decide_true, if_true, yields_of_eq hname, yields_textFrom]
  rw [show ending.bare = ending from rfl, htext, if_pos hbody]
  simp [yields_of_eq hend]

/-! ## Children -/

/-- A bracket with a slash behind it closes an element, and one with a letter opens one. -/
theorem scan_opening {d : Char} {b : Bool}
    (hgap : ∀ pos, Lexer.skipGap .space false pos (d :: rest) = .ok (false, d :: rest) pos)
    (hbyte : (Character.leadByte d == Character.leadByte '/') = b)
    (hsource : c.source = spell done ++ (opening.text ++ d :: rest)) :
    scan (Lexer.nextByteIs (Character.leadByte '/')) c (stateAt done opening)
      = .ok b (stateAt done opening) := by
  unfold scan Lexer.nextByteIs
  simp [dropBytes?_stateAt hsource, hgap, hbyte]

theorem leadByte_of_isLetter {d : Char} (h : Character.isLetter d = true) :
    (Character.leadByte d == Character.leadByte '/') = false := by
  have hd := Character.toNat_lt_of_isLetter h
  revert h
  exact Character.of_ascii hd (by decide)

section

variable {call : Reference} {st : State} {q : Piece}

theorem children_closing (name : Word) (hsource : c.source = spell done ++ (spell (closing name) ++ rest)) :
    children call c (stateAt done opening)
      = .ok () (stateAt (done ++ [opening, slash]) name.piece.bare) := by
  obtain ⟨d, ds, htext, hd⟩ := name.exists_letter
  have hslash : c.source
      = spell done ++ (opening.text ++ (slash.text ++ d :: (ds ++ (ending.text ++ rest)))) := by
    rw [hsource]
    simp [closing, Piece.text, Word.piece, htext]
  have hgap (pos : Nat) : Lexer.skipGap .space false pos ('/' :: d :: (ds ++ (ending.text ++ rest))) = _ :=
    Lexer.skipGap_slash fun h => (Character.isIdStart_of_isLetter hd).2.2.2 (List.mem_append_left ['\\'] h)
  have hscan : scan (Lexer.nextByteIs (Character.leadByte '/')) c (stateAt done opening)
      = .ok true (stateAt done opening) := scan_opening hgap rfl hslash
  have hnext : nextIn .tag c (stateAt done opening) = _ := nextIn_stateAt (readsIn_slash hd) hslash
  have hname : nextIn .tag c (stateAt (done ++ [opening]) slash) = _ :=
    nextIn_stateAt (name.readsIn goesOn_ending.2.1) (by simpa [closing] using hsource)
  refine eq_of_yields ?_
  unfold children
  rw [yields_loop]
  simp only [yields_bind, yields_cur, kind_stateAt, kind_opening, yields_of_eq hscan, if_true,
    yields_of_eq hnext]
  rw [show slash.bare = slash from rfl, yields_of_eq hname]
  simp

theorem children_text (t : Content) (hq : q.ReadsIn .child rest)
    (hsource : c.source = spell done ++ (t.text ++ (q.text ++ rest)))
    (hrest : children call c (stateAt (done ++ [t.piece]) q.bare) = .ok () st) :
    children call c (stateAt done t.piece) = .ok () st := by
  have hnext : nextIn .child c (stateAt done t.piece) = _ := nextIn_stateAt hq hsource
  refine eq_of_yields ?_
  unfold children
  rw [yields_loop]
  simp only [yields_bind, yields_cur, kind_stateAt, kind_content, yields_of_eq hnext, yields_pure]
  refine ⟨remaining_stateAt_lt (q := t.piece) hsource t.ne_nil rfl, ?_⟩
  exact (yields_of_eq hrest).mpr ⟨trivial, rfl⟩

theorem children_braces (x : Variable) (hq : q.ReadsIn .child rest)
    (hsource : c.source = spell done ++ (braceL.text ++ (x.piece.text ++ (braceR.text ++ (q.text ++ rest)))))
    (hcall : call (.assignment false) c (stateAt (done ++ [braceL]) x.piece.bare)
      = .ok () (stateAt (done ++ [braceL] ++ [x.piece]) braceR))
    (hrest : children call c (stateAt (done ++ [braceL, x.piece, braceR]) q.bare) = .ok () st) :
    children call c (stateAt done braceL) = .ok () st := by
  have hopen : next c (stateAt done braceL) = .ok () (stateAt (done ++ [braceL]) x.piece.bare) :=
    nextIn_stateAt x.readsIn hsource
  have hexpression := expression_of_assignment (.inl rfl) hcall
  have hclose : nextIn .child c (stateAt (done ++ [braceL] ++ [x.piece]) braceR) = _ :=
    nextIn_stateAt hq (by simpa using hsource)
  have hchild : childExpression call c (stateAt done braceL)
      = .ok () (stateAt (done ++ [braceL, x.piece, braceR]) q.bare) := by
    refine eq_of_yields ?_
    unfold childExpression eat expectIn
    simp only [yields_bind, yields_of_eq hopen]
    simp only [yields_discard, yields_bind, yields_is, kind_stateAt, Piece.kind_bare, kind_variable,
      kind_braceR, reduceCtorEq, decide_false, decide_true, Bool.not_false, if_true, if_false,
      Bool.false_eq_true, yields_pure, yields_of_eq hexpression, yields_of_eq hclose]
    simp
  refine eq_of_yields ?_
  unfold children
  rw [yields_loop]
  simp only [yields_bind, yields_cur, kind_stateAt, kind_braceL, yields_of_eq hchild, yields_pure]
  refine ⟨remaining_stateAt_lt hsource (by decide) rfl, ?_⟩
  exact (yields_of_eq hrest).mpr ⟨trivial, rfl⟩

theorem children_element (e : Element) (hsource : c.source = spell done ++ (spell e.pieces ++ rest))
    (hcall : call (.element .child) c (stateAt done opening) = .ok () (stateAt (done ++ e.pieces) q.bare))
    (hrest : children call c (stateAt (done ++ e.pieces) q.bare) = .ok () st) :
    children call c (stateAt done opening) = .ok () st := by
  obtain ⟨name, ps, hpieces⟩ := e.exists_pieces
  obtain ⟨d, ds, htext, hd⟩ := name.exists_letter
  have hletter : c.source = spell done ++ (opening.text ++ d :: (ds ++ (spell ps ++ rest))) := by
    rw [hsource, hpieces]
    simp [Piece.text, Word.piece, htext]
  obtain ⟨-, -, hspace, hne⟩ := Character.isIdStart_of_isLetter hd
  have hgap (pos : Nat) : Lexer.skipGap .space false pos (d :: (ds ++ (spell ps ++ rest))) = _ :=
    Lexer.skipGap_of_ne hspace fun h => hne (by simp [h])
  have hscan := scan_opening hgap (leadByte_of_isLetter hd) hletter
  refine eq_of_yields ?_
  unfold children
  rw [yields_loop]
  simp only [yields_bind, yields_cur, kind_stateAt, kind_opening, yields_of_eq hscan,
    Bool.false_eq_true, if_false, yields_of_eq hcall, yields_pure]
  refine ⟨remaining_stateAt_lt hletter (by decide) hpieces, ?_⟩
  exact (yields_of_eq hrest).mpr ⟨trivial, rfl⟩

end

/-! ## Elements -/

section

variable {call : Reference} {q : Piece} {after : Lexer.Mode} {kind : Kind}

/-- An element is read when its children are; `done` holds what is in front of its name. -/
theorem namedElement_of_children (name : Word) (as : List Attribute) (cs : Children true)
    (hq : q.ReadsIn after rest)
    (hsource : c.source = spell done ++ (name.text ++ (as.flatMap Attribute.print
      ++ (ending.text ++ (spell (cs.pieces ++ closing name) ++ (q.text ++ rest))))))
    (hchildren : children call c
        (stateAt (done ++ [name.piece] ++ as.flatMap Attribute.pieces ++ [ending]) cs.ahead)
      = .ok () (stateAt (done ++ [name.piece] ++ as.flatMap Attribute.pieces ++ [ending]
          ++ (cs.pieces ++ [opening, slash])) name.piece.bare)) :
    namedElement call after c (stateAt done name.piece.bare)
      = .ok () (stateAt (done ++ [name.piece] ++ as.flatMap Attribute.pieces ++ [ending]
          ++ (cs.pieces ++ [opening, slash]) ++ [name.piece, ending]) q.bare) := by
  obtain ⟨tail, htag, hgoes⟩ := exists_goesOn as (spell (cs.pieces ++ closing name) ++ (q.text ++ rest))
  obtain ⟨tail', hbetween, hahead⟩ := cs.exists_ahead name (q.text ++ rest)
  have hname : elementName c (stateAt done name.piece.bare) = _ :=
    elementName_word name hgoes (htag ▸ hsource)
  have htext := textFrom_stateAt (q := name.piece) (aheadOf as) hsource (by simp)
  have hbehind : c.source = spell (done ++ [name.piece]) ++ (as.flatMap Attribute.print
      ++ (ending.text ++ (spell (cs.pieces ++ closing name) ++ (q.text ++ rest)))) := by
    rw [hsource]
    simp [Piece.text, Word.piece]
  have hattributes := attributes_read call as (done ++ [name.piece]) hbehind
  have hnext : nextIn .child c (stateAt (done ++ [name.piece] ++ as.flatMap Attribute.pieces) ending) = _ :=
    nextIn_stateAt hahead (by rw [hbehind, hbetween, ← spell_attributes]; simp)
  have hclosing : closingTag name.text after c (stateAt (done ++ [name.piece]
      ++ as.flatMap Attribute.pieces ++ [ending] ++ (cs.pieces ++ [opening, slash])) name.piece.bare) = _ :=
    closingTag_word name hq (by rw [hbehind, ← spell_attributes]; simp [Piece.text, Word.piece, closing])
  refine eq_of_yields ?_
  unfold namedElement
  rw [yields_bind, yields_tokenCount, size_tokens_stateAt, yields_bind, yields_of_eq hname, bare_aheadOf,
    yields_bind, yields_textFrom, htext, yields_bind, yields_of_eq hattributes, yields_bind, yields_is,
    if_neg (by simp), yields_bind, yields_of_eq hnext, cs.bare_ahead, yields_bind,
    yields_of_eq hchildren]
  exact (yields_of_eq hclosing).mpr ⟨rfl, rfl⟩

/-- A bracket in front of a name opens an element. -/
theorem element_apply (name : Word) (hrest : EndsName rest)
    (hsource : c.source = spell done ++ ('<' :: (name.text ++ rest))) :
    element call after c (stateAt done { kind, body := ['<'] })
      = namedElement call after c (stateAt (done ++ [opening]) name.piece.bare) := by
  have hnext : nextIn .tag c (stateAt done opening) = _ := nextIn_stateAt (name.readsIn hrest) hsource
  change (do
    nextIn .tag
    if ← is .jsxTagEnd then
      nextIn .child
      children call
      if ← is .jsxTagEnd then nextIn after else fault .unclosedFragment
    else namedElement call after : Parser Unit) c (stateAt done opening) = _
  rw [Parser.bind_apply, hnext]
  rfl

end

mutual

/-- An element is read up to its closing tag, and behind that in the mode that is asked for. -/
theorem run_element (htypescript : c.typescript = false) : ∀ (e : Element) {after : Lexer.Mode} {kind : Kind} {done : List Piece} {q : Piece}
    {rest : Text}, q.ReadsIn after rest →
    c.source = spell done ++ (spell e.pieces ++ (q.text ++ rest)) →
    run (.element after) c (stateAt done { kind, body := ['<'] })
      = .ok () (stateAt (done ++ e.pieces) q.bare)
  | .mk name as cs, after, kind, done, q, rest, hq, hsource => by
    obtain ⟨rest', htag, -, hends, -⟩ :=
      exists_goesOn as (spell (cs.pieces ++ closing name) ++ (q.text ++ rest))
    have hprint : c.source = spell done ++ ('<' :: (name.text ++ (as.flatMap Attribute.print
        ++ (ending.text ++ (spell (cs.pieces ++ closing name) ++ (q.text ++ rest)))))) := by
      rw [hsource, Element.pieces_mk, ← spell_attributes]
      simp [closing, Piece.text, Word.piece, opening]
    have hless : c.remaining
        (stateAt (done ++ [opening] ++ [name.piece] ++ as.flatMap Attribute.pieces ++ [ending]) cs.ahead)
        < c.remaining (stateAt done { kind, body := ['<'] }) := by
      have hless : c.remaining
          (stateAt (done ++ opening :: (name.piece :: as.flatMap Attribute.pieces ++ [ending])) cs.ahead)
          < c.remaining (stateAt done opening) := remaining_stateAt_lt hprint (by decide) rfl
      change _ < c.remaining (stateAt done opening)
      simpa using hless
    have hchildren : children (runBelow (weight c (.element after) (stateAt done { kind, body := ['<'] })))
        c (stateAt (done ++ [opening] ++ [name.piece] ++ as.flatMap Attribute.pieces ++ [ending])
          cs.ahead) = _ :=
      children_read htypescript cs name
        (show c.source = _ ++ (spell (cs.pieces ++ closing name) ++ (q.text ++ rest)) by
          rw [hprint, ← spell_attributes]; simp [Piece.text, Word.piece, opening]) hless
    have helement := namedElement_of_children name as cs hq
      (by rw [hprint]; simp [Piece.text, opening]) hchildren
    rw [run_apply]
    refine (element_apply name hends (htag ▸ hprint)).trans (helement.trans ?_)
    simp [Element.pieces_mk]

theorem children_read (htypescript : c.typescript = false) {mayBeText : Bool} : ∀ (cs : Children mayBeText) (name : Word) {rule : Rule}
    {st : State} {done : List Piece} {rest : Text},
    c.source = spell done ++ (spell (cs.pieces ++ closing name) ++ rest) →
    c.remaining (stateAt done cs.ahead) < c.remaining st →
    children (runBelow (weight c rule st)) c (stateAt done cs.ahead)
      = .ok () (stateAt (done ++ (cs.pieces ++ [opening, slash])) name.piece.bare)
  | .nil, name, rule, st, done, rest, hsource, _ => children_closing name hsource
  | .element e cs, name, rule, st, done, rest, hsource, hlt => by
    obtain ⟨_, ps, hfirst⟩ := e.exists_pieces
    obtain ⟨rest', htext, hreads⟩ := cs.exists_ahead name rest
    change c.source = spell done ++ (spell (e.pieces ++ cs.pieces ++ closing name) ++ rest) at hsource
    have hpieces : c.source = spell done ++ (spell e.pieces ++ (cs.ahead.text ++ rest')) := by
      rw [hsource, ← htext]
      simp
    have hrun : runBelow (weight c rule st) (.element .child) c (stateAt done opening) = _ :=
      (runBelow_of_remaining hlt).trans (run_element htypescript e hreads hpieces)
    have hless : c.remaining (stateAt (done ++ e.pieces) cs.ahead) < c.remaining (stateAt done opening) :=
      remaining_stateAt_lt (by simpa [hfirst] using hpieces) (by decide) hfirst
    have hrest : children (runBelow (weight c rule st)) c (stateAt (done ++ e.pieces) cs.ahead) = _ :=
      children_read htypescript cs name (by simpa using hsource) (Nat.lt_trans hless hlt)
    change children _ c (stateAt done opening)
      = .ok () (stateAt (done ++ (e.pieces ++ cs.pieces ++ [opening, slash])) name.piece.bare)
    refine children_element e hpieces hrun ?_
    simpa [cs.bare_ahead] using hrest
  | .braces x cs, name, rule, st, done, rest, hsource, hlt => by
    obtain ⟨rest', htext, hreads⟩ := cs.exists_ahead name rest
    change c.source = spell done
      ++ (spell (braceL :: x.piece :: braceR :: cs.pieces ++ closing name) ++ rest) at hsource
    have hpieces : c.source = spell done
        ++ (braceL.text ++ (x.piece.text ++ (braceR.text ++ (cs.ahead.text ++ rest')))) := by
      rw [hsource, ← htext]
      simp
    have hless : c.remaining (stateAt (done ++ [braceL]) x.piece.bare)
        < c.remaining (stateAt done braceL) := remaining_stateAt_lt hpieces (by decide) rfl
    have hrun : runBelow (weight c rule st) (.assignment false) c
        (stateAt (done ++ [braceL]) x.piece.bare) = _ :=
      (runBelow_of_remaining (Nat.lt_trans hless hlt)).trans
        (run_assignment_variable x (by simpa using hpieces) htypescript)
    have hless' : c.remaining (stateAt (done ++ [braceL, x.piece, braceR]) cs.ahead)
        < c.remaining (stateAt done braceL) := remaining_stateAt_lt hpieces (by decide) rfl
    have hrest : children (runBelow (weight c rule st)) c
        (stateAt (done ++ [braceL, x.piece, braceR]) cs.ahead) = _ :=
      children_read htypescript cs name (by simpa using hsource) (Nat.lt_trans hless' hlt)
    change children _ c (stateAt done braceL) = .ok ()
      (stateAt (done ++ (braceL :: x.piece :: braceR :: cs.pieces ++ [opening, slash])) name.piece.bare)
    refine children_braces x hreads hpieces hrun ?_
    simpa [cs.bare_ahead] using hrest
  | .text t cs, name, rule, st, done, rest, hsource, hlt => by
    obtain ⟨rest', htext, hreads⟩ := cs.exists_ahead name rest
    change c.source = spell done ++ (spell (t.piece :: cs.pieces ++ closing name) ++ rest) at hsource
    have hpieces : c.source = spell done ++ (t.piece.text ++ (cs.ahead.text ++ rest')) := by
      rw [hsource, ← htext]
      simp
    have hless : c.remaining (stateAt (done ++ [t.piece]) cs.ahead)
        < c.remaining (stateAt done t.piece) := remaining_stateAt_lt hpieces t.ne_nil rfl
    have hrest : children (runBelow (weight c rule st)) c (stateAt (done ++ [t.piece]) cs.ahead) = _ :=
      children_read htypescript cs name (by simpa using hsource) (Nat.lt_trans hless hlt)
    change children _ c (stateAt done t.piece)
      = .ok () (stateAt (done ++ (t.piece :: cs.pieces ++ [opening, slash])) name.piece.bare)
    refine children_text t hreads hpieces ?_
    simpa [cs.bare_ahead] using hrest

end

/-! ## Statements and programs -/

section

variable (e : Element) (hjsx : c.jsx = true) (htypescript : c.typescript = false)
  (hsource : c.source = spell done ++ (spell e.pieces ++ (semi.text ++ rest)))
include hjsx htypescript hsource

theorem run_unary_element :
    run .unary c (stateAt done bracket) = .ok () (stateAt (done ++ e.pieces) semi) := by
  have helement : runBelow (weight c .unary (stateAt done bracket)) (.element .normal) c
      (stateAt done bracket) = .ok () (stateAt (done ++ e.pieces) semi) :=
    (runBelow_of_rank (by decide)).trans (run_element htypescript e readsIn_semi hsource)
  have hoperand : operand (runBelow (weight c .unary (stateAt done bracket))) c (stateAt done bracket)
      = .ok false (stateAt (done ++ e.pieces) semi) := by
    refine (angled_apply_jsx hjsx _).trans ?_
    rw [helement]
  have hsuffixed := suffixed_of_operand (.inr rfl) hoperand
  rw [run_apply]
  refine eq_of_yields ?_
  change Yields _ _ (unary _) _
  unfold unary
  rw [yields_bind, yields_cur, if_neg (by simp), yields_bind, yields_isName, if_neg (by simp)]
  simp [htypescript, yields_of_eq hsuffixed]

/-- An element with a semicolon behind it is a statement. -/
theorem run_statement_element {q : Piece} {rest' : Text} (hq : q.ReadsIn .normal rest')
    (hrest : rest = q.text ++ rest') :
    run .statement c (stateAt done bracket) = .ok () (stateAt (done ++ e.pieces ++ [semi]) q.bare) := by
  have hunary := run_unary_element e hjsx htypescript hsource
  have hassignment : run (.assignment false) c (stateAt done bracket)
      = .ok () (stateAt (done ++ e.pieces) semi) := by
    rw [run_apply]
    refine assignment_of_unary (.inr rfl) htypescript nofun ?_
    rw [runBelow_of_rank (by decide), hunary]
  have hexpression : expression (runBelow (weight c .statement (stateAt done bracket))) false c
      (stateAt done bracket) = _ :=
    expression_of_assignment (.inr rfl) ((runBelow_of_rank (by decide)).trans hassignment)
  have hnext : next c (stateAt (done ++ e.pieces) semi) = _ :=
    nextIn_stateAt hq (by rw [hsource, hrest]; simp)
  rw [run_apply]
  refine eq_of_yields ?_
  change Yields _ _ (expressionStatement _) _
  unfold expressionStatement semicolon eat
  simp [yields_of_eq hexpression, yields_of_eq hnext]

end

theorem initial_element (e : Element) :
    State.initial (spell (e.pieces ++ [semi])) = .ok (stateAt [] bracket) := by
  obtain ⟨name, ps, hpieces⟩ := e.exists_pieces
  obtain ⟨d, ds, htext, hd⟩ := name.exists_letter
  have hsource : spell (e.pieces ++ [semi]) = bracket.text ++ d :: (ds ++ spell (ps ++ [semi])) := by
    rw [hpieces]
    simp [Piece.text, Word.piece, htext, opening, bracket]
  have hdrop : Text.dropBytes? (spell (e.pieces ++ [semi])) 0 = some _ :=
    (Text.dropBytes?_append [] _).trans (congrArg some hsource)
  have hread : Lexer.next false (spell (e.pieces ++ [semi])) 0 = _ := readsIn_bracket hd _ _ hdrop
  have hstart : Lexer.startOffset (spell (e.pieces ++ [semi])) = 0 := by
    rw [hsource]
    rfl
  unfold State.initial
  rw [hstart, hread]
  rfl

/-- **The tokens of a tree are its pieces.** -/
theorem parse_print (e : Element) {o : Options} (hjsx : o.has .jsx = true)
    (htypescript : o.has .typescript = false) :
    parse (spell (e.pieces ++ [semi])) o = .ok (layOut 0 (e.pieces ++ [semi])).toArray := by
  obtain ⟨name, ps, hpieces⟩ := e.exists_pieces
  let c : Setting := .ofOptions (spell (e.pieces ++ [semi])) o
  have hsource : c.source = spell [] ++ (spell e.pieces ++ (semi.text ++ [])) := spell_append _ _
  have hstatement : run .statement c (stateAt [] bracket) = _ :=
    run_statement_element e hjsx htypescript hsource readsIn_finish rfl
  have hfirst : c.source = spell [] ++ (opening.text ++ (name.piece.text ++ (spell ps ++ semi.text))) := by
    rw [hsource, hpieces]
    simp
  have hless : c.remaining (stateAt ([] ++ (e.pieces ++ [semi])) finish) < c.remaining (stateAt [] opening) :=
    remaining_stateAt_lt hfirst (by decide) (by rw [hpieces]; rfl)
  have hprogram : program c (stateAt [] bracket) = .ok () (stateAt (e.pieces ++ [semi]) finish) := by
    refine eq_of_yields ?_
    unfold program repeatUntil
    rw [yields_repeatWhile, yields_bind, yields_is, yields_pure, if_pos (by simp), yields_of_eq hstatement]
    refine ⟨hless, ?_⟩
    rw [yields_repeatWhile, yields_bind, yields_is, yields_pure, if_neg (by simp)]
    exact ⟨rfl, rfl⟩
  unfold parse
  rw [initial_element]
  dsimp only [bind, Except.bind]
  rw [hprogram]
  rfl

end Downlevel.Grammar
