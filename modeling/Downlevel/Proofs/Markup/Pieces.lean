import Downlevel.Proofs.Lexer.Pieces

/-!
# The tokens of a tree of elements

The pieces of an element in the order they are written, and how each of them is read.
-/

namespace Downlevel.Markup

open Character Lexer

variable {rest : Text} {c : Char}

/-! ## Pieces -/

/-- The bracket that opens a tag. -/
def opening : Piece := { kind := .jsxTagStart, body := ['<'] }

/-- The bracket that ends a tag. -/
def ending : Piece := { kind := .jsxTagEnd, body := ['>'] }

/-- The slash of a closing tag. -/
def slash : Piece := { kind := .slash, body := ['/'] }

/-- The bracket that opens a tag, before it is known to do so. -/
def bracket : Piece := { kind := .lessThan, body := ['<'] }

def braceL : Piece := { kind := .braceL, body := ['{'] }

def braceR : Piece := { kind := .braceR, body := ['}'] }

def semi : Piece := { kind := .semi, body := [';'] }

/-- The end of the source. -/
def finish : Piece := { kind := .eof, body := [] }

/-- The name of an element, which is a reference unless it starts in lower case. -/
def Word.piece (name : Word) : Piece :=
  { kind := .jsxName, body := name.text,
    role := if name.text.head?.any isLower then none else some .access }

/-- A variable; `yield` is none, but stands where one can stand. -/
def Variable.piece (x : Variable) : Piece :=
  { kind := .name, body := x.text, role := if x.text = "yield".toList then none else some .access }

def Content.piece (t : Content) : Piece := { kind := .jsxText, body := t.text }

def Attribute.namePiece (a : Attribute) : Piece :=
  { kind := .jsxName, body := a.name.text, gap := [' '] }

def Value.piece (v : Value) : Piece := { kind := .string, body := '\x22' :: v.text ++ ['\x22'] }

def Value.pieces (v : Value) : List Piece := [{ kind := .eq, body := ['='] }, v.piece]

def Attribute.pieces (a : Attribute) : List Piece :=
  a.namePiece :: a.value.elim [] Value.pieces

@[simp] theorem kind_opening : opening.kind = .jsxTagStart := rfl

@[simp] theorem kind_ending : ending.kind = .jsxTagEnd := rfl

@[simp] theorem kind_slash : slash.kind = .slash := rfl

@[simp] theorem kind_braceL : braceL.kind = .braceL := rfl

@[simp] theorem kind_braceR : braceR.kind = .braceR := rfl

@[simp] theorem kind_bracket : bracket.kind = .lessThan := rfl

@[simp] theorem kind_finish : finish.kind = .eof := rfl

@[simp] theorem kind_semi : semi.kind = .semi := rfl

@[simp] theorem kind_word (name : Word) : name.piece.kind = .jsxName := rfl

@[simp] theorem kind_variable (x : Variable) : x.piece.kind = .name := rfl

@[simp] theorem kind_content (t : Content) : t.piece.kind = .jsxText := rfl

@[simp] theorem kind_namePiece (a : Attribute) : a.namePiece.kind = .jsxName := rfl

@[simp] theorem kind_value (v : Value) : v.piece.kind = .string := rfl

mutual

/-- The pieces of an element. -/
def Element.pieces : Element → List Piece
  | .mk name attributes children =>
    opening :: name.piece :: (attributes.flatMap Attribute.pieces
      ++ ending :: (children.pieces ++ [opening, slash, name.piece, ending]))

/-- The pieces between two tags. -/
def Children.pieces {mayBeText : Bool} : Children mayBeText → List Piece
  | .nil => []
  | .element e rest => e.pieces ++ rest.pieces
  | .braces x rest => braceL :: x.piece :: braceR :: rest.pieces
  | .text t rest => t.piece :: rest.pieces

end

/-! ## What they spell -/

theorem spell_attribute (a : Attribute) : spell a.pieces = a.print := by
  unfold Attribute.pieces Attribute.print
  cases a.value <;> simp [Attribute.namePiece, Value.pieces, Value.piece, Piece.text]

theorem spell_attributes (as : List Attribute) :
    spell (as.flatMap Attribute.pieces) = as.flatMap Attribute.print := by
  induction as with
  | nil => rfl
  | cons a as ih =>
    rw [List.flatMap_cons, spell_append, spell_attribute, ih, List.flatMap_cons]

theorem Element.pieces_mk (name : Word) (as : List Attribute) (cs : Children true) :
    (Element.mk name as cs).pieces = opening :: name.piece :: (as.flatMap Attribute.pieces
      ++ ending :: (cs.pieces ++ [opening, slash, name.piece, ending])) := rfl

section

variable {mayBeText : Bool}

theorem Children.pieces_element (e : Element) (cs : Children true) :
    (Children.element e cs : Children mayBeText).pieces = e.pieces ++ cs.pieces := rfl

theorem Children.pieces_braces (x : Variable) (cs : Children true) :
    (Children.braces x cs : Children mayBeText).pieces = braceL :: x.piece :: braceR :: cs.pieces := rfl

theorem Children.pieces_text (t : Content) (cs : Children false) :
    (Children.text t cs).pieces = t.piece :: cs.pieces := rfl

end

theorem Element.length_pieces (name : Word) (as : List Attribute) (cs : Children true) :
    (Element.mk name as cs).pieces.length
      = (as.flatMap Attribute.pieces).length + cs.pieces.length + 7 := by
  rw [Element.pieces_mk]
  simp only [List.length_cons, List.length_append, List.length_nil]
  omega

mutual

theorem Element.spell_pieces : ∀ e : Element, spell e.pieces = e.print
  | .mk name as cs => by
    change _ = "<".toList ++ name.text ++ as.flatMap Attribute.print ++ ">".toList
      ++ cs.print ++ "</".toList ++ name.text ++ ">".toList
    rw [Element.pieces_mk, ← cs.spell_pieces, ← spell_attributes]
    simp [opening, ending, slash, Word.piece, Piece.text]

theorem Children.spell_pieces {mayBeText : Bool} :
    ∀ cs : Children mayBeText, spell cs.pieces = cs.print
  | .nil => rfl
  | .element e rest => by
    change spell (e.pieces ++ rest.pieces) = e.print ++ rest.print
    rw [spell_append, e.spell_pieces, rest.spell_pieces]
  | .braces x rest => by
    change '{' :: (x.text ++ '}' :: spell rest.pieces) = '{' :: (x.text ++ ['}'] ++ rest.print)
    rw [rest.spell_pieces, List.append_assoc]
    rfl
  | .text t rest => by
    change t.text ++ spell rest.pieces = t.text ++ rest.print
    rw [rest.spell_pieces]

end

/-! ## What they stand for -/

theorem role_attribute {a : Attribute} {q : Piece} (h : q ∈ a.pieces) : q.role = none := by
  unfold Attribute.pieces at h
  cases hvalue : a.value with
  | none =>
    simp only [hvalue, Option.elim_none, List.mem_singleton] at h
    rw [h]
    rfl
  | some v =>
    simp only [hvalue, Option.elim_some, Value.pieces, List.mem_cons, List.not_mem_nil, or_false] at h
    rcases h with rfl | rfl | rfl <;> rfl

mutual

/-- No piece of an element is a key. -/
theorem Element.role_pieces : ∀ (e : Element) {q : Piece}, q ∈ e.pieces → q.role ≠ some .key
  | .mk name as cs, q, h => by
    have hname : name.piece.role ≠ some .key := by
      unfold Word.piece
      dsimp only
      split <;> nofun
    rw [Element.pieces_mk] at h
    simp only [List.mem_cons, List.mem_append, List.not_mem_nil, or_false, List.mem_flatMap] at h
    rcases h with rfl | rfl | ⟨a, -, h⟩ | rfl | h | rfl | rfl | rfl | rfl
    · nofun
    · exact hname
    · rw [role_attribute h]
      nofun
    · nofun
    · exact cs.role_pieces h
    · nofun
    · nofun
    · exact hname
    · nofun

theorem Children.role_pieces {mayBeText : Bool} :
    ∀ (cs : Children mayBeText) {q : Piece}, q ∈ cs.pieces → q.role ≠ some .key
  | .nil, q, h => nomatch h
  | .element e cs, q, h => by
    rw [Children.pieces_element, List.mem_append] at h
    exact h.elim e.role_pieces cs.role_pieces
  | .braces x cs, q, h => by
    rw [Children.pieces_braces] at h
    simp only [List.mem_cons] at h
    rcases h with rfl | rfl | rfl | h
    · nofun
    · unfold Variable.piece
      dsimp only
      split <;> nofun
    · nofun
    · exact cs.role_pieces h
  | .text t cs, q, h => by
    rw [Children.pieces_text, List.mem_cons] at h
    rcases h with rfl | h
    · nofun
    · exact cs.role_pieces h

end

/-! ## How they are read -/

/-- A mark of a tag. -/
theorem readsIn_tagMark {kind : Kind} (hmark : tagMark? c = some kind)
    (hspace : isWhitespace c = false) (hslash : c ≠ '/') :
    Piece.ReadsIn { kind, body := [c] } .tag rest := by
  obtain ⟨hsize, hkind⟩ := utf8Size_of_tagMark? hmark
  refine readsIn_tag hkind (fun pos => skipGap_of_ne hspace hslash) fun pos => ?_
  simp only [List.singleton_append, tagToken, hmark, Text.size_cons, Text.size_nil, hsize]

theorem readsIn_opening : opening.ReadsIn .child rest :=
  readsIn_child rfl fun _ => rfl

theorem readsIn_ending : ending.ReadsIn .tag rest :=
  readsIn_tagMark rfl (by decide) (by decide)

theorem readsIn_eq : Piece.ReadsIn { kind := .eq, body := ['='] } .tag rest :=
  readsIn_tagMark rfl (by decide) (by decide)

theorem readsIn_slash (hc : isLetter c = true) :
    slash.ReadsIn .tag (c :: rest) := by
  obtain ⟨-, -, -, hne⟩ := isIdStart_of_isLetter hc
  refine readsIn_tag nofun (fun pos => skipGap_slash fun h => hne ?_) fun pos => rfl
  exact List.mem_append_left ['\\'] h

theorem readsIn_braceL : braceL.ReadsIn .child rest :=
  readsIn_child rfl fun _ => rfl

theorem readsIn_braceR : braceR.ReadsIn .normal rest := by
  refine readsIn_normal (fun pos => skipGap_of_ne (by decide) (by decide)) fun pos => ?_
  rfl

theorem readsIn_semi : semi.ReadsIn .normal rest := by
  refine readsIn_normal (fun pos => skipGap_of_ne (by decide) (by decide)) fun pos => ?_
  rfl

theorem readsIn_finish : finish.ReadsIn .normal [] :=
  readsIn_normal (fun _ => rfl) fun _ => rfl

theorem readsIn_bracket (hc : isLetter c = true) :
    bracket.ReadsIn .normal (c :: rest) := by
  have hne : '<' ≠ c ∧ '=' ≠ c := by
    constructor <;> (rintro rfl; exact absurd hc (by decide))
  have hcut : IsCut ('<' :: c :: rest) ['<'] .lessThan :=
    isCut_cons rfl rfl (by simp) (by simp) (by simp [hne])
  refine readsIn_normal (fun pos => skipGap_of_ne (by decide) (by decide)) fun pos => ?_
  exact (codeToken_eq_iff rfl).mpr ⟨rfl, _, hcut, rfl⟩

/-- The text does not go on with a character of a name. -/
def EndsName (rest : Text) : Prop :=
  ∀ c cs, rest = c :: cs → (c == '-' || isIdContinue c) = false

theorem takeWhile_word {p : Char → Bool} {text rest : Text} (htext : ∀ c ∈ text, p c = true)
    (hrest : ∀ c cs, rest = c :: cs → p c = false) : (text ++ rest).takeWhile p = text := by
  rw [List.takeWhile_append_of_pos htext]
  cases rest with
  | nil => simp
  | cons c cs => rw [List.takeWhile_cons_of_neg (by simp [hrest c cs rfl]), List.append_nil]

theorem tagMark?_of_isLetter (h : isLetter c = true) :
    tagMark? c = none ∧ (c == '\x22' || c == '\x27') = false := by
  have hc := toNat_lt_of_isLetter h
  revert h
  exact of_ascii hc (by decide)

theorem Word.exists_letter (name : Word) :
    ∃ c cs, name.text = c :: cs ∧ isLetter c = true := by
  cases htext : name.text with
  | nil => exact absurd htext name.ne_nil
  | cons c cs => exact ⟨c, cs, rfl, name.letters c (by rw [htext]; exact List.mem_cons_self ..)⟩

theorem tagToken_word (name : Word) (hrest : EndsName rest) (pos : Nat) :
    tagToken pos (name.text ++ rest) = .ok .jsxName (pos + Text.size name.text) := by
  have htake : (name.text ++ rest).takeWhile (fun d => d == '-' || isIdContinue d) = name.text := by
    refine takeWhile_word (fun c hc => ?_) hrest
    rw [(isIdStart_of_isLetter (name.letters c hc)).2.1, Bool.or_true]
  obtain ⟨c, cs, htext, hc⟩ := name.exists_letter
  obtain ⟨hmark, hquote⟩ := tagMark?_of_isLetter hc
  rw [htext, List.cons_append] at htake ⊢
  simp only [tagToken, hmark, hquote, (isIdStart_of_isLetter hc).1, htake]
  rfl

theorem skipGap_word (name : Word) {nl : Bool} (pos : Nat) :
    skipGap .space nl pos (name.text ++ rest) = .ok (nl, name.text ++ rest) pos := by
  obtain ⟨c, cs, htext, hc⟩ := name.exists_letter
  obtain ⟨-, -, hspace, hne⟩ := isIdStart_of_isLetter hc
  rw [htext]
  exact skipGap_of_ne hspace fun h => hne (by simp [h])

theorem Word.readsIn (name : Word) (hrest : EndsName rest) :
    name.piece.ReadsIn .tag rest :=
  readsIn_tag nofun (fun pos => skipGap_word name pos) fun pos => tagToken_word name hrest pos

theorem Attribute.readsIn_name (a : Attribute) (hrest : EndsName rest) :
    a.namePiece.ReadsIn .tag rest := by
  refine readsIn_tag nofun (fun pos => ?_) fun pos => tagToken_word a.name hrest pos
  exact skipGap_blank.trans (skipGap_word a.name (pos + 1))

theorem Value.readsIn (v : Value) : v.piece.ReadsIn .tag rest := by
  have hquote : '\x22' ∉ v.text := fun h => not_mem_of_plain (v.plain _ h) (by simp)
  refine readsIn_tag nofun (fun pos => skipGap_of_ne (by decide) (by decide)) fun pos => ?_
  simp only [Value.piece, List.cons_append, List.append_assoc]
  have hmark : tagMark? '\x22' = none := rfl
  have hsize : Char.utf8Size '\x22' = 1 := rfl
  simp only [tagToken, hmark, Text.cut_append hquote]
  rw [if_pos (by decide)]
  simp only [Text.size_cons, Text.size_append, Text.size_nil, hsize]
  congr 1
  omega

theorem Content.readsIn (t : Content) (hc : c = '<' ∨ c = '{') :
    t.piece.ReadsIn .child (c :: rest) := by
  have hplain (d : Char) (hd : d ∈ t.text) : (d != '<' && d != '{') = true := by
    have hne := not_mem_of_plain ((t.plain d hd).imp_right .inl)
    simp only [List.mem_cons, not_or] at hne
    simp [hne.1, hne.2.1]
  have htake : (t.text ++ c :: rest).takeWhile (fun d => d != '<' && d != '{') = t.text := by
    refine takeWhile_word hplain fun d ds heq => ?_
    obtain ⟨rfl, -⟩ := List.cons.inj heq
    rcases hc with rfl | rfl <;> decide
  refine readsIn_child rfl fun pos => ?_
  change childToken pos (t.text ++ c :: rest) = .ok .jsxText (pos + Text.size t.text)
  cases htext : t.text with
  | nil => exact absurd htext t.ne_nil
  | cons d ds =>
    have hd := hplain d (by rw [htext]; exact List.mem_cons_self ..)
    rw [htext] at htake
    rw [List.cons_append] at htake ⊢
    rw [childToken, htake]
    · nofun
    · intro _ heq
      obtain ⟨rfl, -⟩ := List.cons.inj heq
      cases hd
    · intro _ heq
      obtain ⟨rfl, -⟩ := List.cons.inj heq
      cases hd

/-- A word of letters is read up to its end. -/
theorem skipWord_letters {text rest : Text} (htext : ∀ c ∈ text, isLetter c = true)
    (hrest : ∀ first esc pos, skipWord (.plain first) esc pos rest = .ok esc pos) {first esc : Bool}
    {pos : Nat} : skipWord (.plain first) esc pos (text ++ rest) = .ok esc (pos + Text.size text) := by
  induction text generalizing first pos with
  | nil => exact hrest first esc pos
  | cons c text ih =>
    obtain ⟨hstart, hcontinue, -, hne⟩ := isIdStart_of_isLetter (htext c (List.mem_cons_self ..))
    simp only [List.mem_cons, not_or] at hne
    have hgood : (if first = true then isIdStart c else isIdContinue c) = true := by
      rw [hstart, hcontinue, ite_self]
    rw [List.cons_append, skipWord, if_pos hgood, ih fun d hd => htext d (List.mem_cons_of_mem _ hd)]
    · rw [Text.size_cons, Nat.add_assoc]
    all_goals
      intros
      exact absurd ‹c = '\\'› hne.2.2.1

theorem Variable.readsIn (x : Variable) : x.piece.ReadsIn .normal ('}' :: rest) := by
  have hend (first esc : Bool) (pos : Nat) :
      skipWord (.plain first) esc pos ('}' :: rest) = .ok esc pos := by
    rw [skipWord, if_neg (by cases first <;> decide)] <;> simp
  refine readsIn_normal (fun pos => skipGap_word x.toWord pos) fun pos => ?_
  have hskip : skipWord (.plain true) false pos (x.text ++ '}' :: rest)
      = .ok false (pos + Text.size x.text) := skipWord_letters x.letters hend
  have hpos := Text.size_pos_iff.mpr x.ne_nil
  have hword : word pos (x.text ++ '}' :: rest) = .ok .name (pos + Text.size x.text) := by
    unfold word
    rw [hskip]
    simp only
    rw [if_neg (by omega), if_neg Bool.false_ne_true, Nat.add_sub_cancel_left, Text.takeBytes_append,
      x.notKeyword]
    rfl
  change codeToken false pos (x.text ++ '}' :: rest) = _
  obtain ⟨c, cs, htext, hc⟩ := x.toWord.exists_letter
  rw [htext, List.cons_append] at hword ⊢
  unfold codeToken
  dsimp only
  rw [if_pos (by rw [(isIdStart_of_isLetter hc).1, Bool.or_true])]
  rw [hword, ← htext]
  rfl

/-! ## What comes next -/

/-- The piece ahead can stand behind a name in a tag. -/
def GoesOn (q : Piece) (rest : Text) : Prop :=
  q.ReadsIn .tag rest ∧ EndsName (q.text ++ rest) ∧ (q.kind = .jsxName ∨ q.kind = .jsxTagEnd)

theorem goesOn_ending : GoesOn ending rest := by
  refine ⟨readsIn_ending, ?_, .inr rfl⟩
  intro c cs h
  obtain ⟨rfl, -⟩ := List.cons.inj h
  decide

theorem goesOn_attribute (a : Attribute) (hrest : EndsName rest) : GoesOn a.namePiece rest := by
  refine ⟨a.readsIn_name hrest, ?_, .inl rfl⟩
  intro c cs h
  obtain ⟨rfl, -⟩ := List.cons.inj h
  decide

/-- The piece that attributes start with, or that stands behind none of them. -/
def aheadOf : List Attribute → Piece
  | [] => ending
  | a :: _ => a.namePiece

theorem bare_aheadOf (as : List Attribute) : (aheadOf as).bare = aheadOf as := by
  cases as <;> rfl

theorem endsName_value (v : Value) : EndsName (spell v.pieces ++ rest) := by
  intro c cs h
  obtain ⟨rfl, -⟩ := List.cons.inj h
  decide

/-- What stands behind a name in a tag, up to the end of the tag. -/
theorem exists_goesOn (as : List Attribute) (rest : Text) :
    ∃ rest', as.flatMap Attribute.print ++ (ending.text ++ rest) = (aheadOf as).text ++ rest'
      ∧ GoesOn (aheadOf as) rest' := by
  induction as with
  | nil => exact ⟨rest, rfl, goesOn_ending⟩
  | cons a as ih =>
    obtain ⟨rest', htext, -, hends, -⟩ := ih
    refine ⟨spell (a.value.elim [] Value.pieces) ++ ((aheadOf as).text ++ rest'), ?_, ?_⟩
    · rw [List.flatMap_cons, List.append_assoc, htext, ← spell_attribute, Attribute.pieces, spell_cons,
        List.append_assoc]
      rfl
    · refine goesOn_attribute a ?_
      cases a.value with
      | none => exact hends
      | some v => exact endsName_value v

/-- The closing tag of an element. -/
def closing (name : Word) : List Piece :=
  [opening, slash, name.piece, ending]

/-- The piece that children start with, or that stands behind none of them. -/
def Children.ahead {mayBeText : Bool} : Children mayBeText → Piece
  | .nil | .element .. => opening
  | .braces .. => braceL
  | .text t _ => t.piece

theorem Children.bare_ahead {mayBeText : Bool} (cs : Children mayBeText) : cs.ahead.bare = cs.ahead := by
  cases cs <;> rfl

theorem Element.exists_pieces (e : Element) :
    ∃ (name : Word) (ps : List Piece), e.pieces = opening :: name.piece :: ps := by
  cases e with
  | mk name as cs => exact ⟨name, _, rfl⟩

/-- Children that do not start with a text start with a bracket or a brace. -/
theorem Children.exists_mark (cs : Children false) (name : Word) (rest : Text) :
    ∃ c rest', spell (cs.pieces ++ closing name) ++ rest = c :: rest' ∧ (c = '<' ∨ c = '{') := by
  cases cs with
  | nil => exact ⟨_, _, rfl, .inl rfl⟩
  | element e cs =>
    obtain ⟨_, ps, hpieces⟩ := e.exists_pieces
    refine ⟨'<', spell (e.pieces.tail ++ cs.pieces ++ closing name) ++ rest, ?_, .inl rfl⟩
    change spell (e.pieces ++ cs.pieces ++ closing name) ++ rest = _
    rw [hpieces]
    rfl
  | braces x cs => exact ⟨_, _, rfl, .inr rfl⟩

/-- What stands in front of the children of an element is read in such a way that they come next. -/
theorem Children.exists_ahead {mayBeText : Bool} (cs : Children mayBeText) (name : Word) (rest : Text) :
    ∃ rest', spell (cs.pieces ++ closing name) ++ rest = cs.ahead.text ++ rest'
      ∧ cs.ahead.ReadsIn .child rest' := by
  cases cs with
  | nil => exact ⟨_, rfl, readsIn_opening⟩
  | element e cs =>
    obtain ⟨_, ps, hpieces⟩ := e.exists_pieces
    refine ⟨spell (e.pieces.tail ++ cs.pieces ++ closing name) ++ rest, ?_, readsIn_opening⟩
    change spell (e.pieces ++ cs.pieces ++ closing name) ++ rest = _
    rw [hpieces]
    rfl
  | braces x cs => exact ⟨_, rfl, readsIn_braceL⟩
  | text t cs =>
    obtain ⟨c, rest', htext, hc⟩ := cs.exists_mark name rest
    refine ⟨c :: rest', ?_, t.readsIn hc⟩
    rw [← htext]
    exact List.append_assoc ..

end Downlevel.Markup
