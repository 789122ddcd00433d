import Downlevel.Proofs.Lexer.Punctuator
import Downlevel.Proofs.Lexer.Word

/-!
# Spans of tokens

Every way of reading a token goes through the characters of the token, one
after the other, and stops after the last of them.  A token is only empty at
the end of the source and between the marks of a template.
-/

namespace Downlevel

/-- Kinds that only tokens of elements have. -/
def Kind.isMarkup : Kind → Bool
  | .jsxName | .jsxText | .jsxTagStart | .jsxTagEnd => true
  | _ => false

/-- Kinds of numbers, and of the marks of ordinary code. -/
def Kind.isCodeMark (kind : Kind) : Bool :=
  !(kind.isNameLike || kind.isMarkup || kind == .string || kind == .privateName
    || kind == .template || kind == .eof)

theorem Kind.of_isNameLike (kind : Kind) :
    kind.isNameLike = true → kind.isMarkup = false ∧ kind ≠ .template ∧ kind ≠ .eof := by
  cases kind <;> decide

theorem Kind.of_isCodeMark (kind : Kind) :
    kind.isCodeMark = true →
      kind.isMarkup = false ∧ kind ≠ .template ∧ kind ≠ .eof ∧ kind.isNameLike = false := by
  cases kind <;> decide

namespace Lexer

open Character

variable {inType : Bool}

/-- A scan of `cs` from offset `pos` that stops between two characters. -/
def Reaches (pos : Nat) (cs : Text) (stop : Nat) : Prop :=
  ∃ body rest, cs = body ++ rest ∧ stop = pos + Text.size body

section

variable {pos stop : Nat} {cs : Text} {c : Char} {rest : Text} {start : Nat} {a : Unit}
  {kind : Kind}

namespace Reaches

theorem refl : Reaches pos cs pos := ⟨[], cs, rfl, rfl⟩

theorem prepend (pre : Text) (h : Reaches (pos + Text.size pre) cs stop) :
    Reaches pos (pre ++ cs) stop := by
  obtain ⟨body, rest, rfl, rfl⟩ := h
  exact ⟨pre ++ body, rest, by simp, by simp [Nat.add_assoc]⟩

theorem cons (h : Reaches (pos + c.utf8Size) cs stop) : Reaches pos (c :: cs) stop :=
  prepend [c] h

theorem le (h : Reaches pos cs stop) : pos ≤ stop := by
  obtain ⟨body, rest, -, rfl⟩ := h
  exact Nat.le_add_right _ _

theorem lt_of_cons (h : Reaches (pos + c.utf8Size) cs stop) : pos < stop :=
  Nat.lt_of_lt_of_le (Nat.lt_add_of_pos_right c.utf8Size_pos) h.le

theorem takeWhile (p : Char → Bool) : Reaches pos cs (pos + Text.size (cs.takeWhile p)) :=
  ⟨cs.takeWhile p, cs.dropWhile p, List.takeWhile_append_dropWhile.symm, rfl⟩

theorem lt_takeWhile {p : Char → Bool} (hc : p c = true) :
    pos < pos + Text.size ((c :: cs).takeWhile p) := by
  rw [List.takeWhile_cons_of_pos hc, Text.size_cons]
  have := c.utf8Size_pos
  omega

theorem past (h : rest <:+ cs) : Reaches pos cs (past pos cs rest) := by
  obtain ⟨body, rfl⟩ := h
  refine ⟨body, rest, rfl, ?_⟩
  rw [Lexer.past, Text.size_append, Nat.add_sub_cancel]

end Reaches

/-! ## Words -/

theorem isKeyword_of_keyword? {text : Text} (h : Kind.keyword? text = some kind) :
    kind.isKeyword = true := by
  obtain ⟨l₁, l₂, hmem, -⟩ := List.lookup_eq_some_iff.mp h
  refine List.any_eq_true.mpr ⟨(text, kind), ?_, beq_self_eq_true kind⟩
  rw [hmem]
  exact List.mem_append_right _ (List.mem_cons_self ..)

/-- A word has at least one letter. -/
theorem exists_of_word (h : word pos cs = .ok kind stop) :
    kind.isNameLike = true ∧ ∃ letters rest, AreLetters true letters ∧ letters ≠ []
      ∧ cs = spelling letters ++ rest ∧ stop = pos + Text.size (spelling letters) := by
  unfold word at h
  cases hskip : skipWord (.plain true) false pos cs with
  | error failure reached => simp [hskip] at h
  | ok escaped stop' =>
    obtain ⟨letters, rest, hletters, hcs, hstop⟩ := letters_of_skipWord hskip
    simp only [hskip] at h
    split at h
    · cases h
    · rename_i hne
      have hnil : letters ≠ [] := by
        rintro rfl
        exact hne hstop
      split at h <;> obtain ⟨rfl, rfl⟩ := EStateM.Result.ok.inj h
      · exact ⟨rfl, letters, rest, hletters, hnil, hcs, hstop⟩
      · refine ⟨?_, letters, rest, hletters, hnil, hcs, hstop⟩
        cases hword : Kind.keyword? (Text.takeBytes cs (stop' - pos)) with
        | none => rfl
        | some kind => simp [Kind.isNameLike, isKeyword_of_keyword? hword]

theorem exists_of_privateName (h : privateName pos cs = .ok kind stop) :
    kind = .privateName ∧ ∃ letters rest, AreLetters true letters
      ∧ cs = spelling letters ++ rest ∧ stop = pos + 1 + Text.size (spelling letters) := by
  unfold privateName at h
  split at h
  · cases hskip : skipWord (.plain true) false (pos + 1) cs with
    | error failure reached => simp [hskip] at h
    | ok escaped stop' =>
      simp only [hskip] at h
      cases h
      exact ⟨rfl, letters_of_skipWord hskip⟩
  · cases h

/-! ## Numbers -/

/-- `rest` is what follows in `cs` after characters that are no backslashes. -/
def Leaves (cs rest : Text) : Prop :=
  ∃ body, cs = body ++ rest ∧ '\\' ∉ body

namespace Leaves

theorem refl (cs : Text) : Leaves cs cs := ⟨[], rfl, by simp⟩

theorem cons (hc : '\\' ≠ c) (h : Leaves cs rest) :
    Leaves (c :: cs) rest := by
  obtain ⟨body, rfl, hbody⟩ := h
  exact ⟨c :: body, rfl, by simp [hc, hbody]⟩

theorem trans {rest rest' : Text} (h : Leaves cs rest) (h' : Leaves rest rest') :
    Leaves cs rest' := by
  obtain ⟨body, rfl, hbody⟩ := h
  obtain ⟨body', rfl, hbody'⟩ := h'
  exact ⟨body ++ body', by simp, by simp [hbody, hbody']⟩

theorem suffix (h : Leaves cs rest) : rest <:+ cs := by
  obtain ⟨body, rfl, -⟩ := h
  exact List.suffix_append _ _

theorem dropDigits {p : Char → Bool} (hp : p '\\' = false) (cs : Text) :
    Leaves cs (dropDigits p cs) := by
  refine ⟨_, List.takeWhile_append_dropWhile.symm, fun hmem => ?_⟩
  have hall := List.mem_takeWhile_imp hmem
  simp [hp] at hall

theorem dropFraction (cs : Text) : Leaves cs (dropFraction cs) := by
  unfold Lexer.dropFraction
  split
  · exact (dropDigits (by decide) _).cons (by decide)
  · exact .refl _

theorem dropSign (cs : Text) : Leaves cs (dropSign cs) := by
  unfold Lexer.dropSign
  split
  · exact (refl _).cons (by decide)
  · exact (refl _).cons (by decide)
  · exact .refl _

theorem dropExponent (cs : Text) : Leaves cs (dropExponent cs) := by
  unfold Lexer.dropExponent
  split
  · exact ((dropSign _).trans (dropDigits (by decide) _)).cons (by decide)
  · exact ((dropSign _).trans (dropDigits (by decide) _)).cons (by decide)
  · exact .refl _

theorem numberSuffix (cs : Text) : Leaves cs (numberSuffix cs).2 := by
  unfold Lexer.numberSuffix
  split
  · exact (refl _).cons (by decide)
  · exact .refl _

/-- A decimal literal has at least the character it is recognized by. -/
theorem dropDecimal_cons (hc : isDigit c = true ∨ c = '.') :
    Leaves cs (Lexer.dropDecimal (c :: cs)) := by
  unfold Lexer.dropDecimal
  refine trans ?_ (dropExponent _)
  rcases hc with hc | rfl
  · have hdigits : Lexer.dropDigits isDigit (c :: cs) = Lexer.dropDigits isDigit cs := by
      simp [Lexer.dropDigits, hc]
    rw [hdigits]
    exact (dropDigits (by decide) _).trans (dropFraction _)
  · exact dropDigits (by decide) _

theorem dropNumber_cons (hc : isDigit c = true ∨ c = '.') :
    Leaves cs (dropNumber (c :: cs)) := by
  unfold Lexer.dropNumber
  split
  · rename_i mark ds heq
    obtain ⟨rfl, rfl⟩ := List.cons.inj heq
    have hmark : ∀ {p : Char → Bool} {a b : Char}, (mark == a || mark == b) = true →
        p '\\' = false → '\\' ≠ a → '\\' ≠ b → Leaves (mark :: ds) (Lexer.dropDigits p ds) := by
      intro p a b hmark hp ha hb
      refine (dropDigits hp ds).cons ?_
      rcases Bool.or_eq_true_iff.mp hmark with h | h <;> rw [eq_of_beq h]
      · exact ha
      · exact hb
    repeat' split
    · exact hmark ‹_› (by decide) (by decide) (by decide)
    · exact hmark ‹_› (by decide) (by decide) (by decide)
    · exact hmark ‹_› (by decide) (by decide) (by decide)
    · exact dropDecimal_cons hc
  · exact dropDecimal_cons hc

end Leaves

theorem numberSuffix_kind (cs : Text) :
    (numberSuffix cs).1 = .bigInt ∨ (numberSuffix cs).1 = .num := by
  unfold numberSuffix
  split
  · exact .inl rfl
  · exact .inr rfl

/-- What a number is recognized by. -/
theorem isDigit_or_eq (h : (isDigit c || (c == '.' && cs.head?.any isDigit)) = true) :
    isDigit c = true ∨ c = '.' := by
  rcases Bool.or_eq_true_iff.mp h with hc | hc
  · exact .inl hc
  · exact .inr (eq_of_beq (Bool.and_eq_true_iff.mp hc).1)

/-- What comes after a number. -/
theorem leaves_number (hc : isDigit c = true ∨ c = '.') :
    Leaves cs (numberSuffix (dropNumber (c :: cs))).2 :=
  (Leaves.dropNumber_cons hc).trans (.numberSuffix _)

/-- A number has at least one character, and no backslash. -/
theorem exists_of_number (hc : isDigit c = true ∨ c = '.')
    (h : number pos (c :: cs) = .ok kind stop) :
    (kind = .bigInt ∨ kind = .num) ∧ ∃ body rest, c :: cs = c :: body ++ rest ∧ '\\' ∉ c :: body
      ∧ stop = pos + Text.size (c :: body) := by
  have hkind := numberSuffix_kind (dropNumber (c :: cs))
  unfold number at h
  simp only at h
  split at h
  · cases h
  · cases h
    obtain ⟨body, hcs, hbody⟩ := leaves_number hc
    have hne : '\\' ≠ c := by
      rintro rfl
      exact absurd hc (by decide)
    refine ⟨hkind, body, _, by rw [List.cons_append, ← hcs], by simp [hne, hbody], ?_⟩
    rw [past, Text.size_cons, Text.size_cons]
    have hsize := congrArg Text.size hcs
    rw [Text.size_append] at hsize
    omega

/-! ## Literals -/

theorem reaches_of_skipString {quote : Char} (hquote : quote.utf8Size = 1)
    (h : skipString quote start pos cs = .ok a stop) : Reaches pos cs stop := by
  fun_induction skipString quote start pos cs with
  | case1 pos cs ih => exact Reaches.prepend ['\\', '\r', '\n'] (ih h)
  | case2 pos c cs _ ih => exact Reaches.cons (Reaches.cons (ih h))
  | case3 => cases h
  | case4 => cases h
  | case5 pos c cs _ _ _ _ hc =>
    cases h
    have hsize : c.utf8Size = 1 := (eq_of_beq hc) ▸ hquote
    exact Reaches.cons (hsize ▸ Reaches.refl)
  | case6 pos c cs _ _ _ _ _ ih => exact Reaches.cons (ih h)
  | case7 => cases h

theorem reaches_of_skipRegex {inClass : Bool} (h : skipRegex start inClass pos cs = .ok a stop) :
    Reaches pos cs stop := by
  fun_induction skipRegex start inClass pos cs with
  | case1 inClass pos c cs ih => exact Reaches.cons (Reaches.cons (ih h))
  | case2 => cases h
  | case3 => cases h
  | case4 inClass pos c cs _ _ _ hc =>
    cases h
    have hslash : c = '/' := eq_of_beq (Bool.and_eq_true_iff.mp hc).1
    subst hslash
    exact Reaches.cons (Reaches.takeWhile _)
  | case5 inClass pos c cs _ _ _ _ ih => exact Reaches.cons (ih h)
  | case6 => cases h

theorem reaches_of_skipTemplate (h : skipTemplate start pos cs = .ok a stop) :
    Reaches pos cs stop := by
  fun_induction skipTemplate start pos cs with
  | case1 =>
    cases h
    exact Reaches.refl
  | case2 =>
    cases h
    exact Reaches.refl
  | case3 pos c cs ih => exact Reaches.cons (Reaches.cons (ih h))
  | case4 => cases h
  | case5 pos c cs _ _ _ _ ih => exact Reaches.cons (ih h)
  | case6 => cases h

/-! ## Punctuators -/

/-- A punctuator is made of characters of one byte. -/
theorem exists_of_punctuator? {length : Nat}
    (h : punctuator? inType cs = some (kind, length)) :
    kind.isCodeMark = true ∧ ∃ body rest, cs = body ++ rest ∧ '\\' ∉ body ∧ body ≠ []
      ∧ Text.size body = length := by
  have htable : ∀ p ∈ punctuators, p.2.isCodeMark = true ∧ '\\' ∉ p.1 ∧ p.1 ≠ []
      ∧ Text.size p.1 = p.1.length := by decide
  obtain ⟨mark, hmem, ⟨rest, hcs⟩, hlength⟩ := mem_of_punctuator? h
  obtain ⟨hkind, hbackslash, hne, hsize⟩ := htable _ hmem
  exact ⟨hkind, mark, rest, hcs.symm, hbackslash, hne, hsize.trans hlength⟩

/-! ## Tokens -/

/-- What a reader of tokens does: it goes through whole characters, finds the end
of the source nowhere else, and is content with no character only there and in a
template. -/
structure Lexeme (pos : Nat) (cs : Text) (kind : Kind) (stop : Nat) : Prop where
  reaches : Reaches pos cs stop
  empty : stop = pos → kind = .template ∨ kind = .eof
  eof : kind = .eof → cs = []

namespace Lexeme

theorem of_lt (h : Reaches pos cs stop) (hlt : pos < stop) (hkind : kind ≠ .eof) :
    Lexeme pos cs kind stop :=
  ⟨h, fun heq => absurd heq (Nat.ne_of_gt hlt), fun heq => absurd heq hkind⟩

theorem atEnd : Lexeme pos [] .eof pos :=
  ⟨Reaches.refl, fun _ => .inr rfl, fun _ => rfl⟩

/-- A mark of one byte. -/
theorem mark (hc : c.utf8Size = 1) (hkind : kind ≠ .eof) :
    Lexeme pos (c :: cs) kind (pos + 1) :=
  .of_lt (Reaches.cons (hc ▸ Reaches.refl)) (Nat.lt_succ_self pos) hkind

end Lexeme

theorem utf8Size_of_quote (h : (c == '\x22' || c == '\x27') = true) :
    c.utf8Size = 1 := by
  rcases Bool.or_eq_true_iff.mp h with h | h <;> rw [eq_of_beq h] <;> rfl

/-- What is known of a token of ordinary code by its text and the rest of the source. -/
structure CodeLexeme (kind : Kind) (body rest : Text) : Prop where
  isMarkup : kind.isMarkup = false
  ne_template : kind ≠ .template
  eof : body = [] ∨ kind = .eof → body ++ rest = [] ∧ kind = .eof
  letters : kind ≠ .string → ∃ letters, (∀ l ∈ letters, l.IsValid) ∧ body = spelling letters
  word : kind.isNameLike = true → ∃ letters, AreLetters true letters ∧ body = spelling letters

/-- A token without a backslash. -/
theorem CodeLexeme.of_notMem {body rest : Text} (hkind : kind.isCodeMark = true)
    (hbody : '\\' ∉ body) (hne : body ≠ []) : CodeLexeme kind body rest := by
  have hkinds := kind.of_isCodeMark hkind
  refine ⟨hkinds.1, hkinds.2.1, ?_, fun _ => ⟨_, isValid_plain hbody, (spelling_plain body).symm⟩,
    ?_⟩
  · rintro (hnil | heof)
    · exact absurd hnil hne
    · exact absurd heof hkinds.2.2.1
  · simp [hkinds.2.2.2]

theorem exists_of_codeToken (h : codeToken inType pos cs = .ok kind stop) :
    ∃ body rest, cs = body ++ rest ∧ stop = pos + Text.size body ∧ CodeLexeme kind body rest := by
  unfold codeToken at h
  split at h
  · cases h
    exact ⟨[], [], rfl, rfl, rfl, by decide, fun _ => ⟨rfl, rfl⟩, fun _ => ⟨[], by simp, rfl⟩,
      by rintro ⟨⟩⟩
  rename_i c cs
  split at h
  · obtain ⟨hname, letters, rest, hletters, hne, hcs, hstop⟩ := exists_of_word h
    have hkinds := kind.of_isNameLike hname
    have hbody : spelling letters ≠ [] := by
      cases letters with
      | nil => exact absurd rfl hne
      | cons l letters => cases l <;> simp [Letter.text]
    refine ⟨_, rest, hcs, hstop, hkinds.1, hkinds.2.1, ?_, fun _ => ⟨_, hletters.isValid, rfl⟩,
      fun _ => ⟨_, hletters, rfl⟩⟩
    rintro (hnil | heof)
    · exact absurd hnil hbody
    · exact absurd heof hkinds.2.2
  split at h
  · rename_i hc
    obtain ⟨hkind, body, rest, hcs, hbody, hstop⟩ := exists_of_number (isDigit_or_eq hc) h
    refine ⟨_, rest, hcs, hstop, .of_notMem ?_ hbody (by simp)⟩
    rcases hkind with rfl | rfl <;> rfl
  split at h
  · rename_i hquote
    cases hskip : skipString c pos (pos + 1) cs with
    | error failure reached => simp [hskip] at h
    | ok a stop' =>
      simp only [hskip] at h
      cases h
      have hsize := utf8Size_of_quote hquote
      obtain ⟨body, rest, rfl, rfl⟩ := reaches_of_skipString hsize hskip
      refine ⟨c :: body, rest, rfl, ?_, rfl, by decide, by simp, fun hne => absurd rfl hne, by rintro ⟨⟩⟩
      rw [Text.size_cons, hsize, Nat.add_assoc]
  split at h
  · rename_i hc
    obtain rfl := eq_of_beq hc
    obtain ⟨rfl, letters, rest, hletters, rfl, rfl⟩ := exists_of_privateName h
    have hsize : '#'.utf8Size = 1 := rfl
    refine ⟨'#' :: spelling letters, rest, rfl, ?_, rfl, by decide, by simp, fun _ => ?_, by rintro ⟨⟩⟩
    · rw [Text.size_cons, hsize, Nat.add_assoc]
    · refine ⟨.plain '#' :: letters, List.forall_mem_cons.mpr ⟨?_, hletters.isValid⟩, rfl⟩
      unfold Letter.IsValid
      decide
  split at h
  · rename_i hmark
    cases h
    obtain ⟨hkind, body, rest, hcs, hbody, hne, hsize⟩ := exists_of_punctuator? hmark
    exact ⟨body, rest, hcs, by rw [hsize], .of_notMem hkind hbody hne⟩
  · cases h

theorem lexeme_of_codeToken (h : codeToken inType pos cs = .ok kind stop) :
    Lexeme pos cs kind stop := by
  obtain ⟨body, rest, rfl, rfl, hlexeme⟩ := exists_of_codeToken h
  refine ⟨⟨body, rest, rfl, rfl⟩, fun hstop => .inr ?_, fun heof => (hlexeme.eof (.inr heof)).1⟩
  exact (hlexeme.eof (.inl (Text.eq_nil_of_size (by omega)))).2

theorem utf8Size_of_tagMark? (h : tagMark? c = some kind) :
    c.utf8Size = 1 ∧ kind ≠ .eof := by
  unfold tagMark? at h
  split at h <;> cases h <;> exact ⟨rfl, by decide⟩

theorem isIdContinue_of_isIdStart (h : isIdStart c = true) : isIdContinue c = true := by
  unfold isIdStart at h
  unfold isIdContinue
  grind

theorem lexeme_of_tagToken (h : tagToken pos cs = .ok kind stop) :
    Lexeme pos cs kind stop := by
  unfold tagToken at h
  split at h
  · cases h
    exact .atEnd
  · rename_i c cs
    split at h
    · rename_i hmark
      cases h
      obtain ⟨hsize, hkind⟩ := utf8Size_of_tagMark? hmark
      exact .mark hsize hkind
    · split at h
      · rename_i hquote
        have hsize := utf8Size_of_quote hquote
        split at h
        · rename_i value rest hcut
          cases h
          have hbody : c :: cs = (c :: value ++ [c]) ++ rest := by
            simp [Text.eq_append_of_cut hcut]
          refine .of_lt ⟨_, _, hbody, ?_⟩ (by omega) (by decide)
          simp [hsize, Nat.add_assoc]
        · cases h
      · split at h
        · rename_i hstart
          cases h
          refine .of_lt (Reaches.takeWhile _) (Reaches.lt_takeWhile ?_) (by decide)
          rw [isIdContinue_of_isIdStart hstart, Bool.or_true]
        · cases h

theorem lexeme_of_childToken (h : childToken pos cs = .ok kind stop) :
    Lexeme pos cs kind stop := by
  unfold childToken at h
  split at h <;> cases h
  · exact .atEnd
  · exact .mark rfl (by decide)
  · exact .mark rfl (by decide)
  · rename_i hnil htag hbrace
    cases cs with
    | nil => exact absurd rfl hnil
    | cons c cs =>
      refine .of_lt (Reaches.takeWhile _) (Reaches.lt_takeWhile ?_) (by decide)
      have hc : c ≠ '<' ∧ c ≠ '{' := ⟨fun h => htag cs (h ▸ rfl), fun h => hbrace cs (h ▸ rfl)⟩
      simpa using hc

theorem lexeme_of_templateMark (h : templateMark pos cs = .ok kind stop) :
    Lexeme pos cs kind stop := by
  unfold templateMark at h
  split at h
  · cases h
    exact .mark rfl (by decide)
  · rename_i rest
    cases h
    exact .of_lt ⟨['$', '{'], rest, rfl, rfl⟩ (by omega) (by decide)
  · cases h

theorem lexeme_of_templateChunk (h : templateChunk pos cs = .ok kind stop) :
    Lexeme pos cs kind stop := by
  unfold templateChunk at h
  cases hskip : skipTemplate pos pos cs with
  | error failure reached => simp [hskip] at h
  | ok a stop' =>
    simp only [hskip] at h
    cases h
    exact ⟨reaches_of_skipTemplate hskip, fun _ => .inl rfl, nofun⟩

end

/-! ## Where a token stands -/

/-- The token stands in the source, and only a gap is between it and offset `pos`.
Its note of a line break is right if `exact` holds. -/
def Placed (source : Text) (pos : Nat) (t : Token) (exact : Prop) : Prop :=
  ∃ pre gap body rest, source = pre ++ (gap ++ (body ++ rest)) ∧ Text.size pre = pos
    ∧ t.start = pos + Text.size gap ∧ t.stop = t.start + Text.size body
    ∧ IsGap (body ++ rest) gap
    ∧ (body = [] → t.kind = .template ∨ t.kind = .eof) ∧ (t.kind = .eof → body ++ rest = [])
    ∧ (exact → t.newlineBefore = gap.any isLineTerminator)

section

variable {source : Text} {pos stop : Nat} {t : Token} {exact : Prop}

theorem Placed.isBoundary_stop (h : Placed source pos t exact) :
    Text.IsBoundary source t.stop := by
  obtain ⟨pre, gap, body, rest, hsource, hpre, hstart, hstop, -⟩ := h
  refine ⟨pre ++ gap ++ body, rest, by simp [hsource], ?_⟩
  rw [hstop, hstart, ← hpre, Text.size_append, Text.size_append]

/-- Where a token stands is a matter of its offsets. -/
theorem Placed.congr {t' : Token} {exact' : Prop} (h : Placed source pos t exact)
    (hstart : t'.start = t.start) (hstop : t'.stop = t.stop)
    (hempty : t.kind = .template ∨ t.kind = .eof → t'.kind = .template ∨ t'.kind = .eof)
    (heof : t'.kind = .eof → t.kind = .eof)
    (hnl : exact' → exact ∧ t'.newlineBefore = t.newlineBefore) :
    Placed source pos t' exact' := by
  obtain ⟨pre, gap, body, rest, hsource, hpre, hs, he, hgap, hbody, hend, hline⟩ := h
  refine ⟨pre, gap, body, rest, hsource, hpre, hstart.trans hs, ?_, hgap,
    fun h => hempty (hbody h), fun h => hend (heof h), fun h => ?_⟩
  · rw [hstop, hstart, he]
  · rw [(hnl h).2, hline (hnl h).1]

theorem Placed.of_lexeme {pre gap cs : Text} (hsource : source = pre ++ (gap ++ cs))
    (hstart : t.start = Text.size pre + Text.size gap) (hgap : IsGap cs gap)
    (h : Lexeme t.start cs t.kind t.stop) (hnl : exact → t.newlineBefore = gap.any isLineTerminator) :
    Placed source (Text.size pre) t exact := by
  obtain ⟨⟨body, rest, rfl, hstop⟩, hempty, heof⟩ := h
  refine ⟨pre, gap, body, rest, hsource, rfl, hstart, hstop, hgap, ?_, heof, hnl⟩
  rintro rfl
  exact hempty hstop

theorem placed_of_afterGap {inside : Fault} {read : Nat → Text → Outcome Kind}
    (hlexeme : ∀ {pos cs kind stop}, read pos cs = .ok kind stop → Lexeme pos cs kind stop)
    (hpos : Text.IsBoundary source pos) (h : afterGap inside read source pos = .ok t stop) :
    Placed source pos t exact ∧ t.stop = stop := by
  obtain ⟨pre, suf, rfl, rfl⟩ := hpos
  obtain ⟨cs, rest, hdrop, hskip, hread, ht⟩ := exists_of_afterGap h
  have hstop : t.stop = stop := by rw [ht]
  rw [Text.dropBytes?_append, Option.some.injEq] at hdrop
  obtain ⟨gap, hcs, hstart, hnl, hgap⟩ := crosses_of_skipGap hskip
  refine ⟨Placed.of_lexeme (by rw [hdrop, hcs]) hstart hgap ?_ fun _ => by simpa using hnl, hstop⟩
  rw [hstop]
  exact hlexeme hread

theorem placed_of_atOffset {inside : Fault} {read : Nat → Text → Outcome Kind}
    (hlexeme : ∀ {pos cs kind stop}, read pos cs = .ok kind stop → Lexeme pos cs kind stop)
    (hpos : Text.IsBoundary source pos) (h : atOffset inside read source pos = .ok t stop) :
    Placed source pos t exact ∧ t.stop = stop := by
  obtain ⟨pre, suf, rfl, rfl⟩ := hpos
  obtain ⟨cs, hdrop, hread, ht⟩ := exists_of_atOffset h
  rw [Text.dropBytes?_append, Option.some.injEq] at hdrop
  have hstop : t.stop = stop := by rw [ht]
  have hstart : t.start = Text.size pre := by rw [ht]
  have hlexeme : Lexeme t.start suf t.kind t.stop := by
    rw [hstart, hstop, hdrop]
    exact hlexeme hread
  have hsource : pre ++ suf = pre ++ ([] ++ suf) := rfl
  refine ⟨Placed.of_lexeme hsource hstart .nil hlexeme fun _ => ?_, hstop⟩
  rw [ht]
  rfl

/-- A token that is read stands after a gap.  A line break in front of it can only
go unnoticed at the end of the source, and only in a tag. -/
theorem placed_of_read {mode : Mode} (hpos : Text.IsBoundary source pos)
    (h : read mode inType source pos = .ok t stop) :
    Placed source pos t (mode = .tag → t.kind ≠ .eof) ∧ t.stop = stop := by
  cases mode with
  | normal => exact placed_of_afterGap lexeme_of_codeToken hpos h
  | templateChunk => exact placed_of_atOffset lexeme_of_templateChunk hpos h
  | templateEnd => exact placed_of_atOffset lexeme_of_templateMark hpos h
  | child => exact placed_of_atOffset lexeme_of_childToken hpos h
  | tag =>
    obtain ⟨t', hread, ht⟩ := exists_of_nextTag h
    have hplaced : Placed source pos t' True ∧ t'.stop = stop :=
      placed_of_afterGap lexeme_of_tagToken hpos hread
    by_cases heof : t'.kind = .eof
    · rw [if_pos heof] at ht
      subst ht
      exact ⟨hplaced.1.congr rfl rfl id id fun hne => absurd heof (hne rfl), hplaced.2⟩
    · rw [if_neg heof] at ht
      subst ht
      exact ⟨hplaced.1.congr rfl rfl id id fun _ => ⟨trivial, rfl⟩, hplaced.2⟩

/-- A slash that is read again as the start of a regular expression stays where it is. -/
theorem Placed.regex {t' : Token} {pos' : Nat} (h : Placed source pos t exact)
    (hslash : (t.text source).head? = some '/')
    (hread : Lexer.regex t.start source pos' = .ok t' stop) :
    Placed source pos { t' with newlineBefore := t.newlineBefore } exact ∧ t'.stop = stop := by
  obtain ⟨pre, gap, body, rest, rfl, rfl, hstart, hstop, hgap, -, -, hnl⟩ := h
  have hbody : body.head? = some '/' := by
    unfold Token.text at hslash
    split at hslash
    · cases hslash
    · rwa [hstop, hstart, ← Text.size_append, ← List.append_assoc, Text.slice_append] at hslash
  obtain ⟨tail, rfl⟩ := List.head?_eq_some_iff.mp hbody
  obtain ⟨cs, hdrop, ⟨a, hskip⟩, rfl⟩ := exists_of_regex hread
  -- The expression is read from the offset behind the slash.
  have hoffset : t.start + 1 = Text.size (pre ++ gap ++ ['/']) := by
    rw [Text.size_append, Text.size_append, ← hstart]
    rfl
  have hsource : pre ++ (gap ++ ('/' :: tail ++ rest)) = pre ++ gap ++ ['/'] ++ (tail ++ rest) := by
    simp
  rw [hoffset, hsource, Text.dropBytes?_append, Option.some.injEq] at hdrop
  have hreach : Reaches (t.start + Char.utf8Size '/') (tail ++ rest) stop :=
    hdrop ▸ reaches_of_skipRegex hskip
  have hlexeme : Lexeme t.start ('/' :: tail ++ rest) .regex stop :=
    .of_lt hreach.cons hreach.lt_of_cons (by decide)
  exact ⟨.of_lexeme rfl hstart hgap hlexeme hnl, rfl⟩

end

end Lexer

end Downlevel
