import Downlevel.Proofs.Lexer.Span

/-!
# Where a scan gives up

A scan that fails names a place it has been at: the start of what it could not
finish, or the character it could not go past.  Both stand between characters,
so that the offset of a failure does (`isBoundary_of_read_error`).  A scan that
goes through moves on, and in code it only does not at the end of the source
(`Placed.start_lt`).
-/

namespace Downlevel.Lexer

open Character

variable {inType : Bool} {start : Nat}

section

variable {pos reached : Nat} {cs : Text} {failure : Failure}

/-! ## Gaps and words -/

/-- A gap only fails in a block comment, at the start of the comment. -/
theorem offset_of_skipGap_error {part : GapPart} {nl : Bool}
    (h : skipGap part nl pos cs = .error failure reached) :
    part = .blockComment failure.offset ∨ Reaches pos cs failure.offset := by
  fun_induction skipGap part nl pos cs with
  | case1 nl pos cs ih =>
    exact .inr (Reaches.prepend ['/', '/'] ((ih h).resolve_left (by rintro ⟨⟩)))
  | case2 nl pos cs ih =>
    right
    rcases ih h with hpart | hreach
    · injection hpart with hstart
      exact hstart ▸ Reaches.refl
    · exact Reaches.prepend ['/', '*'] hreach
  | case3 nl pos c cs _ _ hc ih =>
    exact .inr (Reaches.cons ((ih h).resolve_left (by rintro ⟨⟩)))
  | case4 => cases h
  | case5 nl pos c cs hc ih =>
    exact .inr (Reaches.cons ((ih h).resolve_left (by rintro ⟨⟩)))
  | case6 nl pos c cs hc ih =>
    exact .inr (Reaches.cons ((ih h).resolve_left (by rintro ⟨⟩)))
  | case7 start nl pos cs ih =>
    exact .inr (Reaches.prepend ['*', '/'] ((ih h).resolve_left (by rintro ⟨⟩)))
  | case8 start nl pos c cs hc ih =>
    rcases ih h with hpart | hreach
    · exact .inl hpart
    · exact .inr (Reaches.cons hreach)
  | case9 start nl pos =>
    cases h
    exact .inl rfl
  | case10 => cases h
  | case11 => cases h

/-- The start of the escape that a scan of a word stands in. -/
def WordPart.start? : WordPart → Option Nat
  | .plain _ => none
  | .digits start _ | .braces start => some start

/-- A word only fails at the start of an escape. -/
theorem offset_of_skipWord_error {part : WordPart} {escaped : Bool}
    (h : skipWord part escaped pos cs = .error failure reached) :
    part.start? = some failure.offset ∨ Reaches pos cs failure.offset := by
  fun_induction skipWord part escaped pos cs with
  | case1 first escaped pos cs ih =>
    right
    rcases ih h with hpart | hreach
    · exact Option.some.inj hpart ▸ Reaches.refl
    · exact Reaches.prepend ['\\', 'u', '{'] hreach
  | case2 first escaped pos cs _ ih =>
    right
    rcases ih h with hpart | hreach
    · exact Option.some.inj hpart ▸ Reaches.refl
    · exact Reaches.prepend ['\\', 'u'] hreach
  | case3 =>
    cases h
    exact .inr Reaches.refl
  | case4 first escaped pos c cs _ _ _ hc ih =>
    exact .inr (Reaches.cons ((ih h).resolve_left (by rintro ⟨⟩)))
  | case5 => cases h
  | case6 => cases h
  | case7 start left escaped pos c cs hc hleft ih =>
    exact .inr (Reaches.cons (utf8Size_of_isHexDigit hc ▸ (ih h).resolve_left (by rintro ⟨⟩)))
  | case8 start left escaped pos c cs hc hleft ih =>
    rcases ih h with hpart | hreach
    · exact .inl hpart
    · exact .inr (Reaches.cons (utf8Size_of_isHexDigit hc ▸ hreach))
  | case9 =>
    cases h
    exact .inl rfl
  | case10 =>
    cases h
    exact .inl rfl
  | case11 start escaped pos cs ih =>
    exact .inr (Reaches.prepend ['}'] ((ih h).resolve_left (by rintro ⟨⟩)))
  | case12 start escaped pos c cs _ ih =>
    rcases ih h with hpart | hreach
    · exact .inl hpart
    · exact .inr (Reaches.cons hreach)
  | case13 =>
    cases h
    exact .inl rfl

theorem reaches_of_skipWord_error {first escaped : Bool}
    (h : skipWord (.plain first) escaped pos cs = .error failure reached) :
    Reaches pos cs failure.offset :=
  (offset_of_skipWord_error h).resolve_left (by rintro ⟨⟩)

/-! ## Literals -/

theorem offset_of_skipString_error {quote : Char}
    (h : skipString quote start pos cs = .error failure reached) : failure.offset = start := by
  fun_induction skipString quote start pos cs with
  | case1 pos cs ih => exact ih h
  | case2 pos c cs _ ih => exact ih h
  | case5 => cases h
  | case6 pos c cs _ _ _ _ _ ih => exact ih h
  | _ =>
    cases h
    rfl

theorem offset_of_skipRegex_error {inClass : Bool}
    (h : skipRegex start inClass pos cs = .error failure reached) : failure.offset = start := by
  fun_induction skipRegex start inClass pos cs with
  | case1 inClass pos c cs ih => exact ih h
  | case4 => cases h
  | case5 inClass pos c cs _ _ _ _ ih => exact ih h
  | _ =>
    cases h
    rfl

theorem offset_of_skipTemplate_error (h : skipTemplate start pos cs = .error failure reached) :
    failure.offset = start := by
  fun_induction skipTemplate start pos cs with
  | case1 => cases h
  | case2 => cases h
  | case3 pos c cs ih => exact ih h
  | case5 pos c cs _ _ _ _ ih => exact ih h
  | _ =>
    cases h
    rfl

/-! ## Tokens -/

theorem reaches_of_word_error (h : word pos cs = .error failure reached) :
    Reaches pos cs failure.offset := by
  unfold word at h
  cases hskip : skipWord (.plain true) false pos cs with
  | error failure' reached' =>
    simp only [hskip] at h
    cases h
    exact reaches_of_skipWord_error hskip
  | ok escaped stop =>
    simp only [hskip] at h
    by_cases hstop : stop = pos
    · rw [if_pos hstop] at h
      cases h
      exact Reaches.refl
    · rw [if_neg hstop] at h
      split at h <;> cases h

theorem offset_of_privateName_error (h : privateName pos cs = .error failure reached) :
    failure.offset = pos ∨ Reaches (pos + 1) cs failure.offset := by
  unfold privateName at h
  by_cases hstart : cs.head?.any isIdStart = true
  · rw [if_pos hstart] at h
    cases hskip : skipWord (.plain true) false (pos + 1) cs with
    | error failure' reached' =>
      simp only [hskip] at h
      cases h
      exact .inr (reaches_of_skipWord_error hskip)
    | ok escaped stop =>
      simp only [hskip] at h
      cases h
  · rw [if_neg hstart] at h
    cases h
    exact .inl rfl

theorem reaches_of_number_error {c : Char} (hc : isDigit c = true ∨ c = '.')
    (h : number pos (c :: cs) = .error failure reached) : Reaches pos (c :: cs) failure.offset := by
  unfold number at h
  simp only at h
  split at h
  · cases h
    exact Reaches.past ((leaves_number hc).suffix.trans (List.suffix_cons c cs))
  · cases h

theorem reaches_of_codeToken_error (h : codeToken inType pos cs = .error failure reached) :
    Reaches pos cs failure.offset := by
  unfold codeToken at h
  split at h
  · cases h
  · rename_i c cs
    split at h
    · exact reaches_of_word_error h
    · split at h
      · rename_i hc
        exact reaches_of_number_error (isDigit_or_eq hc) h
      · split at h
        · cases hskip : skipString c pos (pos + 1) cs with
          | ok a stop =>
            simp only [hskip] at h
            cases h
          | error failure' reached' =>
            simp only [hskip] at h
            cases h
            exact offset_of_skipString_error hskip ▸ Reaches.refl
        · split at h
          · rename_i hc
            have hsize : c.utf8Size = 1 := by rw [eq_of_beq hc]; rfl
            rcases offset_of_privateName_error h with hoffset | hreach
            · exact hoffset ▸ Reaches.refl
            · exact Reaches.cons (hsize ▸ hreach)
          · split at h
            · cases h
            · cases h
              exact Reaches.refl

theorem reaches_of_tagToken_error (h : tagToken pos cs = .error failure reached) :
    Reaches pos cs failure.offset := by
  suffices hoffset : failure.offset = pos from hoffset ▸ Reaches.refl
  unfold tagToken at h
  repeat' split at h
  all_goals cases h
  all_goals rfl

theorem reaches_of_childToken_error (h : childToken pos cs = .error failure reached) :
    Reaches pos cs failure.offset := by
  unfold childToken at h
  split at h <;> cases h

theorem reaches_of_templateMark_error (h : templateMark pos cs = .error failure reached) :
    Reaches pos cs failure.offset := by
  unfold templateMark at h
  split at h <;> cases h
  exact Reaches.refl

theorem reaches_of_templateChunk_error (h : templateChunk pos cs = .error failure reached) :
    Reaches pos cs failure.offset := by
  unfold templateChunk at h
  cases hskip : skipTemplate pos pos cs with
  | ok a stop =>
    simp only [hskip] at h
    cases h
  | error failure' reached' =>
    simp only [hskip] at h
    cases h
    exact offset_of_skipTemplate_error hskip ▸ Reaches.refl

end

/-! ## Scans of a source -/

section

variable {source : Text} {pos reached stop : Nat} {t : Token} {failure : Failure} {exact : Prop}
  {cs : Text} {kind : Kind}

/-- What a scan reaches stands between two characters of the source. -/
theorem Reaches.isBoundary {pre cs : Text} (hsource : source = pre ++ cs)
    (h : Reaches (Text.size pre) cs stop) : Text.IsBoundary source stop := by
  obtain ⟨body, rest, rfl, rfl⟩ := h
  exact ⟨pre ++ body, rest, by simp [hsource], by simp⟩

theorem isBoundary_of_skipGap_error {pre cs : Text} {nl : Bool} (hsource : source = pre ++ cs)
    (h : skipGap .space nl (Text.size pre) cs = .error failure reached) :
    Text.IsBoundary source failure.offset :=
  ((offset_of_skipGap_error h).resolve_left (by rintro ⟨⟩)).isBoundary hsource

theorem isBoundary_of_afterGap_error {inside : Fault} {read : Nat → Text → Outcome Kind}
    (hread : ∀ {pos cs failure reached}, read pos cs = .error failure reached →
      Reaches pos cs failure.offset)
    (hpos : Text.IsBoundary source pos)
    (h : afterGap inside read source pos = .error failure reached) :
    Text.IsBoundary source failure.offset := by
  obtain ⟨pre, suf, rfl, rfl⟩ := hpos
  unfold afterGap at h
  simp only [Text.dropBytes?_append] at h
  cases hgap : skipGap .space false (Text.size pre) suf with
  | error failure' reached' =>
    simp only [hgap] at h
    cases h
    exact isBoundary_of_skipGap_error rfl hgap
  | ok a start =>
    obtain ⟨newline, rest⟩ := a
    obtain ⟨gap, rfl, rfl, -⟩ := crosses_of_skipGap hgap
    simp only [hgap] at h
    cases hkind : read (Text.size pre + Text.size gap) rest with
    | ok kind stop =>
      simp only [hkind] at h
      cases h
    | error failure' reached' =>
      simp only [hkind] at h
      cases h
      have hreach := hread hkind
      rw [← Text.size_append] at hreach
      exact hreach.isBoundary (List.append_assoc pre gap rest).symm

theorem isBoundary_of_atOffset_error {inside : Fault} {read : Nat → Text → Outcome Kind}
    (hread : ∀ {pos cs failure reached}, read pos cs = .error failure reached →
      Reaches pos cs failure.offset)
    (hpos : Text.IsBoundary source pos)
    (h : atOffset inside read source pos = .error failure reached) :
    Text.IsBoundary source failure.offset := by
  obtain ⟨pre, suf, rfl, rfl⟩ := hpos
  unfold atOffset at h
  simp only [Text.dropBytes?_append] at h
  cases hkind : read (Text.size pre) suf with
  | ok kind stop =>
    simp only [hkind] at h
    cases h
  | error failure' reached' =>
    simp only [hkind] at h
    cases h
    exact (hread hkind).isBoundary rfl

theorem afterGap_of_nextTag_error (h : nextTag source pos = .error failure reached) :
    afterGap (.unexpectedTagCharacter '?') tagToken source pos = .error failure reached := by
  unfold nextTag at h
  change EStateM.bind (afterGap _ tagToken source) _ pos = _ at h
  unfold EStateM.bind at h
  cases hread : afterGap (.unexpectedTagCharacter '?') tagToken source pos with
  | error failure' reached' =>
    simp only [hread] at h
    exact h
  | ok t stop =>
    simp only [hread] at h
    split at h <;> cases h

/-- A token that cannot be read is given up at a place between characters. -/
theorem isBoundary_of_read_error {mode : Mode} (hpos : Text.IsBoundary source pos)
    (h : read mode inType source pos = .error failure reached) :
    Text.IsBoundary source failure.offset := by
  cases mode with
  | normal => exact isBoundary_of_afterGap_error reaches_of_codeToken_error hpos h
  | templateChunk => exact isBoundary_of_atOffset_error reaches_of_templateChunk_error hpos h
  | templateEnd => exact isBoundary_of_atOffset_error reaches_of_templateMark_error hpos h
  | child => exact isBoundary_of_atOffset_error reaches_of_childToken_error hpos h
  | tag =>
    exact isBoundary_of_afterGap_error reaches_of_tagToken_error hpos
      (afterGap_of_nextTag_error h)

/-- A regular expression is given up at its start. -/
theorem offset_of_regex_error (h : regex start source pos = .error failure reached) :
    failure.offset = start := by
  unfold regex at h
  cases hdrop : Text.dropBytes? source (start + 1) with
  | none =>
    simp only [hdrop] at h
    cases h
    rfl
  | some cs =>
    simp only [hdrop] at h
    cases hskip : skipRegex start false (start + 1) cs with
    | ok a stop =>
      simp only [hskip] at h
      cases h
    | error failure' reached' =>
      simp only [hskip] at h
      cases h
      exact offset_of_skipRegex_error hskip

theorem head?_of_takeBytes {n : Nat} {d : Char} (h : (Text.takeBytes cs n).head? = some d) :
    cs.head? = some d := by
  unfold Text.takeBytes at h
  split at h
  · cases h
  · cases h
  · exact h

/-- A regular expression that is read at a slash starts there and has characters. -/
theorem span_of_regex {t' : Token} (hstart : Text.IsBoundary source t.start)
    (hslash : (t.text source).head? = some '/')
    (h : regex t.start source pos = .ok t' stop) :
    Text.IsBoundary source stop ∧ t.start < stop := by
  obtain ⟨pre, suf, rfl, hpre⟩ := hstart
  have hsuf : suf.head? = some '/' := by
    unfold Token.text at hslash
    split at hslash
    · cases hslash
    · rw [Text.slice, ← hpre, Text.dropBytes_append] at hslash
      exact head?_of_takeBytes hslash
  obtain ⟨tail, rfl⟩ := List.head?_eq_some_iff.mp hsuf
  obtain ⟨cs, hdrop, ⟨a, hskip⟩, -⟩ := exists_of_regex h
  -- The expression is read from the offset behind the slash.
  have hoffset : t.start + 1 = Text.size (pre ++ ['/']) := by
    rw [Text.size_append, hpre]
    rfl
  have hsource : pre ++ '/' :: tail = (pre ++ ['/']) ++ tail := by simp
  rw [hoffset, hsource, Text.dropBytes?_append, Option.some.injEq] at hdrop
  rw [hoffset, ← hdrop] at hskip
  have hreach := reaches_of_skipRegex hskip
  refine ⟨hreach.isBoundary hsource, ?_⟩
  have hle := hreach.le
  omega

theorem isBoundary_of_nextByteIs_error {byte : Nat} (hpos : Text.IsBoundary source pos)
    (h : nextByteIs byte source pos = .error failure reached) :
    Text.IsBoundary source failure.offset := by
  obtain ⟨pre, suf, rfl, rfl⟩ := hpos
  unfold nextByteIs at h
  simp only [Text.dropBytes?_append] at h
  cases hgap : skipGap .space false (Text.size pre) suf with
  | ok a start =>
    simp only [hgap] at h
    cases h
  | error failure' reached' =>
    simp only [hgap] at h
    cases h
    exact isBoundary_of_skipGap_error rfl hgap

/-! ## Scans move on -/

theorem kind_of_codeToken (h : codeToken inType pos cs = .ok kind stop) : kind ≠ .template := by
  obtain ⟨_, _, -, -, hlexeme⟩ := exists_of_codeToken h
  exact hlexeme.ne_template

theorem kind_of_tagToken (h : tagToken pos cs = .ok kind stop) :
    kind ≠ .template := by
  unfold tagToken at h
  split at h
  · cases h
    decide
  · split at h
    · rename_i hmark
      cases h
      unfold tagMark? at hmark
      split at hmark <;> cases hmark <;> decide
    · repeat' split at h
      all_goals cases h
      all_goals decide

theorem kind_of_childToken (h : childToken pos cs = .ok kind stop) :
    kind ≠ .template := by
  unfold childToken at h
  split at h <;> cases h <;> decide

theorem kind_of_templateMark (h : templateMark pos cs = .ok kind stop) :
    kind ≠ .template := by
  unfold templateMark at h
  split at h <;> cases h <;> decide

/-- Only where a template chunk is asked for one is read. -/
theorem kind_of_read {mode : Mode} (hmode : mode ≠ .templateChunk)
    (h : read mode inType source pos = .ok t stop) : t.kind ≠ .template := by
  cases mode with
  | normal =>
    obtain ⟨cs, rest, -, -, hread, -⟩ := exists_of_afterGap h
    exact kind_of_codeToken hread
  | templateChunk => exact absurd rfl hmode
  | templateEnd =>
    obtain ⟨cs, -, hread, -⟩ := exists_of_atOffset h
    exact kind_of_templateMark hread
  | child =>
    obtain ⟨cs, -, hread, -⟩ := exists_of_atOffset h
    exact kind_of_childToken hread
  | tag =>
    obtain ⟨t', hgap, ht⟩ := exists_of_nextTag h
    obtain ⟨cs, rest, -, -, hread, -⟩ := exists_of_afterGap hgap
    have hkind : t.kind = t'.kind := by
      rw [ht]
      split <;> rfl
    rw [hkind]
    exact kind_of_tagToken hread

theorem Placed.isBoundary_start (h : Placed source pos t exact) :
    Text.IsBoundary source t.start := by
  obtain ⟨pre, gap, body, rest, hsource, hpre, hstart, -⟩ := h
  exact ⟨pre ++ gap, body ++ rest, by simp [hsource], by rw [Text.size_append, hpre, hstart]⟩

theorem Placed.le_start (h : Placed source pos t exact) : pos ≤ t.start := by
  obtain ⟨pre, gap, body, rest, -, -, hstart, -⟩ := h
  exact hstart ▸ Nat.le_add_right _ _

theorem Placed.start_le (h : Placed source pos t exact) : t.start ≤ t.stop := by
  obtain ⟨pre, gap, body, rest, -, -, -, hstop, -⟩ := h
  exact hstop ▸ Nat.le_add_right _ _

/-- A token has characters, unless it is a template chunk or the end of the source. -/
theorem Placed.start_lt (h : Placed source pos t exact) (htemplate : t.kind ≠ .template)
    (heof : t.kind ≠ .eof) : t.start < t.stop := by
  obtain ⟨pre, gap, body, rest, -, -, -, hstop, -, hempty, -⟩ := h
  have hbody : body ≠ [] := by
    intro hbody
    rcases hempty hbody with hkind | hkind
    · exact htemplate hkind
    · exact heof hkind
  have hsize := Text.size_pos_iff.mpr hbody
  omega

end

end Downlevel.Lexer
