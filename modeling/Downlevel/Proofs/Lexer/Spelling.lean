import Downlevel.Linkage.Statement
import Downlevel.Proofs.Lexer.Greater
import Downlevel.Proofs.Lexer.Span

/-!
# How tokens of ordinary code are written

A token that is written like a word is one, and one that starts with a quote is a
string literal.
-/

namespace Downlevel.Lexer

variable {source : Text} {inType : Bool} {pos stop : Nat} {t : Token} {cs : Text} {c : Char}

/-- The text of a token is the start of what it is read from. -/
theorem text_of_next (h : next inType source pos = .ok t stop) (hkind : t.kind ≠ .eof) :
    t.text source = Text.takeBytes (Text.dropBytes source t.start) (stop - t.start) := by
  rw [Token.text, if_neg hkind, Text.slice, (codeToken_of_next h).1]

theorem ne_eof_of_text (h : t.text source = c :: cs) : t.kind ≠ .eof := by
  intro hkind
  rw [Token.text, if_pos hkind] at h
  cases h

/-- What a token is read from starts with the first character of its text. -/
theorem dropBytes_of_text (h : next inType source pos = .ok t stop)
    (htext : t.text source = c :: cs) : ∃ rest, Text.dropBytes source t.start = c :: rest := by
  rw [text_of_next h (ne_eof_of_text htext)] at htext
  cases hdrop : Text.dropBytes source t.start with
  | nil => cases hlength : stop - t.start <;> simp [hdrop, hlength, Text.takeBytes] at htext
  | cons d rest =>
    cases hlength : stop - t.start with
    | zero => simp [hdrop, hlength, Text.takeBytes] at htext
    | succ n =>
      simp only [hdrop, hlength, Text.takeBytes] at htext
      exact ⟨rest, by rw [(List.cons.inj htext).1]⟩

/-- A word that is not reserved is a name. -/
theorem kind_of_word (h : next inType source pos = .ok t stop) (htext : t.text source = c :: cs)
    (hc : Character.isIdStart c = true) (hword : Kind.keyword? (c :: cs) = none) :
    t.kind = .name := by
  have hslice := text_of_next h (ne_eof_of_text htext)
  obtain ⟨rest, hrest⟩ := dropBytes_of_text h htext
  obtain ⟨-, hcode, -⟩ := codeToken_of_next h
  rw [hrest, codeToken, if_pos (by simp [hc]), word] at hcode
  split at hcode
  · cases hcode
  · split at hcode
    · cases hcode
    split at hcode
    · exact (EStateM.Result.ok.inj hcode).1.symm
    · obtain ⟨hkind, rfl⟩ := EStateM.Result.ok.inj hcode
      rw [← hrest, ← hslice, htext, hword] at hkind
      exact hkind.symm

theorem kind_of_quote (h : next inType source pos = .ok t stop) (htext : t.text source = c :: cs)
    (hc : (c == '\x22' || c == '\x27') = true) :
    t.kind = .string := by
  obtain ⟨rest, hrest⟩ := dropBytes_of_text h htext
  obtain ⟨-, hcode, -⟩ := codeToken_of_next h
  have hclasses : (c == '\\' || Character.isWide c || Character.isIdStart c) = false
      ∧ (Character.isDigit c || (c == '.' && rest.head?.any Character.isDigit)) = false := by
    rcases Bool.or_eq_true_iff.mp hc with hc | hc <;> obtain rfl := eq_of_beq hc <;>
      exact ⟨by decide, by simp [Character.isDigit]⟩
  rw [hrest, codeToken, if_neg (by simp [hclasses.1]), if_neg (by simp [hclasses.2]),
    if_pos hc] at hcode
  split at hcode
  · exact (EStateM.Result.ok.inj hcode).1.symm
  · cases hcode

/-! ## Punctuators -/

/-- A number that starts with a dot. -/
def isFraction : Text → Bool
  | '.' :: c :: _ => Character.isDigit c
  | _ => false

theorem isFraction_cons (c : Char) :
    isFraction (c :: cs) = (c == '.' && cs.head?.any Character.isDigit) := by
  unfold isFraction
  split
  · rename_i heq
    cases heq
    rfl
  · rename_i hne
    cases cs with
    | nil => simp
    | cons d cs =>
      have hdot : (c == '.') = false := beq_eq_false_iff_ne.mpr fun h => hne d cs (h ▸ rfl)
      rw [hdot, Bool.false_and]

/-- A token is a punctuator exactly where the code is cut at one. -/
theorem codeToken_eq_iff {kind : Kind} (hkind : isPunctuator kind = true) :
    codeToken false pos cs = .ok kind stop
      ↔ isFraction cs = false ∧ ∃ mark, IsCut cs mark kind ∧ stop = pos + Text.size mark := by
  have hsize : ∀ p ∈ punctuators, Text.size p.1 = p.1.length := by decide
  have hclass : ∀ row ∈ marks, (row.1 == '\\' || Character.isWide row.1
      || Character.isIdStart row.1) = false ∧ Character.isDigit row.1 = false
      ∧ (row.1 == '\x22' || row.1 == '\x27') = false ∧ (row.1 == '#') = false := by decide
  have hkinds : kind.isNameLike = false ∧ kind ∉ [.bigInt, .num, .string, .privateName, .eof] := by
    revert hkind
    cases kind <;> decide
  constructor
  · intro h
    unfold codeToken at h
    split at h
    · cases h
      simp at hkinds
    split at h
    · rw [(exists_of_word h).1] at hkinds
      cases hkinds.1
    split at h
    · rename_i hdigit
      rcases (exists_of_number (isDigit_or_eq hdigit) h).1 with rfl | rfl <;> simp at hkinds
    rename_i hnumber
    split at h
    · split at h
      · cases h
        simp at hkinds
      · cases h
    split at h
    · obtain ⟨rfl, -⟩ := exists_of_privateName h
      simp at hkinds
    split at h
    · rename_i hmark
      cases h
      obtain ⟨mark, hmem, hstart, rfl⟩ := mem_of_punctuator? hmark
      rw [isFraction_cons]
      exact ⟨(Bool.or_eq_false_iff.mp (Bool.eq_false_iff.mpr hnumber)).2, mark,
        isCut_iff.mpr ⟨hstart, hmark⟩, by rw [hsize _ hmem]⟩
    · cases h
  · rintro ⟨hfraction, mark, hcut, rfl⟩
    obtain ⟨c, row, _, rest, hrow, -, rfl, -⟩ := exists_of_isPrefix hcut.mem.1 hcut.mem.2
    obtain ⟨hword, hdigit, hquote, hhash⟩ := hclass _ (mem_of_lookup_marks hrow)
    rw [isFraction_cons] at hfraction
    rw [codeToken, hword, hdigit, hfraction, hquote, hhash, (isCut_iff.mp hcut).2, hsize _ hcut.mem.1]
    rfl

/-- **Punctuators are read by the longest match.**  Skip the gap at an offset.  Where the code
behind it is cut at a mark of the table, and is no number, the token is that mark, of the
kind in the table.  No other token has such a kind.  Inside a type only a `>` is read in
another way, always alone. -/
theorem next_reads_longest {rest : Text} {start : Nat} {newline : Bool}
    (hdrop : Text.dropBytes? source pos = some cs)
    (hgap : skipGap .space false pos cs = .ok (newline, rest) start) :
    (∀ mark kind, isFraction rest = false → IsCut rest mark kind →
        next false source pos = .ok { kind, start, stop := start + Text.size mark, newlineBefore := newline }
          (start + Text.size mark))
      ∧ (∀ t stop, next false source pos = .ok t stop → isPunctuator t.kind = true →
        isFraction rest = false ∧ IsCut rest (t.text source) t.kind ∧ t.start = start
          ∧ t.stop = start + Text.size (t.text source))
      ∧ next true source pos = if rest.head? = some '>' then
          .ok { kind := .greaterThan, start, stop := start + 1, newlineBefore := newline } (start + 1)
        else next false source pos := by
  have hnext : ∀ inType {kind stop}, codeToken inType start rest = .ok kind stop →
      next inType source pos = .ok { kind, start, stop, newlineBefore := newline } stop := by
    intro inType kind stop h
    simp only [next, afterGap, hdrop, hgap, h]
  refine ⟨fun mark kind hfraction hcut => ?_, fun t stop h hkind => ?_, ?_⟩
  · exact hnext _ ((codeToken_eq_iff (List.any_eq_true.mpr ⟨_, hcut.mem.1, beq_self_eq_true _⟩)).mpr
      ⟨hfraction, mark, hcut, rfl⟩)
  · obtain ⟨hstop, hcode, -⟩ := codeToken_of_next h
    obtain ⟨_, _, hdrop', hgap', -⟩ := exists_of_afterGap h
    cases hdrop.symm.trans hdrop'
    obtain ⟨hrest, rfl⟩ := EStateM.Result.ok.inj (hgap'.symm.trans hgap)
    obtain ⟨gap, rfl, hstart, -⟩ := crosses_of_skipGap hgap
    have hbehind : Text.dropBytes source t.start = rest := by
      rw [Text.dropBytes, hstart, Text.dropBytes?_add _ hdrop, Text.dropBytes?_append]
      rfl
    rw [hbehind] at hcode
    obtain ⟨hfraction, mark, hcut, rfl⟩ := (codeToken_eq_iff hkind).mp hcode
    have htext : t.text source = mark := by
      obtain ⟨tail, htail⟩ := hcut.mem.2
      rw [text_of_next h (by rintro heof; rw [heof] at hkind; cases hkind), hbehind, ← htail,
        Nat.add_sub_cancel_left, Text.takeBytes_append]
    exact ⟨hfraction, htext ▸ hcut, rfl, htext ▸ hstop⟩
  · split
    · rename_i hhead
      obtain ⟨tail, rfl⟩ := List.head?_eq_some_iff.mp hhead
      exact hnext true (codeToken_greater true start tail)
    · rename_i hhead
      have hne : ∀ tail, rest ≠ '>' :: tail := by
        rintro tail rfl
        exact hhead rfl
      simp only [next, afterGap, hdrop, hgap, codeToken_eq hne]

/-- Five punctuators start the text behind the gap. -/
theorem next_reads_longest_shift :
    Text.dropBytes? "a /**/>>>=b".toList 1 = some " /**/>>>=b".toList
      ∧ skipGap .space false 1 " /**/>>>=b".toList = .ok (false, ">>>=b".toList) 6
      ∧ next false "a /**/>>>=b".toList 1 = .ok { kind := .assign, start := 6, stop := 10 } 10
      ∧ next true "a /**/>>>=b".toList 1 = .ok { kind := .greaterThan, start := 6, stop := 7 } 7 := by
  have hgap : skipGap .space false 1 " /**/>>>=b".toList = .ok (false, ">>>=b".toList) 6 := rfl
  obtain ⟨hlongest, -, htype⟩ := @next_reads_longest "a /**/>>>=b".toList 1 _ _ _ _ rfl hgap
  exact ⟨rfl, hgap, hlongest ">>>=".toList .assign rfl (isCut_iff.mpr ⟨by decide, rfl⟩), htype⟩

/-- A name has no quotes around it. -/
theorem unquote_of_name (h : next inType source pos = .ok t stop) (hkind : t.kind = .name) :
    Linkage.unquote (t.text source) = t.text source := by
  cases htext : t.text source with
  | nil => rfl
  | cons c cs =>
    rw [Linkage.unquote, if_neg]
    intro hquoted
    have hstring := kind_of_quote h htext (Bool.and_eq_true_iff.mp hquoted).2
    rw [hkind] at hstring
    cases hstring

/-- The letters of a token of ordinary code. -/
theorem exists_letters_of_next (h : next inType source pos = .ok t stop) :
    (t.kind ≠ .string → ∃ letters, (∀ l ∈ letters, l.IsValid) ∧ t.text source = spelling letters)
      ∧ (t.kind.isNameLike = true → IsIdentifierName (t.text source)) := by
  obtain ⟨-, hcode, -⟩ := codeToken_of_next h
  obtain ⟨body, rest, hcs, hstop, hlexeme⟩ := exists_of_codeToken hcode
  have htext : t.text source = body := by
    by_cases heof : t.kind = .eof
    · rw [Token.text, if_pos heof, (List.append_eq_nil_iff.mp (hlexeme.eof (.inr heof)).1).1]
    · rw [text_of_next h heof, hcs, hstop, Nat.add_sub_cancel_left, Text.takeBytes_append]
  rw [htext]
  refine ⟨hlexeme.letters, fun hname => ?_⟩
  obtain ⟨letters, hletters, hbody⟩ := hlexeme.word hname
  refine ⟨letters, ?_, hletters, hbody⟩
  rintro rfl
  rw [(hlexeme.eof (.inl hbody)).2] at hname
  cases hname

/-- A name is read in types as it is in ordinary code. -/
theorem next_of_name {inType' : Bool} (h : next inType source pos = .ok t stop)
    (hkind : t.kind = .name) : next inType' source pos = .ok t stop := by
  have hgreater : ∀ rest, Text.dropBytes source t.start ≠ '>' :: rest := by
    intro rest hrest
    have hcode := (codeToken_of_next h).2.1
    rw [hrest, codeToken_greater, hkind] at hcode
    split at hcode
    · cases hcode
    · have hname := (EStateM.Result.ok.inj hcode).1
      unfold punctuator?.greater at hname
      split at hname <;> cases hname
  have hcommon : ∀ b, codeToken b t.start (Text.dropBytes source t.start)
      = codeToken false t.start (Text.dropBytes source t.start) := by
    intro b
    cases b with
    | false => rfl
    | true => exact codeToken_eq hgreater
  obtain ⟨hstop, hcode, hnext⟩ := codeToken_of_next h
  subst hstop
  exact hnext _ _ _ ((hcommon _).trans ((hcommon _).symm.trans hcode))

end Downlevel.Lexer
