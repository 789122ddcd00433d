import Downlevel.Proofs.Lexer.Pieces
import Downlevel.Proofs.Lexer.Spelling
import Downlevel.Proofs.Lower.ErasedImports
import Downlevel.Proofs.Lower.Resolve

/-!
# Names of other modules as properties

A name that is taken from another module, or passed on from it, is written as the variable
of the module, a dot and the name.  That is read back as an access to a property if the
variable and the name are identifiers or reserved words, and only then: a name that is
written as a string literal gets no brackets.
-/

namespace Downlevel

/-! ## Reading an access back -/

namespace Character

/-- What starts an identifier separates nothing. -/
theorem isWhitespace_of_isIdStart {c : Char} (h : isIdStart c = true) : isWhitespace c = false := by
  have hspaces : ∀ k < 11, isIdStart (Char.ofNat (0x2000 + k)) = false := by decide +kernel
  refine Bool.eq_false_iff.mpr fun hspace => ?_
  simp only [isWhitespace, isLineTerminator, isUnicodeSpace, Bool.or_eq_true, Bool.and_eq_true,
    beq_iff_eq, decide_eq_true_eq, or_assoc] at hspace
  rcases hspace with rfl | rfl | rfl | rfl | rfl | rfl | rfl | rfl | rfl | rfl | rfl | hc | rfl | rfl
    | rfl
  case inr.inr.inr.inr.inr.inr.inr.inr.inr.inr.inr.inl =>
    have hle : 0x2000 ≤ c.toNat ∧ c.toNat ≤ 0x200a := hc
    have hfalse := hspaces (c.toNat - 0x2000) (by omega)
    rw [Nat.add_sub_cancel' hle.1, Char.ofNat_toNat, h] at hfalse
    cases hfalse
  all_goals
    revert h
    decide +kernel

end Character

namespace Lexer

open Character

variable {source pre body rest v m : Text} {pos n : Nat} {letters : List Letter}

/-- The tokens of ordinary code from an offset on, with their texts, if there are less
than so many. -/
def tokensFrom (source : Text) : Nat → Nat → Option (List (Kind × Text))
  | 0, _ => none
  | n + 1, pos =>
    match next false source pos with
    | .error _ _ => none
    | .ok t stop =>
      if t.kind = .eof then some []
      else (tokensFrom source n stop).map ((t.kind, t.text source) :: ·)

/-- The tokens that a text is read back as. -/
def tokensOf (source : Text) : Option (List (Kind × Text)) :=
  tokensFrom source (source.length + 1) 0

/-- The text is read back as a name and the access to a property of it. -/
def IsAccess (v m code : Text) : Prop :=
  ∃ kv km : Kind, kv.isNameLike = true ∧ km.isNameLike = true
    ∧ tokensOf code = some [(kv, v), (.dot, ['.']), (km, m)]

theorem exists_of_tokensFrom {x : Kind × Text} {xs : List (Kind × Text)}
    (h : tokensFrom source n pos = some (x :: xs)) :
    ∃ t stop n', next false source pos = .ok t stop ∧ x = (t.kind, t.text source)
      ∧ tokensFrom source n' stop = some xs := by
  cases n with
  | zero => cases h
  | succ n =>
    rw [tokensFrom] at h
    split at h
    · cases h
    rename_i t stop hnext
    split at h
    · cases h
    · obtain ⟨xs', hxs, heq⟩ := Option.map_eq_some_iff.mp h
      cases heq
      exact ⟨t, stop, n, hnext, rfl, hxs⟩

/-- A token without a gap in front of it is read. -/
theorem tokensFrom_cons {kind : Kind} {c : Char} {cs : Text}
    (hsource : source = pre ++ (c :: cs ++ rest)) (hc : isWhitespace c = false ∧ c ≠ '/')
    (hkind : kind ≠ .eof) (hcode : codeToken false (Text.size pre) (c :: cs ++ rest)
      = .ok kind (Text.size pre + Text.size (c :: cs))) :
    tokensFrom source (n + 1) (Text.size pre)
      = (tokensFrom source n (Text.size (pre ++ c :: cs))).map ((kind, c :: cs) :: ·) := by
  have hgap : skipGap .space false (Text.size pre) (c :: cs ++ rest)
      = .ok (false, c :: cs ++ rest) (Text.size pre) := skipGap_of_ne hc.1 hc.2
  have hnext : next false source (Text.size pre)
      = .ok { kind, start := Text.size pre, stop := Text.size pre + Text.size (c :: cs) }
        (Text.size pre + Text.size (c :: cs)) := by
    simp only [next, afterGap, hsource, Text.dropBytes?_append, hgap, hcode]
  rw [tokensFrom, hnext]
  dsimp only
  rw [if_neg hkind, Token.text, if_neg hkind, hsource, Text.slice_append, Text.size_append]

/-- A word starts with a backslash or with what starts an identifier. -/
theorem exists_cons_of_letters (h : AreLetters true letters) (hne : letters ≠ []) :
    ∃ c cs, spelling letters = c :: cs ∧ (c = '\\' ∨ isIdStart c = true) := by
  cases letters with
  | nil => exact absurd rfl hne
  | cons l letters =>
    cases l with
    | plain c => exact ⟨c, _, rfl, .inr h.1⟩
    | short digits => exact ⟨'\\', _, rfl, .inl rfl⟩
    | braced digits => exact ⟨'\\', _, rfl, .inl rfl⟩

/-- A word is read up to where it ends. -/
theorem exists_tokensFrom_word (hletters : AreLetters true letters) (hne : letters ≠ [])
    (hrest : EndsWord false rest) (hsource : source = pre ++ (spelling letters ++ rest)) :
    ∃ kind : Kind, kind.isNameLike = true ∧ ∀ n, tokensFrom source (n + 1) (Text.size pre)
      = (tokensFrom source n (Text.size (pre ++ spelling letters))).map
        ((kind, spelling letters) :: ·) := by
  obtain ⟨c, cs, hcs, hc⟩ := exists_cons_of_letters hletters hne
  have hpos : 0 < Text.size (spelling letters) := Text.size_pos_iff.mpr (by simp [hcs])
  obtain ⟨escaped, hskip⟩ := @skipWord_spelling true false (Text.size pre) letters hletters rest
    (by rwa [List.isEmpty_eq_false_iff.mpr hne, Bool.false_and])
  have hword : ∃ kind, word (Text.size pre) (spelling letters ++ rest)
      = .ok kind (Text.size pre + Text.size (spelling letters)) := by
    unfold word
    rw [hskip]
    dsimp only
    rw [if_neg (by omega)]
    split
    · exact ⟨_, rfl⟩
    · exact ⟨_, rfl⟩
  obtain ⟨kind, hword⟩ := hword
  have hname := (exists_of_word hword).1
  have hkind : kind ≠ .eof := by
    rintro rfl
    cases hname
  have hgap : isWhitespace c = false ∧ c ≠ '/' := by
    rcases hc with rfl | hc
    · decide
    · refine ⟨isWhitespace_of_isIdStart hc, ?_⟩
      rintro rfl
      revert hc
      decide
  have hstart : (c == '\\' || isWide c || isIdStart c) = true := by
    rcases hc with rfl | hc
    · rfl
    · rw [hc, Bool.or_true]
  rw [hcs] at hsource hword ⊢
  refine ⟨kind, hname, fun n => tokensFrom_cons hsource hgap hkind ?_⟩
  rw [List.cons_append] at hword ⊢
  rw [codeToken, if_pos hstart, hword]

/-- A dot in front of a word stands alone. -/
theorem tokensFrom_dot (hletters : AreLetters true letters) (hne : letters ≠ [])
    (hsource : source = pre ++ '.' :: spelling letters) :
    tokensFrom source (n + 1) (Text.size pre)
      = (tokensFrom source n (Text.size (pre ++ ['.']))).map ((.dot, ['.']) :: ·) := by
  obtain ⟨c, cs, hcs, hc⟩ := exists_cons_of_letters hletters hne
  have hplain : isDigit c = false ∧ c ≠ '.' := by
    rcases hc with rfl | hc
    · decide
    · refine ⟨Bool.eq_false_iff.mpr fun hdigit => ?_, ?_⟩
      · have hlt := toNat_lt_of_isDigit hdigit
        revert hc hdigit
        exact of_ascii hlt (by decide)
      · rintro rfl
        revert hc
        decide
  have hcut : IsCut ('.' :: c :: cs) ['.'] .dot :=
    isCut_cons rfl rfl (by simp) (by simp) (by simp [cons_isPrefix_iff, hplain.2.symm])
  rw [hcs] at hsource
  exact tokensFrom_cons hsource (by decide) (by decide)
    ((codeToken_eq_iff (by decide)).mpr ⟨hplain.1, _, hcut, rfl⟩)

/-- A variable, a dot and a name are read back as an access exactly if both are identifiers
or reserved words. -/
theorem isAccess_iff : IsAccess v m (v ++ '.' :: m) ↔ IsIdentifierName v ∧ IsIdentifierName m := by
  constructor
  · rintro ⟨kv, km, hkv, hkm, htokens⟩
    obtain ⟨tv, _, _, hv, heqv, htokens⟩ := exists_of_tokensFrom htokens
    obtain ⟨_, _, _, -, -, htokens⟩ := exists_of_tokensFrom htokens
    obtain ⟨tm, _, _, hm, heqm, -⟩ := exists_of_tokensFrom htokens
    obtain ⟨rfl, htextv⟩ := Prod.mk.inj heqv
    obtain ⟨rfl, htextm⟩ := Prod.mk.inj heqm
    exact ⟨htextv ▸ (exists_letters_of_next hv).2 hkv, htextm ▸ (exists_letters_of_next hm).2 hkm⟩
  · rintro ⟨⟨lv, hnev, hlv, rfl⟩, lm, hnem, hlm, rfl⟩
    generalize hcode : spelling lv ++ '.' :: spelling lm = code
    have hend : code = (spelling lv ++ ['.']) ++ (spelling lm ++ []) := by simp [← hcode]
    obtain ⟨kv, hkv, hv⟩ := exists_tokensFrom_word hlv hnev
      (by intro c hc; cases hc; decide : EndsWord false ('.' :: spelling lm))
      (by rw [← hcode]; rfl : code = [] ++ _)
    obtain ⟨km, hkm, hm⟩ := exists_tokensFrom_word hlm hnem (by nofun : EndsWord false []) hend
    refine ⟨kv, km, hkv, hkm, ?_⟩
    have hlength : ∃ n, code.length + 1 = n + 1 + 1 + 1 + 1 := by
      obtain ⟨c, cs, hcs, -⟩ := exists_cons_of_letters hlv hnev
      obtain ⟨d, ds, hds, -⟩ := exists_cons_of_letters hlm hnem
      exact ⟨cs.length + ds.length, by simp [← hcode, hcs, hds]; omega⟩
    obtain ⟨n, hn⟩ := hlength
    have hlast : tokensFrom code (n + 1) (Text.size (spelling lv ++ ['.'] ++ spelling lm)) = some [] := by
      have hdrop := Text.dropBytes?_append code []
      rw [List.append_nil] at hdrop
      rw [List.append_nil] at hend
      rw [← hend, tokensFrom]
      unfold next afterGap
      rw [hdrop]
      rfl
    rw [tokensOf, hn, show 0 = Text.size [] from rfl, hv, List.nil_append,
      tokensFrom_dot hlm hnem hcode.symm, hm, hlast]
    rfl

end Lexer

/-! ## The names of imports -/

namespace Linkage

theorem mem_named_of_scan {source : Text} {ts : List Token} {ds : Dependencies}
    (path imported name : Text) (h : Dependencies.scan source {} ts = .ok ds) :
    (imported, name) ∈ ((ds.at? path).getD {}).named
      ↔ ∃ im ∈ importsOf source ts, unquote im.rawPath = path ∧ (imported, name) ∈ im.named := by
  have hiff := collected_iff (P := fun d => (imported, name) ∈ (d.getD {}).named)
    (A := fun im => (imported, name) ∈ im.named) (B := False) path
    (by simp [Dependency.addImport]) (by simp [Dependency.addReexport]) h
  simpa [show ({} : Dependencies).at? path = none from rfl] using hiff

end Linkage

namespace Lower

open Linkage Lexer

/-- A reserved word is imported from a path that is no identifier. -/
def reservedNameSource : Text :=
  "import \x7bif as x\x7d from './a-b';\nx;".toList

/-- A name that is no identifier is imported. -/
def hyphenNameSource : Text :=
  "import \x7b\"a-b\" as c\x7d from 'm';\nc;".toList

end Lower

end Downlevel
