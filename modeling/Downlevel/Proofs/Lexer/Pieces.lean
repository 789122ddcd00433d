import Downlevel.Proofs.Lexer.Spelling
import Downlevel.Proofs.Markup.Tree
import Downlevel.Proofs.Token.Piece

/-!
# Reading what pieces spell

`q.ReadsIn mode rest` says that the piece `q` is read in a mode when `rest` comes behind it.  What
a character of ASCII is good for is found by trying all of them.
-/

namespace Downlevel

open Character

variable {c : Char} {pos : Nat}

namespace Character

/-- What holds of each character of ASCII. -/
@[elab_as_elim]
theorem of_ascii {P : Char → Prop} (hc : c.toNat < 128) (h : ∀ n < 128, P (Char.ofNat n)) :
    P c := by
  have hofNat := h c.toNat hc
  rwa [Char.ofNat_toNat] at hofNat

theorem toNat_lt_of_isLetter (h : isLetter c = true) : c.toNat < 128 := by
  unfold isLetter isLower at h
  rcases Bool.or_eq_true_iff.mp h with h | h
  · exact Nat.lt_of_le_of_lt (of_decide_eq_true (Bool.and_eq_true_iff.mp h).2 : c.toNat ≤ 122) (by decide)
  · exact Nat.lt_of_le_of_lt (of_decide_eq_true (Bool.and_eq_true_iff.mp h).2 : c.toNat ≤ 90) (by decide)

theorem toNat_lt_of_isDigit (h : isDigit c = true) : c.toNat < 128 :=
  Nat.lt_of_le_of_lt (of_decide_eq_true (Bool.and_eq_true_iff.mp h).2 : c.toNat ≤ 57) (by decide)

/-- A letter starts an identifier, and nothing else. -/
theorem isIdStart_of_isLetter (h : isLetter c = true) :
    isIdStart c = true ∧ isIdContinue c = true ∧ isWhitespace c = false ∧ c ∉ ['/', '*', '\\'] := by
  have hc := toNat_lt_of_isLetter h
  revert h
  exact of_ascii hc (by decide)

theorem toNat_lt_of_plain (h : isLetter c = true ∨ isDigit c = true ∨ c = '.') :
    c.toNat < 128 := by
  rcases h with h | h | rfl
  · exact toNat_lt_of_isLetter h
  · exact toNat_lt_of_isDigit h
  · decide

/-- A letter, a digit or a dot stands for itself in markup. -/
theorem not_mem_of_plain (h : isLetter c = true ∨ isDigit c = true ∨ c = '.') :
    c ∉ ['<', '{', '\x22', '&', ' ', '\t', '\r', '\n'] := by
  have hc := toNat_lt_of_plain h
  revert h
  exact of_ascii hc (by decide)

end Character

namespace Lexer

variable {nl : Bool} {cs : Text}

/-! ## Gaps -/

/-- What is no white space and starts no comment ends a gap. -/
theorem skipGap_of_ne (hspace : isWhitespace c = false) (hslash : c ≠ '/') :
    skipGap .space nl pos (c :: cs) = .ok (nl, c :: cs) pos := by
  rw [skipGap, if_neg (by simp [hspace])]
  · rintro _ rfl
    exact absurd rfl hslash
  · rintro _ rfl
    exact absurd rfl hslash

theorem skipGap_slash (h : c ∉ ['/', '*']) :
    skipGap .space nl pos ('/' :: c :: cs) = .ok (nl, '/' :: c :: cs) pos := by
  simp only [List.mem_cons, List.not_mem_nil, or_false, not_or] at h
  rw [skipGap, if_neg (by decide)]
  · simp [h.1]
  · simp [h.2]

theorem skipGap_blank :
    skipGap .space nl pos (' ' :: cs) = skipGap .space nl (pos + 1) cs := by
  rw [skipGap, if_pos (by decide)]
  · simp only [show isLineTerminator ' ' = false by decide, Bool.or_false]
    rfl
  · nofun
  · nofun

end Lexer

/-! ## Pieces -/

/-- The piece is read in a mode, with this text behind it. -/
def Piece.ReadsIn (q : Piece) (mode : Lexer.Mode) (rest : Text) : Prop :=
  ∀ source pos, Text.dropBytes? source pos = some (q.text ++ rest) →
    Lexer.read mode false source pos = .ok (q.bare.token pos) (pos + Text.size q.text)

namespace Lexer

open Markup

variable {q : Piece} {rest : Text}

theorem afterGap_eq {inside : Fault} {read : Nat → Text → Outcome Kind} {source : Text}
    (hdrop : Text.dropBytes? source pos = some (q.text ++ rest))
    (hgap : skipGap .space false pos (q.text ++ rest)
      = .ok (false, q.body ++ rest) (pos + Text.size q.gap))
    (hread : read (pos + Text.size q.gap) (q.body ++ rest) = .ok q.kind (pos + Text.size q.text)) :
    afterGap inside read source pos = .ok (q.bare.token pos) (pos + Text.size q.text) := by
  unfold afterGap
  simp only [hdrop, hgap, hread]
  rfl

/-- A piece of ordinary code. -/
theorem readsIn_normal
    (hgap : ∀ pos, skipGap .space false pos (q.text ++ rest)
      = .ok (false, q.body ++ rest) (pos + Text.size q.gap))
    (hread : ∀ pos, codeToken false pos (q.body ++ rest) = .ok q.kind (pos + Text.size q.body)) :
    q.ReadsIn .normal rest := by
  intro source pos hdrop
  refine afterGap_eq hdrop (hgap pos) ?_
  rw [hread, Piece.text, Text.size_append, Nat.add_assoc]

/-- A piece of a tag. -/
theorem readsIn_tag (hkind : q.kind ≠ .eof)
    (hgap : ∀ pos, skipGap .space false pos (q.text ++ rest)
      = .ok (false, q.body ++ rest) (pos + Text.size q.gap))
    (hread : ∀ pos, tagToken pos (q.body ++ rest) = .ok q.kind (pos + Text.size q.body)) :
    q.ReadsIn .tag rest := by
  intro source pos hdrop
  have hafter : afterGap (.unexpectedTagCharacter '?') tagToken source pos
      = .ok (q.bare.token pos) (pos + Text.size q.text) := by
    refine afterGap_eq hdrop (hgap pos) ?_
    rw [hread, Piece.text, Text.size_append, Nat.add_assoc]
  change EStateM.bind (afterGap _ tagToken source) _ pos = _
  unfold EStateM.bind
  rw [hafter]
  change (if q.kind = .eof then _ else _ : Scan Token) source _ = _
  rw [if_neg hkind]
  rfl

/-- A piece between tags. -/
theorem readsIn_child (hgap : q.gap = [])
    (hread : ∀ pos, childToken pos (q.body ++ rest) = .ok q.kind (pos + Text.size q.body)) :
    q.ReadsIn .child rest := by
  intro source pos hdrop
  have htext : q.text = q.body := by rw [Piece.text, hgap, List.nil_append]
  rw [htext] at hdrop
  change atOffset _ childToken source pos = _
  unfold atOffset
  simp only [hdrop, hread, htext]
  simp [Piece.token, Piece.bare, hgap, Piece.text]

end Lexer

end Downlevel
