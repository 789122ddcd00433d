import Downlevel.Identifier
import Downlevel.Proofs.Lexer.Word

/-!
# What spellings are decoded to

A row of letters is decoded letter by letter (`decode?_spelling`).  A letter that denotes
a character is decoded to it.  An escape that denotes none loses its `\u`.
-/

namespace Downlevel

open Character

namespace Lexer.Letter

/-- What a letter is decoded to. -/
def decoded : Letter → Text
  | plain c => [c]
  | short digits => Identifier.unescape digits digits
  | braced digits => Identifier.unescape digits ('{' :: (digits ++ ['}']))

/-- The character of the code point that hexadecimal digits write. -/
def charOfDigits? (digits : Text) : Option Char :=
  if digits ≠ [] ∧ digits.all isHexDigit = true then ofCodePoint? (Text.valueOfDigits 16 digits)
  else none

/-- The character that a letter denotes. -/
def char? : Letter → Option Char
  | plain c => some c
  | short digits => charOfDigits? digits
  | braced digits => charOfDigits? digits

/-- A letter is to be read as its character, or as it is written if it denotes none. -/
def meant (l : Letter) : Text :=
  match l.char? with
  | some c => [c]
  | none => l.text

theorem unescape_of_charOfDigits? {digits written : Text} {c : Char}
    (h : charOfDigits? digits = some c) : Identifier.unescape digits written = [c] := by
  unfold charOfDigits? at h
  split at h
  · rename_i hdigits
    have hnumber : Text.hexNumber? digits = some (Text.valueOfDigits 16 digits) := by
      obtain ⟨d, t, rfl⟩ := List.exists_cons_of_ne_nil hdigits.1
      have hplus : d ≠ '+' := by
        rintro rfl
        exact absurd hdigits.2 (by simp [isHexDigit, hexValue?, isDigit])
      unfold Text.hexNumber?
      split
      · rename_i heq
        exact absurd (List.cons.inj heq).1 hplus
      · simp [hdigits.2]
    rw [Identifier.unescape, hnumber, Option.bind_some, h]
  · cases h

theorem decoded_of_char? {l : Letter} (h : l.char?.isSome = true) : l.decoded = l.meant := by
  obtain ⟨c, hc⟩ := Option.isSome_iff_exists.mp h
  rw [meant, hc]
  cases l with
  | plain d =>
    cases hc
    rfl
  | short digits => exact unescape_of_charOfDigits? hc
  | braced digits => exact unescape_of_charOfDigits? hc

end Lexer.Letter

namespace Identifier

open Lexer (Letter spelling)

theorem decodeFrom?_drop (n : Nat) (t : Text) : decodeFrom? n t = decodeFrom? 0 (t.drop n) := by
  induction t generalizing n with
  | nil => cases n <;> rfl
  | cons c t ih =>
    cases n with
    | zero => rfl
    | succ n => rw [decodeFrom?, ih, List.drop_succ_cons]

theorem decodeFrom?_letter {l : Letter} (h : l.IsValid) (t : Text) :
    decodeFrom? 0 (l.text ++ t) = (decodeFrom? 0 t).map (l.decoded ++ ·) := by
  cases l with
  | plain c =>
    rw [Letter.text, List.singleton_append, decodeFrom?]
    · rfl
    · exact fun cs hc _ => h hc
  | short digits =>
    obtain ⟨d, ds, hcons, hd⟩ := Lexer.exists_cons_of_hexDigits h.1 h.2
    have hsize : Text.size digits = 4 := (Lexer.size_of_hexDigits h.2).trans h.1
    have hdrop : Text.dropBytes? (digits ++ t) 4 = some t := hsize ▸ Text.dropBytes?_append digits t
    have htake : Text.takeBytes (digits ++ t) 4 = digits := hsize ▸ Text.takeBytes_append digits t
    have hsplit : isSplit (digits ++ t) = false := by
      unfold isSplit
      split
      · rfl
      · rw [hdrop]
        rfl
    have hescape : escapeDigits? (digits ++ t) = some (digits, digits.length) := by
      unfold escapeDigits?
      split
      · rename_i heq
        rw [hcons, List.cons_append] at heq
        exact absurd (List.cons.inj heq).1 hd
      · rw [htake]
    rw [Letter.text, List.cons_append, List.cons_append, decodeFrom?, hsplit, hescape,
      if_neg Bool.false_ne_true]
    dsimp only
    rw [decodeFrom?_drop, List.drop_left, List.take_left]
    rfl
  | braced digits =>
    have hcut : Text.cut '}' (digits ++ '}' :: t) = (digits, some t) := Text.cut_append h t
    have hescape : escapeDigits? ('{' :: (digits ++ '}' :: t)) = some (digits, digits.length + 2) := by
      rw [escapeDigits?, hcut]
    have hlength : digits.length + 2 = ('{' :: (digits ++ ['}'])).length := by simp
    have happend : '{' :: (digits ++ '}' :: t) = '{' :: (digits ++ ['}']) ++ t := by simp
    rw [Letter.text, List.cons_append, List.cons_append, decodeFrom?, ← happend, hescape,
      if_neg (by simp [isSplit])]
    dsimp only
    rw [happend, hlength, decodeFrom?_drop, List.drop_left, List.take_left]
    rfl

/-- A row of letters is decoded letter by letter. -/
theorem decode?_spelling {letters : List Letter} (h : ∀ l ∈ letters, l.IsValid) :
    decode? (spelling letters) = some (letters.flatMap Letter.decoded) := by
  unfold decode?
  induction letters with
  | nil => rfl
  | cons l letters ih =>
    rw [List.forall_mem_cons] at h
    rw [Lexer.spelling_cons, decodeFrom?_letter h.1, ih h.2]
    rfl

theorem decode?_of_notMem {t : Text} (h : '\\' ∉ t) : decode? t = some t := by
  have hdecode := decode?_spelling (Lexer.isValid_plain h)
  rw [Lexer.spelling_plain] at hdecode
  simp [hdecode, List.flatMap_map, Letter.decoded]

/-- A text that cannot be decoded has an escape that cannot be cut off. -/
theorem exists_split_of_decodeFrom? {skip : Nat} {t : Text} (h : decodeFrom? skip t = none) :
    ∃ pre cs, t = pre ++ '\\' :: 'u' :: cs ∧ isSplit cs = true := by
  fun_induction decodeFrom? skip t with
  | case1 => cases h
  | case2 skip c cs ih =>
    obtain ⟨pre, rest, rfl, hsplit⟩ := ih h
    exact ⟨c :: pre, rest, rfl, hsplit⟩
  | case3 cs hsplit => exact ⟨[], cs, rfl, hsplit⟩
  | case4 => cases h
  | case5 cs _ digits length _ ih =>
    obtain ⟨pre, rest, rfl, hsplit⟩ := ih (Option.map_eq_none_iff.mp h)
    exact ⟨'\\' :: 'u' :: pre, rest, rfl, hsplit⟩
  | case6 c cs _ ih =>
    obtain ⟨pre, rest, rfl, hsplit⟩ := ih (Option.map_eq_none_iff.mp h)
    exact ⟨c :: pre, rest, rfl, hsplit⟩

end Identifier

end Downlevel
