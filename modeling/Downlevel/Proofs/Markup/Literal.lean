import Downlevel.Edit.Program
import Downlevel.Markup.Literal
import Downlevel.Proofs.Identifier
import Downlevel.Proofs.Lexer.Pieces

/-!
# Plain texts as literals

A text of letters, digits and dots stands for itself: as a name, as the value of an attribute and
between tags.
-/

namespace Downlevel.Markup

open Character

variable {t : Text} {c : Char}

theorem Word.decode_text (name : Word) : Identifier.decode name.text = name.text := by
  have hplain : '\\' ∉ name.text := fun h =>
    (isIdStart_of_isLetter (name.letters _ h)).2.2.2 (by simp)
  rw [Identifier.decode, Identifier.decode?_of_notMem hplain, Option.getD_some]

/-- Only characters that stand for themselves. -/
def IsPlain (t : Text) : Prop :=
  ∀ c ∈ t, isLetter c = true ∨ isDigit c = true ∨ c = '.'

theorem IsPlain.tail (h : IsPlain (c :: t)) : IsPlain t :=
  fun d hd => h d (List.mem_cons_of_mem _ hd)

theorem IsPlain.head (h : IsPlain (c :: t)) :
    c ∉ ['<', '{', '\x22', '&', ' ', '\t', '\r', '\n'] :=
  not_mem_of_plain (h c (List.mem_cons_self ..))

theorem IsPlain.escapeChar (h : IsPlain (c :: t)) : Text.escapeChar c = [c] := by
  have hc := h c (List.mem_cons_self ..)
  have hascii := toNat_lt_of_plain hc
  revert hc
  exact of_ascii hascii (by decide)

theorem IsPlain.quote (h : IsPlain t) : Text.quote t = '\x22' :: t ++ ['\x22'] := by
  have hescape : t.flatMap Text.escapeChar = t := by
    induction t with
    | nil => rfl
    | cons c t ih => rw [List.flatMap_cons, h.escapeChar, ih h.tail, List.singleton_append]
  rw [Text.quote, hescape]

theorem IsPlain.attributeLiteral (h : IsPlain t) : attributeLiteral t = '\x22' :: t ++ ['\x22'] := by
  have hunwrap : unwrap 0 t = t := by
    induction t with
    | nil => rfl
    | cons c t ih =>
      have hc := h.head
      simp only [List.mem_cons, not_or] at hc
      rw [unwrap, if_neg hc.2.2.2.2.2.2.2.1, if_neg hc.2.2.2.1, ih h.tail]
  rw [Markup.attributeLiteral, hunwrap, h.quote]

theorem IsPlain.unindent (h : IsPlain t) {started : Bool} : unindent 0 [] false started t = t := by
  induction t generalizing started with
  | nil => rfl
  | cons c t ih =>
    have hc := h.head
    simp only [List.mem_cons, List.not_mem_nil, or_false, not_or] at hc
    rw [Markup.unindent, if_neg (by simp [isIndent, hc]), if_neg hc.2.2.2.2.2.2.2]
    simp [hc, ih h.tail]

theorem IsPlain.textLiteral (h : IsPlain t) : textLiteral t = '\x22' :: t ++ ['\x22'] := by
  rw [Markup.textLiteral, h.unindent, h.quote]

/-- There is no layout to be kept. -/
theorem IsPlain.layout (h : IsPlain t) : layout t = [] := by
  have hne (c : Char) (hc : c ∈ t) : c ≠ '\n' ∧ c ≠ ' ' := by
    have := not_mem_of_plain (h c hc)
    simp only [List.mem_cons, List.not_mem_nil, or_false, not_or] at this
    exact ⟨this.2.2.2.2.2.2.2, this.2.2.2.2.1⟩
  have hspaces : ' ' ∉ t.reverse.takeWhile (· != '\n') := fun hc =>
    (hne ' ' (List.mem_reverse.mp ((List.takeWhile_sublist _).subset hc))).2 rfl
  have hnewlines : Text.newlines t = [] :=
    List.filter_eq_nil_iff.mpr fun c hc => by simpa using (hne c hc).1
  rw [Markup.layout, hnewlines, List.count_eq_zero.mpr hspaces]
  rfl

end Downlevel.Markup
