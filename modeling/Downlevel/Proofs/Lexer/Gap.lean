import Downlevel.Lexer.Gap
import Downlevel.Proofs.Text.Offset

/-!
# Gaps are white space and complete comments

`IsGap` says what a gap is without saying how it is scanned, and
`exists_isGap_of_skipGap` that a scan goes through a gap and nothing else.
-/

namespace Downlevel.Lexer

open Character

variable {pos stop : Nat} {nl nl' : Bool} {c : Char}

/-- A line comment can end in front of this text. -/
def EndsLine (t : Text) : Prop :=
  ∀ c, t.head? = some c → isLineTerminator c = true

/-- White space and complete comments, with `rest` after them.  A line comment
goes on to the end of its line, a block comment to the first mark that ends it. -/
inductive IsGap (rest : Text) : Text → Prop
  | nil : IsGap rest []
  | space {c : Char} {cs : Text} : isWhitespace c = true → IsGap rest cs → IsGap rest (c :: cs)
  | lineComment {body cs : Text} : (∀ c ∈ body, isLineTerminator c = false) →
      EndsLine (cs ++ rest) → IsGap rest cs → IsGap rest ('/' :: '/' :: (body ++ cs))
  | blockComment {body cs : Text} : ¬['*', '/'] <:+: body → IsGap rest cs →
      IsGap rest ('/' :: '*' :: (body ++ '*' :: '/' :: cs))

/-- What is left of a gap in each of its parts. -/
def IsGapFrom (rest : Text) : GapPart → Text → Prop
  | .space, gap => IsGap rest gap
  | .lineComment, gap =>
    ∃ body cs, gap = body ++ cs ∧ (∀ c ∈ body, isLineTerminator c = false)
      ∧ EndsLine (cs ++ rest) ∧ IsGap rest cs
  | .blockComment _, gap =>
    ∃ body cs, gap = body ++ '*' :: '/' :: cs ∧ ¬['*', '/'] <:+: body ∧ IsGap rest cs

theorem isWhitespace_of_isLineTerminator (h : isLineTerminator c = true) :
    isWhitespace c = true := by
  simp [isWhitespace, h]

theorem isGapFrom_lineComment_cons {rest gap : Text} (hc : isLineTerminator c = false)
    (h : IsGapFrom rest .lineComment gap) :
    IsGapFrom rest .lineComment (c :: gap) := by
  obtain ⟨body, cs, rfl, hbody, hend, hgap⟩ := h
  refine ⟨c :: body, cs, rfl, ?_, hend, hgap⟩
  intro d hd
  rcases List.mem_cons.mp hd with rfl | hd
  · exact hc
  · exact hbody d hd

/-- A character goes before the rest of a block comment if the two together do
not end the comment. -/
theorem isGapFrom_blockComment_cons {rest gap : Text} {start : Nat}
    (hc : ∀ cs, c = '*' → gap ++ rest = '/' :: cs → False)
    (h : IsGapFrom rest (.blockComment start) gap) :
    IsGapFrom rest (.blockComment start) (c :: gap) := by
  obtain ⟨body, cs, rfl, hbody, hgap⟩ := h
  refine ⟨c :: body, cs, rfl, ?_, hgap⟩
  rw [List.infix_cons_iff]
  rintro (⟨tail, htail⟩ | hinfix)
  · obtain ⟨rfl, hbody'⟩ := List.cons.inj htail
    exact hc (tail ++ ('*' :: '/' :: cs) ++ rest) rfl (by rw [← hbody']; rfl)
  · exact hbody hinfix

/-- A scan that stands in `part` of a gap goes through the rest of the gap. -/
def Crosses (rest : Text) (part : GapPart) (nl : Bool) (pos : Nat) (cs : Text) (nl' : Bool)
    (stop : Nat) : Prop :=
  ∃ gap, cs = gap ++ rest ∧ stop = pos + Text.size gap
    ∧ nl' = (nl || gap.any isLineTerminator) ∧ IsGapFrom rest part gap

theorem Crosses.prepend {rest cs : Text} {part part' : GapPart} (pre : Text)
    (h : Crosses rest part (nl || pre.any isLineTerminator) (pos + Text.size pre) cs
      nl' stop) (hpart : ∀ gap, cs = gap ++ rest → IsGapFrom rest part gap →
      IsGapFrom rest part' (pre ++ gap)) :
    Crosses rest part' nl pos (pre ++ cs) nl' stop := by
  obtain ⟨gap, rfl, rfl, rfl, hgap⟩ := h
  refine ⟨pre ++ gap, by simp, by simp [Nat.add_assoc], by simp [Bool.or_assoc], ?_⟩
  exact hpart gap rfl hgap

/-- The case of `Crosses.prepend` for a mark of a comment. -/
theorem Crosses.prepend_mark {rest cs : Text} {part part' : GapPart} (pre : Text)
    (hpre : pre.any isLineTerminator = false)
    (h : Crosses rest part nl (pos + Text.size pre) cs nl' stop)
    (hpart : ∀ gap, IsGapFrom rest part gap → IsGapFrom rest part' (pre ++ gap)) :
    Crosses rest part' nl pos (pre ++ cs) nl' stop :=
  Crosses.prepend pre (by rwa [hpre, Bool.or_false]) fun gap _ => hpart gap

/-- A scan of a gap goes through a gap, and sees its line terminators. -/
theorem crosses_of_skipGap {part : GapPart} {cs rest : Text}
    (h : skipGap part nl pos cs = .ok (nl', rest) stop) :
    Crosses rest part nl pos cs nl' stop := by
  fun_induction skipGap part nl pos cs with
  | case1 nl pos cs ih =>
    refine Crosses.prepend_mark ['/', '/'] rfl (ih h) ?_
    rintro gap ⟨body, cs', rfl, hbody, hend, hgap⟩
    exact (.lineComment hbody hend hgap : IsGap rest ('/' :: '/' :: (body ++ cs')))
  | case2 nl pos cs ih =>
    refine Crosses.prepend_mark ['/', '*'] rfl (ih h) ?_
    rintro gap ⟨body, cs', rfl, hbody, hgap⟩
    exact IsGap.blockComment hbody hgap
  | case3 nl pos c cs _ _ hc ih =>
    refine Crosses.prepend [c] (by simpa using ih h) ?_
    exact fun gap _ hgap => .space hc hgap
  | case4 nl pos c cs =>
    obtain ⟨⟨rfl, rfl⟩, rfl⟩ := EStateM.Result.ok.inj h
    exact ⟨[], rfl, rfl, by simp, .nil⟩
  | case5 nl pos c cs hc ih =>
    refine Crosses.prepend [c] (by simpa [hc] using ih h) fun gap _ hgap => ?_
    refine ⟨[], c :: gap, rfl, by simp, ?_, .space (isWhitespace_of_isLineTerminator hc) hgap⟩
    rintro d ⟨⟩
    exact hc
  | case6 nl pos c cs hc ih =>
    have hc' : isLineTerminator c = false := by simpa using hc
    refine Crosses.prepend [c] (by simpa [hc'] using ih h) fun gap _ hgap => ?_
    exact isGapFrom_lineComment_cons hc' hgap
  | case7 start nl pos cs ih =>
    refine Crosses.prepend_mark ['*', '/'] rfl (ih h) ?_
    exact fun gap hgap => ⟨[], gap, rfl, by simp, hgap⟩
  | case8 start nl pos c cs hc ih =>
    refine Crosses.prepend [c] (by simpa using ih h) fun gap hcs hgap => ?_
    exact isGapFrom_blockComment_cons (fun cs' hstar hslash => hc cs' hstar (hcs.trans hslash)) hgap
  | case9 => cases h
  | case10 nl pos =>
    obtain ⟨⟨rfl, rfl⟩, rfl⟩ := EStateM.Result.ok.inj h
    exact ⟨[], rfl, rfl, by simp, .nil⟩
  | case11 nl pos =>
    obtain ⟨⟨rfl, rfl⟩, rfl⟩ := EStateM.Result.ok.inj h
    exact ⟨[], rfl, rfl, by simp, [], [], rfl, by simp, by simp [EndsLine], .nil⟩

end Downlevel.Lexer
