import Downlevel.Proofs.Markup.Lines

/-!
# References read back

Whatever is put together from references, from texts without an `&` and from an `&` here and there
that starts no reference, is read back as just that.
-/

namespace Downlevel.Markup

/-- A part of a text. -/
inductive Segment where
  /-- Characters that stand for themselves. -/
  | raw (t : Text)
  /-- A character that is written as a reference. -/
  | reference (body : Text) (c : Char)
  /-- An `&` that starts no reference. -/
  | ampersand
  deriving Repr, DecidableEq

/-- How a part is written. -/
def Segment.written : Segment → Text
  | raw t => t
  | reference body _ => '&' :: body ++ [';']
  | ampersand => ['&']

/-- What a part stands for. -/
def Segment.denoted : Segment → Text
  | raw t => t
  | reference _ c => [c]
  | ampersand => ['&']

/-- How parts are written, one after the other. -/
def written (segments : List Segment) : Text :=
  segments.flatMap Segment.written

/-- What parts stand for. -/
def denoted (segments : List Segment) : Text :=
  segments.flatMap Segment.denoted

/-- The parts are what they are said to be: a part without references holds only characters of a
class and no `&`, and what comes behind an `&` that stands alone does not make it a reference. -/
def AreSegments (isRaw : Char → Bool) : List Segment → Prop
  | [] => True
  | .raw t :: rest => (∀ c ∈ t, isRaw c = true ∧ c ≠ '&') ∧ AreSegments isRaw rest
  | .reference body c :: rest => Denotes body c ∧ AreSegments isRaw rest
  | .ampersand :: rest => ¬StartsReference (written rest) ∧ AreSegments isRaw rest

section

variable {isRaw : Char → Bool} {segments : List Segment} {t : Text}

theorem decodeReferences_written (h : AreSegments isRaw segments) :
    decodeReferences 0 (written segments) = denoted segments := by
  induction segments with
  | nil => rfl
  | cons segment rest ih =>
    rw [written, denoted, List.flatMap_cons, List.flatMap_cons, ← written, ← denoted]
    cases segment with
    | raw t =>
      rw [← ih h.2]
      exact decodeReferences_append fun hmem => (h.1 '&' hmem).2 rfl
    | reference body c =>
      have href : reference? (body ++ ';' :: written rest) = _ := h.1.reference?
      rw [← ih h.2, Segment.written, Segment.denoted]
      simp only [List.cons_append, List.append_assoc, List.nil_append]
      rw [decodeReferences, if_pos rfl, href]
      dsimp only
      rw [decodeReferences_drop]
      simp
    | ampersand =>
      rw [← ih h.2, Segment.written, Segment.denoted, List.singleton_append,
        List.singleton_append, decodeReferences, if_pos rfl, reference?_eq_none_iff.mpr h.1]

/-- Characters of the class are the only ones that are written. -/
theorem isBreak_of_mem_written (h : AreSegments isRaw segments) {d : Char} (hd : d ∈ written segments)
    (hbreak : isBreak d = true) : isRaw d = true := by
  induction segments with
  | nil => cases hd
  | cons segment rest ih =>
    rw [written, List.flatMap_cons, ← written, List.mem_append] at hd
    cases segment with
    | raw t => exact hd.elim (fun hd => (h.1 d hd).1) (ih h.2)
    | reference body c =>
      refine hd.elim (fun hd => ?_) (ih h.2)
      simp only [Segment.written, List.cons_append, List.mem_cons, List.mem_append,
        List.not_mem_nil, or_false] at hd
      rcases hd with rfl | hd | rfl
      · cases hbreak
      · rw [h.1.isBreak_eq_false d hd] at hbreak
        cases hbreak
      · cases hbreak
    | ampersand =>
      refine hd.elim (fun hd => ?_) (ih h.2)
      rw [List.mem_singleton.mp hd] at hbreak
      cases hbreak

theorem unwrap_eq_decodeReferences (skip : Nat) (h : '\n' ∉ t) :
    unwrap skip t = decodeReferences skip t := by
  induction t generalizing skip with
  | nil => cases skip <;> rfl
  | cons c t ih =>
    rw [List.mem_cons, not_or] at h
    cases skip with
    | succ skip => exact ih skip h.2
    | zero =>
      rw [unwrap, decodeReferences, if_neg (Ne.symm h.1)]
      cases reference? t <;> simp only [ih _ h.2]

theorem squeeze_of_isBreak {started : Bool} (h : ∀ c ∈ t, isBreak c = false) :
    squeeze [] false started t = t := by
  induction t generalizing started with
  | nil => rfl
  | cons c t ih =>
    rw [List.forall_mem_cons] at h
    rw [squeeze_cons_of_isBreak h.1, ih h.2, Bool.and_false]
    rfl

/-- **References are read back.**  A text is put together from parts: from characters that stand
for themselves, from references, by a name or by a number in decimal or hexadecimal digits, with
leading zeros and in either case, and from an `&` here and there that starts no reference.  The
literal of the text is the JSON string of what the parts stand for.  In an attribute the other
parts hold no line break, and between tags no white space at all.  Wherever an `&` starts no
reference, in whatever text, it stands for itself and reading goes on right behind it. -/
theorem literals_of_segments :
    (∀ segments, AreSegments (· != '\n') segments →
      attributeLiteral (written segments) = Text.quote (denoted segments)
        ∧ IsJsonString (attributeLiteral (written segments)) (denoted segments))
    ∧ (∀ segments, AreSegments (fun c => !isBreak c) segments →
      textLiteral (written segments) = Text.quote (denoted segments)
        ∧ IsJsonString (textLiteral (written segments)) (denoted segments))
    ∧ ∀ t, ¬StartsReference t →
      unwrap 0 ('&' :: t) = '&' :: unwrap 0 t
        ∧ ∀ pending atLineStart started, unindent 0 pending atLineStart started ('&' :: t)
          = unindent 0 pending atLineStart started ['&'] ++ unindent 0 [] false true t := by
  refine ⟨fun segments h => ?_, fun segments h => ?_, fun t h => ?_⟩
  · have hline : '\n' ∉ written segments := fun hmem => by
      have := isBreak_of_mem_written h hmem rfl
      simp at this
    have heq : attributeLiteral (written segments) = Text.quote (denoted segments) := by
      rw [attributeLiteral, unwrap_eq_decodeReferences 0 hline, decodeReferences_written h]
    exact ⟨heq, heq ▸ isJsonString_quote _⟩
  · have hbreak : ∀ c ∈ written segments, isBreak c = false := fun c hc => by
      by_contra hbreak
      rw [Bool.not_eq_false] at hbreak
      have := isBreak_of_mem_written h hc hbreak
      simp [hbreak] at this
    have heq : textLiteral (written segments) = Text.quote (denoted segments) := by
      rw [textLiteral, unindent_eq (by simp), squeeze_of_isBreak hbreak, decodeReferences_written h]
    exact ⟨heq, heq ▸ isJsonString_quote _⟩
  · have hnone := reference?_eq_none_iff.mpr h
    have hempty : reference? [] = none := by decide +kernel
    refine ⟨by rw [unwrap, if_neg (by decide), if_pos rfl, hnone], fun pending atLineStart started => ?_⟩
    rw [unindent, unindent, if_neg (by decide), if_neg (by decide), if_pos rfl, hnone]
    simp [hempty, unindent, isIndent]

end

/-- References with zeros and capitals, next to each other and behind an `&`, and one to a
surrogate, which is none. -/
def mixedSegments : List Segment :=
  [.raw "a".toList, .reference "#0038".toList '&', .reference "#x01F6aB".toList '🚫', .ampersand,
    .reference "amp".toList '&', .raw "amp;".toList, .ampersand, .raw "#xD800;".toList]

theorem literals_of_mixedSegments :
    attributeLiteral "a&#0038;&#x01F6aB;&&amp;amp;&#xD800;".toList
        = "\x22a&🚫&&amp;&#xD800;\x22".toList
      ∧ textLiteral "a&#0038;&#x01F6aB;&&amp;amp;&#xD800;".toList
        = "\x22a&🚫&&amp;&#xD800;\x22".toList := by
  have hsegments (isRaw : Char → Bool) (hraw : "a#xD8mp;0".toList.all isRaw = true) :
      AreSegments isRaw mixedSegments := by
    have hstand : ∀ c ∈ "a#xD8mp;0".toList, isRaw c = true ∧ c ≠ '&' :=
      fun c hc => ⟨List.all_eq_true.mp hraw c hc, by rintro rfl; revert hc; decide⟩
    have hparts {t : Text} (ht : t.all ("a#xD8mp;0".toList.contains ·) = true) :
        ∀ c ∈ t, isRaw c = true ∧ c ≠ '&' :=
      fun c hc => hstand c (List.elem_iff.mp (List.all_eq_true.mp ht c hc))
    exact ⟨hparts (by decide), .decimal ⟨2, by decide +kernel⟩, .hexadecimal ⟨1, by decide +kernel⟩,
      by decide +kernel, .named (by decide +kernel), hparts (by decide), by decide +kernel,
      hparts (by decide), trivial⟩
  exact ⟨(literals_of_segments.1 mixedSegments (hsegments _ (by decide))).1,
    (literals_of_segments.2.1 mixedSegments (hsegments _ (by decide))).1⟩

end Downlevel.Markup
