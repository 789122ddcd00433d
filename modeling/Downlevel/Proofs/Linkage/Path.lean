import Downlevel.Proofs.Linkage.ExportForm
import Downlevel.Proofs.Linkage.ImportForm

/-!
# Paths in module declarations

A path is a string literal after `import` or `from`.  In every form of a declaration
the path is the only such token, although names may be string literals, too.
-/

namespace Downlevel.Linkage

variable {source : Text} {b t : Token} {us vs : List Token}

/-- The second of two tokens has the place of a path. -/
structure IsPathAfter (source : Text) (b t : Token) : Prop where
  kind : t.kind = .string
  isType : t.isType = false
  before : b.kind = .kwImport ∨ b.kind = .name ∧ b.text source = "from".toList

/-- None of the tokens has the place of a path.  `b` is the token in front. -/
def Pathless (source : Text) : Token → List Token → Prop
  | _, [] => True
  | b, t :: ts => ¬IsPathAfter source b t ∧ Pathless source t ts

theorem pathless_append :
    Pathless source b (us ++ vs)
      ↔ Pathless source b us ∧ Pathless source (us.getLast?.getD b) vs := by
  induction us generalizing b with
  | nil => simp [Pathless]
  | cons t us ih =>
    have hlast : (t :: us).getLast?.getD b = us.getLast?.getD t := by
      rw [List.getLast?_cons]
      cases us.getLast? <;> rfl
    rw [List.cons_append, Pathless, Pathless, ih, and_assoc, hlast]

theorem pathless_of_ne_string (h : ∀ t ∈ us, t.kind ≠ .string) : Pathless source b us := by
  induction us generalizing b with
  | nil => trivial
  | cons t us ih =>
    refine ⟨fun hpath => h t List.mem_cons_self hpath.kind, ?_⟩
    exact ih fun u hu => h u (List.mem_cons_of_mem t hu)

theorem pathless_of_isType (h : ∀ t ∈ us, t.isType = true) : Pathless source b us := by
  induction us generalizing b with
  | nil => trivial
  | cons t us ih =>
    refine ⟨fun hpath => ?_, ih fun u hu => h u (List.mem_cons_of_mem t hu)⟩
    have htype := h t List.mem_cons_self
    rw [hpath.isType] at htype
    cases htype

theorem Opens.not_isPathAfter (hb : Opens b) : ¬IsPathAfter source b t := by
  intro hpath
  rcases hb.kind with hkind | hkind <;> simpa [hkind] using hpath.before

theorem IsWord.not_isPathAfter {word : String} (hb : IsWord source word b)
    (hword : word.toList ≠ "from".toList) : ¬IsPathAfter source b t := by
  intro hpath
  rcases hpath.before with hkind | ⟨-, htext⟩
  · simp [hb.kind] at hkind
  · exact hword (hb.text.symm.trans htext)

theorem Introduced.pathless (h : Introduced (some b) us) : Pathless source b us := by
  induction us generalizing b with
  | nil => trivial
  | cons t us ih =>
    refine ⟨fun hpath => ?_, ih h.2⟩
    obtain ⟨b', hb', hopens⟩ := h.1 hpath.isType hpath.kind
    cases hb'
    exact hopens.not_isPathAfter hpath

/-- Between the keyword and the path of an import there is no other path. -/
theorem ImportForm.pathless (h : ImportForm source us) (ht : t.kind = .kwImport) :
    Pathless source t us ∧ ((us.getLast?.getD t).kind = .kwImport
      ∨ (us.getLast?.getD t).kind = .name ∧ (us.getLast?.getD t).text source = "from".toList) := by
  rcases h.cases_from with rfl | ⟨first, mid, word, rfl, hvalue, hgo, hmid, hword⟩
  · exact ⟨trivial, .inl ht⟩
  · have hfirst : ¬IsPathAfter source t first := by
      intro hpath
      rw [hpath.kind] at hgo
      cases hgo
    refine ⟨⟨hfirst, pathless_append.mpr ⟨hmid.pathless, ?_⟩⟩, .inr ?_⟩
    · exact pathless_of_ne_string (by simp [hword.kind])
    · rw [← List.cons_append, List.getLast?_concat]
      exact ⟨hword.kind, hword.text⟩

theorem ExportItem.pathless (h : ExportItem source us) (hb : Opens b) : Pathless source b us := by
  cases h with
  | plain hname => exact ⟨hb.not_isPathAfter, trivial⟩
  | renamed hname hword hexported =>
    refine ⟨hb.not_isPathAfter, fun hpath => ?_, hword.not_isPathAfter (by decide), trivial⟩
    simpa [hword.kind] using hpath.kind
  | typed htyped => exact pathless_of_isType fun t ht => (htyped t ht).1

theorem Separated.pathless (h : Separated source (ExportItem source) us) (hb : Opens b) :
    Pathless source b us := by
  induction h generalizing b with
  | nil => trivial
  | last hitem => exact hitem.pathless hb
  | more hitem hcomma _ ih =>
    refine pathless_append.mpr ⟨hitem.pathless hb, fun hpath => ?_, ?_⟩
    · simpa [hcomma.kind] using hpath.kind
    · exact ih ⟨hcomma.isType, .inl hcomma.kind⟩

/-- In an export list and behind it there is no path. -/
theorem Separated.pathless_list {opening closing : Token} {rest : List Token}
    (h : Separated source (ExportItem source) us) (hopening : IsMark source .braceL opening)
    (hclosing : IsMark source .braceR closing) (hrest : ∀ t ∈ rest, t.kind ≠ .string) :
    Pathless source t (opening :: (us ++ closing :: rest)) := by
  refine ⟨fun hpath => ?_, pathless_append.mpr ⟨?_, pathless_of_ne_string ?_⟩⟩
  · simpa [hopening.kind] using hpath.kind
  · exact h.pathless ⟨hopening.isType, .inr hopening.kind⟩
  · intro u hu
    rcases List.mem_cons.mp hu with rfl | hu
    · simp [hclosing.kind]
    · exact hrest u hu

/-- Between the keyword and the path of an export there is no other path. -/
theorem ExportForm.pathless (h : ExportForm source us) :
    Pathless source t us ∧ (us.getLast?.getD t).kind = .name
      ∧ (us.getLast?.getD t).text source = "from".toList := by
  cases h with
  | all hstar hword =>
    exact ⟨pathless_of_ne_string (by simp [hstar.kind, hword.kind]), hword.kind, hword.text⟩
  | @allAs star as name word hstar has hname _ hword =>
    refine ⟨⟨fun hpath => ?_, fun hpath => ?_, has.not_isPathAfter (by decide), fun hpath => ?_,
      trivial⟩, hword.kind, hword.text⟩
    · simpa [hstar.kind] using hpath.kind
    · simpa [has.kind] using hpath.kind
    · simpa [hword.kind] using hpath.kind
  | @list items opening closing word hopening hitems hclosing hword =>
    have hlast : (opening :: (items ++ [closing, word])).getLast? = some word := by
      have hassoc : opening :: (items ++ [closing, word]) = opening :: items ++ [closing] ++ [word] := by
        simp
      rw [hassoc, List.getLast?_concat]
    rw [hlast]
    exact ⟨hitems.pathless_list hopening hclosing (by simp [hword.kind]), hword.kind, hword.text⟩

end Downlevel.Linkage
