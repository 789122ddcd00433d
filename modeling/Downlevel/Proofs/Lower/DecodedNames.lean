import Downlevel.Proofs.Identifier
import Downlevel.Proofs.Lower.Paths

/-!
# Which names can be decoded

Every name and every reserved word of a program, and every name of an element, is a row of
complete letters, so that decoding it never fails.  The name behind `export * as` may be a
string literal, which is decoded like a name.  It fails if an escape in it cannot be cut
off between two characters.
-/

namespace Downlevel

open Lexer (Letter spelling)

namespace Grammar

variable {source : Text} {x y : Stage × State}

/-- Does the kind belong to names, of variables or of elements? -/
def IsName (kind : Kind) : Prop :=
  kind.isNameLike = true ∨ kind = .jsxName

instance (kind : Kind) : Decidable (IsName kind) :=
  inferInstanceAs (Decidable (_ ∨ _))

/-- A name is a row of complete letters. -/
def IsSpelled (source : Text) (t : Token) : Prop :=
  IsName t.kind → ∃ letters : List Letter, (∀ l ∈ letters, l.IsValid)
    ∧ t.text source = spelling letters

theorem notMem_of_tagToken {pos stop : Nat} {cs : Text} {kind : Kind} (hkind : IsName kind)
    (h : Lexer.tagToken pos cs = .ok kind stop) : '\\' ∉ Text.takeBytes cs (stop - pos) := by
  unfold Lexer.tagToken at h
  split at h
  · cases h
    exact absurd hkind (by decide)
  split at h
  · rename_i hmark
    cases h
    unfold Lexer.tagMark? at hmark
    split at hmark <;> cases hmark <;> exact absurd hkind (by decide)
  repeat' split at h
  all_goals cases h
  · exact absurd hkind (by decide)
  · rename_i c cs _ _ _ _
    have htake := Text.takeBytes_append ((c :: cs).takeWhile fun d => d == '-' || Character.isIdContinue d)
      ((c :: cs).dropWhile fun d => d == '-' || Character.isIdContinue d)
    rw [List.takeWhile_append_dropWhile] at htake
    rw [Nat.add_sub_cancel_left, htake]
    intro hmem
    exact absurd (List.mem_takeWhile_imp hmem) (by decide)

theorem isSpelled_of_read {mode : Lexer.Mode} {inType : Bool} {pos stop : Nat} {t : Token}
    (h : Lexer.read mode inType source pos = .ok t stop) : IsSpelled source t := by
  intro hkind
  cases mode with
  | normal =>
    refine (Lexer.exists_letters_of_next h).1 fun hstring => ?_
    rw [hstring] at hkind
    exact absurd hkind (by decide)
  | tag =>
    obtain ⟨t', hgap, ht⟩ := Lexer.exists_of_nextTag h
    have heof : t'.kind ≠ .eof := by
      intro heof
      rw [if_pos heof] at ht
      rw [ht, heof] at hkind
      exact absurd hkind (by decide)
    rw [if_neg heof] at ht
    subst ht
    obtain ⟨hstop, hread, -⟩ := Lexer.read_of_afterGap hgap
    have hplain := notMem_of_tagToken hkind hread
    refine ⟨_, Lexer.isValid_plain hplain, ?_⟩
    rw [Lexer.spelling_plain, Token.text, if_neg heof, Text.slice, hstop]
  | templateChunk =>
    obtain ⟨cs, -, hread, -⟩ := Lexer.exists_of_atOffset h
    unfold Lexer.templateChunk at hread
    split at hread
    · cases hread
    · rw [← (EStateM.Result.ok.inj hread).1] at hkind
      exact absurd hkind (by decide)
  | templateEnd =>
    obtain ⟨cs, -, hread, -⟩ := Lexer.exists_of_atOffset h
    generalize t.kind = kind at hread hkind
    unfold Lexer.templateMark at hread
    split at hread <;> cases hread <;> exact absurd hkind (by decide)
  | child =>
    obtain ⟨cs, -, hread, -⟩ := Lexer.exists_of_atOffset h
    generalize t.kind = kind at hread hkind
    unfold Lexer.childToken at hread
    split at hread <;> cases hread <;> exact absurd hkind (by decide)

/-- Finished names and the name ahead are spelled. -/
structure Spelled (source : Text) (st : State) : Prop where
  finished : ∀ (i : Nat) (t : Token), st.tokens[i]? = some t → IsSpelled source t
  ahead : IsSpelled source st.cur

theorem Spelled.reannotates {st : State} {ts : Array Token} (h : Spelled source st)
    (hr : Reannotates st.tokens ts) :
    Spelled source { st with tokens := ts } := by
  refine ⟨fun i u hu => ?_, h.ahead⟩
  obtain ⟨t, ht, ha⟩ := hr.annotates i u hu
  have hspelled := h.finished i t ht
  unfold IsSpelled Token.text at hspelled ⊢
  rwa [ha.kind, ha.start, ha.stop]

theorem Step.spelled {c : Setting} {n : Nat} (h : Step c n x y)
    (hs : Spelled c.source x.2) : Spelled c.source y.2 := by
  cases h with
  | finish hread =>
    refine ⟨fun i t ht => ?_, isSpelled_of_read hread⟩
    simp only [State.finish, Array.getElem?_push] at ht
    split at ht
    · cases ht
      exact hs.ahead
    · exact hs.finished i t ht
  | retag => exact ⟨hs.finished, fun hkind => absurd hkind (show ¬IsName .jsxTagStart by decide)⟩
  | regex _ hread =>
    obtain ⟨-, -, -, ht⟩ := Lexer.exists_of_regex hread
    subst ht
    exact ⟨hs.finished, fun hkind => absurd hkind (show ¬IsName .regex by decide)⟩
  | annotate _ hg => exact hs.reannotates (.modify hg)
  | annotateFrom _ hg => exact hs.reannotates (.mapIdx hg)
  | _ => exact ⟨hs.finished, hs.ahead⟩

theorem Steps.spelled {c : Setting} {n : Nat} (h : Steps c n x y)
    (hs : Spelled c.source x.2) : Spelled c.source y.2 := by
  induction h with
  | refl => exact hs
  | tail _ hstep ih => exact hstep.spelled ih

theorem isSpelled_of_parse {o : Options} {tokens : Array Token} (h : parse source o = .ok tokens)
    {i : Nat} {t : Token} (ht : tokens[i]? = some t) :
    IsSpelled source t := by
  obtain ⟨st, st', hinit, rfl, -, hsteps⟩ := steps_of_parse h
  refine (hsteps.spelled ?_).finished i t ht
  obtain ⟨token, pos, hread, rfl⟩ := State.exists_of_initial hinit
  exact ⟨by simp, isSpelled_of_read hread⟩

end Grammar

namespace Lower

variable {plan : Plan} {w : Work}

/-- A star whose name cannot be decoded is not lowered. -/
theorem token_of_split (himports : plan.options.has .imports = true)
    (hkind : plan.program.kindAt w.index = .kwExport)
    (hvalue : plan.program.isTypeAt w.index = false)
    (hdepth : (plan.program.tokenAt w.index).depth = 0)
    (hstar : plan.program.kindAt (w.index + 1) = .star ∧ plan.program.isTypeAt (w.index + 1) = false)
    (hnone : starName? plan.program (w.index + 1) = none) :
    ∃ w', token plan w = .error (.invariant .splitCharacter) w' := by
  have hends : Ends plan token w (fun _ _ => False) (· = .invariant .splitCharacter) := by
    refine ends_token_of_export himports hkind hvalue hdepth ?_
    unfold exportDeclaration
    rw [ends_bind, ends_program, ends_bind, ends_index]
    dsimp only
    rw [Program.skipTypes_eq_self hstar.2, hstar.1]
    unfold exportAll
    rw [ends_bind, ends_program, ends_bind, ends_index, ends_bind, ends_orBreach, hnone]
    rfl
  unfold Ends at hends
  split at hends
  · exact hends.elim
  · rename_i w' hrun
    exact ⟨w', hends ▸ hrun⟩

/-- A literal with an escape of three digits and a character of two bytes. -/
def splitSource : Text :=
  "export * as \"\\u123é\" from 'm';".toList

/-- An escape that is no character of its own. -/
def surrogateSource : Text :=
  "\\uD800;".toList

end Lower

end Downlevel
