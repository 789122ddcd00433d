import Downlevel.Proofs.Edit.Program
import Downlevel.Proofs.Grammar.Lossless

/-!
# Programs by how they are written

A piece is a token together with the gap in front of it.  A list of pieces spells a source
(`spell`), and laying the pieces out one behind the other gives its tokens (`layOut`).  What a
program says about the token of an index can then be read off the piece.
-/

namespace Downlevel

/-- A token by how it is written. -/
structure Piece where
  kind : Kind
  body : Text
  gap : Text := []
  role : Option Role := none

namespace Piece

/-- The gap and the token. -/
def text (q : Piece) : Text :=
  q.gap ++ q.body

/-- The token of a piece whose gap starts at an offset. -/
def token (q : Piece) (pos : Nat) : Token :=
  { kind := q.kind, start := pos + Text.size q.gap, stop := pos + Text.size q.text, role := q.role }

/-- The piece before its role is known. -/
def bare (q : Piece) : Piece :=
  { q with role := none }

@[simp] theorem kind_token (q : Piece) (pos : Nat) : (q.token pos).kind = q.kind := rfl

@[simp] theorem newlineBefore_token (q : Piece) (pos : Nat) : (q.token pos).newlineBefore = false :=
  rfl

@[simp] theorem kind_bare (q : Piece) : q.bare.kind = q.kind := rfl

@[simp] theorem body_bare (q : Piece) : q.bare.body = q.body := rfl

@[simp] theorem text_bare (q : Piece) : q.bare.text = q.text := rfl

end Piece

/-- The source that pieces spell. -/
def spell (ps : List Piece) : Text :=
  ps.flatMap Piece.text

/-- The tokens of pieces that start at an offset. -/
def layOut (pos : Nat) : List Piece → List Token
  | [] => []
  | q :: ps => q.token pos :: layOut (pos + Text.size q.text) ps

@[simp] theorem spell_nil : spell [] = [] := rfl

@[simp] theorem spell_cons (q : Piece) (ps : List Piece) : spell (q :: ps) = q.text ++ spell ps :=
  rfl

@[simp] theorem spell_append (ps qs : List Piece) : spell (ps ++ qs) = spell ps ++ spell qs :=
  List.flatMap_append

theorem layOut_append (pos : Nat) (ps qs : List Piece) :
    layOut pos (ps ++ qs) = layOut pos ps ++ layOut (pos + Text.size (spell ps)) qs := by
  induction ps generalizing pos with
  | nil => rfl
  | cons q ps ih =>
    rw [List.cons_append, layOut, layOut, ih, spell_cons, Text.size_append, Nat.add_assoc]
    rfl

@[simp] theorem length_layOut (pos : Nat) (ps : List Piece) :
    (layOut pos ps).length = ps.length := by
  induction ps generalizing pos with
  | nil => rfl
  | cons q ps ih => rw [layOut, List.length_cons, List.length_cons, ih]

namespace Program

/-- The program that pieces make. -/
def ofPieces (ps : List Piece) : Program :=
  { source := spell ps, tokens := (layOut 0 ps).toArray }

variable {ps done rest : List Piece} {q : Piece}

theorem count_ofPieces : (ofPieces ps).count = ps.length := by
  simp [ofPieces, count]

theorem getElem?_layOut (h : ps = done ++ q :: rest) :
    (layOut 0 ps).toArray[done.length]? = some (q.token (Text.size (spell done))) := by
  rw [List.getElem?_toArray, h, layOut_append, List.getElem?_append_right (by simp)]
  simp [layOut]

theorem tokenAt_ofPieces (h : ps = done ++ q :: rest) :
    (ofPieces ps).tokenAt done.length = q.token (Text.size (spell done)) := by
  rw [tokenAt, ofPieces, getElem?_layOut h, Option.getD_some]

theorem kindAt_ofPieces (h : ps = done ++ q :: rest) :
    (ofPieces ps).kindAt done.length = q.kind := by
  rw [kindAt, tokenAt_ofPieces h]
  rfl

theorem isTypeAt_ofPieces (h : ps = done ++ q :: rest) :
    (ofPieces ps).isTypeAt done.length = false := by
  rw [isTypeAt, tokenAt_ofPieces h]
  rfl

theorem textAt_ofPieces (h : ps = done ++ q :: rest) (hkind : q.kind ≠ .eof) :
    (ofPieces ps).textAt done.length = q.body := by
  have hsource : (ofPieces ps).source = (spell done ++ q.gap) ++ (q.body ++ spell rest) := by
    simp [ofPieces, h, Piece.text]
  rw [textAt, tokenAt_ofPieces h, Token.text, if_neg (show (q.token _).kind ≠ .eof from hkind), hsource,
    show (q.token (Text.size (spell done))).start = Text.size (spell done ++ q.gap) by
      simp [Piece.token],
    show (q.token (Text.size (spell done))).stop
        = Text.size (spell done ++ q.gap) + Text.size q.body by
      simp [Piece.token, Piece.text, Nat.add_assoc],
    Text.slice_append]

/-- The token in front ends where the gap starts. -/
theorem gapStart_ofPieces (hshebang : Text.shebangSize (spell ps) = 0) (h : ps = done ++ rest) :
    Grammar.gapStart (spell ps) (layOut 0 ps).toArray done.length = Text.size (spell done) := by
  rcases List.eq_nil_or_concat done with rfl | ⟨done, q, rfl⟩
  · exact hshebang
  · rw [List.length_concat, Grammar.gapStart, getElem?_layOut (by rw [h, List.concat_append])]
    simp [Piece.token]

theorem gapBefore_ofPieces (hshebang : Text.shebangSize (spell ps) = 0) (h : ps = done ++ q :: rest) :
    (ofPieces ps).gapBefore done.length = q.gap := by
  have hsource : spell ps = spell done ++ (q.gap ++ (q.body ++ spell rest)) := by
    simp [h, Piece.text]
  refine (Grammar.gapBefore_eq done.length).trans ?_
  rw [gapStart_ofPieces hshebang h, getElem?_layOut h, hsource]
  exact Text.slice_append _ _ _

/-- Behind the last token there is nothing left. -/
theorem gapBefore_ofPieces_length (hshebang : Text.shebangSize (spell ps) = 0) :
    (ofPieces ps).gapBefore ps.length = [] := by
  have hnone : (layOut 0 ps).toArray[ps.length]? = none := by simp
  refine (Grammar.gapBefore_eq ps.length).trans ?_
  rw [gapStart_ofPieces hshebang (List.append_nil ps).symm, hnone]
  have hslice := Text.slice_append (spell ps) [] []
  simpa using hslice

end Program

/-! ## Pieces at an index -/

/-- These are the pieces from an index on. -/
def StandAt (all : List Piece) (i : Nat) (ps : List Piece) : Prop :=
  ∃ done, all = done ++ ps ∧ done.length = i

namespace StandAt

open Program

variable {all ps qs : List Piece} {q : Piece} {i : Nat}

theorem drop (h : StandAt all i (qs ++ ps)) : StandAt all (i + qs.length) ps := by
  obtain ⟨done, hall, rfl⟩ := h
  exact ⟨done ++ qs, by rw [hall, List.append_assoc], List.length_append⟩

theorem tail (h : StandAt all i (q :: ps)) : StandAt all (i + 1) ps :=
  drop (show StandAt all i ([q] ++ ps) from h)

theorem lt_count (h : StandAt all i (q :: ps)) : i < (ofPieces all).count := by
  obtain ⟨done, hall, rfl⟩ := h
  rw [count_ofPieces, hall]
  simp

theorem add_length (h : StandAt all i ps) : i + ps.length = (ofPieces all).count := by
  obtain ⟨done, hall, rfl⟩ := h
  rw [count_ofPieces, hall, List.length_append]

theorem kindAt (h : StandAt all i (q :: ps)) : (ofPieces all).kindAt i = q.kind := by
  obtain ⟨done, hall, rfl⟩ := h
  exact kindAt_ofPieces hall

theorem isTypeAt (h : StandAt all i (q :: ps)) : (ofPieces all).isTypeAt i = false := by
  obtain ⟨done, hall, rfl⟩ := h
  exact isTypeAt_ofPieces hall

theorem textAt (h : StandAt all i (q :: ps)) (hkind : q.kind ≠ .eof) :
    (ofPieces all).textAt i = q.body := by
  obtain ⟨done, hall, rfl⟩ := h
  exact textAt_ofPieces hall hkind

theorem gapBefore (h : StandAt all i (q :: ps)) (hshebang : Text.shebangSize (spell all) = 0) :
    (ofPieces all).gapBefore i = q.gap := by
  obtain ⟨done, hall, rfl⟩ := h
  exact gapBefore_ofPieces hshebang hall

end StandAt

end Downlevel
