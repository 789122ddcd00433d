import Downlevel.Proofs.Grammar.Statement
import Downlevel.Proofs.Lexer.Pieces

/-!
# Parsing what is known

`Yields c st p Q` says that the parser `p` goes through from the state `st`, and that `Q` holds of
its result.  While a program is parsed of which the pieces are known, the state is known as well
(`stateAt`): the pieces in front are finished, and one is ahead.
-/

namespace Downlevel.Grammar

open Grammar.Parser

/-- The parser goes through, and this holds of its result. -/
def Yields {α : Type} (c : Setting) (st : State) (p : Parser α) (Q : α → State → Prop) : Prop :=
  match p c st with
  | .ok a st' => Q a st'
  | .error _ _ => False

section

variable {α β : Type} {c : Setting} {st st' : State} {p : Parser α} {f : α → Parser β} {a : α}
  {Q : α → State → Prop} {M : β → State → Prop}

theorem yields_of_eq (h : p c st = .ok a st') : Yields c st p Q ↔ Q a st' := by
  unfold Yields
  rw [h]

theorem eq_of_yields (h : Yields c st p fun b st₁ => b = a ∧ st₁ = st') : p c st = .ok a st' := by
  unfold Yields at h
  cases hp : p c st with
  | error e st₁ => simp [hp] at h
  | ok b st₁ =>
    rw [hp] at h
    rw [h.1, h.2]

theorem yields_congr {Q' : α → State → Prop} (h : ∀ a st', Q a st' ↔ Q' a st') :
    Yields c st p Q ↔ Yields c st p Q' := by
  unfold Yields
  cases p c st with
  | error e st' => rfl
  | ok a st' => exact h a st'

@[simp] theorem yields_pure : Yields c st (pure a) Q ↔ Q a st := Iff.rfl

@[simp] theorem yields_bind :
    Yields c st (p >>= f) M ↔ Yields c st p fun a st' => Yields c st' (f a) M := by
  unfold Yields
  rw [Parser.bind_apply]
  cases p c st <;> rfl

@[simp] theorem yields_map {g : α → β} :
    Yields c st (g <$> p) M ↔ Yields c st p fun a => M (g a) := by
  rw [map_eq_pure_bind, yields_bind]
  rfl

@[simp] theorem yields_discard {Q : Unit → State → Prop} :
    Yields c st (discard p) Q ↔ Yields c st p fun _ => Q () :=
  yields_map

/-! ## Looking -/

@[simp] theorem yields_read {Q : Setting → State → Prop} : Yields c st read Q ↔ Q c st := Iff.rfl

@[simp] theorem yields_cur {Q : Token → State → Prop} : Yields c st cur Q ↔ Q st.cur st := Iff.rfl

@[simp] theorem yields_textOf {t : Token} {Q : Text → State → Prop} :
    Yields c st (textOf t) Q ↔ Q (t.text c.source) st := Iff.rfl

@[simp] theorem yields_is {kind : Kind} {Q : Bool → State → Prop} :
    Yields c st (is kind) Q ↔ Q (decide (st.cur.kind = kind)) st := Iff.rfl

@[simp] theorem yields_isOneOf {kinds : List Kind} {Q : Bool → State → Prop} :
    Yields c st (isOneOf kinds) Q ↔ Q (kinds.contains st.cur.kind) st := Iff.rfl

@[simp] theorem yields_isName {word : String} {Q : Bool → State → Prop} :
    Yields c st (isName word) Q ↔
      Q (decide (st.cur.kind = .name) && decide (st.cur.text c.source = word.toList)) st := Iff.rfl

@[simp] theorem yields_isNameOf {words : List String} {Q : Bool → State → Prop} :
    Yields c st (isNameOf words) Q ↔
      Q (decide (st.cur.kind = .name) && words.contains (String.ofList (st.cur.text c.source))) st :=
  Iff.rfl

@[simp] theorem yields_afterNewline {Q : Bool → State → Prop} :
    Yields c st afterNewline Q ↔ Q st.cur.newlineBefore st := Iff.rfl

@[simp] theorem yields_typescript {Q : Bool → State → Prop} :
    Yields c st typescript Q ↔ Q c.typescript st := Iff.rfl

@[simp] theorem yields_tokenCount {Q : Nat → State → Prop} :
    Yields c st tokenCount Q ↔ Q st.tokens.size st := Iff.rfl

@[simp] theorem yields_textFrom {start : Nat} {Q : Text → State → Prop} :
    Yields c st (textFrom start) Q ↔
      Q ((st.tokens.toList.drop start).flatMap (Token.text c.source)) st := Iff.rfl

/-! ## Marking -/

@[simp] theorem yields_modifyCur {g : Token → Token} {Q : Unit → State → Prop} :
    Yields c st (modifyCur g) Q ↔ Q () { st with cur := g st.cur } := Iff.rfl

@[simp] theorem yields_modifyToken {i : Nat} {g : Token → Token} {Q : Unit → State → Prop} :
    Yields c st (modifyToken i g) Q ↔ Q () { st with tokens := st.tokens.modify i g } := Iff.rfl

/-! ## Loops and rules -/

theorem yields_loop {σ : Type} {x : σ} {step : σ → Parser (ForInStep σ)} {Q : σ → State → Prop} :
    Yields c st (loop x step) Q ↔ Yields c st (step x) fun r st' =>
      match r with
      | .done y => Q y st'
      | .yield y => c.remaining st' < c.remaining st ∧ Yields c st' (loop y step) Q := by
  unfold Yields
  rw [loop_apply]
  cases step x c st with
  | error e st' => rfl
  | ok r st' =>
    cases r with
    | done y => rfl
    | yield y =>
      dsimp only
      by_cases hlt : c.remaining st' < c.remaining st
      · rw [if_pos hlt]
        exact ⟨fun h => ⟨hlt, h⟩, fun h => h.2⟩
      · rw [if_neg hlt]
        exact ⟨fun h => False.elim h, fun h => absurd h.1 hlt⟩

theorem yields_repeatWhile {condition : Parser Bool} {body : Parser Unit} {Q : Unit → State → Prop} :
    Yields c st (repeatWhile condition body) Q ↔ Yields c st condition fun b st₁ =>
      if b = true then
        Yields c st₁ body fun _ st₂ =>
          c.remaining st₂ < c.remaining st ∧ Yields c st₂ (repeatWhile condition body) Q
      else Q () st₁ := by
  unfold repeatWhile
  rw [yields_loop, yields_bind]
  refine yields_congr fun b st₁ => ?_
  cases b with
  | false => rfl
  | true =>
    rw [if_pos rfl, if_pos rfl, yields_bind]
    rfl

end

/-! ## States with known pieces -/

/-- The state with some pieces finished and one piece ahead. -/
def stateAt (done : List Piece) (q : Piece) : State :=
  { pos := Text.size (spell done) + Text.size q.text, tokens := (layOut 0 done).toArray,
    cur := q.token (Text.size (spell done)), isType := false, depth := 0, nextContext := 1,
    contexts := [] }

section

variable {c : Setting} {done ds : List Piece} {q q' : Piece} {rest : Text} {mode : Lexer.Mode}

@[simp] theorem kind_stateAt : (stateAt done q).cur.kind = q.kind := rfl

@[simp] theorem size_tokens_stateAt : (stateAt done q).tokens.size = done.length := by
  simp [stateAt]

theorem dropBytes?_stateAt (hsource : c.source = spell done ++ (q.text ++ rest)) :
    Text.dropBytes? c.source (stateAt done q).pos = some rest := by
  have happend : c.source = (spell done ++ q.text) ++ rest := by rw [hsource, List.append_assoc]
  rw [happend, stateAt, ← Text.size_append, Text.dropBytes?_append]

/-- The piece ahead is finished, and the one behind it is read. -/
theorem nextIn_stateAt (hreads : q'.ReadsIn mode rest)
    (hsource : c.source = spell done ++ (q.text ++ (q'.text ++ rest))) :
    nextIn mode c (stateAt done q) = .ok () (stateAt (done ++ [q]) q'.bare) := by
  have hread : Lexer.read mode (stateAt done q).isType c.source (stateAt done q).pos = _ :=
    hreads _ _ (dropBytes?_stateAt hsource)
  rw [nextIn_apply, hread]
  have htokens : (layOut 0 (done ++ [q])).toArray
      = (layOut 0 done).toArray.push (q.token (Text.size (spell done))) := by
    rw [layOut_append]
    simp [layOut]
  simp only [stateAt, State.finish, htokens]
  simp [State.finished, Piece.token, Piece.bare, Piece.text]

theorem peek_stateAt (hreads : q'.ReadsIn .normal rest)
    (hsource : c.source = spell done ++ (q.text ++ (q'.text ++ rest))) :
    peek c (stateAt done q) = .ok (q'.bare.token (stateAt done q).pos) (stateAt done q) := by
  have hread : Lexer.next (stateAt done q).isType c.source (stateAt done q).pos = _ :=
    hreads _ _ (dropBytes?_stateAt hsource)
  rw [peek_apply, hread]

/-- The text of the piece ahead. -/
theorem text_stateAt (hsource : c.source = spell done ++ (q.text ++ rest)) (hkind : q.kind ≠ .eof) :
    (stateAt done q).cur.text c.source = q.body := by
  have happend : c.source = (spell done ++ q.gap) ++ (q.body ++ rest) := by
    rw [hsource, Piece.text]
    simp
  rw [Token.text, if_neg (show (stateAt done q).cur.kind ≠ .eof from hkind), happend,
    show (stateAt done q).cur.start = Text.size (spell done ++ q.gap) by simp [stateAt, Piece.token],
    show (stateAt done q).cur.stop = Text.size (spell done ++ q.gap) + Text.size q.body by
      simp [stateAt, Piece.token, Piece.text, Nat.add_assoc],
    Text.slice_append]

/-- The text of the last finished piece. -/
theorem textFrom_stateAt (q' : Piece) (hsource : c.source = spell done ++ (q.text ++ rest))
    (hkind : q.kind ≠ .eof) :
    ((stateAt (done ++ [q]) q').tokens.toList.drop done.length).flatMap (Token.text c.source)
      = q.body := by
  have hdrop : (layOut 0 (done ++ [q])).drop done.length = [q.token (Text.size (spell done))] := by
    rw [layOut_append, List.drop_append_of_le_length (by simp), List.drop_of_length_le (by simp)]
    simp [layOut]
  have htext := text_stateAt hsource hkind
  simpa [stateAt, hdrop] using htext

theorem modify_length_append {α : Type} (xs : List α) (x : α) (g : α → α) :
    (xs ++ [x]).modify xs.length g = xs ++ [g x] := by
  induction xs with
  | nil => rfl
  | cons y xs ih => simp [ih]

/-- A finished piece is given a role. -/
theorem modify_stateAt {role : Option Role} :
    { stateAt (done ++ [q]) q' with
      tokens := (stateAt (done ++ [q]) q').tokens.modify done.length fun t => { t with role } }
      = stateAt (done ++ [{ q with role }]) q' := by
  have htext : spell (done ++ [{ q with role }]) = spell (done ++ [q]) := by simp [Piece.text]
  have hmodify : (layOut 0 (done ++ [q])).toArray.modify done.length (fun t => { t with role })
      = (layOut 0 (done ++ [{ q with role }])).toArray := by
    rw [layOut_append, layOut_append, List.modify_toArray]
    simp only [layOut]
    rw [← length_layOut 0 done, modify_length_append]
    rfl
  simp only [stateAt, htext, hmodify]

/-- Behind a finished piece less is left. -/
theorem remaining_stateAt_lt (hsource : c.source = spell done ++ (q.text ++ rest)) (hbody : q.body ≠ [])
    {qs : List Piece} (hds : ds = q :: qs) :
    c.remaining (stateAt (done ++ ds) q') < c.remaining (stateAt done q) := by
  have hpos := Text.size_pos_iff.mpr hbody
  have hsize : c.size = Text.size (spell done) + (Text.size q.gap + Text.size q.body) + Text.size rest := by
    rw [c.size_eq, hsource]
    simp [Piece.text, Nat.add_assoc]
  simp only [Setting.remaining, stateAt, Piece.token, hds, spell_append, spell_cons, Text.size_append,
    Piece.text]
  omega

end

end Downlevel.Grammar
