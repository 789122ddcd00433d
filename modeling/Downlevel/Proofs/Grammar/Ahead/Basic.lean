import Downlevel.Proofs.Grammar.Moves
import Downlevel.Proofs.Grammar.Unfold

/-!
# The token ahead

The token ahead is read before it is known what it is for.  `Leaves c a p` says
what `p` leaves ahead when it goes through inside a type: nothing in particular,
the token that was there before or a new one, or a new one.  A new one is always
read as ordinary code of a type, right behind the last finished token.  What the
parts of the grammar leave is put together from what their parts leave, so most
of it is found by instances.
-/

namespace Downlevel.Grammar

open Grammar.Parser

/-- The state inside a type, where the next token is read behind the token ahead. -/
structure Tight (st : State) : Prop where
  isType : st.isType = true
  pos : st.pos = st.cur.stop

/-- Finished tokens stay where they are. -/
structure Grows (st st' : State) : Prop where
  size : st.tokens.size ≤ st'.tokens.size
  stops : ∀ i, i < st.tokens.size →
    st'.tokens[i]?.map Token.stop = st.tokens[i]?.map Token.stop

/-- No token is finished, and the token ahead is the same. -/
structure Rests (st st' : State) : Prop where
  size : st'.tokens.size = st.tokens.size
  cur : st'.cur = st.cur
  pos : st'.pos = st.pos

/-- The token ahead is read as ordinary code of a type, where the last finished
token stops. -/
def Fresh (c : Setting) (st : State) : Prop :=
  ∃ t, st.tokens.back? = some t ∧ Lexer.next true c.source t.stop = .ok st.cur st.pos

/-- What a parser leaves ahead. -/
inductive Ahead where
  | any
  /-- What was there, or a token that is fresh. -/
  | settled
  | fresh

/-- What is left ahead after running from the first state to the second. -/
def Ahead.Holds (c : Setting) : Ahead → State → State → Prop
  | .any, _, _ => True
  | .settled, st, st' => Rests st st' ∨ Fresh c st'
  | .fresh, _, st' => Fresh c st'

/-- The parser leaves a token ahead like this inside a type.  Also if it fails, it
leaves the finished tokens where they are. -/
class Leaves {α : Type} (c : Setting) (a : Ahead) (p : Parser α) : Prop where
  ends : ∀ st, Tight st →
    match p c st with
    | .ok _ st' => Grows st st' ∧ Tight st' ∧ a.Holds c st st'
    | .error _ st' => Grows st st'

/-! ## States -/

section

variable {c : Setting} {st st' st'' : State}

theorem Grows.refl (st : State) : Grows st st :=
  ⟨Nat.le_refl _, fun _ _ => rfl⟩

theorem Grows.trans (h : Grows st st') (h' : Grows st' st'') : Grows st st'' :=
  ⟨Nat.le_trans h.size h'.size, fun i hi =>
    (h'.stops i (Nat.lt_of_lt_of_le hi h.size)).trans (h.stops i hi)⟩

theorem Grows.of_tokens (h : st'.tokens = st.tokens) : Grows st st' := by
  refine ⟨Nat.le_of_eq (congrArg Array.size h.symm), fun i _ => ?_⟩
  rw [h]

theorem Rests.trans (h : Rests st st') (h' : Rests st' st'') : Rests st st'' :=
  ⟨h'.size.trans h.size, h'.cur.trans h.cur, h'.pos.trans h.pos⟩

/-- A token that is fresh stays so as long as no other is read. -/
theorem Fresh.rests (h : Fresh c st) (hgrows : Grows st st') (hrests : Rests st st') :
    Fresh c st' := by
  obtain ⟨t, hback, hread⟩ := h
  rw [Array.back?_eq_getElem?] at hback
  have hlt : st.tokens.size - 1 < st.tokens.size := (Array.getElem?_eq_some_iff.mp hback).1
  have hstop := hgrows.stops _ hlt
  rw [hback, Option.map_some, Option.map_eq_some_iff] at hstop
  obtain ⟨t', ht', hstop⟩ := hstop
  refine ⟨t', ?_, ?_⟩
  · rw [Array.back?_eq_getElem?, hrests.size]
    exact ht'
  · rw [hstop, hrests.cur, hrests.pos]
    exact hread

theorem Ahead.settled_trans (hgrows : Grows st' st'') (h : Ahead.settled.Holds c st st')
    (h' : Ahead.settled.Holds c st' st'') : Ahead.settled.Holds c st st'' := by
  rcases h' with hrests' | hfresh'
  · rcases h with hrests | hfresh
    · exact .inl (hrests.trans hrests')
    · exact .inr (hfresh.rests hgrows hrests')
  · exact .inr hfresh'

/-- Coming back to a snapshot leaves what was there. -/
theorem Grows.restore (h : Grows st st') :
    Grows st (st'.restore st.snapshot) ∧ Rests st (st'.restore st.snapshot) := by
  have hsize := h.size
  have htokens : (st'.restore st.snapshot).tokens = st'.tokens.take st.tokens.size := rfl
  have hrestored : (st'.restore st.snapshot).tokens.size = st.tokens.size := by
    rw [htokens, Array.take_eq_extract, Array.size_extract]
    omega
  refine ⟨⟨Nat.le_of_eq hrestored.symm, fun i hi => ?_⟩, hrestored, rfl, rfl⟩
  rw [← h.stops i hi, htokens, Array.take_eq_extract, Array.getElem?_extract,
    if_pos (by omega), Nat.zero_add]

end

namespace Leaves

variable {α β : Type} {c : Setting} {a b d : Ahead} {p q : Parser α} {f : α → Parser β}
  {role : Option Role} {kind : Kind} {g : Token → Token} {i : Nat} {mode : Lexer.Mode}
  {context : Option Nat}

/-! ## Sequencing -/

theorem bind_of (hcombine : ∀ st st' st'', Grows st' st'' → a.Holds c st st' →
      b.Holds c st' st'' → d.Holds c st st'')
    (hp : Leaves c a p) (hf : ∀ x, Leaves c b (f x)) : Leaves c d (p >>= f) where
  ends st hst := by
    refine Results.bind (hp.ends st hst) fun x st' ⟨hgrows, hst', hahead⟩ => ?_
    refine Results.weaken ((hf x).ends st' hst') (fun y st'' ⟨hgrows', hst'', hahead'⟩ => ?_)
      fun _ _ => hgrows.trans
    exact ⟨hgrows.trans hgrows', hst'', hcombine st st' st'' hgrows' hahead hahead'⟩

theorem of_ok {x : α} {st st' : State} (hp : Leaves c a p) (hst : Tight st)
    (h : p c st = .ok x st') : Grows st st' ∧ Tight st' ∧ a.Holds c st st' := by
  have hends := hp.ends st hst
  rw [h] at hends
  exact hends

theorem congr (hq : Leaves c a q) (h : ∀ st, p c st = q c st) : Leaves c a p := by
  refine ⟨fun st hst => ?_⟩
  rw [h st]
  exact hq.ends st hst

theorem weaken (hp : Leaves c a p) (h : ∀ st st', a.Holds c st st' → b.Holds c st st') :
    Leaves c b p where
  ends st hst := Results.weaken (hp.ends st hst)
    (fun _ st' ⟨hgrows, hst', hahead⟩ => ⟨hgrows, hst', h st st' hahead⟩) fun _ _ hgrows => hgrows

instance (priority := low) any_of_settled [hp : Leaves c .settled p] : Leaves c .any p :=
  hp.weaken fun _ _ _ => trivial

instance (priority := low) settled_of_fresh [hp : Leaves c .fresh p] : Leaves c .settled p :=
  hp.weaken fun _ _ h => .inr h

instance bind_any [hp : Leaves c .any p] [hf : ∀ x, Leaves c .any (f x)] :
    Leaves c .any (p >>= f) :=
  bind_of (fun _ _ _ _ _ _ => trivial) hp hf

instance bind_settled [hp : Leaves c .settled p] [hf : ∀ x, Leaves c .settled (f x)] :
    Leaves c .settled (p >>= f) :=
  bind_of (fun _ _ _ => Ahead.settled_trans) hp hf

/-- What comes last leaves a fresh token. -/
instance bind_fresh [hp : Leaves c .any p] [hf : ∀ x, Leaves c .fresh (f x)] :
    Leaves c .fresh (p >>= f) :=
  bind_of (fun _ _ _ _ _ h => h) hp hf

/-- What comes first leaves a fresh token, and what comes last leaves it or another. -/
instance fresh_bind [hp : Leaves c .fresh p] [hf : ∀ x, Leaves c .settled (f x)] :
    Leaves c .fresh (p >>= f) := by
  refine bind_of (fun st st' st'' hgrows h h' => ?_) hp hf
  rcases h' with hrests | hfresh
  · exact Fresh.rests h hgrows hrests
  · exact hfresh

theorem settled_then [Leaves c .settled p] (hf : ∀ x, Leaves c .settled (f x)) :
    Leaves c .settled (p >>= f) :=
  bind_settled

theorem then_settled (hp : Leaves c .settled p) [∀ x, Leaves c .settled (f x)] :
    Leaves c .settled (p >>= f) :=
  bind_settled

theorem any_then [Leaves c .any p] (hf : ∀ x, Leaves c .any (f x)) : Leaves c .any (p >>= f) :=
  bind_any

theorem then_fresh [Leaves c .any p] (hf : ∀ x, Leaves c .fresh (f x)) :
    Leaves c .fresh (p >>= f) :=
  bind_fresh

instance {P : Prop} [Decidable P] [hp : Leaves c a p] [hq : Leaves c a q] :
    Leaves c a (if P then p else q) := by
  split
  · exact hp
  · exact hq

/-! ## Looking and failing -/

/-- A parser that leaves the finished tokens, the token ahead and the type alone. -/
theorem of_rests (h : ∀ st, match p c st with
      | .ok _ st' => st'.tokens = st.tokens ∧ st'.cur = st.cur ∧ st'.pos = st.pos
        ∧ st'.isType = st.isType
      | .error _ st' => st'.tokens = st.tokens) : Leaves c .settled p where
  ends st hst := by
    refine Results.weaken (h st) (fun x st' ⟨htokens, hcur, hpos, htype⟩ => ?_) fun _ _ => .of_tokens
    refine ⟨.of_tokens htokens, ⟨htype.trans hst.isType, ?_⟩, .inl ⟨?_, hcur, hpos⟩⟩
    · rw [hpos, hcur, hst.pos]
    · rw [htokens]

instance (priority := low) of_looks [Looks p] : Leaves c .settled p := by
  refine of_rests fun st => ?_
  rw [Looks.apply_eq (p := p)]
  exact ⟨rfl, rfl, rfl, rfl⟩

instance {x : α} : Leaves c .settled (pure x : Parser α) :=
  of_rests fun _ => ⟨rfl, rfl, rfl, rfl⟩

instance : Leaves c .settled (get : Parser State) :=
  of_rests fun _ => ⟨rfl, rfl, rfl, rfl⟩

instance : Leaves c .settled tokenCount :=
  of_rests fun _ => ⟨rfl, rfl, rfl, rfl⟩

instance : Leaves c .settled peek := by
  refine of_rests fun st => ?_
  rw [peek_apply]
  cases Lexer.next st.isType c.source st.pos with
  | error failure pos => rfl
  | ok t pos => exact ⟨rfl, rfl, rfl, rfl⟩

instance {byte : Nat} : Leaves c .settled (scan (Lexer.nextByteIs byte)) := by
  refine of_rests fun st => ?_
  unfold scan
  cases hread : Lexer.nextByteIs byte c.source st.pos with
  | error failure pos => rfl
  | ok b pos => exact ⟨rfl, rfl, Lexer.nextByteIs_pos hread, rfl⟩

/-- A parser that only fails leaves whatever is wanted. -/
theorem of_fails (h : ∀ st, ∃ e, p c st = .error e st) : Leaves c a p where
  ends st _ := by
    obtain ⟨e, he⟩ := h st
    rw [he]
    exact .refl st

instance {e : Error} : Leaves c a (throw e : Parser α) :=
  of_fails fun _ => ⟨_, rfl⟩

instance {f : Fault} {offset : Nat} : Leaves c a (faultAt f offset : Parser α) :=
  of_fails fun _ => ⟨_, rfl⟩

instance {f : Fault} : Leaves c a (fault f : Parser α) :=
  of_fails fun _ => ⟨_, rfl⟩

instance : Leaves c a (unexpected : Parser α) := by
  refine of_fails fun st => ?_
  unfold unexpected
  rw [Parser.bind_apply]
  change ∃ e, (if st.cur.kind = .eof then _ else _ : Parser α) c st = .error e st
  split
  · exact ⟨_, rfl⟩
  · exact ⟨_, rfl⟩

instance (priority := low) [h : Unfolds p q] [hq : Leaves c a q] : Leaves c a p :=
  h.eq ▸ hq

instance : Leaves c a (stalled : Parser α) :=
  of_fails fun _ => ⟨_, rfl⟩

instance [hp : Leaves c a p] : Leaves c a (discard p) := by
  rw [Parser.discard_eq]
  cases a <;> infer_instance

/-! ## Moving on -/

theorem nextIn_ends (mode : Lexer.Mode) (st : State) (hst : Tight st) :
    Results c (nextIn mode) st
      (fun _ st' => Grows st st' ∧ Tight st' ∧ (mode = .normal → Fresh c st'))
      fun _ => Grows st := by
  unfold Results
  rw [nextIn_apply]
  cases hread : Lexer.read mode st.isType c.source st.pos with
  | error failure pos => exact .of_tokens rfl
  | ok token pos =>
    refine ⟨⟨?_, fun i hi => ?_⟩, ⟨hst.isType, (Lexer.stop_of_read hread).symm⟩, ?_⟩
    · simp only [State.finish, Array.size_push]
      omega
    · simp only [State.finish, Array.getElem?_push]
      rw [if_neg (by omega)]
    · rintro rfl
      refine ⟨st.finished, Array.back?_push .., ?_⟩
      rw [hst.isType, hst.pos] at hread
      exact hread

instance : Leaves c .any (nextIn mode) where
  ends st hst := Results.weaken (nextIn_ends mode st hst) (fun _ _ h => ⟨h.1, h.2.1, trivial⟩)
    fun _ _ h => h

instance : Leaves c .fresh (nextIn .normal) where
  ends st hst := Results.weaken (nextIn_ends .normal st hst) (fun _ _ h => ⟨h.1, h.2.1, h.2.2 rfl⟩)
    fun _ _ h => h

instance : Leaves c .any rereadRegex where
  ends st hst := by
    rw [rereadRegex_apply]
    cases hread : Lexer.regex st.cur.start c.source st.pos with
    | error failure pos => exact .of_tokens rfl
    | ok token pos =>
      obtain ⟨-, -, -, rfl⟩ := Lexer.exists_of_regex hread
      exact ⟨.of_tokens rfl, ⟨hst.isType, rfl⟩, trivial⟩

instance : Leaves c .settled (eat kind) := by
  unfold eat
  infer_instance

instance : Leaves c .any (expectIn kind mode) := by
  unfold expectIn
  infer_instance

instance : Leaves c .fresh (expectIn kind .normal) := by
  unfold expectIn
  infer_instance

/-! ## Annotating tokens -/

/-- Marks on the token ahead are no part of it as it is read. -/
theorem modifyCur (h : ∀ t, (g t).stop = t.stop) :
    Leaves c .any (modifyCur g) where
  ends st hst := ⟨.of_tokens rfl, ⟨hst.isType, hst.pos.trans (h st.cur).symm⟩, trivial⟩

instance : Leaves c .any (Parser.modifyCur fun t => { t with role }) :=
  modifyCur fun _ => rfl

instance :
    Leaves c .any (Parser.modifyCur fun t => { t with role, context }) :=
  modifyCur fun _ => rfl

instance {isExpression : Bool} :
    Leaves c .any (Parser.modifyCur fun t => { t with context, isExpression }) :=
  modifyCur fun _ => rfl

instance : Leaves c .any (Parser.modifyCur fun t => { t with kind }) :=
  modifyCur fun _ => rfl

instance {id : Nat} : Leaves c .any (stamp id) :=
  modifyCur fun _ => rfl

theorem of_tokens {g : State → State} (h : ∀ st, (g st).cur = st.cur ∧ (g st).pos = st.pos
      ∧ (g st).isType = st.isType ∧ (g st).tokens.size = st.tokens.size
      ∧ ∀ i : Nat, (g st).tokens[i]?.map Token.stop = st.tokens[i]?.map Token.stop) :
    Leaves c .settled (modify g : Parser Unit) where
  ends st hst := by
    obtain ⟨hcur, hpos, htype, hsize, hstops⟩ := h st
    refine ⟨⟨Nat.le_of_eq hsize.symm, fun i _ => hstops i⟩, ⟨htype.trans hst.isType, ?_⟩,
      .inl ⟨hsize, hcur, hpos⟩⟩
    exact hpos.trans (hst.pos.trans (congrArg Token.stop hcur.symm))

theorem modifyToken (h : ∀ t, (g t).stop = t.stop) :
    Leaves c .settled (modifyToken i g) := by
  refine of_tokens fun st => ⟨rfl, rfl, rfl, Array.size_modify, fun j => ?_⟩
  dsimp only
  rw [Array.getElem?_modify]
  split
  · rw [Option.map_map]
    exact congrArg (st.tokens[j]?.map ·) (funext h)
  · rfl

theorem modifyFrom (h : ∀ t, (g t).stop = t.stop) :
    Leaves c .settled (modifyFrom i g) := by
  refine of_tokens fun st => ⟨rfl, rfl, rfl, Array.size_mapIdx, fun j => ?_⟩
  dsimp only
  rw [Array.getElem?_mapIdx, Option.map_map]
  refine congrArg (st.tokens[j]?.map ·) (funext fun t => ?_)
  simp only [Function.comp_apply]
  split
  · exact h t
  · rfl

instance {rhsEnd : Option Nat} :
    Leaves c .settled (Parser.modifyToken i fun t => { t with rhsEnd }) :=
  modifyToken fun _ => rfl

instance {isType : Bool} :
    Leaves c .settled (Parser.modifyToken i fun t => { t with isType }) :=
  modifyToken fun _ => rfl

instance :
    Leaves c .settled (Parser.modifyToken i fun t => { t with role }) :=
  modifyToken fun _ => rfl

instance :
    Leaves c .settled (Parser.modifyFrom i fun t => { t with role }) :=
  modifyFrom fun _ => rfl

instance {start : Nat} : Leaves c .settled (markTypesFrom start) :=
  modifyFrom fun _ => rfl

/-! ## Scopes and contexts -/

instance : Leaves c .settled enterScope :=
  of_rests fun _ => ⟨rfl, rfl, rfl, rfl⟩

instance : Leaves c .settled leaveScope := by
  unfold leaveScope
  refine settled_then fun st => ?_
  split
  · infer_instance
  · exact of_rests fun _ => ⟨rfl, rfl, rfl, rfl⟩

instance : Leaves c .settled pushContext :=
  of_rests fun _ => ⟨rfl, rfl, rfl, rfl⟩

instance : Leaves c .settled popContext := by
  unfold popContext
  refine settled_then fun st => ?_
  split
  · infer_instance
  · exact of_rests fun _ => ⟨rfl, rfl, rfl, rfl⟩

instance : Leaves c .fresh (closeContext kind) := by
  unfold closeContext
  refine then_fresh fun b => ?_
  split
  · refine then_fresh fun id => ?_
    split <;> infer_instance
  · infer_instance

/-! ## Speculation and types -/

theorem in_type (hp : Leaves c a p) : Leaves c a (inType p) where
  ends st hst := by
    have htyped : { st with isType := true } = st := by rw [← hst.isType]
    have hends : Results c p { st with isType := true }
        (fun _ st' => Grows st st' ∧ Tight st' ∧ a.Holds c st st') fun _ => Grows st :=
      htyped.symm ▸ hp.ends st hst
    refine hends.inType (fun x st' ⟨hgrows, hst', hahead⟩ => ?_)
      fun _ _ hgrows => ⟨hgrows.size, hgrows.stops⟩
    have hsame : { st' with isType := st.isType } = st' := by rw [hst.isType, ← hst'.isType]
    rw [hsame]
    exact ⟨hgrows, hst', hahead⟩

instance [hp : Leaves c a p] : Leaves c a (inType p) :=
  in_type hp

/-- What is given up leaves what was there. -/
theorem restore_ends {st st' : State} (hst : Tight st) (h : Grows st st') :
    Grows st (st'.restore st.snapshot) ∧ Tight (st'.restore st.snapshot)
      ∧ Ahead.settled.Holds c st (st'.restore st.snapshot) :=
  ⟨h.restore.1, ⟨hst.isType, hst.pos⟩, .inl h.restore.2⟩

instance {p : Parser Unit} [hp : Leaves c .settled p] : Leaves c .settled (attempt p) where
  ends st hst := Results.attempt (hp.ends st hst) (fun _ h => h) (fun _ _ => restore_ends hst)
    fun _ _ h => h

instance [hp : Leaves c .any p] : Leaves c .settled (lookahead p) where
  ends st hst := Results.lookahead (hp.ends st hst) fun _ _ h => restore_ends hst h.1

/-! ## Repetition -/

section

variable {σ : Type} {x : σ} {step : σ → Parser (ForInStep σ)}

/-- What every round leaves, and what the last one does, the loop leaves. -/
theorem loop_of (a b : Ahead) (hcombine : ∀ st st' st'', Grows st' st'' → a.Holds c st st' →
      b.Holds c st' st'' → b.Holds c st st'')
    (hstep : ∀ x st, Tight st → Results c (step x) st (fun r st' => Grows st st' ∧ Tight st'
      ∧ match r with
        | .done _ => b.Holds c st st'
        | .yield _ => a.Holds c st st') fun _ st' => Grows st st') : Leaves c b (loop x step) where
  ends st hst := by
    -- what the rest of the loop leaves is left by the whole of it
    refine Results.loop (I := fun _ st₁ => Grows st st₁ ∧ Tight st₁
        ∧ ∀ st₂, Grows st₁ st₂ → b.Holds c st₁ st₂ → b.Holds c st st₂)
      ⟨.refl st, hst, fun _ _ h => h⟩ fun x st₁ ⟨hgrows, hst₁, hwhole⟩ => ?_
    refine (hstep x st₁ hst₁).weaken (fun r st₂ ⟨hgrows', hst₂, hahead⟩ => ?_) fun _ _ => hgrows.trans
    cases r with
    | done y => exact ⟨hgrows.trans hgrows', hst₂, hwhole st₂ hgrows' hahead⟩
    | yield y =>
      exact ⟨⟨hgrows.trans hgrows', hst₂, fun st₃ h hb => hwhole st₃ (hgrows'.trans h)
        (hcombine _ _ _ h hahead hb)⟩, .inr (hgrows.trans hgrows')⟩

theorem loop_all (hcombine : ∀ st st' st'', Grows st' st'' → a.Holds c st st' →
      a.Holds c st' st'' → a.Holds c st st'') (hstep : ∀ x, Leaves c a (step x)) :
    Leaves c a (Parser.loop x step) := by
  refine loop_of a a hcombine fun x st hst => ?_
  exact Results.weaken ((hstep x).ends st hst) (fun r _ h => by cases r <;> exact h) fun _ _ h => h

/-- A loop that ends only with a fresh token. -/
theorem loop_fresh (hstep : ∀ x, Leaves c .any (step x))
    (hdone : ∀ x y st st', Tight st → step x c st = .ok (.done y) st' → Fresh c st') :
    Leaves c .fresh (Parser.loop x step) := by
  refine loop_of .any .fresh (fun _ _ _ _ _ h => h) fun x st hst => ?_
  have hends := (hstep x).ends st hst
  unfold Results
  cases hrun : step x c st with
  | error e st' =>
    rw [hrun] at hends
    exact hends
  | ok r st' =>
    rw [hrun] at hends
    cases r with
    | done y => exact ⟨hends.1, hends.2.1, hdone x y st st' hst hrun⟩
    | yield y => exact hends

theorem loop_any (hstep : ∀ x, Leaves c .any (step x)) : Leaves c .any (Parser.loop x step) :=
  loop_all (fun _ _ _ _ _ _ => trivial) hstep

theorem loop_settled (hstep : ∀ x, Leaves c .settled (step x)) :
    Leaves c .settled (Parser.loop x step) :=
  loop_all (fun _ _ _ => Ahead.settled_trans) hstep

instance [hstep : ∀ x, Leaves c .any (step x)] : Leaves c .any (Parser.loop x step) :=
  loop_any hstep

instance [hstep : ∀ x, Leaves c .settled (step x)] :
    Leaves c .settled (Parser.loop x step) :=
  loop_settled hstep

end

end Leaves

end Downlevel.Grammar
