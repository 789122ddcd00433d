import Downlevel.Proofs.Grammar.Step

/-!
# Running a parser

`Runs c n s v p s' L` says what running `p` does at a stage `s` with a view `v`
of the tokens around: if it goes through, it takes steps with base `n` to the
stage `s'`, and `L` holds of the view it ends with; if it fails, tokens below
the base stay as they are.  Parts of the grammar are put together by
`Runs.bind`, and a part that only looks at the view disappears by rewriting.
-/

namespace Downlevel

/-- Does the run go through, with a result and a state that pass the test? -/
def okWith {ε σ α : Type} (r : EStateM.Result ε σ α) (test : α → σ → Bool) : Bool :=
  match r with
  | .ok a s => test a s
  | .error _ _ => false

theorem exists_of_okWith {ε σ α : Type} {r : EStateM.Result ε σ α} {test : α → σ → Bool}
    (h : okWith r test = true) : ∃ a s, r = .ok a s ∧ test a s = true := by
  cases r with
  | ok a s => exact ⟨a, s, rfl, h⟩
  | error e s => cases h

namespace Grammar

open Grammar.Parser

/-- What is known of the tokens around a place. -/
structure View where
  /-- The token ahead. -/
  cur : Token
  /-- The kind of the token after it when it is read in a mode, if that is known. -/
  after : Option (Lexer.Mode × Kind) := none
  /-- A number of tokens that are finished. -/
  count : Nat
  /-- An index from which on no token has a context, if one is known. -/
  bare : Option Nat := none
  deriving Repr, DecidableEq

/-- What a view says about a state. -/
structure Sees (c : Setting) (v : View) (st : State) : Prop where
  cur : st.cur = v.cur
  after : ∀ mode kind, v.after = some (mode, kind) → ∀ t pos,
    Lexer.read mode st.isType c.source st.pos = .ok t pos → t.kind = kind
  count : v.count ≤ st.tokens.size
  bare : ∀ i, v.bare = some i → v.cur.context = none
    ∧ ∀ j t, i ≤ j → st.tokens[j]? = some t → t.context = none

/-- What running a parser does. -/
def Runs {α : Type} (c : Setting) (n : Nat) (s : Stage) (v : View) (p : Parser α)
    (s' : α → Stage) (L : α → View → Prop) : Prop :=
  n ≤ v.count → ∀ st, Agrees s st → Sees c v st →
    match p c st with
    | .ok a st' => Steps c n (s, st) (s' a, st') ∧ ∃ w, n ≤ w.count ∧ Sees c w st' ∧ L a w
    | .error _ st' => Kept n st st'

section

variable {α β : Type} {c : Setting} {n : Nat} {s : Stage} {v : View} {p : Parser α}
  {f : α → Parser β} {s' : α → Stage} {s'' : β → Stage} {L L' : α → View → Prop}
  {M : β → View → Prop} {P : Prop}

/-! ## Sequencing -/

theorem Parser.bind_apply (p : Parser α) (f : α → Parser β) (c : Setting) (st : State) :
    (p >>= f) c st =
      match p c st with
      | .ok a st' => f a c st'
      | .error e st' => .error e st' := by
  change EStateM.bind (p c) (fun a => f a c) st = _
  unfold EStateM.bind
  cases p c st <;> rfl

theorem Parser.exists_of_bind {p : Parser α} {f : α → Parser β} {c : Setting}
    {st st' : State} {b : β} (h : (p >>= f) c st = .ok b st') :
    ∃ a st₁, p c st = .ok a st₁ ∧ f a c st₁ = .ok b st' := by
  rw [Parser.bind_apply] at h
  cases hp : p c st with
  | error e st₁ => simp [hp] at h
  | ok a st₁ => exact ⟨a, st₁, rfl, by simpa [hp] using h⟩

theorem Parser.tryCatch_apply (p : Parser α) (h : Error → Parser α) (c : Setting) (st : State) :
    tryCatch p h c st =
      match p c st with
      | .ok a st' => .ok a st'
      | .error e st' => h e c st' := by
  change EStateM.tryCatch (p c) (fun e => h e c) st = _
  unfold EStateM.tryCatch
  cases p c st <;> rfl

theorem Parser.discard_eq (p : Parser α) : discard p = p >>= fun _ => pure () := by
  change Functor.mapConst () p = _
  rw [LawfulFunctor.map_const]
  exact map_eq_pure_bind _ p

theorem Parser.discard_bind (p : Parser α) (f : Unit → Parser β) :
    (discard p >>= f) = p >>= fun _ => f () := by
  rw [Parser.discard_eq, bind_assoc]
  rfl

/-- How running a parser ends: it goes through and `Q` holds of the result and the state after it,
or it fails and `E` holds. -/
def Results (c : Setting) (p : Parser α) (st : State) (Q : α → State → Prop)
    (E : Error → State → Prop) : Prop :=
  match p c st with
  | .ok a st' => Q a st'
  | .error e st' => E e st'

namespace Results

variable {st : State} {Q Q' : α → State → Prop} {N : β → State → Prop} {E E' : Error → State → Prop}

theorem weaken (h : Results c p st Q E) (hQ : ∀ a st', Q a st' → Q' a st')
    (hE : ∀ e st', E e st' → E' e st') : Results c p st Q' E' := by
  unfold Results at h ⊢
  cases hp : p c st with
  | ok a st' =>
    rw [hp] at h
    exact hQ a st' h
  | error e st' =>
    rw [hp] at h
    exact hE e st' h

theorem bind (h : Results c p st Q E) (hf : ∀ a st', Q a st' → Results c (f a) st' N E) :
    Results c (p >>= f) st N E := by
  unfold Results at h hf ⊢
  rw [Parser.bind_apply]
  cases hp : p c st with
  | ok a st' =>
    rw [hp] at h
    exact hf a st' h
  | error e st' =>
    rw [hp] at h
    exact h

end Results

theorem Runs.pure {a : α} (hs : s' a = s) (hL : L a v) :
    Runs c n s v (pure a : Parser α) s' L := by
  intro hn st _ hv
  exact ⟨hs ▸ .refl, v, hn, hv, hL⟩

theorem Runs.bind (hp : Runs c n s v p s' L)
    (hf : ∀ a w, L a w → Runs c n (s' a) w (f a) s'' M) : Runs c n s v (p >>= f) s'' M := by
  intro hn st ha hv
  refine Results.bind (hp hn st ha hv) fun a st' ⟨hsteps, w, hw, hsees, hL⟩ => ?_
  have hkept := hsteps.kept (Nat.le_trans hn hv.count)
  refine Results.weaken (hf a w hL hw st' (hsteps.agrees ha) hsees) (fun _ _ h => ?_)
    fun _ _ => hkept.trans
  exact ⟨hsteps.trans h.1, h.2⟩

theorem Runs.weaken (hp : Runs c n s v p s' L) (hL : ∀ a w, L a w → L' a w) :
    Runs c n s v p s' L' := by
  intro hn st ha hv
  refine Results.weaken (hp hn st ha hv) (fun a _ ⟨hsteps, w, hw, hsees, h⟩ => ?_) fun _ _ h => h
  exact ⟨hsteps, w, hw, hsees, hL a w h⟩

/-- The base of a run is below what is finished. -/
theorem Runs.assume (hp : n ≤ v.count → Runs c n s v p s' L) : Runs c n s v p s' L :=
  fun hn => hp hn hn

/-- What is known at the end may be forgotten. -/
theorem Runs.any (hp : Runs c n s v p s' L) : Runs c n s v p s' fun _ _ => True :=
  hp.weaken fun _ _ _ => trivial

/-- A part with a value after it. -/
theorem Runs.thenPure {f : α → β} (hp : Runs c n s v p (fun _ => s) L) :
    Runs c n s v (p >>= fun a => Pure.pure (f a)) (fun _ => s) fun _ _ => True :=
  hp.bind fun _ _ _ => Runs.pure rfl trivial

theorem Runs.ite [Decidable P] {p q : Parser α} (hp : P → Runs c n s v p s' L)
    (hq : ¬P → Runs c n s v q s' L) : Runs c n s v (if P then p else q) s' L := by
  split
  · rename_i h
    exact hp h
  · rename_i h
    exact hq h

/-- A part that is run under a condition, and what follows it in either case. -/
theorem Runs.when [Decidable P] {p : Parser Unit} {f : Unit → Parser β}
    (hp : P → Runs c n s v p (fun _ => s) fun _ _ => True) (hf : ∀ w, Runs c n s w (f ()) s'' M) :
    Runs c n s v (if P then p >>= f else f ()) s'' M :=
  Runs.ite (fun h => (hp h).bind fun _ w _ => hf w) fun _ => hf v

/-- Several parts that are run under a condition, and what follows them in either
case. -/
theorem Runs.join [Decidable P] {p q : Parser α} (hq : ∀ w, Runs c n s w q s' L)
    (hp : P → (∀ w, Runs c n s w q s' L) → Runs c n s v p s' L) :
    Runs c n s v (if P then p else q) s' L :=
  Runs.ite (fun h => hp h hq) fun _ => hq v

/-- A part that is run under a condition, as the last one. -/
theorem Runs.maybe [Decidable P] {p : Parser Unit}
    (hp : P → Runs c n s v p (fun _ => s) fun _ _ => True) :
    Runs c n s v (if P then p else Pure.pure ()) (fun _ => s) fun _ _ => True :=
  Runs.ite hp fun _ => Runs.pure rfl trivial

/-- A parser that fails and leaves the finished tokens alone. -/
theorem Runs.fails (h : ∀ st, Sees c v st → ∃ e st', p c st = .error e st' ∧ st'.tokens = st.tokens) :
    Runs c n s v p s' L := by
  intro hn st _ hv
  obtain ⟨e, st', hp, ht⟩ := h st hv
  rw [hp]
  exact Kept.of_tokens_eq (Nat.le_trans hn hv.count) ht

/-- A parser that goes through with one step. -/
theorem Runs.step {a : α} {w : View} {g : State → State} (hn : n ≤ v.count → n ≤ w.count)
    (h : ∀ st, Agrees s st → Sees c v st → p c st = .ok a (g st) ∧ Step c n (s, st) (s' a, g st)
      ∧ Sees c w (g st)) (hL : L a w) : Runs c n s v p s' L := by
  intro hv st ha hsees
  obtain ⟨hp, hstep, hw⟩ := h st ha hsees
  rw [hp]
  exact ⟨.single hstep, w, hn hv, hw, hL⟩

/-! ## Looking -/

/-- A part that looks at something else may find anything. -/
theorem Runs.look {Q : α → Prop}
    (h : ∀ st, Agrees s st → Sees c v st → ∃ x, p c st = .ok x st ∧ Q x)
    (hf : ∀ x, Q x → Runs c n s v (f x) s'' M) : Runs c n s v (p >>= f) s'' M := by
  intro hn st ha hv
  obtain ⟨x, hx, hQ⟩ := h st ha hv
  rw [Parser.bind_apply, hx]
  exact hf x hQ hn st ha hv

end

/-- A parser that only looks at the token ahead and at what stays the same. -/
class Looks {α : Type} (p : Parser α) where
  /-- What is seen. -/
  seen : Setting → Token → α
  apply_eq : ∀ c st, p c st = .ok (seen c st.cur) st

namespace Looks

variable {α β : Type}

instance (a : α) : Looks (pure a : Parser α) := ⟨fun _ _ => a, fun _ _ => rfl⟩

instance (p : Parser α) (f : α → Parser β) [Looks p] [∀ a, Looks (f a)] : Looks (p >>= f) where
  seen c t := seen (f (seen p c t)) c t
  apply_eq c st := by rw [Parser.bind_apply, apply_eq (p := p)]; exact apply_eq c st

instance : Looks (read : Parser Setting) := ⟨fun c _ => c, fun _ _ => rfl⟩

instance : Looks cur := ⟨fun _ t => t, fun _ _ => rfl⟩

instance (t : Token) : Looks (textOf t) := ⟨fun c _ => t.text c.source, fun _ _ => rfl⟩

instance (kind : Kind) : Looks (is kind) := ⟨fun _ t => t.kind = kind, fun _ _ => rfl⟩

instance (kinds : List Kind) : Looks (isOneOf kinds) :=
  ⟨fun _ t => kinds.contains t.kind, fun _ _ => rfl⟩

instance (word : String) : Looks (isName word) :=
  ⟨fun c t => t.kind = .name && t.text c.source = word.toList, fun _ _ => rfl⟩

instance (words : List String) : Looks (isNameOf words) :=
  ⟨fun c t => t.kind = .name && words.contains (String.ofList (t.text c.source)),
    fun _ _ => rfl⟩

instance : Looks afterNewline := ⟨fun _ t => t.newlineBefore, fun _ _ => rfl⟩

instance : Looks canEndStatement :=
  ⟨fun _ t => t.kind = .eof || t.kind = .braceR || t.newlineBefore, fun _ _ => rfl⟩

instance : Looks hasTypes := ⟨fun c _ => c.hasTypes, fun _ _ => rfl⟩

instance : Looks typescript := ⟨fun c _ => c.typescript, fun _ _ => rfl⟩

instance : Looks flow := ⟨fun c _ => c.flow, fun _ _ => rfl⟩

end Looks

section Looking

variable {α β : Type} {c : Setting} {n : Nat} {s : Stage} {v : View} {s' : β → Stage}
  {L : β → View → Prop}

/-- A part that only looks disappears. -/
theorem runs_looks {p : Parser α} [Looks p] {f : α → Parser β} :
    Runs c n s v (p >>= f) s' L ↔ Runs c n s v (f (Looks.seen p c v.cur)) s' L := by
  have heq : ∀ st, Sees c v st → (p >>= f) c st = f (Looks.seen p c v.cur) c st := by
    intro st hv
    rw [Parser.bind_apply, Looks.apply_eq (p := p), hv.cur]
  constructor
  · intro hr hn st ha hv
    have := hr hn st ha hv
    rwa [heq st hv] at this
  · intro hr hn st ha hv
    rw [heq st hv]
    exact hr hn st ha hv

/-- A parser that only looks, as the last part. -/
theorem Runs.looks {p : Parser β} [Looks p] (hs : s' (Looks.seen p c v.cur) = s)
    (hL : L (Looks.seen p c v.cur) v) : Runs c n s v p s' L := by
  intro hn st _ hv
  rw [Looks.apply_eq (p := p), hv.cur]
  exact ⟨hs ▸ .refl, v, hn, hv, hL⟩

end Looking

/-! ## Failing -/

section Failing

variable {α : Type} {c : Setting} {n : Nat} {s : Stage} {v : View} {s' : α → Stage}
  {L : α → View → Prop}

theorem Runs.faultAt {f : Fault} {offset : Nat} :
    Runs c n s v (faultAt f offset : Parser α) s' L :=
  Runs.fails fun st _ => ⟨_, st, rfl, rfl⟩

theorem Runs.fault {f : Fault} : Runs c n s v (fault f : Parser α) s' L :=
  Runs.fails fun st _ => ⟨_, st, rfl, rfl⟩

theorem Runs.throw {e : Error} : Runs c n s v (throw e : Parser α) s' L :=
  Runs.fails fun st _ => ⟨_, st, rfl, rfl⟩

theorem Runs.unexpected : Runs c n s v (unexpected : Parser α) s' L := by
  unfold Parser.unexpected
  simp only [runs_looks]
  split
  · exact Runs.fault
  · simp only [runs_looks]
    exact Runs.fault

end Failing

/-! ## Repetition -/

section Repetition

variable {σ : Type} {c : Setting} {n : Nat} {s t u : Stage} {v : View} {body : Parser Unit}
  {step : σ → Parser (ForInStep σ)} {condition : Parser Bool}

/-- The stage after a round of a loop. -/
def afterRound (s t : Stage) : ForInStep σ → Stage
  | .yield _ => s
  | .done _ => t

/-- What is known after a round of a loop. -/
def roundView (I L : σ → View → Prop) : ForInStep σ → View → Prop
  | .yield x, w => I x w
  | .done x, w => L x w

theorem loop_apply (step : σ → Parser (ForInStep σ)) (x : σ) (c : Setting) (st : State) :
    loop x step c st =
      match step x c st with
      | .error e st' => .error e st'
      | .ok (.done y) st' => .ok y st'
      | .ok (.yield y) st' =>
        if c.remaining st' < c.remaining st then loop y step c st' else stalled c st' := by
  change rounds step x c st = _
  rw [rounds]
  rfl

/-- What every round of a loop keeps, the loop keeps.  A round that leaves as much of the source as
there was is the last one, and the loop fails. -/
theorem Results.loop {I Q : σ → State → Prop}
    {E : Error → State → Prop} {x : σ} {st : State} (hx : I x st)
    (hstep : ∀ x st, I x st → Results c (step x) st (fun r st' => match r with
      | .done y => Q y st'
      | .yield y => I y st' ∧ (c.remaining st' < c.remaining st ∨ E (.invariant .noProgress) st')) E) :
    Results c (loop x step) st Q E := by
  induction hrem : c.remaining st using Nat.strongRecOn generalizing x st with
  | ind k ih =>
    have hround := hstep x st hx
    unfold Results at hround ⊢
    rw [loop_apply]
    cases hrun : step x c st with
    | error e st' =>
      rw [hrun] at hround
      exact hround
    | ok r st' =>
      rw [hrun] at hround
      cases r with
      | done y => exact hround
      | yield y =>
        dsimp only
        by_cases hlt : c.remaining st' < c.remaining st
        · rw [if_pos hlt]
          exact ih _ (hrem ▸ hlt) hround.1 rfl
        · rw [if_neg hlt]
          exact hround.2.resolve_left hlt

/-- What every round of a loop keeps, the loop keeps. -/
theorem Runs.loop {I L : σ → View → Prop} {x : σ} (hx : I x v)
    (hstep : ∀ x w, I x w → Runs c n s w (step x) (afterRound s t) (roundView I L)) :
    Runs c n s v (loop x step) (fun _ => t) L := by
  intro hn st ha hv
  have hbase := Nat.le_trans hn hv.count
  refine Results.loop (I := fun x st' => Steps c n (s, st) (s, st') ∧ ∃ w, n ≤ w.count ∧ Sees c w st'
    ∧ I x w) ⟨.refl, v, hn, hv, hx⟩ fun x st' ⟨hsteps, w, hw, hsees, hx⟩ => ?_
  refine Results.weaken (hstep x w hx hw st' (hsteps.agrees ha) hsees) (fun r _ ⟨hround, hrest⟩ => ?_)
    fun _ _ => (hsteps.kept hbase).trans
  cases r with
  | done y => exact ⟨hsteps.trans hround, hrest⟩
  | yield y =>
    have hsteps : Steps c n (s, st) (s, _) := hsteps.trans hround
    exact ⟨⟨hsteps, hrest⟩, .inr (hsteps.kept hbase)⟩

theorem Runs.repeatWhile {J : View → Prop} {L : Unit → View → Prop}
    (hcondition : ∀ w, Runs c n s w condition (fun b => if b then t else u)
      fun b w => if b then J w else L () w)
    (hbody : ∀ w, J w → Runs c n t w body (fun _ => s) fun _ _ => True) :
    Runs c n s v (repeatWhile condition body) (fun _ => u) L := by
  refine Runs.loop (I := fun _ _ => True) trivial fun _ w _ => ?_
  refine (hcondition w).bind fun b w hw => ?_
  cases b with
  | true => exact (hbody w hw).bind fun _ w _ => Runs.pure rfl trivial
  | false => exact Runs.pure rfl hw

/-- A loop whose condition is seen at the token ahead. -/
theorem Runs.repeatIf [Looks condition] (hbody : ∀ w, Looks.seen condition c w.cur = true →
      Runs c n s w body (fun _ => s) fun _ _ => True) :
    Runs c n s v (Parser.repeatWhile condition body) (fun _ => s)
      fun _ w => Looks.seen condition c w.cur = false := by
  refine Runs.repeatWhile (t := s) (J := fun w => Looks.seen condition c w.cur = true)
    (fun w => Runs.looks (ite_self s) ?_) hbody
  cases hb : Looks.seen condition c w.cur <;> simp

theorem Runs.repeatUntil {kind : Kind}
    (hbody : ∀ w, w.cur.kind ≠ kind → Runs c n s w body (fun _ => s) fun _ _ => True) :
    Runs c n s v (repeatUntil kind body) (fun _ => s) fun _ w => w.cur.kind = kind := by
  refine (Runs.repeatIf fun w hw => hbody w ?_).weaken fun _ w hw => ?_
  · exact of_decide_eq_false ((Bool.not_eq_true' _).mp hw)
  · exact of_decide_eq_true ((Bool.not_eq_false' _).mp hw)

end Repetition

end Grammar

end Downlevel
