import Downlevel.Proofs.Grammar.Runs
import Downlevel.Proofs.Lexer.Scan

/-!
# The moves of a parser

What each of the small parsers does that the grammar is made of: finishing a
token, opening and closing contexts, speculating.  A part of the grammar that
ends in the frame it started in is said to keep it (`Keeps`).
-/

namespace Downlevel.Grammar

open Grammar.Parser

/-- A condition that holds, as can be seen from how it is written. -/
class IsTrue (b : Bool) : Prop where
  eq : b = true

instance : IsTrue true := ⟨rfl⟩

/-- Running the parser in front of ordinary code keeps the frame. -/
def Keeps (c : Setting) {α : Type} (p : Parser α) : Prop :=
  ∀ n (f : Frame) v, Runs c n f.plain v p (fun _ => f.plain) fun _ _ => True

/-- Running the parser where brackets need not match keeps the frame. -/
def KeepsLoose (c : Setting) {α : Type} (p : Parser α) : Prop :=
  ∀ n (f : Frame) v, f.IsLoose → Runs c n f.plain v p (fun _ => f.plain) fun _ _ => True

/-- Running the parser at a token of this kind keeps the frame. -/
def KeepsAt (c : Setting) (kind : Kind) {α : Type} (p : Parser α) : Prop :=
  ∀ n (f : Frame) v, v.cur.kind = kind → Runs c n f.plain v p (fun _ => f.plain) fun _ _ => True

theorem Keeps.run {c : Setting} {α : Type} {p : Parser α} (h : Keeps c p) {n : Nat} {f : Frame}
    {v : View} : Runs c n f.plain v p (fun _ => f.plain) fun _ _ => True :=
  h n f v

theorem KeepsLoose.run {c : Setting} {α : Type} {p : Parser α} (h : KeepsLoose c p) {n : Nat}
    {f : Frame} {v : View} (hf : f.IsLoose) :
    Runs c n f.plain v p (fun _ => f.plain) fun _ _ => True :=
  h n f v hf

/-! ## How tokens pass -/

section Passing

variable {f : Frame} {kind : Kind} {id : Nat} {x : Option Nat}

theorem Passes.neutral (h : isNeutral kind = true) : Passes f kind .none f :=
  .nested (nest_neutral h)

theorem Passes.parenL : Passes f .parenL .none (f.push (.paren none)) := .nested rfl

theorem Passes.parenR : Passes (f.push (.paren none)) .parenR .none f := .nested rfl

theorem Passes.braceL : Passes f .braceL .none (f.push (.brace none)) := .nested rfl

theorem Passes.dollarBraceL : Passes f .dollarBraceL .none (f.push (.brace none)) := .nested rfl

theorem Passes.braceR : Passes (f.push (.brace none)) .braceR .none f := .nested rfl

theorem Passes.parenL_opening : Passes f .parenL (.opening id) (f.push (.paren (some id))) :=
  .nested rfl

theorem Passes.braceL_opening : Passes f .braceL (.opening id) (f.push (.brace (some id))) :=
  .nested rfl

theorem Passes.parenR_inside : Passes (f.push (.paren (some id))) .parenR (.inside id) f :=
  .nested (if_pos rfl)

theorem Passes.braceR_inside : Passes (f.push (.brace (some id))) .braceR (.inside id) f :=
  .nested (if_pos rfl)

theorem Passes.kwClass : Passes f .kwClass (.opening id) (f.push (.head id)) := .nested rfl

theorem Passes.class_body : Passes (f.push (.head id)) .braceL (.inside id) (f.push (.body id)) :=
  .nested (if_pos rfl)

theorem Passes.class_end : Passes (f.push (.body id)) .braceR (.inside id) f :=
  .nested (if_pos rfl)

theorem Passes.key (h : isNeutral kind = true) :
    Passes (f.push (.brace (some id))) kind (.inside id) (f.push (.brace (some id))) := by
  refine .nested (?_ : nest _ _ _ = some (.brace (some id) :: f.brackets))
  cases kind <;> first | exact if_pos rfl | simp [isNeutral] at h

end Passing

section Moves

variable {α β : Type} {c : Setting} {n : Nat} {s t : Stage} {f g : Frame} {v : View}
  {s' : β → Stage} {L : β → View → Prop} {kind : Kind} {M : α → View → Prop} {k : Nat → Parser β}
  {mode : Lexer.Mode} {id : Nat} {st : State} {i : Nat} {h : Token → Token}

/-! ## Finishing tokens -/

theorem nextIn_apply (mode : Lexer.Mode) (c : Setting) (st : State) :
    nextIn mode c st =
      match Lexer.read mode st.isType c.source st.pos with
      | .ok token pos => .ok () (st.finish token pos)
      | .error failure pos => .error (failure.toError c.source) { st with pos } := by
  change (scan (Lexer.read mode st.isType) >>= _) c st = _
  rw [Parser.bind_apply]
  unfold scan
  cases Lexer.read mode st.isType c.source st.pos <;> rfl

theorem peek_apply (c : Setting) (st : State) :
    peek c st =
      match Lexer.next st.isType c.source st.pos with
      | .ok t _ => .ok t st
      | .error failure _ => .error (failure.toError c.source) st := by
  change glance (Lexer.next st.isType) c st = _
  unfold glance
  cases Lexer.next st.isType c.source st.pos <;> rfl

theorem rereadRegex_apply (c : Setting) (st : State) :
    rereadRegex c st =
      match Lexer.regex st.cur.start c.source st.pos with
      | .ok token pos =>
        .ok () { st with pos, cur := { token with newlineBefore := st.cur.newlineBefore } }
      | .error failure pos => .error (failure.toError c.source) { st with pos } := by
  change (scan (Lexer.regex st.cur.start) >>= _) c st = _
  rw [Parser.bind_apply]
  unfold scan
  cases Lexer.regex st.cur.start c.source st.pos <;> rfl

/-- What is known once the token ahead is finished and the next one is read. -/
structure View.Passed (v : View) (mode : Lexer.Mode) (w : View) : Prop where
  count : v.count < w.count
  kind : ∀ kind, v.after = some (mode, kind) → w.cur.kind = kind
  context : w.cur.context = none
  bare : w.bare = v.bare

/-- Finishing the token ahead changes the frame as the token says. -/
theorem Runs.nextIn (hp : Passes s.frame v.cur.kind s.mark g)
    (htag : s.inTag = true → v.cur.kind ≠ .eof)
    (hkey : ∀ id, s.mark = .inside id → isNeutral v.cur.kind = true → IsKey v.cur) :
    Runs c n s v (nextIn mode) (fun _ => g.after mode) fun _ w => v.Passed mode w := by
  intro hn st ha hv
  rw [nextIn_apply]
  cases hread : Lexer.read mode st.isType c.source st.pos with
  | error failure pos => exact Kept.of_tokens_eq (Nat.le_trans hn hv.count) rfl
  | ok token pos =>
    have hcontext : token.context = none := Lexer.context_of_read hread
    refine ⟨.single (.finish hread (hv.cur ▸ htag) (hv.cur ▸ hkey) (hv.cur ▸ hp)),
      ⟨token, none, v.count + 1, v.bare⟩, Nat.le_succ_of_le hn, ⟨rfl, by simp, ?_, ?_⟩,
      Nat.lt_succ_self _, fun kind hkind => hv.after mode kind hkind token pos hread,
      hcontext, rfl⟩
    · simpa [State.finish] using hv.count
    · intro i hi
      obtain ⟨hcur, hbare⟩ := hv.bare i hi
      refine ⟨hcontext, fun j t hj ht => ?_⟩
      simp only [State.finish, Array.getElem?_push] at ht
      split at ht
      · cases ht
        exact (congrArg Token.context hv.cur).trans hcur
      · exact hbare j t hj ht

/-- Finishing a token of ordinary code. -/
theorem Runs.next (hp : Passes f v.cur.kind .none g) :
    Runs c n f.plain v next (fun _ => g.plain) fun _ w => v.Passed .normal w :=
  Runs.nextIn hp (by simp [Frame.plain]) (by simp [Frame.plain])

theorem Runs.next_neutral (h : isNeutral v.cur.kind = true) :
    Runs c n f.plain v Parser.next (fun _ => f.plain) fun _ w => v.Passed .normal w :=
  Runs.next (.neutral h)

/-- Finishing a token whose kind is known, in any mode. -/
theorem Runs.nextInAt {b : Bool} (hkind : v.cur.kind = kind) (hp : Passes f kind .none g)
    (htag : kind ≠ .eof) :
    Runs c n { frame := f, inTag := b } v (Parser.nextIn mode) (fun _ => g.after mode)
      fun _ w => v.Passed mode w := by
  subst hkind
  exact Runs.nextIn hp (fun _ => htag) (by simp)

/-- Finishing a token whose kind is known. -/
theorem Runs.nextAt (hkind : v.cur.kind = kind) (hp : Passes f kind .none g) :
    Runs c n f.plain v Parser.next (fun _ => g.plain) fun _ w => v.Passed .normal w :=
  Runs.next (hkind ▸ hp)

theorem Runs.expectIn (hp : Passes s.frame kind s.mark g) (htag : s.inTag = true → kind ≠ .eof)
    (hmark : ∀ id, s.mark ≠ .inside id) :
    Runs c n s v (expectIn kind mode) (fun _ => g.after mode) fun _ w => v.Passed mode w := by
  unfold Parser.expectIn
  simp only [runs_looks]
  refine Runs.ite (fun h => ?_) fun _ => Runs.fault
  have hkind : v.cur.kind = kind := of_decide_eq_true h
  exact Runs.nextIn (hkind ▸ hp) (hkind ▸ htag) fun id hid => absurd hid (hmark id)

theorem Runs.expect (hp : Passes f kind .none g) :
    Runs c n f.plain v (expect kind) (fun _ => g.plain) fun _ w => v.Passed .normal w :=
  Runs.expectIn hp (by simp [Frame.plain]) (by simp [Frame.plain])

theorem Runs.eat (hp : Passes f kind .none g) :
    Runs c n f.plain v (eat kind) (fun b => if b then g.plain else f.plain)
      fun b w => if b then v.Passed .normal w else w = v ∧ v.cur.kind ≠ kind := by
  unfold Parser.eat
  simp only [runs_looks]
  refine Runs.ite (fun h => ?_) fun h => Runs.pure rfl ⟨rfl, fun hk => h (decide_eq_true hk)⟩
  have hkind : v.cur.kind = kind := of_decide_eq_true h
  exact (Runs.next (hkind ▸ hp)).bind fun _ w hw => Runs.pure rfl hw

/-- Eating a token that leaves the frame alone. -/
theorem Runs.eatKeeping (hp : Passes f kind .none f) :
    Runs c n f.plain v (Parser.eat kind) (fun _ => f.plain)
      fun b w => if b then v.Passed .normal w else w = v ∧ v.cur.kind ≠ kind := by
  have hrun := Runs.eat (c := c) (n := n) (v := v) hp
  simpa only [ite_self] using hrun

/-! ## Changing tokens -/

/-- Changing the token ahead without touching what `Step` talks about. -/
theorem Runs.role {r : Option Role} :
    Runs c n s v (modifyCur fun t => { t with role := r }) (fun _ => s)
      fun _ w => w = { v with cur := { v.cur with role := r } } :=
  Runs.step (w := { v with cur := { v.cur with role := r } }) id (fun _ _ hv => ⟨rfl, .role r,
    ⟨congrArg (fun t : Token => { t with role := r }) hv.cur, hv.after, hv.count, hv.bare⟩⟩) rfl

theorem Runs.value {b : Bool} :
    Runs c n s v (modifyCur fun t => { t with isExpression := b }) (fun _ => s)
      fun _ w => w = { v with cur := { v.cur with isExpression := b } } :=
  Runs.step (w := { v with cur := { v.cur with isExpression := b } }) id (fun _ _ hv => ⟨rfl, .value b,
    ⟨congrArg (fun t : Token => { t with isExpression := b }) hv.cur, hv.after, hv.count, hv.bare⟩⟩) rfl

/-- Annotating a finished token.  A role is only changed where no token has a
context. -/
theorem Runs.modifyToken (hi : n ≤ i)
    (hh : ∀ t, (v.bare = some i → t.context = none) → Annotates t (h t)) :
    Runs c n s v (modifyToken i h) (fun _ => s) fun _ w => w.cur = v.cur := by
  refine Runs.step (w := { v with bare := none }) id (fun st _ hv => ⟨rfl, .annotate hi ?_,
    hv.cur, hv.after, by simpa using hv.count, by simp⟩) rfl
  exact fun t ht => hh t fun hbare => (hv.bare i hbare).2 i t (Nat.le_refl _) ht

/-- Annotating all finished tokens from an index on. -/
theorem Runs.modifyFrom (hi : n ≤ i)
    (hh : ∀ t, (v.bare = some i → t.context = none) → Annotates t (h t)) :
    Runs c n s v (modifyFrom i h) (fun _ => s) fun _ w => w.cur = v.cur := by
  refine Runs.step (w := { v with bare := none }) id (fun st _ hv => ⟨rfl, .annotateFrom hi ?_,
    hv.cur, hv.after, by simpa using hv.count, by simp⟩) rfl
  exact fun j t hj ht => hh t fun hbare => (hv.bare i hbare).2 j t hj ht

theorem Runs.markTypesFrom (hi : n ≤ i) :
    Runs c n s v (markTypesFrom i) (fun _ => s) fun _ w => w.cur = v.cur :=
  Runs.modifyFrom hi fun _ _ => ⟨rfl, rfl, rfl, rfl, rfl, fun _ => rfl, fun _ => rfl⟩

theorem Runs.identifier {role : Role} :
    Runs c n f.plain v (identifier role) (fun _ => f.plain) fun _ w => v.count < w.count := by
  unfold Parser.identifier
  simp only [runs_looks]
  refine Runs.ite (fun h => ?_) fun _ => Runs.unexpected
  have hkind : v.cur.kind = .name := of_decide_eq_true h
  refine Runs.role.bind fun _ w hw => ?_
  subst hw
  refine (Runs.next_neutral ?_).weaken fun _ _ h => h.count
  change isNeutral v.cur.kind = true
  rw [hkind]
  rfl

/-! ## Looking further -/

/-- The number of finished tokens is at least the one that is known. -/
theorem Runs.tokenCount (h : ∀ m, n ≤ m → v.count ≤ m → Runs c n s v (k m) s' L) :
    Runs c n s v (tokenCount >>= k) s' L := by
  intro hn
  exact Runs.look (Q := fun m => v.count ≤ m) (fun st _ hv => ⟨st.tokens.size, rfl, hv.count⟩)
    (fun m hm => h m (Nat.le_trans hn hm) hm) hn

/-- No token after the finished ones has a context yet. -/
theorem Runs.tokenCountBare (hcontext : v.cur.context = none)
    (h : ∀ m, n ≤ m → Runs c n s { v with bare := some m } (k m) s' L) :
    Runs c n s v (Parser.tokenCount >>= k) s' L := by
  intro hn st ha hv
  refine h st.tokens.size (Nat.le_trans hn hv.count) hn st ha ⟨hv.cur, hv.after, hv.count, ?_⟩
  rintro i ⟨⟩
  refine ⟨hcontext, fun j t hj ht => ?_⟩
  rw [Array.getElem?_eq_none hj] at ht
  cases ht

/-- The token after the one ahead is remembered. -/
theorem Runs.peek {k : Token → Parser β}
    (h : ∀ t, Runs c n s { v with after := some (.normal, t.kind) } (k t) s' L) :
    Runs c n s v (peek >>= k) s' L := by
  intro hn st ha hv
  rw [Parser.bind_apply, peek_apply]
  cases hread : Lexer.next st.isType c.source st.pos with
  | error failure pos => exact Kept.refl (Nat.le_trans hn hv.count)
  | ok t pos =>
    refine h t hn st ha ⟨hv.cur, ?_, hv.count, hv.bare⟩
    rintro mode kind ⟨⟩ t' pos' hread'
    have heq : (EStateM.Result.ok t pos : Lexer.Outcome Token) = .ok t' pos' :=
      hread.symm.trans hread'
    injection heq with ht
    rw [ht]

theorem Runs.peekIs :
    Runs c n s v (peekIs kind) (fun _ => s) fun b w =>
      ∃ k, w = { v with after := some (.normal, k) } ∧ b = decide (k = kind) :=
  Runs.peek fun t => Runs.pure rfl ⟨t.kind, rfl, rfl⟩

/-! ## Ends of statements and lists -/

theorem Runs.separator {close : Kind} :
    Runs c n f.plain v (separator close) (fun _ => f.plain) fun _ w => w.bare = v.bare := by
  unfold Parser.separator
  simp only [runs_looks]
  refine Runs.ite (fun _ => ?_) fun _ => Runs.pure rfl rfl
  exact (Runs.expect (.neutral rfl)).weaken fun _ _ h => h.bare

/-- A list whose items keep what is known of contexts. -/
theorem Runs.commaListBare {close : Kind} {item : Parser Unit} {b : Option Nat}
    (hv : v.bare = b)
    (hitem : ∀ w, w.bare = b →
      Runs c n f.plain w item (fun _ => f.plain) fun _ w' => w'.bare = b) :
    Runs c n f.plain v (commaList close item) (fun _ => f.plain)
      fun _ w => w.cur.kind = close ∧ w.bare = b := by
  refine Runs.loop (I := fun _ w => w.bare = b) hv fun _ w hw => ?_
  simp only [runs_looks]
  refine Runs.ite (fun _ => ?_) fun h => Runs.pure rfl ⟨?_, hw⟩
  · rw [bind_assoc]
    refine (hitem w hw).bind fun _ w' hw' => ?_
    exact Runs.separator.bind fun _ w'' hw'' => Runs.pure rfl (hw''.trans hw')
  · exact of_decide_eq_true ((Bool.not_eq_false' _).mp (Bool.not_eq_true _ ▸ h))

/-- A loop in which only the frame is kept. -/
theorem Runs.loopKeeping {σ : Type} {x : σ} {step : σ → Parser (ForInStep σ)}
    (hstep : ∀ x w, Runs c n s w (step x) (fun _ => s) fun _ _ => True) :
    Runs c n s v (Parser.loop x step) (fun _ => s) fun _ _ => True := by
  refine Runs.loop (I := fun _ _ => True) trivial fun x w _ => ?_
  have hround : afterRound s s = fun _ : ForInStep σ => s := by
    funext r
    cases r <;> rfl
  rw [hround]
  exact (hstep x w).weaken fun r _ _ => by cases r <;> trivial

/-! ## Scopes and contexts -/

theorem leaveScope_apply {depth : Nat} (h : st.depth = depth + 1) (c : Setting) :
    leaveScope c st = .ok () { st with depth } := by
  cases st
  cases h
  rfl

theorem popContext_apply {rest : List Nat} (h : st.contexts = id :: rest) (c : Setting) :
    popContext c st = .ok (some id) { st with contexts := rest } := by
  cases st
  cases h
  rfl

theorem Runs.enterScope :
    Runs c n f.plain v enterScope (fun _ => f.deeper.plain) fun _ w => w = v :=
  Runs.step id (fun _ _ hv => ⟨rfl, .enter, hv.cur, hv.after, hv.count, hv.bare⟩) rfl

theorem Runs.leaveScope :
    Runs c n f.deeper.plain v leaveScope (fun _ => f.plain) fun _ w => w = v := by
  refine Runs.step (a := ()) (g := fun st => { st with depth := st.depth - 1 }) id
    (fun st ha hv => ?_) rfl
  refine ⟨?_, .leave, hv.cur, hv.after, hv.count, hv.bare⟩
  have hdepth : st.depth = f.depth + 1 := ha.depth
  rw [leaveScope_apply hdepth, hdepth, Nat.add_sub_cancel]

/-- The view of a token that is put into a context. -/
def View.stamped (v : View) (id : Nat) : View :=
  { v with cur := { v.cur with context := some id }, bare := none }

theorem Sees.stamped (h : Sees c v st) (id : Nat) :
    Sees c (v.stamped id) { st with cur := { st.cur with context := some id } } :=
  ⟨congrArg (fun t : Token => { t with context := some id }) h.cur, h.after, h.count, nofun⟩

theorem Runs.stamp :
    Runs c n f.plain v (stamp id) (fun _ => { frame := f, mark := .inside id })
      fun _ w => w = v.stamped id :=
  Runs.step (w := v.stamped id) (fun h => h)
    (fun _ _ hv => ⟨rfl, .inside id, hv.stamped id⟩) rfl

/-- Opening a context, whose first token is the one ahead. -/
theorem Runs.opening
    (h : ∀ id, Runs c n { frame := f.inContext id, mark := .opening id } (v.stamped id) (k id)
      s' L) :
    Runs c n f.plain v (pushContext >>= fun id => Parser.stamp id >>= fun _ => k id) s' L := by
  intro hn st ha hv
  have hstep : Step c n (f.plain, st) _ := .opening
  have hrun := h st.nextContext hn _ (hstep.agrees ha)
    ⟨(hv.stamped st.nextContext).cur, hv.after, hv.count, nofun⟩
  split <;> rename_i hk <;> change k st.nextContext c _ = _ at hk <;> rw [hk] at hrun
  · exact ⟨hrun.1.head hstep, hrun.2⟩
  · exact (hstep.kept (Nat.le_trans hn hv.count)).trans hrun

/-- Closing the innermost context, whose last token is the one ahead. -/
theorem Runs.closing {k : Option Nat → Parser β} {q : Parser β}
    (hk : k (some id) = Parser.stamp id >>= fun _ => q)
    (h : Runs c n { frame := f, mark := .inside id } (v.stamped id) q s' L) :
    Runs c n (f.inContext id).plain v (popContext >>= k) s' L := by
  intro hn st ha hv
  have hpop : popContext c st = .ok (some id) { st with contexts := f.contexts } :=
    popContext_apply ha.contexts c
  have hstep : Step c n ((f.inContext id).plain, st) _ := .closing id
  have hrun := h hn _ (hstep.agrees ha) ⟨(hv.stamped id).cur, hv.after, hv.count, nofun⟩
  split <;> rename_i hq <;> rw [Parser.bind_apply, hpop] at hq <;> simp only [hk] at hq <;>
    change q c _ = _ at hq <;> rw [hq] at hrun
  · exact ⟨hrun.1.head hstep, hrun.2⟩
  · exact (hstep.kept (Nat.le_trans hn hv.count)).trans hrun

theorem Runs.openContext {g : Nat → Frame}
    (hp : ∀ id, Passes (f.inContext id) kind (.opening id) (g id)) :
    Runs c n f.plain v (openContext kind) (fun id => (g id).plain) fun _ _ => True := by
  unfold Parser.openContext
  simp only [runs_looks]
  refine Runs.ite (fun h => ?_) fun _ => Runs.fault
  have hkind : v.cur.kind = kind := of_decide_eq_true h
  refine Runs.opening fun id => ?_
  refine (Runs.nextIn (g := g id) ?_ (by simp) (by simp)).bind fun _ w _ => Runs.pure rfl trivial
  change Passes _ v.cur.kind _ _
  exact hkind ▸ hp id

theorem Runs.closeContext (hp : Passes f kind (.inside id) g) (hclose : isNeutral kind = false) :
    Runs c n (f.inContext id).plain v (closeContext kind) (fun _ => g.plain)
      fun _ _ => True := by
  unfold Parser.closeContext
  simp only [runs_looks]
  refine Runs.ite (fun h => ?_) fun _ => Runs.fault
  have hkind : v.cur.kind = kind := of_decide_eq_true h
  refine Runs.closing rfl (Runs.any (Runs.nextIn (g := g) ?_ (by simp) fun _ _ hneutral => ?_))
  · change Passes _ v.cur.kind _ _
    exact hkind ▸ hp
  · change isNeutral v.cur.kind = true at hneutral
    rw [hkind, hclose] at hneutral
    cases hneutral

/-! ## Types and speculation -/

theorem attempt_apply (p : Parser Unit) (c : Setting) (st : State) :
    attempt p c st =
      match p c st with
      | .ok _ st' => .ok true st'
      | .error e st' =>
        if e.isFatal = true then .error e st' else .ok false (st'.restore st.snapshot) := by
  unfold attempt
  rw [Parser.bind_apply]
  change (tryCatch _ _ >>= _ : Parser Bool) c st = _
  rw [Parser.bind_apply, Parser.tryCatch_apply, Parser.bind_apply]
  cases p c st with
  | ok a st' => rfl
  | error e st' => cases h : e.isFatal <;> simp only [h] <;> rfl

theorem lookahead_apply (p : Parser α) (c : Setting) (st : State) :
    lookahead p c st =
      match p c st with
      | .ok a st' => .ok a (st'.restore st.snapshot)
      | .error e st' => .error e st' := by
  change (p >>= fun a => restore st.snapshot >>= fun _ => pure a) c st = _
  rw [Parser.bind_apply]
  cases p c st <;> rfl

section

variable {Q : α → State → Prop} {E E' : Error → State → Prop}

theorem Results.inType {p : Parser α} {Q' : α → State → Prop}
    (h : Results c p { st with isType := true } Q E)
    (hQ : ∀ a st', Q a st' → Q' a { st' with isType := st.isType })
    (hE : ∀ e st', E e st' → E' e { st' with isType := st.isType }) :
    Results c (inType p) st Q' E' := by
  unfold Results Parser.inType at *
  cases hp : p c { st with isType := true } with
  | ok a st' =>
    rw [hp] at h
    exact hQ a st' h
  | error e st' =>
    rw [hp] at h
    exact hE e st' h

theorem Results.attempt {p : Parser Unit} {Q : Unit → State → Prop} {Q' : Bool → State → Prop}
    (h : Results c p st Q E) (hQ : ∀ st', Q () st' → Q' true st')
    (hback : ∀ e st', E e st' → Q' false (st'.restore st.snapshot))
    (hE : ∀ e st', E e st' → E' e st') : Results c (attempt p) st Q' E' := by
  unfold Results at *
  rw [attempt_apply]
  cases hp : p c st with
  | ok a st' =>
    rw [hp] at h
    exact hQ st' h
  | error e st' =>
    rw [hp] at h
    dsimp only
    cases e.isFatal with
    | true => exact hE e st' h
    | false => exact hback e st' h

theorem Results.lookahead {p : Parser α} {Q' : α → State → Prop} (h : Results c p st Q E)
    (hQ : ∀ a st', Q a st' → Q' a (st'.restore st.snapshot)) :
    Results c (lookahead p) st Q' E := by
  unfold Results at *
  rw [lookahead_apply]
  cases hp : p c st with
  | ok a st' =>
    rw [hp] at h
    exact hQ a st' h
  | error e st' =>
    rw [hp] at h
    exact h

end

/-- Running a parser in a type keeps the frame if it does so inside the type. -/
theorem Runs.inType {p : Parser α}
    (hp : Runs c n f.typed.plain { v with after := none } p (fun _ => f.typed.plain)
      fun a w => M a { w with after := none }) :
    Runs c n f.plain v (inType p) (fun _ => f.plain) M := by
  intro hn st ha hv
  refine Results.inType (hp hn { st with isType := true } ⟨ha.contexts, ha.depth, rfl⟩
    ⟨hv.cur, by simp, hv.count, hv.bare⟩) (fun a st' ⟨hsteps, w, hw, hsees, hM⟩ => ?_)
    fun _ _ hkept => ⟨hkept.size, hkept.same⟩
  have hback : Step c n (f.typed.plain, st')
      ({ f.typed with isType := st.isType : Frame }.plain, { st' with isType := st.isType }) :=
    .setType st.isType
  rw [ha.isType] at hback ⊢
  exact ⟨(hsteps.head (.setType true)).tail hback, { w with after := none }, hw,
    ⟨hsees.cur, by simp, hsees.count, hsees.bare⟩, hM⟩

/-- A speculation that fails leaves the state as it was. -/
theorem Runs.attempt {p : Parser Unit} {M : Unit → View → Prop}
    (hp : ∀ m k, Runs c m s { v with count := k } p (fun _ => t) M) :
    Runs c n s v (attempt p) (fun b => if b then t else s)
      fun b w => if b then M () w else w = v := by
  intro hn st ha hv
  have hm : n ≤ st.tokens.size := Nat.le_trans hn hv.count
  refine Results.attempt (hp st.tokens.size st.tokens.size (Nat.le_refl _) st ha
    ⟨hv.cur, hv.after, Nat.le_refl _, hv.bare⟩) (fun st' ⟨hsteps, w, hw, hsees, hM⟩ => ?_)
    (fun e st' hkept => ?_) fun _ _ hkept => hkept.mono hm
  · exact ⟨hsteps.mono hm, w, Nat.le_trans hm hw, hsees, hM⟩
  · rw [hkept.restore_snapshot]
    exact ⟨.refl, v, hn, hv, rfl⟩

/-- A speculation on something that keeps the stage. -/
theorem Runs.attemptKeeping {p : Parser Unit} {M : Unit → View → Prop}
    (hp : ∀ m k, Runs c m s { v with count := k } p (fun _ => s) M) :
    Runs c n s v (Parser.attempt p) (fun _ => s) fun b w => if b then M () w else w = v := by
  have hrun := Runs.attempt (n := n) hp
  simpa only [ite_self] using hrun

/-- Looking ahead leaves the state as it was. -/
theorem Runs.lookahead {p : Parser α} {t : α → Stage}
    (hp : ∀ m k, Runs c m s { v with count := k } p t M) :
    Runs c n s v (lookahead p) (fun _ => s) fun _ w => w = v := by
  intro hn st ha hv
  have hm : n ≤ st.tokens.size := Nat.le_trans hn hv.count
  have hrun := hp st.tokens.size st.tokens.size (Nat.le_refl _) st ha
    ⟨hv.cur, hv.after, Nat.le_refl _, hv.bare⟩
  refine (Results.lookahead hrun fun a st' ⟨hsteps, _⟩ => ?_).weaken (fun _ _ h => h)
    fun _ _ hkept => hkept.mono hm
  rw [(hsteps.kept (Nat.le_refl _)).restore_snapshot]
  exact ⟨.refl, v, hn, hv, rfl⟩

/-- A module declaration ends where brackets match again. -/
theorem Runs.settle {p : Parser α} {s : Stage} (hp : Runs c n s v p (fun _ => f.freed.plain) M) :
    Runs c n s v p (fun _ => f.plain) M := by
  intro hn st ha hv
  exact Results.weaken (hp hn st ha hv) (fun _ _ h => ⟨h.1.tail .settle, h.2⟩) fun _ _ h => h

end Moves

end Downlevel.Grammar
