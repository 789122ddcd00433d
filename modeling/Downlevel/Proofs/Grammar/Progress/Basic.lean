import Downlevel.Proofs.Grammar.Region
import Downlevel.Proofs.Lexer.Failure

/-!
# How a parser goes on

`Goes c R p st` says how running `p` in front of a token of the source ends: the state after it
is in front of a token again, which is a later one if the result is in `R`, or the source is at
fault at an offset between characters.  `Makes c W k kind R p` says so for every state in front
of a token of a kind, as long as there is room for rules below the weight `W` and the rank `k`;
it is put together from what the parts of `p` do, so most of it is found by instances.  Once a
token is finished, there is room for every rule.
-/

namespace Downlevel

/-- No result. -/
def Never {α : Type} (_ : α) : Prop := False

/-- Every result. -/
def Always {α : Type} (_ : α) : Prop := True

/-- The result of a rule that applied. -/
def Applied (b : Bool) : Prop := b = true

/-- The result of a round of a loop that is not the last. -/
def Again {σ : Type} : ForInStep σ → Prop
  | .done _ => False
  | .yield _ => True

namespace Grammar

open Grammar.Parser

variable {kinds : List Kind} {g : Token → Token} {i : Nat}

/-! ## Errors -/

/-- The error is a fault of the source at an offset between characters. -/
def Located (source : Text) (e : Error) : Prop :=
  ∃ failure : Failure, e = failure.toError source ∧ Text.IsBoundary source failure.offset

theorem Located.isFatal {source : Text} {e : Error} (h : Located source e) : e.isFatal = false := by
  obtain ⟨failure, rfl, -⟩ := h
  rfl

/-! ## States -/

/-- The token ahead and the offset after it stand between characters. -/
structure Aligned (c : Setting) (b : Nat) (st : State) : Prop where
  start : Text.IsBoundary c.source st.cur.start
  pos : Text.IsBoundary c.source st.pos
  le : st.cur.start ≤ st.pos
  bound : b ≤ st.cur.start

/-- What is open is the region and, where states are aligned with the source,
the token ahead starts at the bound or after it. -/
structure Stands (c : Setting) (A : Prop) (g : Region) (b : Nat) (st : State) : Prop where
  region : st.region = g
  aligned : A → Aligned c b st

/-- Only at the end of the source the token ahead has no characters. -/
def IsSolid (A : Prop) (st : State) : Prop :=
  A → st.cur.kind ≠ .eof → st.cur.start < st.pos

/-- A state in front of a token of the grammar. -/
structure Coherent (c : Setting) (A : Prop) (g : Region) (b : Nat) (st : State) : Prop
    extends Stands c A g b st where
  solid : IsSolid A st

/-- The state is in front of a token of the source. -/
def Ready (c : Setting) (st : State) : Prop :=
  Coherent c True st.region 0 st

section

variable {c : Setting} {st : State} {mode : Lexer.Mode} {token : Token} {pos : Nat}

theorem Aligned.start_le (h : Aligned c 0 st) : st.cur.start ≤ c.size := by
  rw [c.size_eq]
  exact h.start.le

theorem Ready.of_aligned (h : Aligned c 0 st) (hs : st.cur.kind ≠ .eof → st.cur.start < st.pos) :
    Ready c st :=
  ⟨⟨rfl, fun _ => h⟩, fun _ => hs⟩

theorem Ready.aligned (h : Ready c st) : Aligned c 0 st :=
  Stands.aligned (Coherent.toStands h) trivial

theorem Ready.start_lt (h : Ready c st) (hkind : st.cur.kind ≠ .eof) : st.cur.start < st.pos :=
  Coherent.solid h trivial hkind

/-- Nothing of this depends on the finished tokens or on what is open. -/
theorem Ready.congr {st' : State} (h : Ready c st) (hpos : st'.pos = st.pos)
    (hkind : st'.cur.kind = st.cur.kind) (hstart : st'.cur.start = st.cur.start) : Ready c st' := by
  obtain ⟨hs, hp, hle, -⟩ := h.aligned
  refine .of_aligned ⟨hstart ▸ hs, hpos ▸ hp, by rw [hstart, hpos]; exact hle, Nat.zero_le _⟩
    fun hne => ?_
  rw [hstart, hpos]
  exact h.start_lt (hkind ▸ hne)

/-- The token that is read stands after the one ahead. -/
theorem Aligned.finish (h : Aligned c 0 st)
    (hread : Lexer.read mode st.isType c.source st.pos = .ok token pos) :
    Aligned c 0 (st.finish token pos) ∧ st.pos ≤ token.start := by
  obtain ⟨hplaced, hstop⟩ := Lexer.placed_of_read h.pos hread
  exact ⟨⟨hplaced.isBoundary_start, hstop ▸ hplaced.isBoundary_stop, hstop ▸ hplaced.start_le,
    Nat.zero_le _⟩, hplaced.le_start⟩

/-- Only a chunk of a template has no characters before the end. -/
theorem Aligned.ready_finish (h : Aligned c 0 st) (hmode : mode ≠ .templateChunk)
    (hread : Lexer.read mode st.isType c.source st.pos = .ok token pos) :
    Ready c (st.finish token pos) := by
  obtain ⟨hplaced, hstop⟩ := Lexer.placed_of_read h.pos hread
  refine .of_aligned (h.finish hread).1 fun hkind => ?_
  exact Nat.lt_of_lt_of_eq (hplaced.start_lt (Lexer.kind_of_read hmode hread) hkind) hstop

theorem Aligned.located {failure : Failure} (h : Aligned c 0 st)
    (hread : Lexer.read mode st.isType c.source st.pos = .error failure pos) :
    Located c.source (failure.toError c.source) :=
  ⟨failure, rfl, Lexer.isBoundary_of_read_error h.pos hread⟩

end

/-! ## Going on -/

/-- The state is in front of a token that is not before the one ahead, and after it if `past`. -/
structure Onward (c : Setting) (st : State) (past : Prop) (st' : State) : Prop where
  ready : Ready c st'
  le : st.cur.start ≤ st'.cur.start
  lt : past → st.cur.start < st'.cur.start

/-- How running a parser ends: with `Q`, or the source is at fault unless something was closed
that is not open. -/
def Goes {α : Type} (c : Setting) (p : Parser α) (Q : α → State → Prop) (st : State) : Prop :=
  match p c st with
  | .ok a st' => Q a st'
  | .error e _ => isUnderflow e = false → Located c.source e

/-- At the offset `b` there is room below the weight `W` for rules whose rank is
less than `k`. -/
abbrev Room (c : Setting) (W k b : Nat) : Prop :=
  4 * c.size + k ≤ W + 4 * b

/-- The parser goes on wherever there is room for it in front of a token of this kind. -/
class Makes {α : Type} (c : Setting) (W k : Nat) (kind : Kind) (R : α → Prop) (p : Parser α) :
    Prop where
  goes : ∀ {st}, st.cur.kind = kind → Ready c st → Room c W k st.cur.start →
    Goes c p (fun a => Onward c st (R a)) st

section

variable {α β : Type} {c : Setting} {p : Parser α} {f : α → Parser β} {Q Q' : α → State → Prop}
  {M : β → State → Prop} {P P' : Prop} {st st' st'' : State} {mode : Lexer.Mode}

theorem Onward.refl (h : Ready c st) : Onward c st False st :=
  ⟨h, Nat.le_refl _, False.elim⟩

theorem Onward.trans (h : Onward c st P st') (h' : Onward c st' P' st'') {P'' : Prop}
    (hP : P'' → P ∨ P') : Onward c st P'' st'' := by
  refine ⟨h'.ready, Nat.le_trans h.le h'.le, fun hP'' => ?_⟩
  rcases hP hP'' with hP | hP'
  · exact Nat.lt_of_lt_of_le (h.lt hP) h'.le
  · exact Nat.lt_of_le_of_lt h.le (h'.lt hP')

theorem Goes.bind (hp : Goes c p Q st) (hf : ∀ a st', Q a st' → Goes c (f a) M st') :
    Goes c (p >>= f) M st :=
  Results.bind hp hf

theorem Goes.mono (hp : Goes c p Q st) (hQ : ∀ a st', Q a st' → Q' a st') : Goes c p Q' st :=
  Results.weaken hp hQ fun _ _ he => he

theorem Goes.ite {P : Prop} {inst : Decidable P} {q : Parser α} (hp : P → Goes c p Q st)
    (hq : ¬P → Goes c q Q st) : Goes c (@ite _ P inst p q) Q st := by
  split
  · rename_i h
    exact hp h
  · rename_i h
    exact hq h

theorem Goes.faultAt {fault : Fault} {offset : Nat} (h : Text.IsBoundary c.source offset) :
    Goes c (faultAt fault offset : Parser α) Q st :=
  fun _ => ⟨{ fault, offset }, rfl, h⟩

/-- Reading the next token in a mode. -/
theorem Aligned.goes_nextIn (h : Aligned c 0 st) :
    Goes c (nextIn mode) (fun _ st' => Aligned c 0 st' ∧ st.pos ≤ st'.cur.start
      ∧ (mode ≠ .templateChunk → Ready c st')) st := by
  unfold Goes
  rw [nextIn_apply]
  cases hread : Lexer.read mode st.isType c.source st.pos with
  | ok token pos => exact ⟨(h.finish hread).1, (h.finish hread).2, fun hmode => h.ready_finish hmode hread⟩
  | error failure pos => exact fun _ => h.located hread

theorem Aligned.goes_expectIn {kind : Kind} (h : Aligned c 0 st) :
    Goes c (expectIn kind mode) (fun _ st' => st.cur.kind = kind ∧ Aligned c 0 st'
      ∧ st.pos ≤ st'.cur.start ∧ (mode ≠ .templateChunk → Ready c st')) st := by
  change Goes c (if decide (st.cur.kind = kind) = true then nextIn mode
    else fault (.expectedKind kind)) _ st
  refine .ite (fun hkind => ?_) fun _ _ => ⟨_, rfl, h.start⟩
  exact h.goes_nextIn.mono fun _ _ h' => ⟨of_decide_eq_true hkind, h'⟩

/-- A loop comes to an end if every round that is not the last one finishes a token. -/
theorem Goes.loop {σ : Type} {step : σ → Parser (ForInStep σ)} {Q : σ → State → Prop} {x : σ}
    {I : State → Prop} (h : I st)
    (hstep : ∀ x st, I st → Goes c (step x) (fun r st' => match r with
      | .done y => Q y st'
      | .yield _ => I st' ∧ st.cur.start < st'.cur.start ∧ st'.cur.start ≤ c.size) st) :
    Goes c (loop x step) Q st := by
  refine Results.loop (I := fun _ => I) h fun x st hst => ?_
  refine Results.weaken (hstep x st hst) (fun r st' hround => ?_) fun _ _ he => he
  cases r with
  | done y => exact hround
  | yield y =>
    obtain ⟨hI, hlt, hle⟩ := hround
    refine ⟨hI, .inl ?_⟩
    unfold Setting.remaining
    omega

end

/-! ## What kinds say -/

/-- Is this not the kind of the end of the source? -/
@[reducible] def notEof : Kind → Bool
  | .eof => false
  | _ => true

/-- A token of this kind has characters. -/
class NotEof (kind : Kind) : Prop where
  ne : kind ≠ .eof

instance {kind : Kind} [h : IsTrue (notEof kind)] : NotEof kind where
  ne := by
    rintro rfl
    exact nomatch h.eq

/-- A kind of tokens that have characters. -/
structure SolidKind where
  kind : Kind
  ne : kind ≠ .eof

instance (s : SolidKind) : NotEof s.kind := ⟨s.ne⟩

/-- Tokens of these kinds have characters. -/
class NotEofs (kinds : List Kind) : Prop where
  ne : ∀ kind ∈ kinds, kind ≠ .eof

instance : NotEofs [] := ⟨nofun⟩

instance {kind : Kind} [h : NotEof kind] [h' : NotEofs kinds] :
    NotEofs (kind :: kinds) :=
  ⟨List.forall_mem_cons.mpr ⟨h.ne, h'.ne⟩⟩

/-- Is this not the mode in which a token can be empty? -/
@[reducible] def notChunk : Lexer.Mode → Bool
  | .templateChunk => false
  | _ => true

/-- A token that is read in this mode has characters. -/
class NotChunk (mode : Lexer.Mode) : Prop where
  ne : mode ≠ .templateChunk

instance {mode : Lexer.Mode} [h : IsTrue (notChunk mode)] : NotChunk mode where
  ne := by
    rintro rfl
    exact nomatch h.eq

/-- The condition says that it is not the end of the source. -/
class Bars (P : Prop) (kind : Kind) : Prop where
  ne : P → kind ≠ .eof

/-- Where the condition does not hold, it is not the end of the source. -/
class BarsNot (P : Prop) (kind : Kind) : Prop where
  ne : ¬P → kind ≠ .eof

section

variable {kind kind' : Kind} {P : Prop} {a b : Bool}

instance [h : Tells P kind kind'] [h' : NotEof kind'] : Bars P kind :=
  ⟨fun hP => h.eq hP ▸ h'.ne⟩

instance [h : Bars (a = true) kind] [h' : Bars (b = true) kind] : Bars ((a || b) = true) kind :=
  ⟨fun hP => (Bool.or_eq_true_iff.mp hP).elim h.ne h'.ne⟩

instance [h : NotEofs kinds] : Bars (kinds.contains kind = true) kind :=
  ⟨fun hP => h.ne kind (List.contains_iff_mem.mp hP)⟩

instance : BarsNot ((.eof :: kinds).contains kind = true) kind :=
  ⟨by rintro h rfl; exact h rfl⟩

instance : BarsNot ((decide (kind = .eof) || b) = true) kind :=
  ⟨by rintro h rfl; exact h rfl⟩

instance : Bars (kind.isNameLike = true) kind :=
  ⟨by rintro h rfl; exact absurd h (by decide)⟩

instance : Bars (kind.isBinaryOperator = true) kind :=
  ⟨by rintro h rfl; exact absurd h (by decide)⟩

end

/-- A parser that leaves the token ahead and the offset after it alone. -/
class Waits {α : Type} (p : Parser α) : Prop where
  waits : ∀ c st, match p c st with
    | .ok _ st' => st'.pos = st.pos ∧ st'.cur = st.cur
    | .error e _ => isUnderflow e = true

instance (priority := low) {α : Type} {p : Parser α} [Looks p] : Waits p where
  waits c st := by
    rw [Looks.apply_eq (p := p)]
    exact ⟨rfl, rfl⟩

instance : Waits (get : Parser State) := ⟨fun _ _ => ⟨rfl, rfl⟩⟩
instance : Waits tokenCount := ⟨fun _ _ => ⟨rfl, rfl⟩⟩
instance : Waits (textFrom i) := ⟨fun _ _ => ⟨rfl, rfl⟩⟩
instance : Waits (modifyToken i g) := ⟨fun _ _ => ⟨rfl, rfl⟩⟩
instance : Waits (modifyFrom i g) := ⟨fun _ _ => ⟨rfl, rfl⟩⟩
instance : Waits (markTypesFrom i) := ⟨fun _ _ => ⟨rfl, rfl⟩⟩
instance : Waits enterScope := ⟨fun _ _ => ⟨rfl, rfl⟩⟩
instance : Waits pushContext := ⟨fun _ _ => ⟨rfl, rfl⟩⟩

instance : Waits leaveScope where
  waits c st := by
    cases hdepth : st.depth with
    | zero =>
      have heq : leaveScope c st = .error (.invariant .scopeUnderflow) st := by
        change (match st.depth with | 0 => _ | depth + 1 => _ : Parser Unit) c st = _
        rw [hdepth]
        rfl
      rw [heq]
    | succ depth =>
      rw [leaveScope_apply hdepth]
      exact ⟨rfl, rfl⟩

instance : Waits popContext where
  waits c st := by
    cases hcontexts : st.contexts with
    | nil =>
      have heq : popContext c st = .ok none st := by
        change (match st.contexts with | [] => _ | id :: rest => _ : Parser (Option Nat)) c st = _
        rw [hcontexts]
        rfl
      rw [heq]
      exact ⟨rfl, rfl⟩
    | cons id rest =>
      rw [popContext_apply hcontexts]
      exact ⟨rfl, rfl⟩

/-- A change of a token that leaves its kind and its place alone. -/
class Retouches (g : Token → Token) : Prop where
  kind : ∀ t, (g t).kind = t.kind
  start : ∀ t, (g t).start = t.start

instance {stop depth : Token → Nat} {isType isExpression newlineBefore : Token → Bool}
    {role : Token → Option Role} {context rhsEnd : Token → Option Nat} :
    Retouches (fun t => ⟨t.kind, t.start, stop t, isType t, role t, context t, depth t,
      isExpression t, rhsEnd t, newlineBefore t⟩) where
  kind _ := rfl
  start _ := rfl

namespace Makes

section

variable {α β σ : Type} {c : Setting} {W k : Nat} {kind kind' : Kind} {R : α → Prop}
  {R' : β → Prop} {p q : Parser α} {f : α → Parser β} {P : Prop} {mode : Lexer.Mode}
  {step : σ → Parser (ForInStep σ)} {x : σ}

/-! ## Putting parts together -/

theorem bind_of {Q : State → α → State → Prop}
    (hp : ∀ {st}, st.cur.kind = kind → Ready c st → Room c W k st.cur.start → Goes c p (Q st) st)
    (hf : ∀ {st a st'}, st.cur.kind = kind → Room c W k st.cur.start → Q st a st' →
      Goes c (f a) (fun b => Onward c st (R' b)) st') : Makes c W k kind R' (p >>= f) where
  goes hkind hready hroom := (hp hkind hready hroom).bind fun _ _ h => hf hkind hroom h

/-- A part that leaves the token ahead alone, and what is known of its result. -/
theorem bind_look {Q : α → Prop} (hp : ∀ {st}, st.cur.kind = kind → Ready c st →
      Goes c p (fun a st' => (Q a ∧ Ready c st') ∧ st'.cur = st.cur) st)
    (hf : ∀ a, Q a → Makes c W k kind R' (f a)) : Makes c W k kind R' (p >>= f) :=
  bind_of (fun hkind hready _ => hp hkind hready) fun {st a st'} hkind hroom ⟨⟨hQ, hready⟩, hcur⟩ => by
    have hgoes := (hf a hQ).goes (hcur ▸ hkind) hready (hcur ▸ hroom)
    rwa [show Onward c st' = Onward c st by
      funext P st''
      exact propext ⟨fun h => ⟨h.ready, hcur ▸ h.le, fun hP => hcur ▸ h.lt hP⟩,
        fun h => ⟨h.ready, hcur ▸ h.le, fun hP => hcur ▸ h.lt hP⟩⟩] at hgoes

theorem bind_of_never [hp : Makes c W k kind Never p] (hf : ∀ a kind', Makes c W k kind' R' (f a)) :
    Makes c W k kind R' (p >>= f) :=
  bind_of hp.goes fun {_ a st'} _ hroom h =>
    ((hf a st'.cur.kind).goes rfl h.ready (by have := h.le; omega)).mono fun _ _ h' =>
      h.trans h' .inr

/-- One part after the other finishes a token if one of them does so. -/
instance bind [hp : Makes c W k kind Never p] [hf : ∀ a kind', Makes c W k kind' R' (f a)] :
    Makes c W k kind R' (p >>= f) :=
  bind_of_never hf

instance (priority := high) bind_passed [hp : Makes c W k kind Always p]
    [hf : ∀ a kind', Makes c W 4 kind' Never (f a)] : Makes c W k kind R' (p >>= f) :=
  bind_of hp.goes fun {_ a st'} _ hroom h =>
    ((hf a st'.cur.kind).goes rfl h.ready (by have := h.lt trivial; omega)).mono fun _ _ h' =>
      h.trans h' fun _ => .inl trivial

instance (priority := low) of_always [h : Makes c W k kind Always p] : Makes c W k kind Never p where
  goes hkind hready hroom :=
    (h.goes hkind hready hroom).mono fun _ _ h' => ⟨h'.ready, h'.le, False.elim⟩

instance (priority := high) {γ : Type} {R'' : γ → Prop} {g : β → Parser γ}
    [h : Makes c W k kind R'' (p >>= fun a => f a >>= g)] : Makes c W k kind R'' ((p >>= f) >>= g) := by
  rwa [bind_assoc]

instance (priority := high) {a : α} [h : Makes c W k kind R' (f a)] :
    Makes c W k kind R' ((pure a : Parser α) >>= f) := by
  rwa [pure_bind]

instance (priority := high) {inst : Decidable P}
    [h : Makes c W k kind R' (@ite _ P inst (p >>= f) (q >>= f))] :
    Makes c W k kind R' (@ite _ P inst p q >>= f) := by
  rwa [← apply_ite (· >>= f)] at h

instance (priority := high) {inst : Decidable P} [hP : Tells P kind kind']
    [hp : Makes c W k kind' R p] [hq : Makes c W k kind R q] :
    Makes c W k kind R (@ite _ P inst p q) where
  goes hkind hready hroom := .ite (fun h => hp.goes (hkind.trans (hP.eq h)) hready hroom)
    fun _ => hq.goes hkind hready hroom

instance {inst : Decidable P} [hP : Bars P kind]
    [hp : ∀ s : SolidKind, Makes c W k s.kind R p] [hq : Makes c W k kind R q] :
    Makes c W k kind R (@ite _ P inst p q) where
  goes hkind hready hroom := .ite (fun h => (hp ⟨kind, hP.ne h⟩).goes hkind hready hroom)
    fun _ => hq.goes hkind hready hroom

instance {inst : Decidable P} [hP : BarsNot P kind]
    [hp : Makes c W k kind R p] [hq : ∀ s : SolidKind, Makes c W k s.kind R q] :
    Makes c W k kind R (@ite _ P inst p q) where
  goes hkind hready hroom := .ite (fun _ => hp.goes hkind hready hroom)
    fun h => (hq ⟨kind, hP.ne h⟩).goes hkind hready hroom

instance (priority := low) {inst : Decidable P} [hp : Makes c W k kind R p]
    [hq : Makes c W k kind R q] : Makes c W k kind R (@ite _ P inst p q) where
  goes hkind hready hroom := .ite (fun _ => hp.goes hkind hready hroom)
    fun _ => hq.goes hkind hready hroom

instance (priority := high) {inst : Decidable (true = true)} [hp : Makes c W k kind R p] :
    Makes c W k kind R (@ite _ (true = true) inst p q) := by
  rwa [if_pos rfl]

instance (priority := high) {inst : Decidable (false = true)} [hq : Makes c W k kind R q] :
    Makes c W k kind R (@ite _ (false = true) inst p q) := by
  rwa [if_neg nofun]

/-! ## Looking -/

instance {a : α} : Makes c W k kind Never (pure a : Parser α) where
  goes _ hready _ := .refl hready

instance {s : σ} : Makes c W k kind Again (pure (.done s) : Parser (ForInStep σ)) where
  goes _ hready _ := ⟨hready, Nat.le_refl _, False.elim⟩

theorem goes_waits [h : Waits p] {st : State} (hready : Ready c st) :
    Goes c p (fun _ st' => (True ∧ Ready c st') ∧ st'.cur = st.cur) st := by
  have hwaits := h.waits c st
  unfold Goes
  cases hps : p c st with
  | error e st' =>
    rw [hps] at hwaits
    exact fun hnot => absurd (hwaits.symm.trans hnot) nofun
  | ok a st' =>
    rw [hps] at hwaits
    obtain ⟨hpos, hcur⟩ := hwaits
    exact ⟨⟨trivial, hready.congr hpos (by rw [hcur]) (by rw [hcur])⟩, hcur⟩

instance (priority := low) [Waits p] : Makes c W k kind Never p where
  goes _ hready _ := (goes_waits hready).mono fun _ _ ⟨⟨_, hready⟩, hcur⟩ =>
    ⟨hready, Nat.le_of_eq (by rw [hcur]), False.elim⟩

theorem after_waiting [Waits p] (hf : ∀ a, Makes c W k kind R' (f a)) :
    Makes c W k kind R' (p >>= f) :=
  bind_look (fun _ hready => goes_waits hready) fun a _ => hf a

instance (priority := 900) [Waits p] [hf : ∀ a, Makes c W k kind R' (f a)] :
    Makes c W k kind R' (p >>= f) :=
  after_waiting hf

instance {kind' : Kind} {f : Bool → Parser β} [hf : Makes c W k kind R' (f (decide (kind = kind')))] :
    Makes c W k kind R' (is kind' >>= f) :=
  bind_look (Q := fun b => b = decide (kind = kind'))
    (fun hkind hready => ⟨⟨by rw [← hkind], hready⟩, rfl⟩) fun _ h => h ▸ hf

instance {f : Bool → Parser β} [hf : Makes c W k kind R' (f (kinds.contains kind))] :
    Makes c W k kind R' (isOneOf kinds >>= f) :=
  bind_look (Q := fun b => b = kinds.contains kind)
    (fun hkind hready => ⟨⟨by rw [← hkind], hready⟩, rfl⟩) fun _ h => h ▸ hf

instance {word : String} {f : Bool → Parser β}
    [hf : ∀ b, Makes c W k kind R' (f (decide (kind = .name) && b))] :
    Makes c W k kind R' (isName word >>= f) :=
  bind_look (Q := fun x => ∃ b, x = (decide (kind = .name) && b))
    (fun hkind hready => ⟨⟨⟨_, by rw [← hkind]⟩, hready⟩, rfl⟩) fun _ ⟨b, h⟩ => h ▸ hf b

theorem after_isName {word : String} {f : Bool → Parser β} (htrue : Makes c W k .name R' (f true))
    (hfalse : Makes c W k kind R' (f false)) : Makes c W k kind R' (isName word >>= f) := by
  have : ∀ b, Makes c W k kind R' (f (decide (kind = .name) && b)) := fun b => by
    cases b with
    | false => rwa [Bool.and_false]
    | true =>
      rw [Bool.and_true]
      by_cases h : kind = .name
      · rwa [h]
      · rwa [decide_eq_false h]
  infer_instance

instance {words : List String} {f : Bool → Parser β}
    [hf : ∀ b, Makes c W k kind R' (f (decide (kind = .name) && b))] :
    Makes c W k kind R' (isNameOf words >>= f) :=
  bind_look (Q := fun x => ∃ b, x = (decide (kind = .name) && b))
    (fun hkind hready => ⟨⟨⟨_, by rw [← hkind]⟩, hready⟩, rfl⟩) fun _ ⟨b, h⟩ => h ▸ hf b

theorem after_cur {f : Token → Parser β} (hf : ∀ t : Token, Makes c W k t.kind R' (f t)) :
    Makes c W k kind R' (cur >>= f) :=
  bind_look (Q := fun t => t.kind = kind) (fun hkind hready => ⟨⟨hkind, hready⟩, rfl⟩)
    fun t h => h ▸ hf t

instance {f : Token → Parser β} [hf : ∀ t : Token, Makes c W k t.kind R' (f t)] :
    Makes c W k kind R' (cur >>= f) :=
  after_cur hf

theorem after_peek {f : Token → Parser β} (hf : ∀ t, Makes c W k kind R' (f t)) :
    Makes c W k kind R' (peek >>= f) := by
  refine bind_look (Q := fun _ => True) (fun {st} _ hready => ?_) fun t _ => hf t
  unfold Goes
  rw [peek_apply]
  cases hread : Lexer.next st.isType c.source st.pos with
  | ok t pos => exact ⟨⟨trivial, hready⟩, rfl⟩
  | error failure pos =>
    have hread : Lexer.read .normal st.isType c.source st.pos = _ := hread
    exact fun _ => hready.aligned.located hread

instance {f : Token → Parser β} [hf : ∀ t, Makes c W k kind R' (f t)] :
    Makes c W k kind R' (peek >>= f) :=
  after_peek hf

instance {f : Option Nat → Parser β} [hnone : Makes c W k kind R' (f none)]
    [hsome : ∀ id, Makes c W k kind R' (f (some id))] : Makes c W k kind R' (popContext >>= f) :=
  after_waiting fun o => by
    cases o with
    | none => exact hnone
    | some id => exact hsome id

/-! ## Named parts -/

instance (priority := low) {q : Parser α} [h : Unfolds p q] [hq : Makes c W k kind R q] :
    Makes c W k kind R p :=
  h.eq ▸ hq

instance (priority := high) {p q : Parser Bool} {f : Bool → Parser β} [h : Unfolds p q]
    [hq : Makes c W k kind R' (q >>= f)] : Makes c W k kind R' (p >>= f) :=
  h.eq ▸ hq

/-! ## Failing -/

instance {f : Fault} : Makes c W k kind R (fault f : Parser α) where
  goes _ hready _ _ := ⟨_, rfl, hready.aligned.start⟩

instance {b : Breach} [h : IsTrue (isUnderflow (.invariant b))] :
    Makes c W k kind R (throw (.invariant b) : Parser α) where
  goes _ _ _ hnot := absurd (h.eq.symm.trans hnot) nofun

/-! ## Finishing tokens -/

instance [hmode : NotChunk mode] [h : NotEof kind] : Makes c W k kind Always (nextIn mode) where
  goes hkind hready _ := hready.aligned.goes_nextIn.mono fun _ _ ⟨_, hle, hready'⟩ =>
    have hlt := Nat.lt_of_lt_of_le (hready.start_lt (hkind ▸ h.ne)) hle
    ⟨hready' hmode.ne, Nat.le_of_lt hlt, fun _ => hlt⟩

instance (priority := low) [hmode : NotChunk mode] : Makes c W k kind Never (nextIn mode) where
  goes _ hready _ := hready.aligned.goes_nextIn.mono fun _ _ ⟨_, hle, hready'⟩ =>
    ⟨hready' hmode.ne, Nat.le_trans hready.aligned.le hle, False.elim⟩

/-- The token ahead can be annotated. -/
instance modified [hg : Retouches g] {f : Unit → Parser β} [hf : Makes c W k kind R' (f ())] :
    Makes c W k kind R' (modifyCur g >>= f) :=
  bind_of (Q := fun st _ st' => st' = { st with cur := g st.cur } ∧ Ready c st')
    (fun {st} _ hready _ => ⟨rfl, hready.congr rfl (hg.kind st.cur) (hg.start st.cur)⟩)
    fun {st _ st'} hkind hroom ⟨heq, hready⟩ => by
      have hstart : st'.cur.start = st.cur.start := by rw [heq]; exact hg.start st.cur
      have hgoes := @hf.goes st' (by rw [heq]; exact (hg.kind st.cur).trans hkind) hready
        (hstart ▸ hroom)
      exact hgoes.mono fun _ _ h => ⟨h.ready, hstart ▸ h.le, fun hb => hstart ▸ h.lt hb⟩

instance {id : Nat} {f : Unit → Parser β} [Makes c W k kind R' (f ())] :
    Makes c W k kind R' (stamp id >>= f) := by
  unfold stamp
  infer_instance

/-! ## Trying -/

/-- A part that finishes a token just if its result says so, and else leaves the token ahead. -/
class Tries (c : Setting) (W k : Nat) (kind : Kind) (p : Parser Bool) : Prop where
  goes : ∀ {st}, st.cur.kind = kind → Ready c st → Room c W k st.cur.start →
    Goes c p (fun b st' => Onward c st (b = true) st' ∧ (b = false → st'.cur = st.cur)) st

instance (priority := high) {p : Parser Bool} {f : Bool → Parser β} [hp : Tries c W k kind p]
    [htrue : ∀ kind', Makes c W 4 kind' Never (f true)] [hfalse : Makes c W k kind R' (f false)] :
    Makes c W k kind R' (p >>= f) :=
  bind_of hp.goes fun {st b st'} hkind hroom ⟨h, hcur⟩ => by
    cases b with
    | true =>
      refine ((htrue st'.cur.kind).goes rfl h.ready (by have := h.lt rfl; omega)).mono fun _ _ h' => ?_
      exact h.trans h' fun _ => .inl rfl
    | false =>
      have hcur := hcur rfl
      exact (hfalse.goes (hcur ▸ hkind) h.ready (hcur ▸ hroom)).mono fun _ _ h' => h.trans h' .inr

instance {p : Parser Bool} [h : Tries c W k kind p] : Makes c W k kind Applied p where
  goes hkind hready hroom := (h.goes hkind hready hroom).mono fun _ _ h' => h'.1

instance (priority := low) {p : Parser Bool} [h : Tries c W k kind p] : Makes c W k kind Never p where
  goes hkind hready hroom :=
    (h.goes hkind hready hroom).mono fun _ _ h' => ⟨h'.1.ready, h'.1.le, False.elim⟩

instance [h : NotEof kind'] : Tries c W k kind (eat kind') where
  goes {st} hkind hready hroom := by
    have hnext : Makes c W k kind' Always next := inferInstance
    change Goes c (if decide (st.cur.kind = kind') = true then next >>= fun _ => pure true
      else pure false) _ st
    refine .ite (fun hseen => ?_) fun _ => ⟨⟨hready, Nat.le_refl _, nofun⟩, fun _ => rfl⟩
    refine (hnext.goes (of_decide_eq_true hseen) hready hroom).bind fun _ st' h' => ?_
    exact ⟨⟨h'.ready, h'.le, fun _ => h'.lt trivial⟩, nofun⟩

instance {p : Parser Unit} [hp : Makes c W k kind Always p] : Tries c W k kind (attempt p) where
  goes {st} hkind hready hroom := by
    refine Results.attempt (hp.goes hkind hready hroom) (fun st' h => ?_) (fun _ _ _ => ?_)
      fun _ _ he => he
    · exact ⟨⟨h.ready, h.le, fun _ => h.lt trivial⟩, nofun⟩
    · exact ⟨⟨hready.congr rfl rfl rfl, Nat.le_refl _, nofun⟩, fun _ => rfl⟩

instance {p : Parser α} [hp : Makes c W k kind Never p] [hf : ∀ a, Makes c W k kind R' (f a)] :
    Makes c W k kind R' (lookahead p >>= f) := by
  refine bind_of (Q := fun st _ st' => st'.cur = st.cur ∧ Ready c st')
    (fun {st} hkind hready hroom => Results.lookahead (hp.goes hkind hready hroom) fun _ _ _ =>
      ⟨rfl, hready.congr rfl rfl rfl⟩) ?_
  intro st a st' hkind hroom ⟨hcur, hready⟩
  refine ((hf a).goes (hcur ▸ hkind) hready (hcur ▸ hroom)).mono fun _ _ h => ?_
  exact ⟨h.ready, hcur ▸ h.le, fun hb => hcur ▸ h.lt hb⟩

instance [hp : Makes c W k kind R p] : Makes c W k kind R (inType p) where
  goes {st} hkind hready hroom :=
    Results.inType (@hp.goes { st with isType := true } hkind (hready.congr rfl rfl rfl) hroom)
      (fun _ _ h => ⟨h.ready.congr rfl rfl rfl, h.le, h.lt⟩) fun _ _ he => he

instance [Makes c W k kind Never p] : Makes c W k kind Never (discard p) := by
  rw [Parser.discard_eq]
  infer_instance

instance [Makes c W k kind Always p] : Makes c W k kind Always (discard p) := by
  rw [Parser.discard_eq]
  infer_instance

/-! ## Repetition -/

/-- A loop comes to an end if every round that is not the last one finishes a token.  It finishes
one itself if the last round does so, too. -/
theorem of_rounds {S : ForInStep σ → Prop} {R : σ → Prop}
    (hS : ∀ x, S (.yield x)) (hR : ∀ x, R x → S (.done x))
    (hstep : ∀ x kind', Makes c W k kind' S (step x)) : Makes c W k kind R (loop x step) where
  goes {st} _ hready hroom := by
    refine Goes.loop (I := fun st' => Onward c st False st') (.refl hready) fun x st' h => ?_
    refine ((hstep x st'.cur.kind).goes rfl h.ready (by have := h.le; omega)).mono fun r st'' h' => ?_
    cases r with
    | done y => exact h.trans h' fun hy => .inr (hR y hy)
    | yield y => exact ⟨h.trans h' False.elim, h'.lt (hS y), h'.ready.aligned.start_le⟩

theorem rounds
    (hstep : ∀ x kind', Makes c W k kind' Again (step x)) : Makes c W k kind Never (loop x step) :=
  of_rounds (fun _ => trivial) (fun _ => id) hstep

instance [hstep : ∀ x kind', Makes c W k kind' Again (step x)] :
    Makes c W k kind Never (loop x step) :=
  rounds hstep

instance [hstep : ∀ x kind', Makes c W k kind' Always (step x)] :
    Makes c W k kind Always (loop x step) :=
  of_rounds (fun _ => trivial) (fun _ => id) hstep

instance {condition : Parser Bool} {body : Parser Unit}
    [∀ kind', Makes c W k kind' Again (do
      if ← condition then
        body
        return .yield ()
      else return .done ())] : Makes c W k kind Never (repeatWhile condition body) := by
  unfold repeatWhile
  infer_instance

end

end Makes

end Grammar

end Downlevel
