import Downlevel.Proofs.Edit.Program
import Downlevel.Proofs.Grammar.Statement
import Downlevel.Proofs.Lexer.Span

/-!
# Tokens and gaps make up the source

Along every parse the finished tokens stand in the source one after the other,
with gaps and nothing else between them, and the token ahead is the next one.
The next token is always read where the token ahead stops, so no character is
read twice or left out, whatever mode it is read in.
-/

namespace Downlevel.Grammar

open Lexer Character

variable {tokens : Array Token} {t : Token} {pos : Nat} {source : Text} {x y : Stage × State}

/-- The offset at which the gap before a token starts: where the token before it
stops, or behind a leading `#!` line. -/
def gapStart (source : Text) (tokens : Array Token) : Nat → Nat
  | 0 => Text.shebangSize source
  | i + 1 => tokens[i]?.elim 0 Token.stop

theorem gapStart_push {i : Nat} (h : i ≤ tokens.size) :
    gapStart source (tokens.push t) i = gapStart source tokens i := by
  cases i with
  | zero => rfl
  | succ i => rw [gapStart, gapStart, Array.getElem?_push, if_neg (by omega)]

theorem gapStart_push_size : gapStart source (tokens.push t) (tokens.size + 1) = t.stop := by
  rw [gapStart, Array.getElem?_push_size, Option.elim_some]

theorem Reannotates.gapStart_eq {ts us : Array Token} (h : Reannotates ts us)
    (i : Nat) : gapStart source us i = gapStart source ts i := by
  cases i with
  | zero => rfl
  | succ i =>
    rw [gapStart, gapStart]
    cases hu : us[i]? with
    | none =>
      have hi : ts.size ≤ i := h.size ▸ Array.getElem?_eq_none_iff.mp hu
      rw [Array.getElem?_eq_none hi]
    | some u =>
      obtain ⟨t, ht, hannotates⟩ := h.annotates i u hu
      rw [ht, Option.elim_some, Option.elim_some, hannotates.stop]

theorem placed_of_annotates {t u : Token} {exact : Prop} (ha : Annotates t u)
    (h : Placed source pos t exact) : Placed source pos u exact := by
  refine h.congr ha.start ha.stop ?_ ?_ fun he => ⟨he, ha.newlineBefore⟩
  · rw [ha.kind]
    exact id
  · rw [ha.kind]
    exact id

/-! ## What every step keeps -/

/-- The finished tokens and the token ahead stand one after the other, and the
next token is read behind them. -/
structure Tiles (source : Text) (inTag : Bool) (st : State) : Prop where
  finished : ∀ (i : Nat) (t : Token), st.tokens[i]? = some t →
    Placed source (gapStart source st.tokens i) t True
  ahead : Placed source (gapStart source st.tokens st.tokens.size) st.cur
    (inTag = true → st.cur.kind ≠ .eof)
  pos : st.pos = st.cur.stop

namespace Tiles

variable {source : Text} {inTag inTag' : Bool} {st st' : State}

/-- A step that leaves the finished tokens alone and the token ahead in its place. -/
theorem of_ahead (h : Tiles source inTag st) (htokens : st'.tokens = st.tokens)
    (hcur : Placed source (gapStart source st.tokens st.tokens.size) st'.cur
      (inTag' = true → st'.cur.kind ≠ .eof))
    (hpos : st'.pos = st'.cur.stop) : Tiles source inTag' st' :=
  ⟨htokens ▸ h.finished, htokens ▸ hcur, hpos⟩

/-- A step that only annotates the token ahead. -/
theorem of_annotates (h : Tiles source inTag st) (htokens : st'.tokens = st.tokens)
    (hpos : st'.pos = st.pos)
    (hcur : st'.cur =
      { st.cur with
        role := st'.cur.role, context := st'.cur.context, isExpression := st'.cur.isExpression }) :
    Tiles source inTag st' := by
  have hkind : st'.cur.kind = st.cur.kind := by rw [hcur]
  have hstop : st'.cur.stop = st.cur.stop := by rw [hcur]
  refine h.of_ahead htokens ?_ (by rw [hpos, h.pos, hstop])
  refine h.ahead.congr (by rw [hcur]) hstop ?_ ?_ fun he => ⟨?_, by rw [hcur]⟩
  · rw [hkind]
    exact id
  · rw [hkind]
    exact id
  · exact fun htag => hkind ▸ he htag

theorem reannotates {ts : Array Token} (h : Tiles source inTag st)
    (hr : Reannotates st.tokens ts) : Tiles source inTag { st with tokens := ts } := by
  refine ⟨fun i u hu => ?_, ?_, h.pos⟩
  · obtain ⟨t, ht, ha⟩ := hr.annotates i u hu
    rw [hr.gapStart_eq]
    exact placed_of_annotates ha (h.finished i t ht)
  · rw [hr.gapStart_eq, hr.size]
    exact h.ahead

/-- The token ahead is finished, and the next one is read where it stops. -/
theorem finish {mode : Mode} {token : Token} (h : Tiles source inTag st)
    (hread : read mode st.isType source st.pos = .ok token pos)
    (htag : inTag = true → st.cur.kind ≠ .eof) :
    Tiles source (decide (mode = .tag)) (st.finish token pos) := by
  have hboundary : Text.IsBoundary source st.pos := h.pos ▸ h.ahead.isBoundary_stop
  obtain ⟨hplaced, hstop⟩ := placed_of_read hboundary hread
  refine ⟨fun i t ht => ?_, ?_, hstop.symm⟩
  · simp only [State.finish, Array.getElem?_push] at ht ⊢
    split at ht
    · rename_i hi
      cases ht
      subst hi
      rw [gapStart_push (Nat.le_refl _)]
      exact h.ahead.congr rfl rfl id id fun _ => ⟨htag, rfl⟩
    · have hi : i < st.tokens.size := (Array.getElem?_eq_some_iff.mp ht).1
      rw [gapStart_push (Nat.le_of_lt hi)]
      exact h.finished i t ht
  · simp only [State.finish, Array.size_push, gapStart_push_size]
    rw [show st.finished.stop = st.pos from h.pos.symm]
    exact hplaced.congr rfl rfl id id fun he => ⟨fun hm => he (decide_eq_true hm), rfl⟩

end Tiles

theorem Step.tiles {c : Setting} {n : Nat} (h : Step c n x y)
    (ht : Tiles c.source x.1.inTag x.2) : Tiles c.source y.1.inTag y.2 := by
  cases h with
  | finish hread htag _ hp => exact ht.finish hread htag
  | role r => exact ht.of_annotates rfl rfl rfl
  | value b => exact ht.of_annotates rfl rfl rfl
  | inside id => exact ht.of_annotates rfl rfl rfl
  | opening => exact ht.of_annotates rfl rfl rfl
  | closing id => exact ht.of_annotates rfl rfl rfl
  | retag hkind =>
    refine ht.of_ahead rfl (ht.ahead.congr rfl rfl ?_ nofun fun _ => ⟨fun _ => ?_, rfl⟩) ht.pos
    · rcases hkind with hkind | hkind <;> simp [hkind]
    · rcases hkind with hkind | hkind <;> simp [hkind]
  | regex hslash hread =>
    obtain ⟨hplaced, hstop⟩ := ht.ahead.regex hslash hread
    exact ht.of_ahead rfl (hplaced.congr rfl rfl id id fun _ => ⟨nofun, rfl⟩) hstop.symm
  | annotate hi hg => exact ht.reannotates (.modify hg)
  | annotateFrom hi hg => exact ht.reannotates (.mapIdx hg)
  | enter => exact ⟨ht.finished, ht.ahead, ht.pos⟩
  | leave => exact ⟨ht.finished, ht.ahead, ht.pos⟩
  | setType b => exact ⟨ht.finished, ht.ahead, ht.pos⟩
  | settle => exact ht

theorem Steps.tiles {c : Setting} {n : Nat} (h : Steps c n x y)
    (ht : Tiles c.source x.1.inTag x.2) : Tiles c.source y.1.inTag y.2 := by
  induction h with
  | refl => exact ht
  | tail _ hstep ih => exact hstep.tiles ih

theorem tiles_initial {st : State} (h : State.initial source = .ok st) : Tiles source false st := by
  obtain ⟨token, pos, hread, rfl⟩ := State.exists_of_initial h
  obtain ⟨hplaced, hstop⟩ := placed_of_read (Text.isBoundary_shebangSize source) hread
  refine ⟨fun i t ht => ?_, hplaced.congr rfl rfl id id fun _ => ⟨nofun, rfl⟩, hstop.symm⟩
  simp at ht

/-- The tokens of a parse stand one after the other, and a gap is behind the last. -/
theorem placed_of_parse {o : Options} (h : parse source o = .ok tokens) :
    (∀ (i : Nat) (t : Token), tokens[i]? = some t → Placed source (gapStart source tokens i) t True)
    ∧ ∃ pre gap, source = pre ++ gap ∧ Text.size pre = gapStart source tokens tokens.size
      ∧ IsGap [] gap := by
  obtain ⟨st, st', hinit, rfl, heof, hsteps⟩ := steps_of_parse h
  have htiles : Tiles source false st' := hsteps.tiles (tiles_initial hinit)
  refine ⟨htiles.finished, ?_⟩
  obtain ⟨pre, gap, body, rest, hsource, hpre, -, -, hgap, -, hend, -⟩ := htiles.ahead
  have hnil : body ++ rest = [] := hend heof
  rw [hnil] at hsource hgap
  exact ⟨pre, gap, by simpa using hsource, hpre, hgap⟩

/-! ## Offsets -/

/-- The token lies in the source behind offset `pos`, with a gap and nothing else
in between.  Its offsets are between characters, it knows whether there is a line
terminator in the gap, and it is empty only in a template or at the end. -/
structure Follows (source : Text) (pos : Nat) (t : Token) : Prop where
  pos_le_start : pos ≤ t.start
  start_le_stop : t.start ≤ t.stop
  stop_le_size : t.stop ≤ Text.size source
  isBoundary_start : Text.IsBoundary source t.start
  isBoundary_stop : Text.IsBoundary source t.stop
  isGap : IsGap (Text.dropBytes source t.start) (Text.slice source pos t.start)
  newlineBefore : t.newlineBefore = true ↔
    ∃ c ∈ Text.slice source pos t.start, c ∈ ['\n', '\r', '\u2028', '\u2029']
  kind_of_empty : t.start = t.stop → t.kind = .template ∨ t.kind = .eof

theorem any_isLineTerminator {t : Text} :
    t.any isLineTerminator = true ↔ ∃ c ∈ t, c ∈ ['\n', '\r', '\u2028', '\u2029'] := by
  simp [isLineTerminator, or_assoc]

theorem follows_of_placed (h : Placed source pos t True) : Follows source pos t := by
  have hstop := h.isBoundary_stop
  obtain ⟨pre, gap, body, rest, rfl, rfl, hstart, he, hgap, hempty, -, hnl⟩ := h
  have hslice : Text.slice (pre ++ (gap ++ (body ++ rest))) (Text.size pre) t.start = gap := by
    rw [hstart, Text.slice_append]
  have hsource : pre ++ (gap ++ (body ++ rest)) = (pre ++ gap) ++ (body ++ rest) := by simp
  have hdrop : Text.dropBytes (pre ++ (gap ++ (body ++ rest))) t.start = body ++ rest := by
    rw [hstart, ← Text.size_append, hsource, Text.dropBytes_append]
  refine ⟨hstart ▸ Nat.le_add_right _ _, he ▸ Nat.le_add_right _ _, hstop.le, ?_, hstop, ?_, ?_, ?_⟩
  · exact ⟨pre ++ gap, body ++ rest, hsource, by rw [hstart, Text.size_append]⟩
  · rwa [hslice, hdrop]
  · rw [hslice, hnl trivial, any_isLineTerminator]
  · intro heq
    exact hempty (Text.eq_nil_of_size (by omega))

/-- The tokens take up the whole source behind a leading `#!` line, up to gaps. -/
structure Lossless (source : Text) (tokens : Array Token) : Prop where
  isBoundary : ∀ i, i ≤ tokens.size → Text.IsBoundary source (gapStart source tokens i)
  follows : ∀ (i : Nat) (t : Token), tokens[i]? = some t →
    Follows source (gapStart source tokens i) t
  isGap_last : IsGap [] (Text.dropBytes source (gapStart source tokens tokens.size))

/-- **Nothing of a source is lost.**  Every character behind a leading `#!` line
is part of exactly one token or of white space and complete comments between
tokens, and every token knows whether a line terminator comes before it. -/
theorem lossless_of_parse {source : Text} {o : Options} {tokens : Array Token}
    (h : parse source o = .ok tokens) : Lossless source tokens := by
  obtain ⟨hplaced, pre, gap, hsource, hpre, hgap⟩ := placed_of_parse h
  refine ⟨fun i hi => ?_, fun i t ht => follows_of_placed (hplaced i t ht), ?_⟩
  · rcases Nat.lt_or_eq_of_le hi with hlt | rfl
    · obtain ⟨pre, gap, body, rest, hsource, hpre, -⟩ :=
        hplaced i tokens[i] (Array.getElem?_eq_getElem hlt)
      exact ⟨pre, gap ++ (body ++ rest), hsource, hpre⟩
    · exact ⟨pre, gap, hsource, hpre⟩
  · rw [← hpre, hsource, Text.dropBytes_append]
    exact hgap

/-- The gap before a token as an edit of the program sees it. -/
theorem gapBefore_eq (i : Nat) :
    Program.gapBefore { source, tokens } i = Text.slice source (gapStart source tokens i)
      (tokens[i]?.elim (Text.size source) Token.start) := by
  unfold Program.gapBefore gapStart
  cases i with
  | zero => cases tokens[0]? <;> rfl
  | succ i =>
    dsimp only [Program.tokenAt]
    cases tokens[i]? <;> cases tokens[i + 1]? <;> rfl

/-- A program with a `#!` line, both kinds of comments, an empty template, a
regular expression and an element. -/
def gappySource : Text :=
  "#!x\n// α\na = ``\n/ /=b/ /*\n*/ + <c>\n</c> // d".toList

/-- It has sixteen tokens, and they and the gaps are all there is. -/
theorem lossless_gappySource :
    ∃ tokens, parse gappySource { transforms := [.jsx] } = .ok tokens ∧ tokens.size = 16
      ∧ Lossless gappySource tokens := by
  have hsize : (match parse gappySource { transforms := [.jsx] } with
      | .ok tokens => tokens.size
      | .error _ => 0) = 16 := by decide +kernel
  cases h : parse gappySource { transforms := [.jsx] } with
  | error e =>
    rw [h] at hsize
    cases hsize
  | ok tokens =>
    rw [h] at hsize
    exact ⟨tokens, rfl, hsize, lossless_of_parse h⟩

end Downlevel.Grammar
