import Downlevel.Grammar.Parse
import Mathlib.Logic.Relation

/-!
# The steps of a parse

A parse that goes through is a sequence of small steps: a token is finished,
the token ahead is marked or read again, finished tokens are annotated, scopes,
contexts and types are entered and left.  Nothing of a speculation that was
given up is among them.  `Step` lists the steps, and every invariant of a parse
is proved by looking at each of them once.

A step also carries a *stage*, which says what the grammar knows at that point
and a state does not show: the brackets that are open, and how the token ahead
came to be.  Two facts hold along every sequence of steps: the stage agrees
with the state (`Steps.agrees`), and tokens below the base of the sequence stay
as they are (`Steps.kept`).
-/

namespace Downlevel.Grammar

variable {x y : Stage × State} {c : Setting} {n : Nat} {kind : Kind} {st st' : State} {f f' : Frame}
  {mark : Mark} {ts : Array Token} {g : Token → Token}

/-! ## Programs -/

theorem State.exists_of_initial {source : Text} (h : State.initial source = .ok st) :
    ∃ token pos, Lexer.read .normal false source (Text.shebangSize source) = .ok token pos
      ∧ st = { pos, tokens := #[], cur := token, isType := false, depth := 0, nextContext := 1
               contexts := [] } := by
  unfold State.initial at h
  split at h
  · cases h
  · rename_i token pos hread
    cases h
    exact ⟨token, pos, hread, rfl⟩

theorem exists_program_of_parse {source : Text} {o : Options} {tokens : Array Token}
    (h : parse source o = .ok tokens) :
    ∃ st st', State.initial source = .ok st ∧ program (.ofOptions source o) st = .ok () st'
      ∧ st'.tokens = tokens := by
  unfold parse at h
  cases hinit : State.initial source with
  | error e => simp [hinit, bind, Except.bind] at h
  | ok st =>
    simp only [hinit, bind, Except.bind] at h
    split at h
    · rename_i st' hprogram
      exact ⟨st, st', rfl, hprogram, Except.ok.inj h⟩
    · cases h

/-! ## Brackets -/

/-- Something that is open at a place of a program, with its context. -/
inductive Bracket where
  | paren (context : Option Nat)
  | brace (context : Option Nat)
  /-- A class before the brace of its body. -/
  | head (context : Nat)
  /-- The body of a class. -/
  | body (context : Nat)
  deriving Repr, DecidableEq

/-- How a token stands to contexts. -/
inductive Mark where
  | none
  /-- The token is the first one of its context. -/
  | opening (id : Nat)
  /-- The token is in a context that is open already. -/
  | inside (id : Nat)
  deriving Repr, DecidableEq

namespace Mark

/-- The context of a mark. -/
def context : Mark → Option Nat
  | none => .none
  | opening id | inside id => some id

/-- What an opening bracket with this mark opens. -/
def opens : Mark → Option (Option Nat)
  | none => some .none
  | opening id => some (some id)
  | inside _ => .none

/-- What a closing bracket with this mark closes. -/
def closes : Mark → Option (Option Nat)
  | none => some .none
  | opening _ => .none
  | inside id => some (some id)

end Mark

/-- The brackets that are open after a token, if it can stand there. -/
def nest (open_ : List Bracket) (kind : Kind) (mark : Mark) : Option (List Bracket) :=
  match kind with
  | .parenL => mark.opens.map fun x => .paren x :: open_
  | .dollarBraceL => if mark = .none then some (.brace none :: open_) else none
  | .braceL =>
    match mark, open_ with
    | .inside id, .head id' :: rest => if id = id' then some (.body id :: rest) else none
    | _, _ => mark.opens.map fun x => .brace x :: open_
  | .parenR =>
    match open_ with
    | .paren x :: rest => if mark.closes = some x then some rest else none
    | _ => none
  | .braceR =>
    match open_ with
    | .brace x :: rest => if mark.closes = some x then some rest else none
    | .body id :: rest => if mark = .inside id then some rest else none
    | _ => none
  | kind =>
    match mark with
    | .none => some open_
    | .opening id => if kind = .kwClass then some (.head id :: open_) else none
    | .inside id => if open_.head? = some (.brace (some id)) then some open_ else none

/-- Kinds of tokens that neither open nor close anything by themselves. -/
def isNeutral (kind : Kind) : Bool :=
  !([.parenL, .parenR, .braceL, .braceR, .dollarBraceL].contains kind)

theorem nest_neutral {open_ : List Bracket} (h : isNeutral kind = true) :
    nest open_ kind .none = some open_ := by
  cases kind <;> first | rfl | simp [isNeutral] at h

/-! ## Stages -/

/-- What surrounds a place of a program. -/
structure Frame where
  brackets : List Bracket
  contexts : List Nat
  depth : Nat
  isType : Bool
  /-- An `import` or `export` was finished, after which brackets need not match. -/
  free : Bool
  deriving Repr, DecidableEq

/-- What the grammar knows at a place of a program. -/
structure Stage where
  frame : Frame
  /-- How the token ahead is marked. -/
  mark : Mark := .none
  /-- The token ahead was read inside a tag. -/
  inTag : Bool := false
  deriving Repr, DecidableEq

/-- The stage in front of a token of ordinary code. -/
def Frame.plain (f : Frame) : Stage :=
  { frame := f }

/-- The stage in front of a token that is read in a mode. -/
def Frame.after (f : Frame) (mode : Lexer.Mode) : Stage :=
  { frame := f, inTag := decide (mode = .tag) }

/-- A frame in which brackets need not match. -/
def Frame.IsLoose (f : Frame) : Prop :=
  f.isType = true ∨ f.free = true

/-- The frame inside a bracket that is opened. -/
def Frame.push (f : Frame) (bracket : Bracket) : Frame :=
  { f with brackets := bracket :: f.brackets }

/-- The frame inside a context that is opened. -/
def Frame.inContext (f : Frame) (id : Nat) : Frame :=
  { f with contexts := id :: f.contexts }

/-- The frame one function or class body deeper. -/
def Frame.deeper (f : Frame) : Frame :=
  { f with depth := f.depth + 1 }

/-- The frame inside a type. -/
def Frame.typed (f : Frame) : Frame :=
  { f with isType := true }

/-- The frame inside a module declaration. -/
def Frame.freed (f : Frame) : Frame :=
  { f with free := true }

/-- What finishing a token makes of the frame around it.  In types and in module
declarations nothing is asked of a token without a context. -/
inductive Passes (f : Frame) (kind : Kind) : Mark → Frame → Prop
  | nested {mark : Mark} {open_ : List Bracket} :
      nest f.brackets kind mark = some open_ → Passes f kind mark { f with brackets := open_ }
  | loose : f.IsLoose → Passes f kind .none f
  | freed : kind = .kwImport ∨ kind = .kwExport → Passes f kind .none f.freed

/-! ## Steps -/

/-- The token ahead as it is finished. -/
def State.finished (st : State) : Token :=
  { st.cur with isType := st.cur.isType || st.isType, depth := st.depth }

/-- The state after the token ahead is finished and the next one is read. -/
def State.finish (st : State) (token : Token) (pos : Nat) : State :=
  { st with pos, tokens := st.tokens.push st.finished, cur := token }

/-- Is this the key of a property of an object? -/
def IsKey (t : Token) : Prop :=
  t.kind = .string ∨ t.kind = .num ∨ t.kind = .bigInt
    ∨ t.kind.isNameLike = true ∧ (t.role = some .key ∨ t.role = some .shorthand)

/-- A token that differs in annotations that say nothing about its place.  What
has a context keeps its role too. -/
structure Annotates (t t' : Token) : Prop where
  kind : t'.kind = t.kind
  start : t'.start = t.start
  stop : t'.stop = t.stop
  context : t'.context = t.context
  newlineBefore : t'.newlineBefore = t.newlineBefore
  isType : t.isType = true → t'.isType = true
  role : t.context ≠ none → t'.role = t.role

theorem Annotates.refl (t : Token) : Annotates t t :=
  ⟨rfl, rfl, rfl, rfl, rfl, id, fun _ => rfl⟩

/-- The tokens of `us` are those of `ts`, with more annotations. -/
structure Reannotates (ts us : Array Token) : Prop where
  size : us.size = ts.size
  annotates : ∀ (i : Nat) (u : Token), us[i]? = some u → ∃ t, ts[i]? = some t ∧ Annotates t u

theorem Reannotates.modify {i : Nat}
    (hg : ∀ t, ts[i]? = some t → Annotates t (g t)) : Reannotates ts (ts.modify i g) := by
  refine ⟨Array.size_modify, fun j u hu => ?_⟩
  rw [Array.getElem?_modify] at hu
  split at hu
  · rename_i hij
    obtain ⟨t, ht, rfl⟩ := Option.map_eq_some_iff.mp hu
    exact ⟨t, ht, hg t (hij ▸ ht)⟩
  · exact ⟨u, hu, .refl u⟩

theorem Reannotates.mapIdx {i : Nat} (hg : ∀ j t, i ≤ j → ts[j]? = some t → Annotates t (g t)) :
    Reannotates ts (ts.mapIdx fun j t => if i ≤ j then g t else t) := by
  refine ⟨Array.size_mapIdx, fun j u hu => ?_⟩
  rw [Array.getElem?_mapIdx] at hu
  obtain ⟨t, ht, rfl⟩ := Option.map_eq_some_iff.mp hu
  refine ⟨t, ht, ?_⟩
  split
  · rename_i hij
    exact hg j t hij ht
  · exact .refl t

/-- One step of a parse.  Finished tokens below the base `n` are never touched. -/
inductive Step (c : Setting) (n : Nat) : Stage × State → Stage × State → Prop
  | finish {s : Stage} {f : Frame} {st : State} {mode : Lexer.Mode} {token : Token} {pos : Nat} :
      Lexer.read mode st.isType c.source st.pos = .ok token pos →
      (s.inTag = true → st.cur.kind ≠ .eof) →
      (∀ id, s.mark = .inside id → isNeutral st.cur.kind = true → IsKey st.cur) →
      Passes s.frame st.cur.kind s.mark f →
      Step c n (s, st) (f.after mode, st.finish token pos)
  | role {s : Stage} {st : State} (role : Option Role) :
      Step c n (s, st) (s, { st with cur := { st.cur with role } })
  | value {s : Stage} {st : State} (isExpression : Bool) :
      Step c n (s, st) (s, { st with cur := { st.cur with isExpression } })
  | inside {f : Frame} {st : State} (id : Nat) :
      Step c n (f.plain, st)
        ({ frame := f, mark := .inside id },
          { st with cur := { st.cur with context := some id } })
  | opening {f : Frame} {st : State} :
      Step c n (f.plain, st)
        ({ frame := f.inContext st.nextContext, mark := .opening st.nextContext },
          { st with
            cur := { st.cur with context := some st.nextContext }
            nextContext := st.nextContext + 1
            contexts := st.nextContext :: st.contexts })
  | closing {f : Frame} {st : State} (id : Nat) :
      Step c n ((f.inContext id).plain, st)
        ({ frame := f, mark := .inside id },
          { st with cur := { st.cur with context := some id }, contexts := f.contexts })
  | retag {s : Stage} {st : State} :
      st.cur.kind = .lessThan ∨ st.cur.kind = .jsxTagStart →
      Step c n (s, st) (s, { st with cur := { st.cur with kind := .jsxTagStart } })
  | regex {f : Frame} {st : State} {token : Token} {pos : Nat} :
      (st.cur.text c.source).head? = some '/' →
      Lexer.regex st.cur.start c.source st.pos = .ok token pos →
      Step c n (f.plain, st)
        (f.plain, { st with pos, cur := { token with newlineBefore := st.cur.newlineBefore } })
  | annotate {s : Stage} {st : State} {i : Nat} {g : Token → Token} :
      n ≤ i → (∀ t, st.tokens[i]? = some t → Annotates t (g t)) →
      Step c n (s, st) (s, { st with tokens := st.tokens.modify i g })
  | annotateFrom {s : Stage} {st : State} {i : Nat} {g : Token → Token} :
      n ≤ i → (∀ j t, i ≤ j → st.tokens[j]? = some t → Annotates t (g t)) →
      Step c n (s, st)
        (s, { st with tokens := st.tokens.mapIdx fun j t => if i ≤ j then g t else t })
  | enter {f : Frame} {st : State} :
      Step c n (f.plain, st) (f.deeper.plain, { st with depth := st.depth + 1 })
  | leave {f : Frame} {st : State} :
      Step c n (f.deeper.plain, st) (f.plain, { st with depth := st.depth - 1 })
  | setType {f : Frame} {st : State} (isType : Bool) :
      Step c n (f.plain, st) ({ f with isType : Frame }.plain, { st with isType })
  | settle {f : Frame} {st : State} :
      Step c n (f.freed.plain, st) (f.plain, st)

/-- Any number of steps. -/
abbrev Steps (c : Setting) (n : Nat) : Stage × State → Stage × State → Prop :=
  Relation.ReflTransGen (Step c n)

theorem Step.mono {m n : Nat} (h : Step c m x y) (hn : n ≤ m) : Step c n x y := by
  cases h with
  | finish hread htag hkey hp => exact .finish hread htag hkey hp
  | role r => exact .role r
  | value b => exact .value b
  | inside id => exact .inside id
  | opening => exact .opening
  | closing id => exact .closing id
  | retag hk => exact .retag hk
  | regex ht hread => exact .regex ht hread
  | annotate hi hg => exact .annotate (Nat.le_trans hn hi) hg
  | annotateFrom hi hg => exact .annotateFrom (Nat.le_trans hn hi) hg
  | enter => exact .enter
  | leave => exact .leave
  | setType b => exact .setType b
  | settle => exact .settle

/-- Steps with a base are steps with any lower base. -/
theorem Steps.mono {m n : Nat} (h : Steps c m x y) (hn : n ≤ m) : Steps c n x y := by
  induction h with
  | refl => exact .refl
  | tail _ hstep ih => exact ih.tail (hstep.mono hn)

/-! ## Stages agree with states -/

/-- What a stage says about a state. -/
structure Agrees (s : Stage) (st : State) : Prop where
  contexts : st.contexts = s.frame.contexts
  depth : st.depth = s.frame.depth
  isType : st.isType = s.frame.isType

theorem Passes.contexts (h : Passes f kind mark f') :
    f'.contexts = f.contexts := by
  cases h <;> rfl

theorem Passes.depth (h : Passes f kind mark f') :
    f'.depth = f.depth := by
  cases h <;> rfl

theorem Passes.isType (h : Passes f kind mark f') :
    f'.isType = f.isType := by
  cases h <;> rfl

theorem Step.agrees (h : Step c n x y) (ha : Agrees x.1 x.2) : Agrees y.1 y.2 := by
  obtain ⟨hc, hd, ht⟩ := ha
  cases h with
  | finish _ _ _ hp => exact ⟨hc.trans hp.contexts.symm, hd.trans hp.depth.symm, ht.trans hp.isType.symm⟩
  | opening => exact ⟨congrArg _ hc, hd, ht⟩
  | closing _ => exact ⟨rfl, hd, ht⟩
  | enter => exact ⟨hc, congrArg (· + 1) hd, ht⟩
  | leave => exact ⟨hc, congrArg (· - 1) hd, ht⟩
  | setType b => exact ⟨hc, hd, rfl⟩
  | _ => exact ⟨hc, hd, ht⟩

/-- A stage that agrees with a state does so after any number of steps. -/
theorem Steps.agrees (h : Steps c n x y) (ha : Agrees x.1 x.2) : Agrees y.1 y.2 := by
  induction h with
  | refl => exact ha
  | tail _ hstep ih => exact hstep.agrees ih

/-! ## Tokens below the base stay -/

/-- The first `n` finished tokens are the same, annotations included. -/
structure Kept (n : Nat) (st st' : State) : Prop where
  size : n ≤ st'.tokens.size
  same : ∀ i, i < n → st'.tokens[i]? = st.tokens[i]?

theorem Kept.refl {st : State} (h : n ≤ st.tokens.size) : Kept n st st :=
  ⟨h, fun _ _ => rfl⟩

theorem Kept.trans {st₁ st₂ st₃ : State} (h₁ : Kept n st₁ st₂) (h₂ : Kept n st₂ st₃) :
    Kept n st₁ st₃ :=
  ⟨h₂.size, fun i hi => (h₂.same i hi).trans (h₁.same i hi)⟩

theorem Kept.of_tokens_eq (h : n ≤ st.tokens.size) (heq : st'.tokens = st.tokens) : Kept n st st' :=
  ⟨heq ▸ h, fun _ _ => by rw [heq]⟩

theorem Kept.mono {m n : Nat} (h : Kept m st st') (hn : n ≤ m) :
    Kept n st st' :=
  ⟨Nat.le_trans hn h.size, fun i hi => h.same i (Nat.lt_of_lt_of_le hi hn)⟩

theorem Step.kept (h : Step c n x y) (hn : n ≤ x.2.tokens.size) : Kept n x.2 y.2 := by
  cases h with
  | finish _ _ _ _ =>
    simp only at hn
    refine ⟨by simp only [State.finish, Array.size_push]; omega, fun i hi => ?_⟩
    simp only [State.finish, Array.getElem?_push]
    rw [if_neg (by omega)]
  | annotate hi _ =>
    refine ⟨by simpa using hn, fun j hj => ?_⟩
    simp only [Array.getElem?_modify]
    rw [if_neg (by omega)]
  | annotateFrom hi _ =>
    refine ⟨by simpa using hn, fun j hj => ?_⟩
    simp only [Array.getElem?_mapIdx]
    rw [show (fun t => if _ ≤ j then _ else t) = id from funext fun t => if_neg (by omega)]
    simp
  | _ => exact Kept.of_tokens_eq hn rfl

/-- No sequence of steps touches a token below its base. -/
theorem Steps.kept (h : Steps c n x y) (hn : n ≤ x.2.tokens.size) : Kept n x.2 y.2 := by
  induction h with
  | refl => exact Kept.refl hn
  | tail _ hstep ih => exact ih.trans (hstep.kept ih.size)

/-- Coming back to a snapshot after a run that kept all tokens gives the state
that the snapshot was taken of. -/
theorem Kept.restore_snapshot (h : Kept st.tokens.size st st') :
    st'.restore st.snapshot = st := by
  have htokens : st'.tokens.take st.tokens.size = st.tokens := by
    refine Array.ext_getElem? fun i => ?_
    by_cases hi : i < st.tokens.size
    · have hsize : st.tokens.size ≤ st'.tokens.size := h.size
      rw [Array.take_eq_extract, Array.getElem?_extract, if_pos (by omega), Nat.zero_add]
      exact h.same i hi
    · rw [Array.getElem?_eq_none (by simp; omega), Array.getElem?_eq_none (by omega)]
  simp only [State.restore, State.snapshot, htokens]

end Downlevel.Grammar
