import Downlevel.Proofs.Edit.Program
import Downlevel.Proofs.Grammar.Invariant.Element
import Downlevel.Proofs.Lexer.Kinds
import Mathlib.Data.List.Induction

/-!
# Syntax that is not enabled

Without JSX no token of an element is read.  Without a type system no token becomes part of a
type, with one exception: behind the name `async` a list in angle brackets is taken for type
parameters without asking whether there can be any.
-/

set_option synthInstance.maxSize 1000000000

namespace Downlevel

variable {source : Text} {ts : Array Token} {t : Token}

namespace Program

open Grammar (Relabels)

/-- The token of index `i` belongs to the type parameters behind the `async` of index `j`. -/
structure InAsyncHead (p : Program) (j i : Nat) : Prop where
  name : p.isNameAt j "async".toList = true
  value : p.isTypeAt j = false
  bracket : p.kindAt (j + 1) = .lessThan
  lt : j < i
  types : ∀ k, j < k → k ≤ i → p.isTypeAt k = true

theorem tokenAt_push_of_lt {k : Nat} (hk : k < ts.size) :
    tokenAt ⟨source, ts.push t⟩ k = tokenAt ⟨source, ts⟩ k := by
  simp [tokenAt, Array.getElem?_push, Nat.ne_of_lt hk]

theorem tokenAt_push_size :
    tokenAt ⟨source, ts.push t⟩ ts.size = t := by
  simp [tokenAt]

/-- Whether a token belongs to such type parameters is seen from the tokens up to it. -/
theorem InAsyncHead.congr {ts us : Array Token} {j i : Nat} (h : InAsyncHead ⟨source, ts⟩ j i)
    (heq : ∀ k ≤ i, Relabels (tokenAt ⟨source, ts⟩ k) (tokenAt ⟨source, us⟩ k)) :
    InAsyncHead ⟨source, us⟩ j i := by
  have hlt := h.lt
  have hkind {k : Nat} (hk : k ≤ i) :
      kindAt ⟨source, us⟩ k = kindAt ⟨source, ts⟩ k := (heq k hk).kind
  have htype {k : Nat} (hk : k ≤ i) :
      isTypeAt ⟨source, us⟩ k = isTypeAt ⟨source, ts⟩ k := (heq k hk).isType
  have htext {k : Nat} (hk : k ≤ i) :
      textAt ⟨source, us⟩ k = textAt ⟨source, ts⟩ k := by
    unfold textAt Token.text
    rw [(heq k hk).kind, (heq k hk).start, (heq k hk).stop]
  constructor
  · have hname := h.name
    rwa [isNameAt, ← hkind (Nat.le_of_lt hlt), ← htext (Nat.le_of_lt hlt)] at hname
  · exact (htype (Nat.le_of_lt hlt)).trans h.value
  · exact (hkind hlt).trans h.bracket
  · exact hlt
  · exact fun k hjk hki => (htype hki).trans (h.types k hjk hki)

/-- A token in front of which a program is as it was. -/
theorem InAsyncHead.push {j i : Nat} (h : InAsyncHead ⟨source, ts⟩ j i) (hi : i < ts.size) :
    InAsyncHead ⟨source, ts.push t⟩ j i := by
  refine h.congr fun k hk => ?_
  rw [tokenAt_push_of_lt (Nat.lt_of_le_of_lt hk hi)]
  exact Relabels.refl _

/-- One more token belongs to the type parameters that the last one belongs to. -/
theorem InAsyncHead.extend {j : Nat} (h : InAsyncHead ⟨source, ts⟩ j (ts.size - 1))
    (ht : t.isType = true) :
    InAsyncHead ⟨source, ts.push t⟩ j ts.size := by
  have hlt := h.lt
  have hpush := h.push (t := t) (by omega)
  refine ⟨hpush.name, hpush.value, hpush.bracket, by omega, fun k hjk hk => ?_⟩
  by_cases heq : k = ts.size
  · rw [heq, isTypeAt, tokenAt_push_size]
    exact ht
  · exact hpush.types k hjk (by omega)

end Program

namespace Grammar

open Grammar.Parser

variable {st st' : State} {mode : Lexer.Mode} {o : Options} {R : Token → Token → Prop} {c : Setting}

/-! ## Elements -/

/-- No token is one of an element. -/
structure Unmarked (st : State) : Prop where
  finished : ∀ {i : Nat} {t : Token}, st.tokens[i]? = some t → t.kind.isMarkup = false
  ahead : st.cur.kind.isMarkup = false

theorem Unmarked.pointwise (hR : ∀ {t u}, R t u → u.kind = t.kind)
    {st : State} {us : Array Token} (h : Pointwise R st.tokens us) (hst : Unmarked st) :
    Unmarked { st with tokens := us } := by
  refine ⟨fun {i u} hu => ?_, hst.ahead⟩
  obtain ⟨t, ht, htu⟩ := h.related i u hu
  rw [hR htu]
  exact hst.finished ht

instance : Invariant c Unmarked where
  finish htag hchild hread hst := by
    refine ⟨fun {i t} ht => ?_, Lexer.isMarkup_of_read htag hchild hread⟩
    rw [State.finish, Array.getElem?_push] at ht
    split at ht
    · cases ht
      exact hst.ahead
    · exact hst.finished ht
  regex hread hst := by
    obtain ⟨-, -, -, rfl⟩ := Lexer.exists_of_regex hread
    exact ⟨hst.finished, rfl⟩
  role _ _ hst := ⟨hst.finished, hst.ahead⟩
  context _ _ hst := ⟨hst.finished, hst.ahead⟩
  surround _ _ _ hst := ⟨hst.finished, hst.ahead⟩
  relabel h hst := hst.pointwise (fun h => h.kind) h

instance {A : Prop} : AllowsTypes c A Unmarked where
  enterType _ hst := ⟨hst.finished, hst.ahead⟩
  leaveType _ _ hst := ⟨hst.finished, hst.ahead⟩
  retype _ h hst := hst.pointwise (fun h => h.kind) h

/-- Without JSX the grammar never gets to an element. -/
theorem unmarked_of_run (hjsx : c.jsx = false) (rule : Rule) (st : State) :
    (∀ mode, rule ≠ .element mode) → Unmarked st →
      ∀ st', run rule c st = .ok () st' → Unmarked st' := by
  refine run_induction (P := fun rule st result => (∀ mode, rule ≠ .element mode) → Unmarked st →
    ∀ st', result = .ok () st' → Unmarked st') (fun rule st _ _ st' hok => ?_)
    (fun call hcalls ih rule st hrule hst st' hok => ?_) rule st
  · cases hok
  · have hc : RulesMaintain c Unmarked call :=
      ⟨hcalls, fun r hr => ⟨fun _ st _ st' hst hok => ih r st hr hst st' hok⟩⟩
    have helement : ElementMaintains c Unmarked call :=
      ⟨fun h => absurd (hjsx.symm.trans h) Bool.false_ne_true⟩
    exact (maintains_define hrule).of_ok trivial hst hok

theorem unmarked_initial {st : State} (h : State.initial source = .ok st) :
    Unmarked st := by
  obtain ⟨token, pos, hread, rfl⟩ := State.exists_of_initial h
  have hnormal : token.kind.isMarkup = false :=
    Lexer.isMarkup_of_read (by decide : Lexer.Mode.normal ≠ .tag) (by decide) hread
  exact ⟨by simp, hnormal⟩

theorem isMarkup_of_parse {tokens : Array Token} (hjsx : o.has .jsx = false)
    (h : parse source o = .ok tokens) {i : Nat} (ht : tokens[i]? = some t) :
    t.kind.isMarkup = false := by
  obtain ⟨st, hst, rfl⟩ := exists_of_parse
    ⟨fun _ st _ st' hst hok => unmarked_of_run hjsx .statement st (by simp) hst st' hok⟩
    (fun _ => unmarked_initial) h
  exact hst.finished ht

/-! ## Types -/

theorem Pointwise.tokenAt (hR : R Program.pastEnd Program.pastEnd)
    {ts us : Array Token} (h : Pointwise R ts us) (k : Nat) :
    R (Program.tokenAt ⟨source, ts⟩ k) (Program.tokenAt ⟨source, us⟩ k) := by
  by_cases hk : k < us.size
  · obtain ⟨t, ht, htu⟩ := h.related k us[k] (Array.getElem?_eq_getElem hk)
    simpa [Program.tokenAt, ht, Array.getElem?_eq_getElem hk] using htu
  · have hts : ts.size ≤ k := h.size ▸ Nat.le_of_not_lt hk
    simpa [Program.tokenAt, Array.getElem?_eq_none hts, Array.getElem?_eq_none (Nat.le_of_not_lt hk)]
      using hR

/-- Every token of a type belongs to the type parameters behind an `async`. -/
def OnlyAsyncHeads (source : Text) (ts : Array Token) : Prop :=
  ∀ i, Program.isTypeAt ⟨source, ts⟩ i = true → ∃ j, Program.InAsyncHead ⟨source, ts⟩ j i

theorem OnlyAsyncHeads.relabel {ts us : Array Token} (h : OnlyAsyncHeads source ts)
    (hus : Pointwise Relabels ts us) : OnlyAsyncHeads source us := by
  intro i hi
  have hrel (k : Nat) : Relabels (Program.tokenAt ⟨source, ts⟩ k) (Program.tokenAt ⟨source, us⟩ k) :=
    hus.tokenAt (Relabels.refl _) k
  obtain ⟨j, hj⟩ := h i ((hrel i).isType.symm.trans hi)
  exact ⟨j, hj.congr fun k _ => hrel k⟩

/-- A new token of a type has to be in type parameters. -/
theorem OnlyAsyncHeads.push (h : OnlyAsyncHeads source ts)
    (ht : t.isType = true → ∃ j, Program.InAsyncHead ⟨source, ts.push t⟩ j ts.size) :
    OnlyAsyncHeads source (ts.push t) := by
  intro i hi
  have hcount : i < (ts.push t).size := Program.lt_count_of_isTypeAt hi
  rw [Array.size_push] at hcount
  by_cases heq : i = ts.size
  · rw [heq, Program.isTypeAt, Program.tokenAt_push_size] at hi
    rw [heq]
    exact ht hi
  · have hlt : i < ts.size := by omega
    rw [Program.isTypeAt, Program.tokenAt_push_of_lt hlt] at hi
    obtain ⟨j, hj⟩ := h i hi
    exact ⟨j, hj.push hlt⟩

/-- The parse is in code that has no types. -/
structure Untyped (c : Setting) (st : State) : Prop where
  outside : st.isType = false
  ahead : st.cur.isType = false
  heads : OnlyAsyncHeads c.source st.tokens

/-- The parse is in the type parameters behind an `async`. -/
structure InHead (c : Setting) (st : State) : Prop where
  inside : st.isType = true
  ahead : st.cur.isType = false
  heads : OnlyAsyncHeads c.source st.tokens
  last : ∃ j, Program.InAsyncHead ⟨c.source, st.tokens⟩ j (st.tokens.size - 1)

theorem isType_of_read {inType : Bool} {pos stop : Nat}
    (h : Lexer.read mode inType source pos = .ok t stop) : t.isType = false := by
  obtain ⟨kind, start, newlineBefore, rfl⟩ := Lexer.exists_of_read h
  rfl

variable {c : Setting} {call : Reference}

theorem Untyped.isType_finished {st : State} (hst : Untyped c st) : st.finished.isType = false := by
  show (st.cur.isType || st.isType) = false
  rw [hst.ahead, hst.outside]
  rfl

theorem Untyped.finish {st : State} {pos : Nat}
    (hread : Lexer.read mode st.isType c.source st.pos = .ok t pos) (hst : Untyped c st) :
    Untyped c (st.finish t pos) := by
  refine ⟨hst.outside, isType_of_read hread, hst.heads.push fun ht => ?_⟩
  exact absurd (hst.isType_finished.symm.trans ht) Bool.false_ne_true

instance : TagInvariant c (Untyped c) where
  finish _ _ hread hst := hst.finish hread
  finishIn _ hread hst := hst.finish hread
  regex hread hst := by
    obtain ⟨-, -, -, rfl⟩ := Lexer.exists_of_regex hread
    exact ⟨hst.outside, rfl, hst.heads⟩
  role _ _ hst := ⟨hst.outside, hst.ahead, hst.heads⟩
  context _ _ hst := ⟨hst.outside, hst.ahead, hst.heads⟩
  surround _ _ _ hst := ⟨hst.outside, hst.ahead, hst.heads⟩
  relabel h hst := ⟨hst.outside, hst.ahead, hst.heads.relabel h⟩
  openElement _ hst := ⟨hst.outside, hst.ahead, hst.heads⟩

instance : Invariant c (InHead c) where
  finish {st mode t pos} _ _ hread hst := by
    obtain ⟨j, hj⟩ := hst.last
    have htype : (st.cur.isType || st.isType) = true := by rw [hst.inside, Bool.or_true]
    refine ⟨hst.inside, isType_of_read hread, hst.heads.push fun _ => ⟨j, hj.extend htype⟩, j, ?_⟩
    rw [State.finish, Array.size_push, Nat.add_sub_cancel]
    exact hj.extend htype
  regex hread hst := by
    obtain ⟨-, -, -, rfl⟩ := Lexer.exists_of_regex hread
    exact ⟨hst.inside, rfl, hst.heads, hst.last⟩
  role _ _ hst := ⟨hst.inside, hst.ahead, hst.heads, hst.last⟩
  context _ _ hst := ⟨hst.inside, hst.ahead, hst.heads, hst.last⟩
  surround _ _ _ hst := ⟨hst.inside, hst.ahead, hst.heads, hst.last⟩
  relabel {st us} h hst := by
    obtain ⟨j, hj⟩ := hst.last
    refine ⟨hst.inside, hst.ahead, hst.heads.relabel h, j, ?_⟩
    rw [h.size]
    exact hj.congr fun k _ => h.tokenAt (Relabels.refl _) k

/-! ### The head of an asynchronous arrow function -/

theorem exists_of_nextIn {a : Unit} (h : nextIn mode c st = .ok a st') :
    ∃ t pos, Lexer.read mode st.isType c.source st.pos = .ok t pos ∧ st' = st.finish t pos := by
  rw [nextIn_apply] at h
  cases hread : Lexer.read mode st.isType c.source st.pos with
  | error failure pos => simp [hread] at h
  | ok t pos =>
    rw [hread] at h
    exact ⟨t, pos, rfl, (EStateM.Result.ok.inj h).2.symm⟩

/-- The bracket behind an `async` is the first token of its type parameters. -/
theorem inAsyncHead_push_push {name bracket : Token} (hkind : name.kind = .name)
    (htext : name.text source = "async".toList) (hvalue : name.isType = false)
    (hbracket : bracket.kind = .lessThan) (htype : bracket.isType = true) :
    Program.InAsyncHead ⟨source, (ts.push name).push bracket⟩ ts.size (ts.size + 1) := by
  have hsize : (ts.push name).size = ts.size + 1 := Array.size_push _
  have hname : Program.tokenAt ⟨source, (ts.push name).push bracket⟩ ts.size = name := by
    rw [Program.tokenAt_push_of_lt (by omega), Program.tokenAt_push_size]
  have hlast : Program.tokenAt ⟨source, (ts.push name).push bracket⟩ (ts.size + 1) = bracket := by
    rw [← hsize, Program.tokenAt_push_size]
  refine ⟨?_, ?_, ?_, Nat.lt_succ_self _, fun k hlt hle => ?_⟩
  · simp [Program.isNameAt, Program.kindAt, Program.textAt, hname, hkind, htext]
  · rw [Program.isTypeAt, hname, hvalue]
  · rw [Program.kindAt, hlast, hbracket]
  · rw [show k = ts.size + 1 by omega, Program.isTypeAt, hlast, htype]

/-- A bracket behind an `async` opens type parameters. -/
theorem inHead_of_angleBrackets [TypeRulesMaintain c (InHead c) call] {name : Token}
    (hok : angleBrackets call c st = .ok () st') (htokens : st.tokens = ts.push name)
    (hkind : name.kind = .name) (htext : name.text c.source = "async".toList)
    (hvalue : name.isType = false) (hheads : OnlyAsyncHeads c.source st.tokens)
    (hinside : st.isType = true) (hbracket : st.cur.kind = .lessThan) : InHead c st' := by
  unfold angleBrackets at hok
  obtain ⟨_, st₁, hopen, hrest⟩ := Parser.exists_of_bind hok
  obtain ⟨isBracket, st₂, his, hnext⟩ := Parser.exists_of_bind hopen
  cases his
  rw [if_pos (by simpa using hbracket)] at hnext
  obtain ⟨t, pos, hread, rfl⟩ := exists_of_nextIn hnext
  refine Maintains.ok (A := True) trivial ?_ hrest
  have hlast : Program.InAsyncHead ⟨c.source, (st.finish t pos).tokens⟩ ts.size (ts.size + 1) := by
    have htype : (st.cur.isType || st.isType) = true := by rw [hinside, Bool.or_true]
    rw [State.finish, htokens]
    exact inAsyncHead_push_push hkind htext hvalue hbracket htype
  have hsize : st.tokens.size = ts.size + 1 := by rw [htokens, Array.size_push]
  refine ⟨hinside, isType_of_read hread, hheads.push fun _ => ⟨ts.size, ?_⟩, ts.size, ?_⟩
  · rw [hsize]
    exact hlast
  · rw [State.finish, Array.size_push, Nat.add_sub_cancel, hsize]
    exact hlast

/-- At the end of the type parameters the parse is outside of types again. -/
instance [RulesMaintain c (Untyped c) call] [TypeRulesMaintain c (InHead c) call]
    [AllowsTypes c (c.hasTypes = true) (Untyped c)] : AsyncMaintains c (Untyped c) call where
  head {st st'} hkind htext hst hok := by
    unfold asyncArrowHead at hok
    obtain ⟨_, st₁, hnext, hok⟩ := Parser.exists_of_bind hok
    obtain ⟨t, pos, hread, rfl⟩ := exists_of_nextIn hnext
    have hst₁ := hst.finish hread
    obtain ⟨isBracket, st₂, his, hok⟩ := Parser.exists_of_bind hok
    obtain ⟨hbracket, rfl⟩ := EStateM.Result.ok.inj his
    cases isBracket with
    | false => exact Maintains.ok (A := True) trivial hst₁ hok
    | true =>
      obtain ⟨_, st₃, hargs, hok⟩ := Parser.exists_of_bind hok
      refine Maintains.ok (A := True) trivial ?_ hok
      unfold typeArguments inType at hargs
      cases hrun : angleBrackets call c { st.finish t pos with isType := true } with
      | error e st₄ => simp [hrun] at hargs
      | ok a st₄ =>
        rw [hrun] at hargs
        rw [← (EStateM.Result.ok.inj hargs).2]
        have h : InHead c st₄ :=
          inHead_of_angleBrackets hrun rfl hkind htext hst.isType_finished hst₁.heads rfl
            (of_decide_eq_true hbracket)
        exact ⟨hst₁.outside, h.ahead, h.heads⟩

/-! ### Exports -/

/-- The token behind an `export` cannot belong to a type. -/
theorem OnlyAsyncHeads.isTypeAt_succ {i : Nat} (h : OnlyAsyncHeads source ts)
    (hvalue : Program.isTypeAt ⟨source, ts⟩ i = false)
    (hkind : Program.kindAt ⟨source, ts⟩ i ≠ .name) :
    Program.isTypeAt ⟨source, ts⟩ (i + 1) = false := by
  refine Bool.eq_false_iff.mpr fun htype => ?_
  obtain ⟨j, hj⟩ := h (i + 1) htype
  have hlt := hj.lt
  by_cases heq : j = i
  · exact hkind (heq ▸ (Program.isNameAt_iff.mp hj.name).1)
  · have htypes := hj.types i (by omega) (by omega)
    exact absurd (hvalue.symm.trans htypes) Bool.false_ne_true

theorem eq_of_markTypeExport {index : Nat}
    (hvalue : Program.isTypeAt ⟨c.source, st.tokens⟩ (index + 1) = false)
    (hok : markTypeExport index c st = .ok () st') : st' = st := by
  have hany : (st.tokens[index + 1]?).any (·.isType) = false := by
    unfold Program.isTypeAt Program.tokenAt at hvalue
    cases htoken : st.tokens[index + 1]? with
    | none => rfl
    | some t => simpa [htoken] using hvalue
  unfold markTypeExport at hok
  obtain ⟨st₁, st₂, hget, hok⟩ := Parser.exists_of_bind hok
  cases hget
  dsimp only at hok
  rw [hany, Bool.and_false, if_neg Bool.false_ne_true] at hok
  exact (EStateM.Result.ok.inj hok).2.symm

/-- What is exported is no type, so its `export` is none. -/
theorem untyped_of_exportRule [hc : RulesMaintain c (Untyped c) call]
    [AllowsTypes c (c.hasTypes = true) (Untyped c)] (htypes : c.hasTypes = false)
    (hkind : st.cur.kind = .kwExport) (hst : Untyped c st) (hok : exportRule call c st = .ok () st')
    :
    Untyped c st' := by
  unfold exportRule at hok
  obtain ⟨index, st₁, hcount, hok⟩ := Parser.exists_of_bind hok
  cases hcount
  obtain ⟨isType, st₁, hlook, hok⟩ := Parser.exists_of_bind hok
  have hstill : Maintains c True (· = st) atTypeExport := by
    unfold atTypeExport
    infer_instance
  have hst₁ : st₁ = st := hstill.of_ok trivial rfl hlook
  cases isType with
  | true => exact absurd (htypes.symm.trans (Guards.types hlook)) Bool.false_ne_true
  | false =>
    rw [hst₁, if_neg Bool.false_ne_true] at hok
    obtain ⟨_, st₂, hnext, hok⟩ := Parser.exists_of_bind hok
    obtain ⟨t, pos, hread, rfl⟩ := exists_of_nextIn hnext
    obtain ⟨isVariable, st₃, hlook₁, hok⟩ := Parser.exists_of_bind hok
    obtain ⟨-, rfl⟩ := EStateM.Result.ok.inj hlook₁
    obtain ⟨isLet, st₃, hlook₂, hok⟩ := Parser.exists_of_bind hok
    obtain ⟨-, rfl⟩ := EStateM.Result.ok.inj hlook₂
    dsimp only at hok
    obtain ⟨_, st₃, hexported, hok⟩ := Parser.exists_of_bind hok
    have hst₃ : Untyped c st₃ := Maintains.ok (A := True) trivial (hst.finish hread) hexported
    have hkept := (runs_exported hc.calls (State.frame_isLoose _)
      (Lexer.context_of_read hread)).kept_of_ok hexported
    obtain ⟨stop, st₄, hcount, hok⟩ := Parser.exists_of_bind hok
    obtain ⟨-, rfl⟩ := EStateM.Result.ok.inj hcount
    have hexport : st₃.tokens[st.tokens.size]? = (st.finish t pos).tokens[st.tokens.size]? :=
      hkept.same _ (by simp [State.finish])
    rw [State.finish, Array.getElem?_push_size] at hexport
    -- The rest only writes down where the declaration ends.
    have hmark {st₅ : State} (hok : markTypeExport st.tokens.size c st₅ = .ok () st')
        (hrel : Pointwise Relabels st₃.tokens st₅.tokens) (h : Untyped c st₅) :
        Untyped c st' := by
      have htoken : Relabels _ (Program.tokenAt ⟨c.source, st₅.tokens⟩ st.tokens.size) :=
        hrel.tokenAt (Relabels.refl _) _
      rw [Program.tokenAt, hexport, Option.getD_some] at htoken
      have hvalue : Program.isTypeAt ⟨c.source, st₅.tokens⟩ (st.tokens.size + 1) = false := by
        refine h.heads.isTypeAt_succ (htoken.isType.trans hst.isType_finished) fun hname => ?_
        cases (htoken.kind.trans hkind).symm.trans hname
      rw [eq_of_markTypeExport hvalue hok]
      exact h
    by_cases hvariable : (isVariable || isLet) = true
    · rw [if_pos hvariable] at hok
      obtain ⟨_, st₄, hmodify, hok⟩ := Parser.exists_of_bind hok
      cases hmodify
      have hrel : Pointwise Relabels st₃.tokens
          (st₃.tokens.modify st.tokens.size fun t => { t with rhsEnd := some stop }) :=
        .modify Relabels.refl fun _ => ⟨rfl, rfl, rfl, rfl, .inl rfl⟩
      exact hmark hok hrel ⟨hst₃.outside, hst₃.ahead, hst₃.heads.relabel hrel⟩
    · rw [if_neg hvariable] at hok
      exact hmark hok ⟨rfl, fun i u hu => ⟨u, hu, Relabels.refl u⟩⟩ hst₃

/-! ### Every rule -/

/-- The rules of types keep to type parameters, and all others to code without types. -/
theorem untyped_of_run (htypes : c.hasTypes = false) (rule : Rule) (st : State) :
    RuleKeeps (Untyped c) rule st (run rule c st) := by
  have hT : AllowsTypes c (c.hasTypes = true) (Untyped c) :=
    ⟨fun h => absurd (htypes.symm.trans h) Bool.false_ne_true,
      fun h => absurd (htypes.symm.trans h) Bool.false_ne_true,
      fun h => absurd (htypes.symm.trans h) Bool.false_ne_true⟩
  refine (run_induction (P := fun rule st result => RuleKeeps (Untyped c) rule st result ∧
    ((rule = .typeOperand ∨ ∃ conditional, rule = .type conditional) → InHead c st →
      ∀ st', result = .ok () st' → InHead c st')) (fun rule st => ?_)
    (fun call hcalls ih rule st => ?_) rule st).1
  · exact ⟨fun _ _ st' hok => (nomatch hok), fun _ _ st' hok => nomatch hok⟩
  · have hc := rulesMaintain_of_keeps hcalls fun rule st => (ih rule st).1
    have helement := elementRuleMaintains_of_keeps fun rule st => (ih rule st).1
    have hhead : TypeRulesMaintain c (InHead c) call :=
      ⟨fun b => ⟨fun _ st _ st' hst hok => (ih (.type b) st).2 (.inr ⟨b, rfl⟩) hst st' hok⟩,
        ⟨fun _ st _ st' hst hok => (ih .typeOperand st).2 (.inl rfl) hst st' hok⟩⟩
    have hexport : ExportMaintains c (Untyped c) call := ⟨untyped_of_exportRule htypes⟩
    refine ⟨keeps_define rule st, fun hrule hst st' hok => ?_⟩
    rcases hrule with rfl | ⟨conditional, rfl⟩
    · have hm : Maintains c True (InHead c) (typeOperand call) := inferInstance
      exact hm.of_ok trivial hst hok
    · have hm : Maintains c True (InHead c) (typeRule call conditional) := inferInstance
      exact hm.of_ok trivial hst hok

theorem untyped_initial {st : State} (h : State.initial source = .ok st) :
    Untyped (.ofOptions source o) st := by
  obtain ⟨token, pos, hread, rfl⟩ := State.exists_of_initial h
  refine ⟨rfl, isType_of_read hread, fun i hi => ?_⟩
  exact absurd (Program.lt_count_of_isTypeAt hi) (Nat.not_lt_zero i)

theorem onlyAsyncHeads_of_parse {tokens : Array Token} (htypescript : o.has .typescript = false)
    (hflow : o.has .flow = false) (h : parse source o = .ok tokens) :
    OnlyAsyncHeads source tokens := by
  have htypes : (Setting.ofOptions source o).hasTypes = false := by
    rw [Setting.hasTypes, Setting.ofOptions, htypescript, hflow]
    rfl
  obtain ⟨st, hst, rfl⟩ := exists_of_parse
    ⟨fun _ st _ st' hst hok => untyped_of_run htypes .statement st (fun _ => nofun) hst st' hok⟩
    (fun _ => untyped_initial) h
  exact hst.heads

/-! ## Programs in plain code -/

/-- In what is parsed without a type system, only the type parameters of an asynchronous arrow
function are part of a type; there are none if no `async` has a bracket behind it.  In what is
parsed without JSX, there is no token of an element. -/
theorem parse_without_extensions {source : Text} {o : Options} {tokens : Array Token}
    (h : parse source o = .ok tokens) :
    (o.has .typescript = false → o.has .flow = false →
      (∀ i, Program.isTypeAt ⟨source, tokens⟩ i = true →
        ∃ j, Program.InAsyncHead ⟨source, tokens⟩ j i)
      ∧ ((∀ j, Program.isNameAt ⟨source, tokens⟩ j "async".toList = true →
          Program.kindAt ⟨source, tokens⟩ (j + 1) ≠ .lessThan) → ∀ t ∈ tokens, t.isType = false))
    ∧ (o.has .jsx = false →
      ∀ t ∈ tokens, t.kind ∉ [.jsxTagStart, .jsxTagEnd, .jsxName, .jsxText]) := by
  refine ⟨fun htypescript hflow => ?_, fun hjsx t ht hkind => ?_⟩
  · have hheads := onlyAsyncHeads_of_parse htypescript hflow h
    refine ⟨hheads, fun hnone t ht => Bool.eq_false_iff.mpr fun htype => ?_⟩
    obtain ⟨i, hi, rfl⟩ := Array.mem_iff_getElem.mp ht
    have htypeAt : Program.isTypeAt ⟨source, tokens⟩ i = true := by
      rw [Program.isTypeAt, Program.tokenAt, Array.getElem?_eq_getElem hi]
      exact htype
    obtain ⟨j, hj⟩ := hheads i htypeAt
    exact hnone j hj.name hj.bracket
  · obtain ⟨i, hi, rfl⟩ := Array.mem_iff_getElem.mp ht
    have hmarkup := isMarkup_of_parse hjsx h (Array.getElem?_eq_getElem hi)
    simp only [List.mem_cons, List.not_mem_nil, or_false] at hkind
    rcases hkind with hkind | hkind | hkind | hkind <;> rw [hkind] at hmarkup <;> cases hmarkup

/-- An arrow function with type parameters, in a program that cannot have types. -/
def asyncSource : Text := "async <T>(x) => x".toList

def asyncTokens : Array Token :=
  #[{ kind := .name, start := 0, stop := 5 },
    { kind := .lessThan, start := 6, stop := 7, isType := true },
    { kind := .name, start := 7, stop := 8, isType := true },
    { kind := .greaterThan, start := 8, stop := 9, isType := true },
    { kind := .parenL, start := 9, stop := 10, context := some 1, depth := 1 },
    { kind := .name, start := 10, stop := 11, role := some .functionScoped, depth := 1 },
    { kind := .parenR, start := 11, stop := 12, context := some 1, depth := 1 },
    { kind := .arrow, start := 13, stop := 15, depth := 1 },
    { kind := .name, start := 16, stop := 17, role := some .access, depth := 1 }]

/-- The brackets and what is between them are type parameters, and there is no element. -/
theorem parse_asyncSource : parse asyncSource {} = .ok asyncTokens
    ∧ (∃ j, Program.InAsyncHead ⟨asyncSource, asyncTokens⟩ j 3)
    ∧ ∀ t ∈ asyncTokens, t.kind ∉ [.jsxTagStart, .jsxTagEnd, .jsxName, .jsxText] := by
  have hparse : parse asyncSource {} = .ok asyncTokens := by decide +kernel
  obtain ⟨htypes, hmarkup⟩ := parse_without_extensions hparse
  exact ⟨hparse, (htypes rfl rfl).1 3 rfl, hmarkup rfl⟩

/-- A program without a type system can have tokens that are part of a type. -/
theorem not_forall_isType_eq_false : ¬ ∀ (source : Text) (o : Options) (tokens : Array Token),
    parse source o = .ok tokens → o.has .typescript = false → o.has .flow = false →
      ∀ t ∈ tokens, t.isType = false := by
  intro hall
  have hparse : parse asyncSource {} = .ok asyncTokens := by decide +kernel
  have htype := hall asyncSource {} asyncTokens hparse rfl rfl asyncTokens[1] (Array.getElem_mem _)
  cases htype

end Grammar

end Downlevel
