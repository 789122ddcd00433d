import Downlevel.Proofs.Grammar.Speculation
import Downlevel.Proofs.Grammar.Unfold

/-!
# Invariants of a parse

`Maintains c A I p` says that `p` keeps the invariant `I` of a state when it goes through,
given that `A` holds.  What a parse does to a state by itself is listed once (`Invariant`,
`AllowsTypes`); the rest of the grammar is put together from that, so most of it is found by
instances.  The proposition `A` is there for what stands behind a question: a part of the
grammar that is only run if the source can have types (`Guards`) has to keep the invariant
only if it can.
-/

set_option synthInstance.maxSize 1000000000000000000

namespace Downlevel.Grammar

open Grammar.Parser

variable {st st' : State} {i : Nat} {kind : Kind} {R : Token → Token → Prop} {ts : Array Token}
  {g : Token → Token}

/-- The parser keeps an invariant when it goes through. -/
class Maintains {α : Type} (c : Setting) (A : Prop) (I : State → Prop) (p : Parser α) : Prop where
  of_ok : A → ∀ {st : State} {a : α} {st' : State}, I st → p c st = .ok a st' → I st'

/-- A token that differs in what is found out about it later. -/
structure Relabels (t u : Token) : Prop where
  kind : u.kind = t.kind
  start : u.start = t.start
  stop : u.stop = t.stop
  isType : u.isType = t.isType
  role : u.role = t.role ∨ u.role ≠ some .key

/-- A token that may be part of a type when it was none before. -/
structure Retypes (t u : Token) : Prop where
  kind : u.kind = t.kind
  start : u.start = t.start
  stop : u.stop = t.stop
  isType : t.isType = true → u.isType = true
  role : u.role = t.role

/-- Tokens that differ one by one. -/
structure Pointwise (R : Token → Token → Prop) (ts us : Array Token) : Prop where
  size : us.size = ts.size
  related : ∀ (i : Nat) (u : Token), us[i]? = some u → ∃ t, ts[i]? = some t ∧ R t u

/-- What is kept by everything that a parse of ordinary code does to a state. -/
class Invariant (c : Setting) (I : State → Prop) : Prop where
  finish : ∀ {st : State} {mode : Lexer.Mode} {t : Token} {pos : Nat}, mode ≠ .tag → mode ≠ .child →
    Lexer.read mode st.isType c.source st.pos = .ok t pos → I st → I (st.finish t pos)
  regex : ∀ {st : State} {t : Token} {pos : Nat},
    Lexer.regex st.cur.start c.source st.pos = .ok t pos → I st →
      I { st with pos, cur := { t with newlineBefore := st.cur.newlineBefore } }
  role : ∀ {st : State} (role : Option Role), (role = some .key → st.cur.kind.isNameLike = true) →
    I st → I { st with cur := { st.cur with role } }
  context : ∀ {st : State} (context : Option Nat) (isExpression : Bool), I st →
    I { st with cur := { st.cur with context, isExpression } }
  surround : ∀ {st : State} (depth nextContext : Nat) (contexts : List Nat), I st →
    I { st with depth, nextContext, contexts }
  relabel : ∀ {st : State} {us : Array Token}, Pointwise Relabels st.tokens us → I st →
    I { st with tokens := us }

/-- What is kept where tokens may be made part of a type. -/
class AllowsTypes (c : Setting) (A : Prop) (I : State → Prop) : Prop where
  enterType : ∀ {st : State}, A → I st → I { st with isType := true }
  leaveType : ∀ {st st' : State}, A → I st → I st' → I { st' with isType := st.isType }
  retype : ∀ {st : State} {us : Array Token}, A → Pointwise Retypes st.tokens us → I st →
    I { st with tokens := us }

/-! ## Questions that are answered without a look at the source -/

/-- A condition that does not hold, as can be seen from how it is written. -/
class IsFalse (b : Bool) : Prop where
  eq : b = false

instance : IsFalse false := ⟨rfl⟩

instance {a b : Bool} [h : IsFalse a] : IsFalse (a && b) := ⟨by rw [h.eq, Bool.false_and]⟩

instance {a b : Bool} [h : IsFalse b] : IsFalse (a && b) := ⟨by rw [h.eq, Bool.and_false]⟩

instance {b : Bool} [h : IsFalse b] : IsTrue (!b) := ⟨by rw [h.eq, Bool.not_false]⟩

/-- The answer is never yes. -/
class Refuses (p : Parser Bool) : Prop where
  ne_true : ∀ {c : Setting} {st st' : State}, p c st ≠ .ok true st'

/-- The answer is yes only if the source can have types. -/
class Guards (p : Parser Bool) : Prop where
  types : ∀ {c : Setting} {st st' : State}, p c st = .ok true st' → c.hasTypes = true

namespace Refuses

variable {α : Type} {b : Bool} {p q : Parser Bool} {f : α → Parser Bool}

instance : Refuses (pure false) := ⟨fun h => Bool.false_ne_true (EStateM.Result.ok.inj h).1⟩

instance {p : Parser α} [hf : ∀ a, Refuses (f a)] : Refuses (p >>= f) where
  ne_true h := by
    obtain ⟨a, st₁, -, hok⟩ := Parser.exists_of_bind h
    exact (hf a).ne_true hok

instance [hb : IsFalse b] [hq : Refuses q] : Refuses (if b = true then p else q) := by
  rwa [hb.eq, if_neg Bool.false_ne_true]

instance [hb : IsTrue b] [hp : Refuses p] : Refuses (if b = true then p else q) := by
  rwa [hb.eq, if_pos rfl]

end Refuses

namespace Guards

variable {α : Type} {p q : Parser Bool} {f : Bool → Parser Bool}

instance : Guards hasTypes := ⟨fun h => (EStateM.Result.ok.inj h).1⟩

instance : Guards typescript where
  types {c st st'} h := by
    have htypescript : c.typescript = true := (EStateM.Result.ok.inj h).1
    rw [Setting.hasTypes, htypescript, Bool.true_or]

instance : Guards flow where
  types {c st st'} h := by
    have hflow : c.flow = true := (EStateM.Result.ok.inj h).1
    rw [Setting.hasTypes, hflow, Bool.or_true]

/-- What comes after a question says no if the question does. -/
instance (priority := low) [h : Unfolds p q] [hq : Guards q] : Guards p :=
  h.eq ▸ hq

instance [hp : Guards p] [hf : Refuses (f false)] : Guards (p >>= f) where
  types h := by
    obtain ⟨a, st₁, hfirst, hok⟩ := Parser.exists_of_bind h
    cases a with
    | true => exact hp.types hfirst
    | false => exact absurd hok hf.ne_true

/-- A loop that says no from round to round says no in the end. -/
theorem eq_false_of_loop {c : Setting} {step : Bool → Parser (ForInStep Bool)} {b : Bool}
    (hstep : ∀ {st r st'}, step false c st = .ok r st' → r = .done false ∨ r = .yield false)
    (h : loop false step c st = .ok b st') : b = false := by
  induction hrem : c.remaining st using Nat.strongRecOn generalizing st with
  | ind k ih =>
    rw [loop_apply] at h
    cases hrun : step false c st with
    | error e st₁ => simp [hrun] at h
    | ok r st₁ =>
      rw [hrun] at h
      rcases hstep hrun with rfl | rfl
      · exact (EStateM.Result.ok.inj h).1.symm
      · dsimp only at h
        by_cases hlt : c.remaining st₁ < c.remaining st
        · rw [if_pos hlt] at h
          exact ih _ (hrem ▸ hlt) h rfl
        · rw [if_neg hlt] at h
          cases h

/-- A modifier makes a member ambient only if it belongs to a type system. -/
instance : Guards modifiers where
  types {c st st'} h := by
    cases htypescript : c.typescript with
    | true => rw [Setting.hasTypes, htypescript, Bool.true_or]
    | false =>
      have hfalse : true = false := eq_false_of_loop (fun {st r st'} hround => ?_) h
      · cases hfalse
      · obtain ⟨isModifier, st₁, -, hround⟩ := Parser.exists_of_bind hround
        cases isModifier with
        | false => exact .inl (EStateM.Result.ok.inj hround).1.symm
        | true =>
          obtain ⟨isTyped, st₂, hlook, hround⟩ := Parser.exists_of_bind hround
          obtain ⟨isWord, st₃, -, hround⟩ := Parser.exists_of_bind hround
          obtain rfl : c.typescript = isTyped := (EStateM.Result.ok.inj hlook).1
          rw [htypescript, Bool.false_and, if_neg Bool.false_ne_true] at hround
          obtain ⟨_, st₄, -, hround⟩ := Parser.exists_of_bind hround
          exact .inr (EStateM.Result.ok.inj hround).1.symm

end Guards

namespace Maintains

variable {α β : Type} {c : Setting} {A B : Prop} {I : State → Prop} {p q : Parser α}
  {f : α → Parser β} {a : α}

/-! ## Sequencing -/

theorem mono (hp : Maintains c A I p) (h : B → A) : Maintains c B I p :=
  ⟨fun hB _ _ _ hst hok => hp.of_ok (h hB) hst hok⟩

theorem run (hp : Maintains c A I p) (hA : A) (hst : I st) (hok : p c st = .ok a st') : I st' :=
  hp.of_ok hA hst hok

theorem ok [hp : Maintains c A I p] (hA : A) (hst : I st) (hok : p c st = .ok a st') : I st' :=
  hp.run hA hst hok

theorem results [hp : Maintains c A I p] (hA : A) (hst : I st) :
    Results c p st (fun _ => I) fun _ _ => True := by
  unfold Results
  cases hrun : p c st with
  | ok a st' => exact hp.of_ok hA hst hrun
  | error e st' => trivial

instance bind [hp : Maintains c A I p] [hf : ∀ a, Maintains c A I (f a)] :
    Maintains c A I (p >>= f) where
  of_ok hA _ _ _ hst hok := by
    obtain ⟨a, st₁, hfirst, hrest⟩ := Parser.exists_of_bind hok
    exact (hf a).of_ok hA (hp.of_ok hA hst hfirst) hrest

theorem after [Maintains c A I p] (hf : ∀ a, Maintains c A I (f a)) : Maintains c A I (p >>= f) :=
  bind

theorem before (hp : Maintains c A I p) [∀ a, Maintains c A I (f a)] : Maintains c A I (p >>= f) :=
  bind

/-- What stands behind a question is only run if the source can have types. -/
instance (priority := high) bind_guard {p : Parser Bool} {f : Bool → Parser β} [hguards : Guards p]
    [hp : Maintains c A I p] [hno : Maintains c A I (f false)]
    [hyes : Maintains c (c.hasTypes = true) I (f true)] : Maintains c A I (p >>= f) where
  of_ok hA _ _ _ hst hok := by
    obtain ⟨a, st₁, hfirst, hrest⟩ := Parser.exists_of_bind hok
    have hst₁ := hp.of_ok hA hst hfirst
    cases a with
    | true => exact hyes.of_ok (hguards.types hfirst) hst₁ hrest
    | false => exact hno.of_ok hA hst₁ hrest

instance {P : Prop} [Decidable P] [hp : Maintains c A I p] [hq : Maintains c A I q] :
    Maintains c A I (if P then p else q) := by
  by_cases h : P
  · rwa [if_pos h]
  · rwa [if_neg h]

instance (priority := high) {b : Bool} [hb : IsFalse b] [hq : Maintains c A I q] :
    Maintains c A I (if b = true then p else q) := by
  rwa [hb.eq, if_neg Bool.false_ne_true]

/-! ## Looking and failing -/

theorem of_still (h : ∀ st a st', p c st = .ok a st' → st' = st) : Maintains c A I p where
  of_ok _ st a st' hst hok := by
    rw [h st a st' hok]
    exact hst

instance (priority := low) [h : Unfolds p q] [hq : Maintains c A I q] : Maintains c A I p :=
  h.eq ▸ hq

instance (priority := low) of_looks [Looks p] : Maintains c A I p := by
  refine of_still fun st a st' hok => ?_
  rw [Looks.apply_eq (p := p)] at hok
  exact (EStateM.Result.ok.inj hok).2.symm

instance : Maintains c A I (pure a : Parser α) :=
  of_still fun _ _ _ hok => (EStateM.Result.ok.inj hok).2.symm

instance [Maintains c A I p] : Maintains c A I (discard p) := by
  rw [Parser.discard_eq]
  infer_instance

instance : Maintains c A I (get : Parser State) :=
  of_still fun _ _ _ hok => (EStateM.Result.ok.inj hok).2.symm

instance : Maintains c A I tokenCount :=
  of_still fun _ _ _ hok => (EStateM.Result.ok.inj hok).2.symm

instance : Maintains c A I peek := by
  refine of_still fun st a st' hok => ?_
  rw [peek_apply] at hok
  cases hread : Lexer.next st.isType c.source st.pos with
  | error failure pos => simp [hread] at hok
  | ok t pos =>
    rw [hread] at hok
    exact (EStateM.Result.ok.inj hok).2.symm

theorem of_fails (h : ∀ st, ∃ e, p c st = .error e st) : Maintains c A I p where
  of_ok _ st a st' _ hok := by
    obtain ⟨e, he⟩ := h st
    rw [he] at hok
    cases hok

instance {e : Error} : Maintains c A I (throw e : Parser α) := of_fails fun _ => ⟨_, rfl⟩

instance {f : Fault} {offset : Nat} : Maintains c A I (faultAt f offset : Parser α) :=
  of_fails fun _ => ⟨_, rfl⟩

instance {f : Fault} : Maintains c A I (fault f : Parser α) := of_fails fun _ => ⟨_, rfl⟩

/-! ## Moving on -/

theorem nextIn_of {mode : Lexer.Mode} (h : ∀ {st : State} {t : Token} {pos : Nat},
      Lexer.read mode st.isType c.source st.pos = .ok t pos → I st → I (st.finish t pos)) :
    Maintains c A I (nextIn mode) where
  of_ok _ st a st' hst hok := by
    rw [nextIn_apply] at hok
    cases hread : Lexer.read mode st.isType c.source st.pos with
    | error failure pos => simp [hread] at hok
    | ok t pos =>
      rw [hread] at hok
      rw [← (EStateM.Result.ok.inj hok).2]
      exact h hread hst

theorem of_modify {g : State → State} (h : ∀ st, A → I st → I (g st)) :
    Maintains c A I (modify g : Parser Unit) where
  of_ok hA st a st' hst hok := by
    rw [← (EStateM.Result.ok.inj hok).2]
    exact h st hA hst

section

variable [hI : Invariant c I]

instance : Maintains c A I (nextIn .normal) := nextIn_of (hI.finish nofun nofun)
instance : Maintains c A I (nextIn .templateChunk) := nextIn_of (hI.finish nofun nofun)
instance : Maintains c A I (nextIn .templateEnd) := nextIn_of (hI.finish nofun nofun)

instance : Maintains c A I rereadRegex where
  of_ok _ st a st' hst hok := by
    rw [rereadRegex_apply] at hok
    cases hread : Lexer.regex st.cur.start c.source st.pos with
    | error failure pos => simp [hread] at hok
    | ok t pos =>
      rw [hread] at hok
      rw [← (EStateM.Result.ok.inj hok).2]
      exact hI.regex hread hst

instance : Maintains c A I (eat kind) := by
  unfold eat
  infer_instance

omit hI in
/-! ## Annotating tokens -/

instance {id : Nat} : Maintains c A I (stamp id) :=
  of_modify fun st _ hst => hI.context (some id) st.cur.isExpression hst

instance {context : Option Nat} {isExpression : Bool} :
    Maintains c A I (modifyCur fun t => { t with context, isExpression }) :=
  of_modify fun _ _ hst => hI.context context isExpression hst

/-- A role that can be given to any token. -/
theorem modifyRole {role : Option Role} (h : role ≠ some .key) :
    Maintains c A I (modifyCur fun t => { t with role }) :=
  of_modify fun _ _ hst => hI.role role (fun hkey => absurd hkey h) hst

instance : Maintains c A I (modifyCur fun t => { t with role := some .access }) :=
  modifyRole nofun

/-- A name can have every role. -/
instance {role : Role} : Maintains c A I (identifier role) where
  of_ok hA st a st' hst hok := by
    unfold identifier at hok
    obtain ⟨b, st₁, his, hok⟩ := Parser.exists_of_bind hok
    obtain ⟨hb, rfl⟩ := EStateM.Result.ok.inj his
    by_cases hname : st.cur.kind = .name
    · rw [if_pos (by simpa [← hb] using hname)] at hok
      obtain ⟨_, st₂, hmark, hok⟩ := Parser.exists_of_bind hok
      cases hmark
      have hnext : Maintains c A I next := inferInstance
      exact hnext.of_ok hA (hI.role (some role) (fun _ => by rw [hname]; rfl) hst) hok
    · rw [if_neg (by simpa [← hb] using hname)] at hok
      have hfails : Maintains c A I (unexpected : Parser Unit) := inferInstance
      exact hfails.of_ok hA hst hok

end

end Maintains

theorem Pointwise.modify
    (hrefl : ∀ t, R t t) (hg : ∀ t, R t (g t)) : Pointwise R ts (ts.modify i g) := by
  refine ⟨Array.size_modify, fun j u hu => ?_⟩
  rw [Array.getElem?_modify] at hu
  split at hu
  · obtain ⟨t, ht, rfl⟩ := Option.map_eq_some_iff.mp hu
    exact ⟨t, ht, hg t⟩
  · exact ⟨u, hu, hrefl u⟩

theorem Pointwise.mapIdx (hrefl : ∀ t, R t t) (hg : ∀ t, R t (g t)) :
    Pointwise R ts (ts.mapIdx fun j t => if i ≤ j then g t else t) := by
  refine ⟨Array.size_mapIdx, fun j u hu => ?_⟩
  rw [Array.getElem?_mapIdx] at hu
  obtain ⟨t, ht, rfl⟩ := Option.map_eq_some_iff.mp hu
  refine ⟨t, ht, ?_⟩
  split
  · exact hg t
  · exact hrefl t

theorem Relabels.refl (t : Token) : Relabels t t := ⟨rfl, rfl, rfl, rfl, .inl rfl⟩

theorem Retypes.refl (t : Token) : Retypes t t := ⟨rfl, rfl, rfl, id, rfl⟩

theorem Retypes.typed (t : Token) : Retypes t { t with isType := true } :=
  ⟨rfl, rfl, rfl, fun _ => rfl, rfl⟩

namespace Maintains

variable {α β : Type} {c : Setting} {A : Prop} {I : State → Prop} {p : Parser α}

section

variable [hI : Invariant c I]

instance {rhsEnd : Option Nat} :
    Maintains c A I (modifyToken i fun t => { t with rhsEnd }) :=
  of_modify fun _ _ hst =>
    hI.relabel (.modify Relabels.refl fun _ => ⟨rfl, rfl, rfl, rfl, .inl rfl⟩) hst

instance : Maintains c A I (modifyToken i fun t => { t with role := some .access }) :=
  of_modify fun _ _ hst =>
    hI.relabel (.modify Relabels.refl fun _ => ⟨rfl, rfl, rfl, rfl, .inr nofun⟩) hst

instance : Maintains c A I (modifyFrom i fun t => { t with role := none }) :=
  of_modify fun _ _ hst =>
    hI.relabel (.mapIdx Relabels.refl fun _ => ⟨rfl, rfl, rfl, rfl, .inr nofun⟩) hst

/-! ## Scopes and contexts -/

instance : Maintains c A I enterScope :=
  of_modify fun st _ hst => hI.surround (st.depth + 1) st.nextContext st.contexts hst

instance : Maintains c A I leaveScope := by
  unfold leaveScope
  refine after fun st => ?_
  split
  · infer_instance
  · exact of_modify fun st _ hst => hI.surround _ st.nextContext st.contexts hst

instance : Maintains c A I freshContext := by
  unfold freshContext
  exact after fun id => before (of_modify fun st _ hst => hI.surround st.depth _ st.contexts hst)

instance : Maintains c A I pushContext := by
  unfold pushContext
  exact after fun id => before (of_modify fun st _ hst => hI.surround st.depth st.nextContext _ hst)

instance : Maintains c A I popContext := by
  unfold popContext
  refine after fun st => ?_
  split
  · infer_instance
  · refine before (of_modify fun st _ hst => ?_)
    exact hI.surround st.depth st.nextContext _ hst

instance : Maintains c A I (closeContext kind) := by
  unfold closeContext
  refine after fun b => ?_
  split
  · refine after fun id => ?_
    split <;> infer_instance
  · infer_instance

end

/-! ## Types -/

section

variable [hT : AllowsTypes c A I]

theorem in_type (hp : Maintains c A I p) : Maintains c A I (inType p) where
  of_ok hA st a st' hst hok := by
    unfold inType at hok
    cases hrun : p c { st with isType := true } with
    | error e st₁ => simp [hrun] at hok
    | ok b st₁ =>
      rw [hrun] at hok
      rw [← (EStateM.Result.ok.inj hok).2]
      exact hT.leaveType hA hst (hp.of_ok hA (hT.enterType hA hst) hrun)

instance [hp : Maintains c A I p] : Maintains c A I (inType p) :=
  in_type hp

instance {start : Nat} : Maintains c A I (markTypesFrom start) :=
  of_modify fun _ hA hst => hT.retype hA (.mapIdx Retypes.refl Retypes.typed) hst

instance : Maintains c A I (modifyToken i fun t => { t with isType := true }) :=
  of_modify fun _ hA hst => hT.retype hA (.modify Retypes.refl Retypes.typed) hst

end

/-! ## Speculation -/

/-- What is given up leaves the state as it was. -/
theorem attempt_ok {p : Parser Unit} {s' : Unit → Stage} {b : Bool}
    (hruns : Runs c st.tokens.size st.frame.plain st.view p s' fun _ _ => True) (hst : I st)
    (hp : ∀ a st₁, p c st = .ok a st₁ → I st₁) (hok : attempt p c st = .ok b st') : I st' := by
  rw [attempt_eq hruns] at hok
  cases hrun : p c st with
  | ok a st₁ =>
    rw [hrun] at hok
    rw [← (EStateM.Result.ok.inj hok).2]
    exact hp a st₁ hrun
  | error e st₁ =>
    rw [hrun] at hok
    dsimp only at hok
    by_cases hfatal : e.isFatal = true
    · rw [if_pos hfatal] at hok
      cases hok
    · rw [if_neg hfatal] at hok
      rw [← (EStateM.Result.ok.inj hok).2]
      exact hst

theorem attempt_of {p : Parser Unit} [hp : Maintains c A I p]
    (hruns : ∀ st : State, ∃ s', Runs c st.tokens.size st.frame.plain st.view p s' fun _ _ => True) :
    Maintains c A I (attempt p) where
  of_ok hA st a st' hst hok := by
    obtain ⟨s', hrun⟩ := hruns st
    exact attempt_ok hrun hst (fun _ _ => hp.of_ok hA hst) hok

instance : Maintains c A I atIndexSignature :=
  of_still fun _ _ _ hok => Lookahead.eq_of_parser .indexSignature hok

instance : Maintains c A I atTypeImport :=
  of_still fun _ _ _ hok => Lookahead.eq_of_parser .typeImport hok

instance : Maintains c A I atTypeNamedAs :=
  of_still fun _ _ _ hok => Lookahead.eq_of_parser .typeNamedAs hok

/-! ## Repetition -/

theorem loop_of {σ : Type} {x : σ} {step : σ → Parser (ForInStep σ)}
    (hstep : ∀ x, Maintains c A I (step x)) : Maintains c A I (loop x step) where
  of_ok hA st a st' hst hok := by
    induction hrem : c.remaining st using Nat.strongRecOn generalizing x st with
    | ind k ih =>
      rw [loop_apply] at hok
      cases hrun : step x c st with
      | error e st₁ => simp [hrun] at hok
      | ok r st₁ =>
        have hst₁ := (hstep x).of_ok hA hst hrun
        rw [hrun] at hok
        cases r with
        | done y =>
          rw [← (EStateM.Result.ok.inj hok).2]
          exact hst₁
        | yield y =>
          dsimp only at hok
          by_cases hlt : c.remaining st₁ < c.remaining st
          · rw [if_pos hlt] at hok
            exact ih _ (hrem ▸ hlt) st₁ hst₁ hok rfl
          · rw [if_neg hlt] at hok
            cases hok

instance {σ : Type} {x : σ} {step : σ → Parser (ForInStep σ)} [hstep : ∀ x, Maintains c A I (step x)] :
    Maintains c A I (loop x step) :=
  loop_of hstep

end Maintains

/-! ## The rules -/

/-- What holds of a rule if it holds of the rules it refers to, holds of every rule. -/
theorem run_induction {c : Setting} {P : Rule → State → EStateM.Result Error State Unit → Prop}
    (hstalled : ∀ rule st, P rule st (stalled c st))
    (hdefine : ∀ call, Calls c call → (∀ rule st, P rule st (call rule c st)) →
      ∀ rule st, P rule st (define call rule c st)) (rule : Rule) (st : State) :
    P rule st (run rule c st) := by
  have hbelow (bound : Nat) : ∀ rule st, P rule st (runBelow bound rule c st) := by
    induction bound using Nat.strongRecOn with
    | ind bound ih =>
      intro rule st
      unfold runBelow
      by_cases hlt : weight c rule st < bound
      · rw [if_pos hlt, run_apply]
        exact hdefine _ (calls_runBelow c _) (ih _ hlt) rule st
      · rw [if_neg hlt]
        exact hstalled rule st
  rw [run_apply]
  exact hdefine _ (calls_runBelow c _) (hbelow _) rule st

end Downlevel.Grammar
