import Downlevel.Proofs.Grammar.Statement

/-!
# A speculation that is undone leaves no trace

To come back from a speculation the finished tokens are only cut off at their
old number, so it leaves no trace just when nothing in it touches the tokens
below that number.  This holds of every part of the grammar, since each of them
takes steps whose base is the number of tokens at its start.
-/

namespace Downlevel.Grammar

open Grammar.Parser

/-- The parts of the grammar that are run to see whether they go through. -/
inductive Speculation where
  | arrowParameters
  | asyncArrowHead
  | genericArrow
  | callTypeArguments
  deriving Repr, DecidableEq

/-- What a speculation runs. -/
def Speculation.parser (call : Reference) : Speculation → Parser Unit
  | arrowParameters => Grammar.arrowParameters call
  | asyncArrowHead => Grammar.asyncArrowHead call
  | genericArrow => Grammar.genericArrow call
  | callTypeArguments => do
    typeArguments call
    if ← isOneOf [.parenL, .backQuote] then return else unexpected

/-- How the grammar tries a speculation; the result says whether it went through. -/
def Speculation.trial (call : Reference) : Speculation → Parser Bool
  | arrowParameters => attempt (Grammar.arrowParameters call)
  | asyncArrowHead => attempt (Grammar.asyncArrowHead call)
  | genericArrow => attempt (Grammar.genericArrow call)
  | callTypeArguments => Grammar.callTypeArguments call

theorem Speculation.trial_eq_attempt (call : Reference) (p : Speculation) :
    p.trial call = attempt (p.parser call) := by
  cases p <;> rfl

/-- The questions that are answered by running ahead. -/
inductive Lookahead where
  | indexSignature
  | typeImport
  | typeNamedAs
  deriving Repr, DecidableEq

/-- How a question is answered. -/
def Lookahead.parser : Lookahead → Parser Bool
  | indexSignature => atIndexSignature
  | typeImport => atTypeImport
  | typeNamedAs => atTypeNamedAs

/-- A frame that says of a state all that the state shows, and nothing else. -/
def State.frame (st : State) : Frame :=
  { brackets := [], contexts := st.contexts, depth := st.depth, isType := st.isType, free := true }

/-- The view of a state with all its finished tokens below the base. -/
def State.view (st : State) : View :=
  { cur := st.cur, count := st.tokens.size }

section

variable {α : Type} {c : Setting} {st st' : State} {p : Parser α} {s' : α → Stage}
  {L : α → View → Prop} {a : α}

theorem State.frame_isLoose (st : State) : st.frame.IsLoose := .inr rfl

theorem Runs.kept_of_error {e : Error}
    (hp : Runs c st.tokens.size st.frame.plain st.view p s' L) (h : p c st = .error e st') :
    Kept st.tokens.size st st' := by
  have hrun := hp (Nat.le_refl _) st ⟨rfl, rfl, rfl⟩ ⟨rfl, by simp [State.view], Nat.le_refl _, by simp [State.view]⟩
  rw [h] at hrun
  exact hrun

theorem Runs.steps_of_ok (hp : Runs c st.tokens.size st.frame.plain st.view p s' L)
    (h : p c st = .ok a st') :
    Steps c st.tokens.size (st.frame.plain, st) (s' a, st') := by
  have hrun := hp (Nat.le_refl _) st ⟨rfl, rfl, rfl⟩ ⟨rfl, by simp [State.view], Nat.le_refl _, by simp [State.view]⟩
  rw [h] at hrun
  exact hrun.1

theorem Runs.kept_of_ok (hp : Runs c st.tokens.size st.frame.plain st.view p s' L)
    (h : p c st = .ok a st') :
    Kept st.tokens.size st st' :=
  (hp.steps_of_ok h).kept (Nat.le_refl _)

/-- Coming back from something that failed. -/
theorem attempt_eq {p : Parser Unit} {s' : Unit → Stage} {L : Unit → View → Prop}
    (hp : Runs c st.tokens.size st.frame.plain st.view p s' L) :
    attempt p c st =
      match p c st with
      | .ok _ st' => .ok true st'
      | .error e st' => if e.isFatal = true then .error e st' else .ok false st := by
  rw [attempt_apply]
  cases h : p c st with
  | ok a st' => rfl
  | error e st' => simp only [(hp.kept_of_error h).restore_snapshot]

/-- Coming back from something that went through. -/
theorem eq_of_lookahead (hp : Runs c st.tokens.size st.frame.plain st.view p s' L)
    (h : lookahead p c st = .ok a st') : st' = st := by
  rw [lookahead_apply] at h
  cases hps : p c st with
  | error e st'' => simp [hps] at h
  | ok b st'' =>
    simp only [hps, (hp.kept_of_ok hps).restore_snapshot] at h
    exact (EStateM.Result.ok.inj h).2.symm

end

/-- Every speculation keeps the tokens below its base, wherever it starts. -/
theorem Speculation.runs (c : Setting) (st : State) (p : Speculation) :
    ∃ s', Runs c st.tokens.size st.frame.plain st.view (p.parser run) s' fun _ _ => True := by
  have hc := calls_run c
  cases p with
  | arrowParameters => exact ⟨_, runs_arrowParameters hc⟩
  | asyncArrowHead => exact ⟨_, runs_asyncArrowHead hc (.loose st.frame_isLoose)⟩
  | genericArrow => exact ⟨_, (keeps_genericArrow hc).run⟩
  | callTypeArguments => exact ⟨_, (keeps_typeArguments_then hc).run⟩

/-- No question leaves a trace once it is answered. -/
theorem Lookahead.eq_of_parser {c : Setting} {st st' : State} {b : Bool} (l : Lookahead)
    (h : l.parser c st = .ok b st') : st' = st := by
  cases l with
  | indexSignature =>
    change (if (c.typescript && decide (st.cur.kind = .bracketL)) = true then lookahead _
      else pure false : Parser Bool) c st = _ at h
    split at h
    · rename_i hahead
      have hkind : st.view.cur.kind = .bracketL :=
        of_decide_eq_true (Bool.and_eq_true_iff.mp hahead).2
      exact eq_of_lookahead (runs_indexSignature_ahead hkind) h
    · exact (EStateM.Result.ok.inj h).2.symm
  | typeImport =>
    exact eq_of_lookahead
      (runs_typeImport_ahead (.loose st.frame_isLoose) st.frame_isLoose) h
  | typeNamedAs => exact eq_of_lookahead (keeps_typeNamedAs_ahead.run st.frame_isLoose) h

/-- Where an element was tried first, the fallback starts as if it had not been. -/
theorem angled_eq_of_error {c : Setting} {st st' : State} {e : Error}
    (hjsx : c.jsx = true) (htypes : c.hasTypes = true) (hkind : st.cur.kind = .lessThan)
    (h : run (.element .normal) c st = .error e st') (hfatal : e.isFatal = false) :
    angled run c st =
      match genericArrow run c st with
      | .ok _ st'' => .ok true st''
      | .error e' st'' => if e'.isFatal = true then .error e' st'' else .error e st := by
  have hc := calls_run c
  have helement : Runs c st.tokens.size st.frame.plain st.view (run (.element .normal))
      (fun _ => st.frame.after .normal) fun _ _ => True := hc.element (.inl hkind)
  have hback : st'.restore st.snapshot = st := (helement.kept_of_error h).restore_snapshot
  rw [angled_apply_jsx hjsx, h]
  simp only [hback, htypes, hfatal, Bool.not_false, Bool.and_self, if_true]
  rw [attempt_eq (keeps_genericArrow hc).run]
  cases genericArrow run c st with
  | ok a st'' => rfl
  | error e' st'' => cases hfatal' : e'.isFatal <;> simp [hfatal']

/-- **A speculation that is undone leaves no trace.**  A trial that fails, a
question that is answered, and an element that turns out to be none all leave
the state as it was: the offset, the token ahead and every finished token with
all their annotations, types, scopes and contexts.  Only what ends the run for
good is not undone. -/
theorem undone_speculation_leaves_no_trace (c : Setting) (st : State) :
    (∀ p : Speculation,
      p.trial run c st =
        match p.parser run c st with
        | .ok _ st' => .ok true st'
        | .error e st' => if e.isFatal = true then .error e st' else .ok false st)
    ∧ (∀ (l : Lookahead) (b : Bool) (st' : State), l.parser c st = .ok b st' → st' = st)
    ∧ (c.jsx = true → c.hasTypes = true → st.cur.kind = .lessThan →
        ∀ (e : Error) (st' : State), run (.element .normal) c st = .error e st' →
          e.isFatal = false →
          angled run c st =
            match genericArrow run c st with
            | .ok _ st'' => .ok true st''
            | .error e' st'' => if e'.isFatal = true then .error e' st'' else .error e st) := by
  refine ⟨fun p => ?_, fun l b st' h => l.eq_of_parser h, ?_⟩
  · obtain ⟨s', hp⟩ := p.runs c st
    rw [p.trial_eq_attempt]
    exact attempt_eq hp
  · intro hjsx htypes hkind e st' h hfatal
    exact angled_eq_of_error hjsx htypes hkind h hfatal

/-- An arrow function that looks like an element at first. -/
def genericArrowSetting : Setting :=
  { source := "<T>(x) => x".toList, jsx := true, typescript := true }

/-- The state in front of it. -/
def genericArrowState : State :=
  { pos := 1, tokens := #[], cur := { kind := .lessThan, start := 0, stop := 1 }, isType := false,
    depth := 0, nextContext := 1, contexts := [] }

/-- The element fails, and the arrow function is parsed from the same state. -/
theorem angled_genericArrow :
    ∃ e st', run (.element .normal) genericArrowSetting genericArrowState = .error e st'
      ∧ angled run genericArrowSetting genericArrowState =
        match genericArrow run genericArrowSetting genericArrowState with
        | .ok _ st'' => .ok true st''
        | .error e' st'' => if e'.isFatal = true then .error e' st'' else .error e genericArrowState := by
  have hfails : (match run (.element .normal) genericArrowSetting genericArrowState with
      | .ok _ _ => false
      | .error e _ => !e.isFatal) = true := by decide +kernel
  cases h : run (.element .normal) genericArrowSetting genericArrowState with
  | ok a st' => simp [h] at hfails
  | error e st' =>
    have hfatal : e.isFatal = false := by simpa [h] using hfails
    exact ⟨e, st', rfl, (undone_speculation_leaves_no_trace genericArrowSetting
      genericArrowState).2.2 rfl rfl rfl e st' h hfatal⟩

end Downlevel.Grammar
