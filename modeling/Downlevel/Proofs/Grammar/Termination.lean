import Downlevel.Proofs.Grammar.Progress.Parts
import Downlevel.Proofs.Grammar.Speculation

/-!
# A parse always comes to an end

The weight of a rule is what is left of the source from the token ahead, and at
the same token the rank of the rule.  A rule is only run from another one with
more weight, and a loop only goes on with less of the source than before; a parse
that would do otherwise stops for good with `noProgress`.  No source makes it do
so: every rule that goes through has finished a token, and so has every round of
a loop that is not its last.
-/

namespace Downlevel.Grammar

open Grammar.Parser

variable {rule : Rule}

/-! ## Only a finished token moves the one ahead -/

section

variable {c : Setting} {n : Nat} {x y : Stage × State}

theorem Step.size_or_start (h : Step c n x y) :
    x.2.tokens.size < y.2.tokens.size
      ∨ y.2.tokens.size = x.2.tokens.size ∧ y.2.cur.start = x.2.cur.start := by
  cases h with
  | finish _ _ _ _ =>
    left
    simp [State.finish]
  | regex _ hread =>
    obtain ⟨-, -, -, ht⟩ := Lexer.exists_of_regex hread
    right
    rw [ht]
    exact ⟨rfl, rfl⟩
  | annotate _ _ => exact .inr ⟨Array.size_modify, rfl⟩
  | annotateFrom _ _ => exact .inr ⟨Array.size_mapIdx, rfl⟩
  | _ => exact .inr ⟨rfl, rfl⟩

theorem Steps.size_or_start (h : Steps c n x y) :
    x.2.tokens.size < y.2.tokens.size
      ∨ y.2.tokens.size = x.2.tokens.size ∧ y.2.cur.start = x.2.cur.start := by
  induction h with
  | refl => exact .inr ⟨rfl, rfl⟩
  | tail _ hstep ih =>
    rcases hstep.size_or_start with hlt | ⟨hsize, hstart⟩
    · left
      rcases ih with ih | ⟨ih, -⟩ <;> omega
    · rw [hsize, hstart]
      exact ih

end

/-- Every rule takes steps, at whatever token it fits. -/
theorem exists_runs_run (c : Setting) (st : State) (h : rule.Fits st.cur.kind) :
    ∃ s', Runs c st.tokens.size st.frame.plain st.view (run rule) s' fun _ _ => True := by
  have hc := calls_run c
  have : Loose st.frame := ⟨st.frame_isLoose⟩
  cases rule with
  | newExpression => exact ⟨fun _ => st.frame.plain, Takes.runs st.view h⟩
  | element after => exact ⟨_, hc.element h.2⟩
  | _ => exact ⟨fun _ => st.frame.plain, Takes.run⟩

/-- A rule that moves the token ahead has finished a token. -/
theorem size_lt_of_run {c : Setting} {st st' : State} {a : Unit} (hfits : rule.Fits st.cur.kind)
    (h : run rule c st = .ok a st') (hstart : st.cur.start < st'.cur.start) :
    st.tokens.size < st'.tokens.size := by
  obtain ⟨s', hruns⟩ := exists_runs_run c st hfits
  rcases (hruns.steps_of_ok h).size_or_start with hlt | ⟨-, heq⟩
  · exact hlt
  · exact absurd heq (Nat.ne_of_gt hstart)

/-- A rule that is run in front of a token finishes one or blames the source. -/
theorem run_progress {c : Setting} {st : State} (hready : Ready c st)
    (hfits : rule.Fits st.cur.kind) :
    match run rule c st with
    | .ok _ st' => Ready c st' ∧ st.tokens.size < st'.tokens.size
        ∧ c.remaining st' < c.remaining st
    | .error e _ => Located c.source e := by
  have hrun := goes_run hfits hready
  have hleads : Leads (run rule) st.region fun _ => st.region := inferInstance
  have hopen := hleads.leads c st rfl
  unfold Goes at hrun
  cases h : run rule c st with
  | error e st' =>
    rw [h] at hrun hopen
    exact hrun hopen
  | ok a st' =>
    rw [h] at hrun
    have hlt : st.cur.start < st'.cur.start := hrun.lt trivial
    have hend := hrun.ready.aligned.start_le
    refine ⟨hrun.ready, size_lt_of_run hfits h hlt, ?_⟩
    unfold Setting.remaining
    omega

/-- **A parse always comes to an end.**  The weight goes down whenever a rule is
run and the rest of the source gets less whenever a loop goes on, or else the run
stops with `noProgress`, which no speculation takes back.  No parse stops so, and
neither does a rule in front of any token of a source: it finishes at least one
token or fails at a place of the source. -/
theorem parse_makes_progress (source : Text) (o : Options) :
    (∀ rule c st, run rule c st =
      define (fun rule' c' st' =>
        if weight c' rule' st' < weight c rule st then run rule' c' st'
        else .error (.invariant .noProgress) st') rule c st)
    ∧ (∀ (σ : Type) (step : σ → Parser (ForInStep σ)) (x : σ) c st, loop x step c st =
      match step x c st with
      | .error e st' => .error e st'
      | .ok (.done y) st' => .ok y st'
      | .ok (.yield y) st' =>
        if c.remaining st' < c.remaining st then loop y step c st'
        else .error (.invariant .noProgress) st')
    ∧ (∀ (p : Parser Unit) c st st', p c st = .error (.invariant .noProgress) st' →
      attempt p c st = .error (.invariant .noProgress) st')
    ∧ parse source o ≠ .error (.invariant .noProgress)
    ∧ (∀ st, State.initial source = .ok st → Ready (Setting.ofOptions source o) st)
    ∧ ∀ rule c st, Ready c st → rule.Fits st.cur.kind →
      match run rule c st with
      | .ok _ st' => Ready c st' ∧ st.tokens.size < st'.tokens.size
          ∧ c.remaining st' < c.remaining st
      | .error e _ => Located c.source e := by
  refine ⟨run_apply, fun σ step => loop_apply step, ?_, ?_, ?_, ?_⟩
  · intro p c st st' h
    rw [attempt_apply, h]
    rfl
  · intro h
    obtain ⟨failure, heq, -⟩ := located_of_parse h
    cases heq
  · intro st h
    exact ready_initial h
  · intro rule c st hready hfits
    exact run_progress hready hfits

/-- The state in front of an empty statement. -/
def semicolonState : State :=
  { pos := 1, tokens := #[], cur := { kind := .semi, start := 0, stop := 1 }, isType := false,
    depth := 0, nextContext := 1, contexts := [] }

/-- An empty statement is finished, after which the source is at its end. -/
theorem run_semicolonState :
    ∃ st', run .statement { source := ";".toList } semicolonState = .ok () st'
      ∧ semicolonState.tokens.size < st'.tokens.size := by
  have hready : Ready { source := ";".toList } semicolonState := by
    refine ⟨⟨rfl, fun _ => ⟨?_, ?_, by decide, Nat.zero_le _⟩⟩, fun _ _ => by decide⟩
    · exact ⟨[], [';'], rfl, rfl⟩
    · exact ⟨[';'], [], rfl, rfl⟩
  have hok : (match run .statement { source := ";".toList } semicolonState with
      | .ok _ _ => true
      | .error _ _ => false) = true := by decide +kernel
  have hprogress := (parse_makes_progress ";".toList {}).2.2.2.2.2 .statement
    { source := ";".toList } semicolonState hready trivial
  cases h : run .statement { source := ";".toList } semicolonState with
  | error e st' =>
    rw [h] at hok
    cases hok
  | ok a st' =>
    rw [h] at hprogress
    exact ⟨st', rfl, hprogress.2.1⟩

end Downlevel.Grammar
