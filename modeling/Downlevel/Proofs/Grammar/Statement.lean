import Downlevel.Proofs.Grammar.Expression

/-!
# Statements and whole programs keep the frame

With the last parts of the grammar every rule does what is asked of it
(`calls_run`).  A program that is parsed was
therefore gone through by steps (`steps_of_parse`).
-/

set_option synthInstance.maxSize 1000000000000000000
set_option synthInstance.maxHeartbeats 200000

namespace Downlevel.Grammar

open Grammar.Parser

section

variable {c : Setting} {call : Reference} {n : Nat} {f : Frame} {v : View} {kind : Kind}

/-! ## Imports -/

/-- The tokens that tell how an `as` after the word `type` is meant. -/
theorem keeps_typeNamedAs_ahead :
    KeepsLoose c (do
      next
      next
      if ← isName "as" then return true else isOneOf [.comma, .braceR]) :=
  Takes.keepsLoose

/-- An import declaration after its keyword. -/
theorem keeps_importDeclaration_rest :
    KeepsLoose c (do
      if (← get).isType && ((← isName "type") || (← is .kwTypeOf)) then next
      if ← is .string then
        next
        semicolon
      else if ← is .name then
        if ← peekIs .eq then fault .importAssignment
        else
          identifier .blockScoped
          if ← eat .comma then importedNames else moduleSource
      else importedNames) :=
  Takes.keepsLoose

instance : Takes c n f kind importDeclaration f where
  runs _ _ := Runs.settle ((Runs.expect (.freed (.inl rfl))).bind fun _ _ _ =>
    keeps_importDeclaration_rest.run (.inr rfl))

/-- The tokens that tell an import of types from another one. -/
theorem runs_typeImport_ahead {g : Frame} (hp : Passes f v.cur.kind .none g) (hg : g.IsLoose) :
    Runs c n f.plain v (do
      next
      if (← isName "type") || ((← flow) && (← is .kwTypeOf)) then
        next
        return (← isOneOf [.braceL, .star]) || ((← is .name) && !(← isName "from"))
      else return false) (fun _ => g.plain) fun _ _ => True := by
  have : Loose g := ⟨hg⟩
  exact (Runs.next hp).bind fun _ w _ => Takes.run

instance : Takes c n f .kwImport importRule f where
  runs v hkind := by
    have hp : Passes f v.cur.kind .none f.freed := .freed (.inl hkind)
    unfold importRule
    simp only [runs_looks]
    refine Runs.ite (fun _ => ?_) fun _ => Takes.run
    exact (Runs.lookahead fun _ _ => runs_typeImport_ahead hp (.inr rfl)).bind fun b w _ => Takes.run

/-! ## Export lists -/

/-- The parts of an export list put nothing into a context. -/
theorem runs_exportName :
    Runs c n f.plain v exportName (fun _ => f.plain) fun _ w => w.bare = v.bare := by
  unfold exportName
  simp only [runs_looks]
  refine Runs.ite (fun h => (Runs.next_neutral ?_).weaken fun _ _ h => h.bare) fun _ =>
    Runs.unexpected
  rcases Bool.or_eq_true_iff.mp h with h | h
  · exact isNeutral_of_isNameLike h
  · exact (of_decide_eq_true h : v.cur.kind = .string) ▸ rfl

theorem runs_exportSpecifier :
    Runs c n f.plain v exportSpecifier (fun _ => f.plain) fun _ w => w.bare = v.bare := by
  have hrest : ∀ w : View, w.bare = v.bare → Runs c n f.plain w (do
      exportName
      if ← isName "as" then
        next
        exportName) (fun _ => f.plain) fun _ w' => w'.bare = v.bare := by
    intro w hw
    refine runs_exportName.bind fun _ w₁ hw₁ => ?_
    simp only [runs_looks]
    refine Runs.ite (fun h => ?_) fun _ => Runs.pure rfl (hw₁.trans hw)
    have hkind : w₁.cur.kind = .name := of_decide_eq_true (Bool.and_eq_true_iff.mp h).1
    refine (Runs.nextAt hkind (.neutral rfl)).bind fun _ w₂ hw₂ => ?_
    exact runs_exportName.weaken fun _ w₃ hw₃ => by rw [hw₃, hw₂.bare, hw₁, hw]
  unfold exportSpecifier
  simp only [runs_looks]
  refine Runs.ite (fun _ => ?_) fun _ => hrest v rfl
  refine Runs.role.bind fun _ w hw => hrest w ?_
  rw [hw]

theorem runs_atTypeExportSpecifier {s : Stage} :
    Runs c n s v atTypeExportSpecifier (fun _ => s) fun _ w => w.bare = v.bare := by
  unfold atTypeExportSpecifier
  simp only [runs_looks]
  refine Runs.ite (fun _ => Runs.peek fun t => ?_) fun _ => Runs.pure rfl rfl
  simp only [runs_looks]
  exact Runs.pure rfl rfl

/-- No name of an export list has a context when it loses its role. -/
theorem runs_exportList (hf : f.IsLoose) (hcontext : v.cur.context = none) :
    Runs c n f.plain v exportList (fun _ => f.plain) fun _ _ => True := by
  unfold exportList
  refine Runs.tokenCountBare hcontext fun start hstart => ?_
  refine (Runs.expect (.loose hf)).bind fun _ w hw => ?_
  refine (Runs.commaListBare (b := some start) hw.bare fun w hw => ?_).bind fun _ w hw => ?_
  · refine runs_atTypeExportSpecifier.bind fun b w₁ hw₁ => ?_
    refine Runs.ite (fun _ => Runs.inType ?_) fun _ => ?_
    · refine (Runs.next (.loose (.inl rfl))).bind fun _ w₂ hw₂ => ?_
      exact runs_exportSpecifier.weaken fun _ w₃ hw₃ => by
        rw [hw₃, hw₂.bare]
        exact hw₁.trans hw
    · exact runs_exportSpecifier.weaken fun _ w₂ hw₂ => by rw [hw₂, hw₁, hw]
  · refine (Runs.next (.loose hf)).bind fun _ w' hw' => ?_
    simp only [runs_looks]
    refine Runs.ite (fun _ => ?_) fun _ => Takes.run
    refine (Runs.modifyFrom (h := fun t => { t with role := none }) hstart fun t ht =>
      ⟨rfl, rfl, rfl, rfl, rfl, id, fun hsome => absurd (ht ?_) hsome⟩).bind fun _ w _ => ?_
    · rw [hw'.bare, hw.2]
    · exact Takes.run

theorem runs_atTypeExport {s : Stage} :
    Runs c n s v atTypeExport (fun _ => s) fun _ w => w.cur = v.cur := by
  unfold atTypeExport
  simp only [runs_looks]
  refine Runs.ite (fun _ => Runs.peek fun t => ?_) fun _ => Runs.pure rfl rfl
  refine Runs.ite (fun _ => ?_) fun _ => Runs.pure rfl rfl
  simp only [runs_looks]
  exact Runs.pure rfl rfl

theorem keeps_typeExport (hc : Calls c call) : KeepsLoose c (typeExport call) :=
  Takes.keepsLoose

/-! ## Declarations -/

/-- Parts that are only run in a type. -/
theorem Takes.ifType {p q : Parser Unit} (hp : ∀ s : LooseFrame, Takes c n s.frame kind p s.frame)
    (hq : Takes c n f kind q f) :
    Takes c n f kind (do if (← get).isType then p else q) f where
  runs v hv := by
    refine Runs.look (Q := fun st => st.isType = f.isType) (fun st ha _ => ⟨st, rfl, ha.isType⟩)
      fun st hst => ?_
    exact Runs.ite (fun h => (hp ⟨f, .inl (hst ▸ h)⟩).runs v hv) fun _ => hq.runs v hv

instance [Calls c call] : Takes c n f kind (enumDeclaration call) f :=
  Takes.ifType inferInstance inferInstance

instance [Calls c call] : Takes c n f kind (namespaceDeclaration call) f :=
  Takes.ifType inferInstance inferInstance

instance [hc : Calls c call] : Takes c n f .name (nameStatement call) f where
  runs v hkind := by
    refine Runs.peek fun t => Runs.ite (fun hcolon => ?_) fun _ => Takes.runs _ hkind
    -- the token that was looked at is the one ahead after the name
    refine (Runs.next (v := { v with after := some (.normal, t.kind) })
      (.neutral (hkind ▸ rfl))).bind fun _ w hw => ?_
    exact Takes.runs w ((hw.kind _ rfl).trans hcolon)

/-! ## Exports -/

theorem keeps_exportDefault (hc : Calls c call) : Keeps c (exportDefault call) :=
  Takes.keeps

theorem runs_exported (hc : Calls c call) (hf : f.IsLoose) (hcontext : v.cur.context = none) :
    Runs c n f.plain v (exported call) (fun _ => f.plain) fun _ _ => True := by
  have : Loose f := ⟨hf⟩
  unfold exported
  simp only [runs_looks]
  split
  case h_2 => exact runs_exportList hf hcontext
  all_goals exact Takes.run

instance [hc : Calls c call] : Takes c n f .kwExport (exportRule call) f where
  runs v hkind := by
    refine Runs.tokenCount fun i hi _ => ?_
    have : AtMost n i := ⟨hi⟩
    refine runs_atTypeExport.bind fun b w hw => Runs.ite (fun _ => Takes.run) fun _ => ?_
    refine Runs.settle ((Runs.nextAt (hw ▸ hkind) (.freed (.inr rfl))).bind fun _ w hw => ?_)
    simp only [runs_looks]
    exact (runs_exported hc (.inr rfl) hw.context).bind fun _ w _ => Takes.run

/-! ## Statements of every form -/

instance [Calls c call] : Takes c n f kind (statement call) f := by
  unfold statement
  refine Takes.after_cur fun t => ?_
  generalize t.kind = kind
  split <;> infer_instance

/-! ## Programs -/

/-- A rule does what is asked of it if those that it refers to do. -/
theorem obeys_define (hc : Calls c call) (rule : Rule) : Obeys c rule (define call rule) := by
  cases rule with
  | statement => exact Takes.keeps (p := statement call)
  | assignment noIn => exact Takes.keeps (p := assignment call noIn)
  | unary => exact Takes.keeps (p := unary call)
  | newExpression => exact fun n f => Takes.runs (p := newExpression call)
  | binding role => exact Takes.keeps (p := binding call role)
  | type conditional => exact Takes.keepsLoose (p := typeRule call conditional)
  | typeOperand => exact Takes.keepsLoose (p := typeOperand call)
  | element after => exact fun n f b v hkind => runs_element hc hkind

/-- The rules of a weight below a bound. -/
def runBelow (bound : Nat) : Reference :=
  fun rule c st => if weight c rule st < bound then run rule c st else stalled c st

theorem run_apply (rule : Rule) (c : Setting) (st : State) :
    run rule c st = define (runBelow (weight c rule st)) rule c st := by
  change runFrom rule c st = _
  rw [runFrom]
  rfl

theorem Obeys.of_apply {rule : Rule} {p : Parser Unit}
    (h : ∀ st, ∃ q, Obeys c rule q ∧ p c st = q c st) : Obeys c rule p := by
  cases rule with
  | statement | assignment | unary | binding =>
    intro n f v hn st
    obtain ⟨q, hq, heq⟩ := h st
    rw [heq]
    exact hq n f v hn st
  | type | typeOperand | newExpression =>
    intro n f v hf hn st
    obtain ⟨q, hq, heq⟩ := h st
    rw [heq]
    exact hq n f v hf hn st
  | element after =>
    intro n f b v hkind hn st
    obtain ⟨q, hq, heq⟩ := h st
    rw [heq]
    exact hq n f b v hkind hn st

theorem obeys_stalled (c : Setting) (rule : Rule) : Obeys c rule stalled := by
  cases rule <;> intro n <;> intros <;> exact Runs.throw

theorem calls_runBelow (c : Setting) (bound : Nat) : Calls c (runBelow bound) := by
  induction bound using Nat.strongRecOn with
  | ind bound ih =>
    refine ⟨fun rule => Obeys.of_apply fun st => ?_⟩
    by_cases hlt : weight c rule st < bound
    · refine ⟨_, obeys_define (ih _ hlt) rule, ?_⟩
      rw [runBelow, if_pos hlt, run_apply]
    · refine ⟨_, obeys_stalled c rule, ?_⟩
      rw [runBelow, if_neg hlt]

/-- Every rule does what is asked of it. -/
theorem calls_run (c : Setting) : Calls c run where
  obeys rule := Obeys.of_apply fun st =>
    ⟨_, obeys_define (calls_runBelow c _) rule, run_apply rule c st⟩

theorem runs_program :
    Runs c n f.plain v program (fun _ => f.plain) fun _ w => w.cur.kind = .eof := by
  unfold program
  have := calls_run c
  exact EndsAt.runs v

end

/-- The frame around a whole program. -/
def Frame.outer : Frame :=
  { brackets := [], contexts := [], depth := 0, isType := false, free := false }

/-- A program that is parsed was gone through by steps, up to the end of the source. -/
theorem steps_of_parse {source : Text} {o : Options} {tokens : Array Token}
    (h : parse source o = .ok tokens) :
    ∃ st st', State.initial source = .ok st ∧ st'.tokens = tokens ∧ st'.cur.kind = .eof
      ∧ Steps (Setting.ofOptions source o) 0 (Frame.outer.plain, st) (Frame.outer.plain, st') := by
  obtain ⟨st, st', hinit, hprogram, rfl⟩ := exists_program_of_parse h
  obtain ⟨_, _, -, hst⟩ := State.exists_of_initial hinit
  have hrun := runs_program (c := Setting.ofOptions source o) (n := 0) (f := Frame.outer)
    (v := { cur := st.cur, count := 0 }) (Nat.le_refl 0) st (by rw [hst]; exact ⟨rfl, rfl, rfl⟩)
    ⟨rfl, by simp, Nat.zero_le _, by simp⟩
  rw [hprogram] at hrun
  obtain ⟨hsteps, w, -, hsees, hw⟩ := hrun
  exact ⟨st, st', hinit, rfl, hsees.cur ▸ hw, hsteps⟩

end Downlevel.Grammar
