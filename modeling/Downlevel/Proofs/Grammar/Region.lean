import Downlevel.Proofs.Grammar.Unfold
import Downlevel.Proofs.Grammar.Statement

/-!
# Regions

What surrounds a place of a program is its region: whether it belongs to a type, and which
scopes and contexts are open.  `Leads p g g'` says that running `p` in the region `g`, in
whatever state, ends in the region that `g'` gives for its result, and that a failure is not
that something was closed that is not open.  The regions of a part of the grammar are put
together from those of its parts, so most of them are found by instances.
-/

set_option synthInstance.maxSize 1000000000000000000
set_option synthInstance.maxHeartbeats 200000

namespace Downlevel.Grammar

open Grammar.Parser

/-- Was something closed that is not open? -/
@[reducible] def isUnderflow : Error → Bool
  | .invariant .scopeUnderflow | .invariant .contextUnderflow
  | .invariant .classContextUnderflow => true
  | _ => false

/-- What surrounds a place of a program, as far as a state shows it. -/
structure Region where
  isType : Bool
  depth : Nat
  contexts : List Nat
  deriving Repr, DecidableEq

/-- The region of a state. -/
def State.region (st : State) : Region :=
  { isType := st.isType, depth := st.depth, contexts := st.contexts }

namespace Region

/-- One function or class body deeper. -/
def deeper (g : Region) : Region :=
  { g with depth := g.depth + 1 }

/-- Inside one more context. -/
def within (g : Region) (id : Nat) : Region :=
  { g with contexts := id :: g.contexts }

/-- In a type. -/
def typed (g : Region) : Region :=
  { g with isType := true }

end Region

/-- The parser leads from one region to another. -/
class Leads {α : Type} (p : Parser α) (g : Region) (g' : outParam (α → Region)) : Prop where
  leads : ∀ c st, st.region = g → match p c st with
    | .ok a st' => st'.region = g' a
    | .error e _ => isUnderflow e = false

namespace Leads

section

variable {α β σ : Type} {p q : Parser α} {f : α → Parser β} {g g₁ : Region} {g' : α → Region}
  {g'' : β → Region} {k : Token → Token} {kind : Kind} {i : Nat} {id : Nat}
  {step : σ → Parser (ForInStep σ)}

instance (priority := low) {q : Parser α} [h : Unfolds p q] [hq : Leads q g g'] : Leads p g g' :=
  h.eq ▸ hq

/-! ## Putting parts together -/

theorem bind_of (hp : Leads p g g') (hf : ∀ a, Leads (f a) (g' a) g'') : Leads (p >>= f) g g'' where
  leads c st hst := Results.bind (hp.leads c st hst) fun a st' hst' => (hf a).leads c st' hst'

instance [hp : Leads p g g'] [hf : ∀ a, Leads (f a) (g' a) g''] : Leads (p >>= f) g g'' :=
  bind_of hp hf

instance {a : α} : Leads (pure a : Parser α) g fun _ => g :=
  ⟨fun _ _ h => h⟩

instance {P : Prop} {inst : Decidable P} [hp : Leads p g g'] [hq : Leads q g g'] :
    Leads (@ite _ P inst p q) g g' := by
  split
  · exact hp
  · exact hq

instance (priority := high) {inst : Decidable (true = true)} [hp : Leads p g g'] :
    Leads (@ite _ (true = true) inst p q) g g' := by
  rwa [if_pos rfl]

instance (priority := high) {inst : Decidable (false = true)} [hq : Leads q g g'] :
    Leads (@ite _ (false = true) inst p q) g g' := by
  rwa [if_neg nofun]

instance [Leads p g fun _ => g] : Leads (discard p) g fun _ => g := by
  rw [Parser.discard_eq]
  infer_instance

instance {f : Unit → Parser β} [hp : Leads p g g'] [hf : ∀ a, Leads (f ()) (g' a) g''] :
    Leads (discard p >>= f) g g'' := by
  rw [Parser.discard_eq, bind_assoc]
  exact bind_of hp hf

/-- A loop keeps the region if every round does so. -/
theorem of_rounds {x : σ} (h : ∀ x, Leads (step x) g fun _ => g) :
    Leads (loop x step) g fun _ => g where
  leads c st hst := by
    refine Results.loop (I := fun _ st => st.region = g) hst fun x st hst => ?_
    refine Results.weaken ((h x).leads c st hst) (fun r _ hround => ?_) fun _ _ he => he
    cases r with
    | done y => exact hround
    | yield y => exact ⟨hround, .inr rfl⟩

instance {x : σ} [h : ∀ x, Leads (step x) g fun _ => g] : Leads (loop x step) g fun _ => g :=
  of_rounds h

/-! ## Single steps -/

instance (priority := low) [Looks p] : Leads p g fun _ => g where
  leads c st hst := by
    rw [Looks.apply_eq (p := p)]
    exact hst

instance : Leads (get : Parser State) g fun _ => g := ⟨fun _ _ h => h⟩
instance : Leads tokenCount g fun _ => g := ⟨fun _ _ h => h⟩
instance : Leads (textFrom i) g fun _ => g := ⟨fun _ _ h => h⟩
instance : Leads (modifyCur k) g fun _ => g := ⟨fun _ _ h => h⟩
instance : Leads (stamp id) g fun _ => g := ⟨fun _ _ h => h⟩
instance : Leads (modifyToken i k) g fun _ => g := ⟨fun _ _ h => h⟩
instance : Leads (modifyFrom i k) g fun _ => g := ⟨fun _ _ h => h⟩
instance : Leads (markTypesFrom i) g fun _ => g := ⟨fun _ _ h => h⟩
instance : Leads enterScope g fun _ => g.deeper := ⟨fun _ _ h => congrArg Region.deeper h⟩
instance : Leads pushContext g g.within := ⟨fun _ st h => congrArg (Region.within · st.nextContext) h⟩

instance {s : Lexer.Scan α} : Leads (scan s) g fun _ => g where
  leads c st hst := by
    unfold scan
    cases s c.source st.pos with
    | error failure pos => rfl
    | ok a pos => exact hst

instance : Leads peek g fun _ => g where
  leads c st hst := by
    rw [peek_apply]
    cases Lexer.next st.isType c.source st.pos with
    | error failure pos => rfl
    | ok t pos => exact hst

instance {mode : Lexer.Mode} : Leads (nextIn mode) g fun _ => g where
  leads c st hst := by
    rw [nextIn_apply]
    cases Lexer.read mode st.isType c.source st.pos with
    | error failure pos => rfl
    | ok t pos => exact hst

instance : Leads rereadRegex g fun _ => g where
  leads c st hst := by
    rw [rereadRegex_apply]
    cases Lexer.regex st.cur.start c.source st.pos with
    | error failure pos => rfl
    | ok t pos => exact hst

theorem of_fault {f : Fault} : Leads (fault f : Parser α) g g' :=
  ⟨fun _ _ _ => rfl⟩

theorem of_unexpected : Leads (unexpected : Parser α) g g' := by
  unfold unexpected
  refine bind_of inferInstance fun t => ?_
  split
  · exact of_fault
  · exact bind_of inferInstance fun _ => of_fault

instance {f : Fault} {offset : Nat} : Leads (faultAt f offset : Parser α) g fun _ => g :=
  ⟨fun _ _ _ => rfl⟩

instance {f : Fault} : Leads (fault f : Parser α) g fun _ => g := of_fault

instance : Leads (unexpected : Parser α) g fun _ => g := of_unexpected

instance : Leads leaveScope g.deeper fun _ => g where
  leads c st hst := by
    have hdepth : st.depth = g.depth + 1 := congrArg Region.depth hst
    rw [leaveScope_apply hdepth]
    exact congrArg (fun r => { r with depth := g.depth }) hst

instance {f : Option Nat → Parser β} [hf : Leads (f (some id)) g g''] :
    Leads (popContext >>= f) (g.within id) g'' where
  leads c st hst := by
    have hcontexts : st.contexts = id :: g.contexts := congrArg Region.contexts hst
    rw [Parser.bind_apply, popContext_apply hcontexts]
    exact hf.leads c _ (congrArg (fun r => { r with contexts := g.contexts }) hst)

/-! ## Speculation and types -/

instance {p : Parser Unit} {f : Bool → Parser β} {g' : Unit → Region} [hp : Leads p g g']
    [htrue : Leads (f true) (g' ()) g''] [hfalse : Leads (f false) g g''] :
    Leads (attempt p >>= f) g g'' where
  leads c st hst := by
    have hattempt : Results c (attempt p) st (fun b st' => st'.region = if b then g' () else g)
        fun e _ => isUnderflow e = false :=
      .attempt (hp.leads c st hst) (fun _ h => h) (fun _ _ _ => hst) fun _ _ he => he
    refine hattempt.bind fun b st' hst' => ?_
    cases b with
    | true => exact htrue.leads c st' hst'
    | false => exact hfalse.leads c st' hst'

instance {p : Parser Unit} [Leads p g fun _ => g] : Leads (attempt p) g fun _ => g := by
  have : Leads (attempt p >>= pure) g fun _ => g := inferInstance
  rwa [bind_pure] at this

instance [hp : Leads p g g'] : Leads (lookahead p) g fun _ => g where
  leads c st hst := Results.lookahead (hp.leads c st hst) fun _ _ _ => hst

instance [hp : Leads p g.typed fun _ => g.typed] : Leads (inType p) g fun _ => g where
  leads c st hst := by
    subst hst
    exact Results.inType (hp.leads c { st with isType := true } rfl)
      (fun _ _ h => congrArg (fun g => { g with isType := st.isType }) h) fun _ _ he => he

/-! ## Small parsers -/

instance : Leads (eat kind) g fun _ => g := by
  unfold eat
  infer_instance

instance : Leads (openContext kind) g g.within := by
  unfold openContext
  exact bind_of inferInstance fun _ => by
    split
    · exact bind_of inferInstance fun id => bind_of inferInstance fun _ => bind_of inferInstance fun _ => ⟨fun _ _ h => h⟩
    · exact of_fault

instance : Leads (closeContext kind) (g.within id) fun _ => g := by
  unfold closeContext
  exact bind_of inferInstance fun _ => by
    split
    · infer_instance
    · exact of_fault

end

/-! ## Types -/

variable {g : Region} {call : Reference}

section

variable [∀ rule g, Leads (call rule) g fun _ => g]

instance : Leads (balanced call) g fun _ => g := by
  unfold balanced
  refine bind_of (of_rounds fun stack => bind_of inferInstance fun t => ?_) inferInstance
  dsimp only
  cases closerOf t.kind with
  | some closer => infer_instance
  | none => cases stack <;> infer_instance

instance : Leads (typeOperand call) g fun _ => g := by
  unfold typeOperand atTypePrefix atTypeOperator
  refine bind_of inferInstance fun _ => bind_of inferInstance fun _ => bind_of inferInstance fun t => ?_
  split <;> infer_instance

/-! ## Bindings and functions -/

instance {role : Role} : Leads (binding call role) g fun _ => g := by
  unfold binding
  refine bind_of inferInstance fun t => ?_
  split <;> infer_instance

instance : Leads (simpleArrow call) g fun _ => g := by
  have : Leads (unexpected : Parser Unit) g.deeper fun _ => g := of_unexpected
  unfold simpleArrow
  infer_instance

/-! ## Classes -/

instance {id id' : Nat} : Leads (classBody call id) (g.within id') fun _ => g := by
  have : Leads (unexpected : Parser Unit) (g.within id') fun _ => g := of_unexpected
  unfold classBody
  infer_instance

/-! ## Elements -/

instance : Leads (tagAttribute call) g fun _ => g := by
  unfold tagAttribute
  have : Leads (do
      match (← cur).kind with
      | .string => nextIn .tag
      | .braceL =>
        next
        call (.assignment false)
        expectIn .braceR .tag
      | .jsxTagStart => call (.element .tag)
      | _ => fault .badAttributeValue) g fun _ => g := by
    refine bind_of inferInstance fun t => ?_
    split <;> infer_instance
  infer_instance

instance : Leads (children call) g fun _ => g := by
  unfold children
  refine of_rounds fun _ => bind_of inferInstance fun t => ?_
  split <;> infer_instance

/-! ## Expressions -/

instance : Leads (optionalMember call) g fun _ => g := by
  unfold optionalMember
  refine bind_of inferInstance fun _ => bind_of inferInstance fun t => ?_
  split <;> infer_instance

instance {noCall : Bool} : Leads (subscripts call noCall) g fun _ => g := by
  unfold subscripts
  refine of_rounds fun _ => bind_of inferInstance fun t => ?_
  split <;> infer_instance

instance : Leads (nameOperand call) g fun _ => g := by
  unfold nameOperand
  refine bind_of inferInstance fun _ => ?_
  split
  · refine bind_of inferInstance fun after => ?_
    split
    · infer_instance
    · split <;> infer_instance
  · infer_instance

/-- Where no element fits, an arrow function with type parameters may do so. -/
instance : Leads (angled call) g fun _ => g := by
  have helement : Leads (call (.element .normal)) g fun _ => g := inferInstance
  have hgeneric : Leads (attempt (genericArrow call)) g fun _ => g := inferInstance
  have hplain : Leads (do
      if ← hasTypes then
        genericArrow call
        return true
      else unexpected) g fun _ => g := inferInstance
  refine ⟨fun c st hst => Results.angled (fun _ => helement.leads c st hst) (fun e st' _ he => ?_)
    (fun _ _ he => he) fun _ => hplain.leads c st hst⟩
  refine Results.weaken (hgeneric.leads c (st'.restore st.snapshot) hst) (fun b _ h => ?_)
    fun _ _ he' => he'
  cases b with
  | true => exact h
  | false => exact he

instance : Leads (operand call) g fun _ => g := by
  unfold operand
  refine bind_of inferInstance fun t => ?_
  split <;> infer_instance

/-! ## Statements -/

instance : Leads (exported call) g fun _ => g := by
  unfold exported
  refine bind_of inferInstance fun t => ?_
  split <;> infer_instance

instance : Leads (statement call) g fun _ => g := by
  unfold statement
  refine bind_of inferInstance fun t => ?_
  split <;> infer_instance

theorem of_define {rule : Rule} : Leads (define call rule) g fun _ => g := by
  cases rule with
  | statement => exact inferInstanceAs (Leads (statement call) g fun _ => g)
  | assignment noIn => exact inferInstanceAs (Leads (assignment call noIn) g fun _ => g)
  | unary => exact inferInstanceAs (Leads (unary call) g fun _ => g)
  | newExpression => exact inferInstanceAs (Leads (newExpression call) g fun _ => g)
  | binding role => exact inferInstanceAs (Leads (binding call role) g fun _ => g)
  | type conditional => exact inferInstanceAs (Leads (typeRule call conditional) g fun _ => g)
  | typeOperand => exact inferInstanceAs (Leads (typeOperand call) g fun _ => g)
  | element after => exact inferInstanceAs (Leads (element call after) g fun _ => g)

end

/-- Running a rule keeps the region, since every rule that it refers to does so. -/
theorem of_runBelow (bound : Nat) : ∀ rule g, Leads (runBelow bound rule) g fun _ => g := by
  induction bound using Nat.strongRecOn with
  | ind bound ih =>
    refine fun rule g => ⟨fun c st hst => ?_⟩
    unfold runBelow
    by_cases hlt : weight c rule st < bound
    · have := ih _ hlt
      rw [if_pos hlt, run_apply]
      exact of_define.leads c st hst
    · rw [if_neg hlt]
      rfl

instance of_run {rule : Rule} : Leads (run rule) g fun _ => g where
  leads c st hst := by
    have := of_runBelow (weight c rule st)
    rw [run_apply]
    exact of_define.leads c st hst

end Leads

end Downlevel.Grammar
