import Downlevel.Proofs.Lower.Plain

/-!
# Class keywords that begin no class

Like every keyword, `class` may be the name of a property, as in `a.class`.
Lowering takes every `class` for the beginning of a class, and so breaks on
these.  In a plain program whose classes have no fields nothing else can go
wrong (`transform_of_hasPlainClasses`).
-/

namespace Downlevel

open Grammar

/-! ## Classes that begin -/

namespace Grammar

theorem beginsClass_iff {tokens : Array Token} {i : Nat} :
    BeginsClass tokens i ↔ tokens[i]?.map Token.kind = some .kwClass
      ∧ (tokens[i]?.bind Token.context).isSome = true
      ∧ ∀ j < i, tokens[j]?.bind Token.context ≠ tokens[i]?.bind Token.context := by
  constructor
  · rintro ⟨t, id, ht, hkind, hid, hnew⟩
    rw [ht, Option.map_some, Option.bind_some, hkind, hid]
    refine ⟨rfl, rfl, fun j hj hcontext => ?_⟩
    obtain ⟨u, hu, hu'⟩ := Option.bind_eq_some_iff.mp hcontext
    exact hnew j u hj hu hu'
  · rintro ⟨hkind, hcontext, hnew⟩
    obtain ⟨t, ht, hkind⟩ := Option.map_eq_some_iff.mp hkind
    rw [ht, Option.bind_some] at hcontext hnew
    obtain ⟨id, hid⟩ := Option.isSome_iff_exists.mp hcontext
    refine ⟨t, id, ht, hkind, hid, fun j u hj hu hu' => hnew j hj ?_⟩
    rw [hu, Option.bind_some, hu', hid]

instance (tokens : Array Token) (i : Nat) : Decidable (BeginsClass tokens i) :=
  decidable_of_iff _ beginsClass_iff.symm

end Grammar

/-- A plain program whose classes have no fields, and no `class` where a
constructor would be added to. -/
structure Plan.HasPlainClasses (plan : Plan) : Prop where
  plain : plan.program.IsPlain
  fieldless : ∀ i, BeginsClass plan.program.tokens i → ∃ layout, Lower.IsFieldless plan i layout
    ∧ ∀ j, layout.insertPos = some j → plan.program.kindAt j ≠ .kwClass

theorem Plan.hasPlainClasses_iff {plan : Plan} :
    plan.HasPlainClasses ↔ plan.program.IsPlain ∧ ∀ i < plan.program.count,
      BeginsClass plan.program.tokens i → (Lower.fieldlessLayout? plan i).any (fun layout =>
        layout.insertPos.all fun j => plan.program.kindAt j != .kwClass) = true := by
  constructor
  · intro h
    refine ⟨h.plain, fun i _ hbegins => ?_⟩
    obtain ⟨layout, hlayout, hpos⟩ := h.fieldless i hbegins
    rw [(Lower.fieldlessLayout?_eq_some_iff h.plain.untyped).mpr hlayout, Option.any_some]
    cases hinsert : layout.insertPos with
    | none => rfl
    | some j => exact bne_iff_ne.mpr (hpos j hinsert)
  · rintro ⟨hp, h⟩
    refine ⟨hp, fun i hbegins => ?_⟩
    have hlt := Program.lt_count_of_kindAt (Lower.kindAt_of_beginsClass hbegins) (by decide)
    have hany := h i hlt hbegins
    cases hlayout : Lower.fieldlessLayout? plan i with
    | none => simp [hlayout] at hany
    | some layout =>
      rw [hlayout, Option.any_some] at hany
      refine ⟨layout, (Lower.fieldlessLayout?_eq_some_iff hp.untyped).mp hlayout, fun j hj => ?_⟩
      rw [hj] at hany
      exact bne_iff_ne.mp hany

instance (plan : Plan) : Decidable plan.HasPlainClasses :=
  decidable_of_iff _ Plan.hasPlainClasses_iff.symm

/-- Every `class` before an index begins a class. -/
def Program.ClassesBegin (p : Program) (n : Nat) : Prop :=
  ∀ i < n, p.kindAt i = .kwClass → BeginsClass p.tokens i

namespace Lower

section

variable {plan : Plan} {source : Text} {tokens : Array Token} {o : Options}

/-- What lowering can fail with, and what must be there for it. -/
def StrayClass (plan : Plan) (e : Error) : Prop :=
  (e = .invariant .classContext ∨ e = .invariant .classBody)
    ∧ ∃ i, plan.program.kindAt i = .kwClass ∧ ¬BeginsClass plan.program.tokens i

theorem walkable_of_hasPlainClasses (hn : IsNested plan.program.tokens) (h : plan.HasPlainClasses)
    (hbindings : plan.options.has .imports = true →
      ∃ b, plan.bindings = some b ∧ b.replacements = []) :
    Walkable plan (fun w => plan.program.ClassesBegin w.index) (StrayClass plan) := by
  have hsucc : ∀ {w : Work}, plan.program.ClassesBegin w.index →
      (plan.program.kindAt w.index = .kwClass → BeginsClass plan.program.tokens w.index) →
      plan.program.ClassesBegin (w.index + 1) := by
    intro w hw hlast i hi hkind
    rcases Nat.lt_succ_iff_lt_or_eq.mp hi with hi | rfl
    · exact hw i hi hkind
    · exact hlast hkind
  refine ⟨hn, h.plain.untyped, ?_, ?_, ?_, ?_, ?_⟩
  · intro token w hw hlt hkind
    refine ends_rules h.plain hbindings ((ends_lastRules hlt).mono fun _ w' hw' => ?_)
    rw [hw']
    exact ⟨hsucc hw fun hclass => absurd hclass hkind, rfl⟩
  · intro i hbegins
    obtain ⟨layout, hlayout, -⟩ := h.fieldless i hbegins
    exact ⟨layout, hlayout⟩
  · exact fun w hw _ hlast => hsucc hw hlast
  · intro i layout hbegins hlayout w hw _ hinsert
    obtain ⟨layout', hlayout', hpos⟩ := h.fieldless i hbegins
    obtain rfl : layout = layout' := by
      rw [← fieldlessLayout?_eq_some_iff h.plain.untyped] at hlayout hlayout'
      exact Option.some.inj (hlayout.symm.trans hlayout')
    exact hsucc hw fun hclass => absurd hclass (hpos w.index hinsert)
  · intro i hkind hbegins
    exact ⟨⟨.inl rfl, i, hkind, hbegins⟩, ⟨.inr rfl, i, hkind, hbegins⟩⟩

end

/-- A class, and a property called `class` after it. -/
def strayClassSource : Text :=
  "class A {} a.class".toList

/-- A property called `class`. -/
def classPropertySource : Text :=
  "a.class".toList

end Lower

end Downlevel
