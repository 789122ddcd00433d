import Downlevel.Proofs.Grammar.Invariant.Element
import Downlevel.Proofs.Grammar.ModuleForm

/-!
# Tokens of types

Whatever is finished while a type is read belongs to the type.  So the parts of the grammar that
only read types leave nothing behind that is not one.
-/

set_option synthInstance.maxSize 1000000000

namespace Downlevel.Grammar

open Grammar.Parser

/-- The tokens from `a` up to `b` are there and belong to types. -/
def TypesBetween (ts : Array Token) (a b : Nat) : Prop :=
  ∀ i, a ≤ i → i < b → ∃ t, ts[i]? = some t ∧ t.isType = true

/-- A type is being read, and every token from an index on belongs to one. -/
structure TypedFrom (n : Nat) (st : State) : Prop where
  inside : st.isType = true
  finished : ∀ {i : Nat} {t : Token}, n ≤ i → st.tokens[i]? = some t → t.isType = true

variable {c : Setting} {n a b d : Nat} {st st' : State} {ts : Array Token} {p : Parser Unit}

theorem TypesBetween.refl : TypesBetween ts a a :=
  fun _ hi hlt => absurd hi (Nat.not_le_of_lt hlt)

theorem TypesBetween.trans (h : TypesBetween ts a b) (h' : TypesBetween ts b d) :
    TypesBetween ts a d := by
  intro i ha hd
  by_cases hb : i < b
  · exact h i ha hb
  · exact h' i (Nat.le_of_not_lt hb) hd

/-! ## Reading types -/

theorem TypedFrom.pointwise {R : Token → Token → Prop}
    (hR : ∀ {t u}, R t u → t.isType = true → u.isType = true) {us : Array Token}
    (h : Pointwise R st.tokens us) (hst : TypedFrom n st) : TypedFrom n { st with tokens := us } := by
  refine ⟨hst.inside, fun {i u} hi hu => ?_⟩
  obtain ⟨t, ht, htu⟩ := h.related i u hu
  exact hR htu (hst.finished hi ht)

theorem TypedFrom.finish {t : Token} {pos : Nat} (hst : TypedFrom n st) :
    TypedFrom n (st.finish t pos) := by
  refine ⟨hst.inside, fun {i u} hi hu => ?_⟩
  rw [State.finish, Array.getElem?_push] at hu
  split at hu
  · cases hu
    simp [State.finished, hst.inside]
  · exact hst.finished hi hu

instance : TagInvariant c (TypedFrom n) where
  finish _ _ _ hst := hst.finish
  finishIn _ _ hst := hst.finish
  regex _ hst := ⟨hst.inside, hst.finished⟩
  role _ _ hst := ⟨hst.inside, hst.finished⟩
  context _ _ hst := ⟨hst.inside, hst.finished⟩
  surround _ _ _ hst := ⟨hst.inside, hst.finished⟩
  relabel h hst := hst.pointwise (fun hu ht => hu.isType.trans ht) h
  openElement _ hst := ⟨hst.inside, hst.finished⟩

instance {A : Prop} : AllowsTypes c A (TypedFrom n) where
  enterType _ hst := ⟨rfl, hst.finished⟩
  leaveType _ hst hst' := ⟨hst.inside, hst'.finished⟩
  retype _ h hst := hst.pointwise (fun hu ht => hu.isType ht) h

instance : RulesMaintain c (TypedFrom n) run :=
  rulesMaintain_of_keeps (calls_run c) keeps_run

/-- What is read in a type belongs to it. -/
theorem typesBetween_of_inType [hp : Maintains c True (TypedFrom st.tokens.size) p]
    (h : inType p c st = .ok () st') : TypesBetween st'.tokens st.tokens.size st'.tokens.size := by
  obtain ⟨st₁, hrun, rfl⟩ := exists_of_inType h
  have hstart : TypedFrom st.tokens.size { st with isType := true } :=
    ⟨rfl, fun hi ht => absurd (Array.getElem?_eq_some_iff.mp ht).1 (Nat.not_lt_of_le hi)⟩
  have hend := hp.run trivial hstart hrun
  intro i hi hlt
  exact ⟨_, Array.getElem?_eq_getElem hlt, hend.finished hi (Array.getElem?_eq_getElem hlt)⟩

/-- A type that is read under a condition. -/
theorem typesBetween_of_ite {b : Bool}
    (hp : p c st = .ok () st' → TypesBetween st'.tokens st.tokens.size st'.tokens.size)
    (h : (if b = true then p else pure ()) c st = .ok () st') :
    TypesBetween st'.tokens st.tokens.size st'.tokens.size := by
  cases b with
  | true => exact hp h
  | false =>
    cases h
    exact .refl

theorem typesBetween_of_maybeAnnotation (h : maybeAnnotation run c st = .ok () st') :
    TypesBetween st'.tokens st.tokens.size st'.tokens.size := by
  unfold maybeAnnotation typeAnnotation at h
  simp only [Looks.bind_apply] at h
  exact typesBetween_of_ite typesBetween_of_inType h

theorem typesBetween_of_maybeReturnType (h : maybeReturnType run c st = .ok () st') :
    TypesBetween st'.tokens st.tokens.size st'.tokens.size := by
  unfold maybeReturnType at h
  simp only [Looks.bind_apply] at h
  exact typesBetween_of_ite typesBetween_of_inType h

theorem typesBetween_of_maybeTypeParameters (h : maybeTypeParameters run c st = .ok () st') :
    TypesBetween st'.tokens st.tokens.size st'.tokens.size := by
  unfold maybeTypeParameters typeArguments at h
  simp only [Looks.bind_apply] at h
  exact typesBetween_of_ite typesBetween_of_inType h

/-- Marking tokens makes them types. -/
theorem typesBetween_of_markTypesFrom (h : markTypesFrom a c st = .ok () st') :
    TypesBetween st'.tokens a st'.tokens.size := by
  cases h
  intro i hi hlt
  refine ⟨_, Array.getElem?_eq_getElem hlt, ?_⟩
  simp [hi]

end Downlevel.Grammar
