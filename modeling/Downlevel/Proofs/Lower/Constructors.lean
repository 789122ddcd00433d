import Downlevel.Proofs.Lower.FieldRanges
import Downlevel.Proofs.Lower.MemberScan

/-!
# The constructor of a class

The initializers of a class go into its constructor.  That is looked for by name only: a method that
is written `constructor`, whether it is static or not, and never one with the name in quotes.
-/

namespace Downlevel.Lower

open Grammar ClassLayout

/-- The member is a method with a body that is named by the word `constructor`. -/
def IsConstructor (p : Program) (m : Member) : Prop :=
  ∃ name nameEnd paren brace, m.shape = .method name nameEnd paren brace
    ∧ p.isNameAt name "constructor".toList = true

section

variable {plan : Plan} {o : Options} {source : Text} {tokens : Array Token} {start : Work}
  {ms : List Member} {p : Program} {pos : Nat}

theorem insertPos?_isSome_iff {m : Member} :
    (insertPos? p m).isSome = true ↔ IsConstructor p m := by
  unfold insertPos? IsConstructor
  constructor
  · intro h
    split at h
    · rename_i name nameEnd paren brace hshape
      split at h
      · exact ⟨name, nameEnd, paren, brace, hshape, ‹_›⟩
      · cases h
    · cases h
  · rintro ⟨name, nameEnd, paren, brace, hshape, hname⟩
    rw [hshape]
    dsimp only
    rw [if_pos hname]
    rfl

/-- The place of the initializers is in the body of the last constructor. -/
theorem exists_of_findSome? {source : Text} {ts : Array Token} {a e : Nat}
    (hms : InRow source ts a ms e) (h : ms.reverse.findSome? (insertPos? p) = some pos) :
    ∃ before m after name nameEnd paren brace, ms = before ++ m :: after
      ∧ m.shape = .method name nameEnd paren brace
      ∧ p.isNameAt name "constructor".toList = true ∧ (∀ m' ∈ after, ¬IsConstructor p m')
      ∧ pos = insertionPoint p brace (m.stop - 1) ∧ brace ≤ pos ∧ pos < m.stop := by
  obtain ⟨l₁, m, l₂, hsplit, hm, hnone⟩ := List.findSome?_eq_some_iff.mp h
  have heq : ms = l₂.reverse ++ m :: l₁.reverse := by
    rw [← List.reverse_reverse ms, hsplit]
    simp
  have hconstructor : IsConstructor p m := insertPos?_isSome_iff.mp (by rw [hm]; rfl)
  obtain ⟨name, nameEnd, paren, brace, hshape, hname⟩ := hconstructor
  have hpos : pos = insertionPoint p brace (m.stop - 1) := by
    rw [insertPos?, hshape] at hm
    dsimp only at hm
    rw [if_pos hname] at hm
    exact (Option.some.inj hm).symm
  have hmem : m ∈ ms := by rw [heq]; simp
  have hlt : brace < m.stop - 1 := (hms.stands hmem).brace_lt hshape
  have hbody : brace ≤ insertionPoint p brace (m.stop - 1)
      ∧ insertionPoint p brace (m.stop - 1) ≤ m.stop - 1 := insertionPoint_mem hlt
  refine ⟨_, m, _, name, nameEnd, paren, brace, heq, hshape, hname, fun m' hm' hm'' => ?_, hpos,
    by omega, by omega⟩
  have hsome := insertPos?_isSome_iff.mpr hm''
  rw [hnone m' (List.mem_reverse.mp hm')] at hsome
  cases hsome

/-- Tokens that are lowered one by one, with types and an arrow at most, end where a member ends. -/
theorem endsBefore_of_isNarrowAt {a b e : Nat} (hclose : IsClose plan.program e)
    (hms : InRow plan.program.source plan.program.tokens b ms e) (hab : a ≤ b)
    (hnarrow : ∀ k, a ≤ k → k < b → plan.program.IsNarrowAt k) : EndsBefore plan a b := by
  intro w w' hw h
  have hcount : b ≤ plan.program.count := by
    have hlt := Program.lt_count_of_kindAt hclose.kind (by decide)
    have hle := hms.le
    omega
  have hends : Ends plan (repeatTo b token) w (fun _ w' =>
      TypesBetween plan.program.tokens b w'.index) fun _ => True := by
    unfold repeatTo repeatWhile
    refine Ends.loop_partial (fun _ v => a ≤ v.index ∧ v.index ≤ plan.program.count
      ∧ TypesBetween plan.program.tokens b v.index) trivial ?_ ⟨by omega, by omega, ?_⟩
    · rintro _ v ⟨hge, hle, htypes⟩
      rw [ends_bind, ends_bind, ends_index, ends_pure]
      refine Ends.ite (fun hlt => ?_) fun _ => htypes
      have hlt' : v.index < b := of_decide_eq_true hlt
      have hheads : Heads plan Always token v := heads_of_advances hle
      rw [ends_bind]
      refine (hheads.and (ends_token_isNarrowAt hle (hnarrow _ hge hlt'))).weaken
        (fun _ v' hv' => ?_) fun _ _ => trivial
      obtain ⟨⟨honward, -⟩, hthin⟩ := hv'
      refine ⟨Nat.le_trans hge honward.index_le, honward.le_count, typesBetween_iff.mpr fun k => ?_⟩
      -- the first token behind that is no type begins a member, and so is no arrow
      induction k using Nat.strongRecOn with
      | ind k ih =>
        intro hk hkv
        by_contra hvalue
        have hentry := isEntry_of_types hclose hms hk
          (typesBetween_iff.mpr fun j hj hjk => ih j hjk hj (Nat.lt_trans hjk hkv))
          (Bool.eq_false_iff.mpr hvalue)
        exact hentry.kind.2.2 ((hthin k (by omega) hkv).resolve_left hvalue)
    · exact fun k hk hkw => by omega
  exact Ends.of_ok hends h

end

/-- A class with a field and a static method that is named `constructor`. -/
def staticConstructorSource : Text :=
  "class A \x7b x = 1; static constructor() \x7b\x7d \x7d".toList

/-- Its tokens. -/
def staticConstructorTokens : Array Token :=
  #[{ kind := .kwClass, start := 0, stop := 5, context := some 1 },
    { kind := .name, start := 6, stop := 7, role := some .blockScoped },
    { kind := .braceL, start := 8, stop := 9, context := some 1 },
    { kind := .name, start := 10, stop := 11, depth := 1 },
    { kind := .eq, start := 12, stop := 13, depth := 1, rhsEnd := some 6 },
    { kind := .num, start := 14, stop := 15, depth := 1 },
    { kind := .semi, start := 15, stop := 16, depth := 1 },
    { kind := .name, start := 17, stop := 23, depth := 1 },
    { kind := .name, start := 24, stop := 35, depth := 1 },
    { kind := .parenL, start := 35, stop := 36, context := some 2, depth := 2 },
    { kind := .parenR, start := 36, stop := 37, context := some 2, depth := 2 },
    { kind := .braceL, start := 38, stop := 39, context := some 3, depth := 2 },
    { kind := .braceR, start := 39, stop := 40, context := some 3, depth := 2 },
    { kind := .braceR, start := 41, stop := 42, context := some 1 }]

/-- Its members: the field, the semicolon and the method. -/
def staticConstructorMembers : List Member :=
  [⟨3, 6, .field 3 4 (some 4)⟩, ⟨6, 7, .semicolon⟩, ⟨7, 13, .method 8 9 9 11⟩]

theorem classForm_staticConstructor :
    ClassForm staticConstructorSource staticConstructorTokens 0 2 13 staticConstructorMembers := by
  have htypes : ∀ i, TypesBetween staticConstructorTokens i i :=
    fun i k hk hki => absurd hk (Nat.not_le_of_lt hki)
  have hparameters : (FunctionPart.parameters false).Delimited staticConstructorTokens 9 10 :=
    ⟨by decide, 2, ⟨_, rfl, rfl, rfl⟩, ⟨_, rfl, rfl, rfl⟩, fun i t hi hi' => by omega⟩
  have hbody : FunctionPart.body.Delimited staticConstructorTokens 11 12 :=
    ⟨by decide, 3, ⟨_, rfl, rfl, rfl⟩, ⟨_, rfl, rfl, rfl⟩, fun i t hi hi' => by omega⟩
  have hmodifier : IsModifier staticConstructorSource staticConstructorTokens 7 :=
    ⟨_, rfl, rfl, .inr ⟨⟨rfl, by decide +kernel⟩, fun _ => ⟨_, rfl, by decide⟩⟩⟩
  have hfield : HeadStands staticConstructorSource staticConstructorTokens 3 3 4 4 :=
    ⟨by decide, fun i hi hi' => by omega,
      ⟨⟨_, rfl, rfl, rfl⟩, .inl ⟨rfl, _, rfl, by decide⟩⟩, htypes 4, by decide⟩
  have hmethod : HeadStands staticConstructorSource staticConstructorTokens 7 8 9 9 := by
    refine ⟨by decide, fun i hi hi' => ?_,
      ⟨⟨_, rfl, rfl, rfl⟩, .inl ⟨rfl, _, rfl, by decide⟩⟩, htypes 9, by decide⟩
    obtain rfl : i = 7 := by omega
    exact hmodifier
  refine ⟨by decide, ⟨1, ⟨_, rfl, rfl, rfl⟩, ⟨_, rfl, rfl, rfl⟩, ⟨_, rfl, rfl, rfl, rfl⟩⟩, ?_⟩
  refine .cons (.initialized hfield (by decide) ⟨_, rfl, ⟨rfl, rfl⟩, rfl, rfl⟩) ?_
  refine .cons (.semicolon ⟨_, rfl, ⟨rfl, rfl⟩, rfl⟩) ?_
  exact .cons (.method hmethod ⟨_, rfl, rfl⟩ hparameters ⟨[], .nil ⟨_, rfl, rfl, rfl⟩⟩ (htypes 11) (by decide)
    ⟨_, rfl, rfl⟩ hbody) .nil

/-- A class with a method that has the name in quotes. -/
def quotedConstructorSource : Text :=
  "class A \x7b 'constructor'() \x7b\x7d x = 1 \x7d".toList

end Downlevel.Lower
