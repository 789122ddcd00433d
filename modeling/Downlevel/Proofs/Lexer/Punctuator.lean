import Downlevel.Proofs.Lexer.Greater

/-!
# The longest punctuator

Ordinary code is cut at the longest punctuator of a table, except that a `?` in front of a
number that starts with a dot stands alone.
-/

namespace Downlevel.Lexer

open Character

variable {cs mark : Text} {kind : Kind} {c : Char} {row : List (Text × Kind)}

/-- The punctuators of ordinary code by their first characters: the rest of each, and its kind. -/
def marks : List (Char × List (Text × Kind)) :=
  [('{', [([], .braceL)]), ('}', [([], .braceR)]), ('(', [([], .parenL)]), (')', [([], .parenR)]),
    ('[', [([], .bracketL)]), (']', [([], .bracketR)]), (';', [([], .semi)]), (',', [([], .comma)]),
    (':', [([], .colon)]), ('~', [([], .tilde)]), ('@', [([], .at)]), ('\x60', [([], .backQuote)]),
    ('.', [([], .dot), (['.', '.'], .ellipsis)]),
    ('?', [([], .question), (['.'], .questionDot), (['?'], .nullishCoalescing), (['?', '='], .assign)]),
    ('=', [([], .eq), (['>'], .arrow), (['='], .equality), (['=', '='], .equality)]),
    ('!', [([], .bang), (['='], .equality), (['=', '='], .equality)]),
    ('+', [([], .plusMin), (['+'], .incDec), (['='], .assign)]),
    ('-', [([], .plusMin), (['-'], .incDec), (['='], .assign)]),
    ('*', [([], .star), (['*'], .exponent), (['='], .assign), (['*', '='], .assign)]),
    ('/', [([], .slash), (['='], .assign)]),
    ('%', [([], .modulo), (['='], .assign)]),
    ('^', [([], .bitXor), (['='], .assign)]),
    ('&', [([], .bitAnd), (['&'], .logicalAnd), (['='], .assign), (['&', '='], .assign)]),
    ('|', [([], .bitOr), (['|'], .logicalOr), (['='], .assign), (['|', '='], .assign)]),
    ('<', [([], .lessThan), (['<'], .bitShift), (['='], .relational), (['<', '='], .assign)]),
    ('>', [([], .greaterThan), (['>'], .bitShift), (['>', '>'], .bitShift), (['='], .relational),
      (['>', '='], .assign), (['>', '>', '='], .assign)])]

/-- The punctuators of ordinary code and their kinds. -/
def punctuators : List (Text × Kind) :=
  marks.flatMap fun row => row.2.map fun p => (row.1 :: p.1, p.2)

/-- A `?` in front of a number that starts with a dot. -/
def isConditional : Text → Bool
  | '?' :: '.' :: c :: _ => isDigit c
  | _ => false

/-- The longest punctuator that a text starts with. -/
def IsLongest (cs mark : Text) (kind : Kind) : Prop :=
  (mark, kind) ∈ punctuators ∧ mark <+: cs
    ∧ ∀ p ∈ punctuators, p.1 <+: cs → p.1.length ≤ mark.length

/-- The punctuator that ordinary code is cut at. -/
def IsCut (cs mark : Text) (kind : Kind) : Prop :=
  if isConditional cs then mark = ['?'] ∧ kind = .question else IsLongest cs mark kind

/-- A kind of the table. -/
def isPunctuator (kind : Kind) : Bool :=
  punctuators.any (·.2 == kind)

theorem cons_isPrefix_iff : (c :: mark) <+: cs ↔ ∃ rest, cs = c :: rest ∧ mark <+: rest := by
  cases cs with
  | nil => simp
  | cons d rest =>
    rw [List.cons_prefix_cons]
    constructor
    · rintro ⟨rfl, h⟩
      exact ⟨rest, rfl, h⟩
    · rintro ⟨_, heq, h⟩
      cases heq
      exact ⟨rfl, h⟩

/-- The punctuators that a text can start with are in the row of its first character. -/
theorem exists_of_isPrefix {p : Text × Kind} (hp : p ∈ punctuators) (hcs : p.1 <+: cs) :
    ∃ c row q rest, marks.lookup c = some row ∧ q ∈ row ∧ cs = c :: rest ∧ q.1 <+: rest
      ∧ p.1.length = q.1.length + 1 := by
  have hlookup : ∀ row ∈ marks, marks.lookup row.1 = some row.2 := by decide
  obtain ⟨row, hrow, hp⟩ := List.mem_flatMap.mp hp
  obtain ⟨q, hq, rfl⟩ := List.mem_map.mp hp
  obtain ⟨rest, hcs, hprefix⟩ := cons_isPrefix_iff.mp hcs
  exact ⟨row.1, row.2, q, rest, hlookup row hrow, hq, hcs, hprefix, rfl⟩

theorem mem_of_lookup_marks (h : marks.lookup c = some row) : (c, row) ∈ marks := by
  obtain ⟨_, _, hmarks, -⟩ := List.lookup_eq_some_iff.mp h
  simp [hmarks]

/-- The longest rest in a row makes the longest punctuator. -/
theorem isCut_cons (hrow : marks.lookup c = some row)
    (hnumber : isConditional (c :: cs) = false) (hmark : (mark, kind) ∈ row) (hcs : mark <+: cs)
    (hlongest : ∀ q ∈ row, q.1 <+: cs → q.1.length ≤ mark.length) :
    IsCut (c :: cs) (c :: mark) kind := by
  rw [IsCut, hnumber]
  refine ⟨List.mem_flatMap.mpr ⟨_, mem_of_lookup_marks hrow, List.mem_map_of_mem hmark⟩,
    List.cons_prefix_cons.mpr ⟨rfl, hcs⟩, fun p hp hpcs => ?_⟩
  obtain ⟨_, row', q, _, hrow', hq, heq, hqcs, hlength⟩ := exists_of_isPrefix hp hpcs
  cases heq
  obtain rfl := Option.some.inj (hrow.symm.trans hrow')
  rw [hlength]
  exact Nat.succ_le_succ (hlongest q hq hqcs)

/-- What a text is cut at is in the table, and the text starts with it. -/
theorem IsCut.mem (h : IsCut cs mark kind) : (mark, kind) ∈ punctuators ∧ mark <+: cs := by
  unfold IsCut at h
  split at h
  · rename_i hnumber
    obtain ⟨rfl, rfl⟩ := h
    unfold isConditional at hnumber
    split at hnumber
    · exact ⟨by decide, by simp⟩
    · cases hnumber
  · exact ⟨h.1, h.2.1⟩

/-- A text is cut in one way only. -/
theorem IsCut.unique {mark' : Text} {kind' : Kind} (h : IsCut cs mark kind)
    (h' : IsCut cs mark' kind') : mark' = mark ∧ kind' = kind := by
  have hlookup : ∀ p ∈ punctuators, punctuators.lookup p.1 = some p.2 := by decide +kernel
  unfold IsCut at h h'
  split at h
  · rename_i hnumber
    rw [if_pos hnumber] at h'
    exact ⟨h'.1.trans h.1.symm, h'.2.trans h.2.symm⟩
  · rename_i hnumber
    rw [if_neg hnumber] at h'
    have hlength := Nat.le_antisymm (h.2.2 _ h'.1 h'.2.1) (h'.2.2 _ h.1 h.2.1)
    obtain rfl := (List.prefix_of_prefix_length_le h'.2.1 h.2.1 (Nat.le_of_eq hlength)).eq_of_length
      hlength
    exact ⟨rfl, Option.some.inj ((hlookup _ h'.1).symm.trans (hlookup _ h.1))⟩

theorem isCut_greater (cs : Text) : (('>' :: cs).take (punctuator?.greater cs).2).length
      = (punctuator?.greater cs).2
    ∧ IsCut ('>' :: cs) (('>' :: cs).take (punctuator?.greater cs).2) (punctuator?.greater cs).1 := by
  unfold punctuator?.greater
  split
  all_goals
    exact ⟨rfl, isCut_cons rfl rfl (by simp) (by simp) (by simp_all [cons_isPrefix_iff])⟩

/-- What is read in ordinary code is what it is cut at. -/
theorem punctuator?_cases (cs : Text) :
    (∃ kind n, punctuator? false cs = some (kind, n) ∧ (cs.take n).length = n
        ∧ IsCut cs (cs.take n) kind)
      ∨ punctuator? false cs = none ∧ ∀ row ∈ marks, ∀ rest, cs ≠ row.1 :: rest := by
  unfold punctuator?
  split
  -- no two dots follow
  case h_14 rest hellipsis =>
    refine .inl ⟨_, _, rfl, rfl, isCut_cons rfl rfl (by simp) (by simp) ?_⟩
    simp only [List.forall_mem_cons, cons_isPrefix_iff]
    refine ⟨fun _ => Nat.le_refl 0, ?_, nofun⟩
    rintro ⟨_, rfl, _, rfl, -⟩
    exact absurd rfl (hellipsis _)
  case h_15 c rest =>
    refine .inl ?_
    split
    · exact ⟨_, _, rfl, rfl, by simp_all [IsCut, isConditional]⟩
    · exact ⟨_, _, rfl, rfl, isCut_cons rfl (by simp_all [isConditional]) (by simp) (by simp)
        (by simp)⟩
  case h_16 rest hshort =>
    exact .inl ⟨_, _, rfl, rfl, isCut_cons rfl (by simp_all [isConditional]) (by simp) (by simp)
      (by simp)⟩
  case h_19 rest hdot _ _ hlong =>
    exact .inl ⟨_, _, rfl, rfl, isCut_cons rfl (by simp_all [isConditional]) (by simp) (by simp)
      (by simp_all [cons_isPrefix_iff])⟩
  case h_55 rest => exact .inl ⟨_, _, rfl, isCut_greater rest⟩
  case h_56 =>
    refine .inr ⟨rfl, ?_⟩
    simp only [marks, List.forall_mem_cons]
    repeat' constructor
    all_goals first | assumption | nofun
  all_goals
    exact .inl ⟨_, _, rfl, rfl, isCut_cons rfl rfl (by simp) (by simp)
      (by simp_all [cons_isPrefix_iff])⟩

/-- Ordinary code is cut at a mark exactly if it is read there. -/
theorem isCut_iff :
    IsCut cs mark kind ↔ mark <+: cs ∧ punctuator? false cs = some (kind, mark.length) := by
  rcases punctuator?_cases cs with ⟨kind', n, hsome, hlength, hcut⟩ | ⟨hnone, hmarks⟩
  · constructor
    · intro h
      obtain ⟨rfl, rfl⟩ := h.unique hcut
      exact ⟨h.mem.2, by rw [hlength, hsome]⟩
    · rintro ⟨hmark, h⟩
      obtain ⟨rfl, rfl⟩ := Prod.mk.inj (Option.some.inj (hsome.symm.trans h))
      rwa [← List.prefix_iff_eq_take.mp hmark] at hcut
  · refine iff_of_false (fun h => ?_) (by rw [hnone]; exact fun h => nomatch h.2)
    obtain ⟨c, row, _, rest, hrow, -, hcs, -⟩ := exists_of_isPrefix h.mem.1 h.mem.2
    exact hmarks _ (mem_of_lookup_marks hrow) rest hcs

/-- A punctuator that is read, also inside a type, is in the table. -/
theorem mem_of_punctuator? {inType : Bool} {n : Nat} (h : punctuator? inType cs = some (kind, n)) :
    ∃ mark, (mark, kind) ∈ punctuators ∧ mark <+: cs ∧ mark.length = n := by
  have hcode : ∀ {cs}, punctuator? false cs = some (kind, n) →
      ∃ mark, (mark, kind) ∈ punctuators ∧ mark <+: cs ∧ mark.length = n := by
    intro cs h
    rcases punctuator?_cases cs with ⟨_, _, hsome, hlength, hcut⟩ | ⟨hnone, -⟩
    · cases hsome.symm.trans h
      exact ⟨_, hcut.mem.1, hcut.mem.2, hlength⟩
    · cases hnone.symm.trans h
  cases inType with
  | false => exact hcode h
  | true =>
    obtain ⟨rest, rfl⟩ | heq := punctuator?_eq cs
    · cases h
      exact ⟨['>'], by decide, by simp, rfl⟩
    · exact hcode (heq ▸ h)

end Downlevel.Lexer
