import Downlevel.Lexer.Read

/-!
# What a scan went through

A scan that reads a token went through a gap, if it skips one, and then through
the characters of the token.  The lemmas here take a scan apart into these
pieces, once for each way of reading.
-/

namespace Downlevel.Lexer

variable {source : Text} {pos stop : Nat} {t : Token} {inType : Bool} {mode : Mode}

/-- What a scan that skips a gap first went through. -/
theorem exists_of_afterGap {inside : Fault} {read : Nat → Text → Outcome Kind}
    (h : afterGap inside read source pos = .ok t stop) :
    ∃ cs rest, Text.dropBytes? source pos = some cs
      ∧ skipGap .space false pos cs = .ok (t.newlineBefore, rest) t.start
      ∧ read t.start rest = .ok t.kind stop
      ∧ t = { kind := t.kind, start := t.start, stop, newlineBefore := t.newlineBefore } := by
  unfold afterGap at h
  cases hdrop : Text.dropBytes? source pos with
  | none => simp [hdrop, fail] at h
  | some cs =>
    simp only [hdrop] at h
    cases hgap : skipGap .space false pos cs with
    | error failure reached => simp [hgap] at h
    | ok a start =>
      obtain ⟨newline, rest⟩ := a
      simp only [hgap] at h
      cases hread : read start rest with
      | error failure reached => simp [hread] at h
      | ok kind stop' =>
        simp only [hread] at h
        cases h
        exact ⟨cs, rest, rfl, hgap, hread, rfl⟩

/-- What a scan that skips nothing went through. -/
theorem exists_of_atOffset {inside : Fault} {read : Nat → Text → Outcome Kind}
    (h : atOffset inside read source pos = .ok t stop) :
    ∃ cs, Text.dropBytes? source pos = some cs ∧ read pos cs = .ok t.kind stop
      ∧ t = { kind := t.kind, start := pos, stop } := by
  unfold atOffset at h
  cases hdrop : Text.dropBytes? source pos with
  | none => simp [hdrop, fail] at h
  | some cs =>
    simp only [hdrop] at h
    cases hread : read pos cs with
    | error failure reached => simp [hread] at h
    | ok kind stop' =>
      simp only [hread] at h
      cases h
      exact ⟨cs, rfl, hread, rfl⟩

/-- Reading in a tag skips a gap first, and only forgets a line break before the
end of the source. -/
theorem exists_of_nextTag (h : nextTag source pos = .ok t stop) :
    ∃ t', afterGap (.unexpectedTagCharacter '?') tagToken source pos = .ok t' stop
      ∧ t = if t'.kind = .eof then { t' with newlineBefore := false } else t' := by
  unfold nextTag at h
  change EStateM.bind (afterGap _ tagToken source) _ pos = _ at h
  unfold EStateM.bind at h
  cases hread : afterGap (.unexpectedTagCharacter '?') tagToken source pos with
  | error failure reached => simp [hread] at h
  | ok t' stop' =>
    simp only [hread] at h
    refine ⟨t', ?_⟩
    split at h <;> rename_i hkind <;> cases h
    · exact ⟨rfl, (if_pos hkind).symm⟩
    · exact ⟨rfl, (if_neg hkind).symm⟩

/-- What a scan of a regular expression went through. -/
theorem exists_of_regex {start : Nat} (h : regex start source pos = .ok t stop) :
    ∃ cs, Text.dropBytes? source (start + 1) = some cs
      ∧ (∃ a, skipRegex start false (start + 1) cs = .ok a stop)
      ∧ t = { kind := .regex, start, stop } := by
  unfold regex at h
  cases hdrop : Text.dropBytes? source (start + 1) with
  | none => simp [hdrop, fail] at h
  | some cs =>
    simp only [hdrop] at h
    cases hskip : skipRegex start false (start + 1) cs with
    | error failure reached => simp [hskip] at h
    | ok a stop' =>
      simp only [hskip] at h
      cases h
      exact ⟨cs, rfl, ⟨a, hskip⟩, rfl⟩

/-- A token that is read is bare, and stops where the scan does. -/
theorem exists_of_read (h : read mode inType source pos = .ok t stop) :
    ∃ kind start newlineBefore, t = { kind, start, stop, newlineBefore } := by
  have hgap : ∀ {inside readKind t}, afterGap inside readKind source pos = .ok t stop →
      t = { kind := t.kind, start := t.start, stop, newlineBefore := t.newlineBefore } := by
    intro inside readKind t h
    obtain ⟨-, -, -, -, -, ht⟩ := exists_of_afterGap h
    exact ht
  have hoffset : ∀ {inside readKind}, atOffset inside readKind source pos = .ok t stop →
      ∃ kind start newlineBefore, t = { kind, start, stop, newlineBefore } := by
    intro inside readKind h
    obtain ⟨-, -, -, ht⟩ := exists_of_atOffset h
    exact ⟨_, _, _, ht⟩
  cases mode with
  | normal => exact ⟨_, _, _, hgap h⟩
  | templateChunk => exact hoffset h
  | templateEnd => exact hoffset h
  | child => exact hoffset h
  | tag =>
    obtain ⟨t', hread, rfl⟩ := exists_of_nextTag h
    rw [hgap hread]
    split
    · exact ⟨_, _, _, rfl⟩
    · exact ⟨_, _, _, rfl⟩

/-- A token that is read has no context yet. -/
theorem context_of_read (h : read mode inType source pos = .ok t stop) : t.context = none := by
  obtain ⟨kind, start, newlineBefore, rfl⟩ := exists_of_read h
  rfl

theorem stop_of_read (h : read mode inType source pos = .ok t stop) : t.stop = stop := by
  obtain ⟨kind, start, newlineBefore, rfl⟩ := exists_of_read h
  rfl

theorem context_of_regex {start : Nat} (h : regex start source pos = .ok t stop) :
    t.context = none := by
  obtain ⟨-, -, -, ht⟩ := exists_of_regex h
  rw [ht]

/-! ## Looking at a byte -/

/-- Looking at a byte leaves the offset where it is. -/
theorem nextByteIs_pos {byte : Nat} {b : Bool} (h : nextByteIs byte source pos = .ok b stop) :
    stop = pos := by
  unfold nextByteIs at h
  repeat' split at h
  all_goals cases h
  all_goals rfl

theorem eq_slash_of_leadByte {d : Char} (h : Character.leadByte d = Character.leadByte '/') :
    d = '/' := by
  have hslash : Character.leadByte '/' = 47 := rfl
  have hnat : d.toNat = 47 := by
    rw [hslash] at h
    unfold Character.leadByte at h
    simp only at h
    repeat' split at h
    all_goals omega
  exact Char.toNat_inj.mp hnat

/-- A slash after the gap is the next token of a tag. -/
theorem kind_nextTag_of_nextByteIs {stop' : Nat}
    (hslash : nextByteIs (Character.leadByte '/') source pos = .ok true stop')
    (hread : nextTag source pos = .ok t stop) : t.kind = .slash := by
  obtain ⟨t', hgap, ht⟩ := exists_of_nextTag hread
  obtain ⟨cs, rest, hdrop, hskip, htag, -⟩ := exists_of_afterGap hgap
  have hhead : (rest.head?.any fun d => Character.leadByte d == Character.leadByte '/') = true := by
    unfold nextByteIs at hslash
    simp only [hdrop, hskip] at hslash
    exact (EStateM.Result.ok.inj hslash).1
  have hkind : t'.kind = .slash := by
    cases rest with
    | nil => simp at hhead
    | cons d rest =>
      have hd : d = '/' := eq_slash_of_leadByte (by simpa using hhead)
      subst hd
      exact (EStateM.Result.ok.inj htag).1.symm
  rw [ht, if_neg (by rw [hkind]; decide), hkind]

end Downlevel.Lexer
