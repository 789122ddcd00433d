import Downlevel.Lexer.Word
import Downlevel.Proofs.Text.Offset

/-!
# The letters of words

A word is read letter by letter.  A letter is a character or an escape, and the word
ends where neither follows.  A text is read back as a word exactly if it is a row of such
letters (`letters_of_skipWord`, `skipWord_spelling`).
-/

namespace Downlevel.Lexer

open Character

variable {c : Char}

/-- A letter as it is written. -/
inductive Letter where
  | plain (c : Char)
  | short (digits : Text)
  | braced (digits : Text)

namespace Letter

/-- How the letter is written. -/
def text : Letter → Text
  | plain c => [c]
  | short digits => '\\' :: 'u' :: digits
  | braced digits => '\\' :: 'u' :: '{' :: (digits ++ ['}'])

@[simp] theorem size_plain (c : Char) : Text.size (plain c).text = c.utf8Size := rfl

@[simp] theorem size_short (digits : Text) :
    Text.size (short digits).text = Text.size digits + 2 := by
  have hmarks : '\\'.utf8Size = 1 ∧ 'u'.utf8Size = 1 := ⟨rfl, rfl⟩
  simp only [text, Text.size_cons, hmarks]
  omega

@[simp] theorem size_braced (digits : Text) :
    Text.size (braced digits).text = Text.size digits + 4 := by
  have hmarks : '\\'.utf8Size = 1 ∧ 'u'.utf8Size = 1 ∧ '{'.utf8Size = 1 ∧ '}'.utf8Size = 1 :=
    ⟨rfl, rfl, rfl, rfl⟩
  simp only [text, Text.size_append, Text.size_cons, Text.size_nil, hmarks]
  omega

/-- A backslash starts an escape, and an escape is complete. -/
def IsValid : Letter → Prop
  | plain c => c ≠ '\\'
  | short digits => digits.length = 4 ∧ ∀ c ∈ digits, isHexDigit c = true
  | braced digits => '}' ∉ digits

/-- Can the letter stand in a word?  `first` says that it comes first. -/
def Fits (first : Bool) : Letter → Prop
  | plain c => (if first then isIdStart c else isIdContinue c) = true
  | l => l.IsValid

theorem ne_backslash {first : Bool} (h : (plain c).Fits first) : c ≠ '\\' := by
  rintro rfl
  cases first <;> revert h <;> unfold Fits <;> decide

theorem Fits.isValid {first : Bool} {l : Letter} (h : l.Fits first) : l.IsValid := by
  cases l with
  | plain c => exact ne_backslash h
  | short digits => exact h
  | braced digits => exact h

end Letter

/-- How a row of letters is written. -/
def spelling (letters : List Letter) : Text :=
  letters.flatMap Letter.text

@[simp] theorem spelling_nil : spelling [] = [] := rfl

@[simp] theorem spelling_cons (l : Letter) (letters : List Letter) :
    spelling (l :: letters) = l.text ++ spelling letters := rfl

/-- Without a backslash every character is a letter of its own. -/
theorem spelling_plain (t : Text) : spelling (t.map .plain) = t := by
  induction t with
  | nil => rfl
  | cons c t ih => simp [Letter.text, ih]

theorem isValid_plain {t : Text} (h : '\\' ∉ t) : ∀ l ∈ t.map Letter.plain, l.IsValid := by
  simp only [List.mem_map, forall_exists_index, and_imp, forall_apply_eq_imp_iff₂]
  exact fun c hc heq => h (heq ▸ hc)

/-- A row of letters in a word.  `first` says that the word starts with it. -/
def AreLetters : Bool → List Letter → Prop
  | _, [] => True
  | first, l :: letters => l.Fits first ∧ AreLetters false letters

theorem AreLetters.isValid {first : Bool} {letters : List Letter} (h : AreLetters first letters) :
    ∀ l ∈ letters, l.IsValid := by
  induction letters generalizing first with
  | nil => simp
  | cons l letters ih =>
    rw [List.forall_mem_cons]
    exact ⟨h.1.isValid, ih h.2⟩

/-- The text is an identifier or a reserved word. -/
def IsIdentifierName (t : Text) : Prop :=
  ∃ letters, letters ≠ [] ∧ AreLetters true letters ∧ t = spelling letters

/-! ## Hexadecimal digits -/

theorem toNat_lt_of_isHexDigit (h : isHexDigit c = true) : c.toNat < 128 := by
  have hbound : ∀ {a b : Char}, (decide (a ≤ c) && decide (c ≤ b)) = true → b.toNat < 128 →
      c.toNat < 128 := by
    intro a b hc hb
    have hle : c.toNat ≤ b.toNat := of_decide_eq_true (Bool.and_eq_true_iff.mp hc).2
    exact Nat.lt_of_le_of_lt hle hb
  unfold isHexDigit hexValue? isDigit at h
  split at h
  · rename_i hc
    exact hbound hc (by decide)
  · split at h
    · rename_i hc
      exact hbound hc (by decide)
    · split at h
      · rename_i hc
        exact hbound hc (by decide)
      · simp at h

theorem utf8Size_of_isHexDigit (h : isHexDigit c = true) : c.utf8Size = 1 := by
  refine Char.utf8Size_eq_one_iff.mpr (UInt32.le_iff_toNat_le.mpr ?_)
  exact Nat.le_of_lt_succ (toNat_lt_of_isHexDigit h)

theorem size_of_hexDigits {t : Text} (h : ∀ c ∈ t, isHexDigit c = true) :
    Text.size t = t.length := by
  induction t with
  | nil => rfl
  | cons c t ih =>
    rw [List.forall_mem_cons] at h
    rw [Text.size_cons, utf8Size_of_isHexDigit h.1, ih h.2, List.length_cons, Nat.add_comm]

/-- Digits are not braces. -/
theorem exists_cons_of_hexDigits {digits : Text} (hlength : digits.length = 4)
    (h : ∀ c ∈ digits, isHexDigit c = true) : ∃ c t, digits = c :: t ∧ c ≠ '{' := by
  cases digits with
  | nil => cases hlength
  | cons c t =>
    refine ⟨c, t, rfl, ?_⟩
    rintro rfl
    have hc := h '{' List.mem_cons_self
    revert hc
    decide

/-! ## From a scan to the letters -/

/-- What completes the letter a scan stands in. -/
def WordPart.Completes : WordPart → Text → Prop
  | .plain _, t => t = []
  | .digits _ left, t => t.length = max left 1 ∧ ∀ c ∈ t, isHexDigit c = true
  | .braces _, t => ∃ digits, t = digits ++ ['}'] ∧ '}' ∉ digits

/-- Does the scan stand in front of the first letter? -/
def WordPart.isFirst : WordPart → Bool
  | .plain first => first
  | _ => false

variable {part : WordPart} {first escaped escaped' : Bool} {pos stop : Nat} {cs : Text}

/-- A scan completes the letter it stands in and goes through more of them. -/
theorem exists_letters_of_skipWord (h : skipWord part escaped pos cs = .ok escaped' stop) :
    ∃ t letters rest, part.Completes t ∧ AreLetters part.isFirst letters
      ∧ cs = t ++ (spelling letters ++ rest) ∧ stop = pos + Text.size (t ++ spelling letters) := by
  have hclose : '}'.utf8Size = 1 := rfl
  fun_induction skipWord part escaped pos cs with
  | case1 first escaped pos cs ih =>
    obtain ⟨-, letters, rest, ⟨digits, rfl, hdigits⟩, hletters, rfl, rfl⟩ := ih h
    refine ⟨[], .braced digits :: letters, rest, rfl, ⟨hdigits, hletters⟩, ?_, ?_⟩
    · simp [Letter.text]
    · simp only [List.nil_append, spelling_cons, Text.size_append, Text.size_cons, Text.size_nil,
        Letter.size_braced, hclose]
      omega
  | case2 first escaped pos cs _ ih =>
    obtain ⟨digits, letters, rest, hdigits, hletters, rfl, rfl⟩ := ih h
    refine ⟨[], .short digits :: letters, rest, rfl, ⟨hdigits, hletters⟩, ?_, ?_⟩
    · simp [Letter.text]
    · simp only [List.nil_append, spelling_cons, Text.size_append, Letter.size_short]
      omega
  | case3 => cases h
  | case4 first escaped pos c cs _ _ _ hc ih =>
    obtain ⟨-, letters, rest, rfl, hletters, rfl, rfl⟩ := ih h
    exact ⟨[], .plain c :: letters, rest, rfl, ⟨hc, hletters⟩, rfl, by simp [Nat.add_assoc]⟩
  | case5 =>
    cases h
    exact ⟨[], [], _, rfl, trivial, rfl, rfl⟩
  | case6 =>
    cases h
    exact ⟨[], [], _, rfl, trivial, rfl, rfl⟩
  | case7 start left escaped pos c cs hc hleft ih =>
    obtain ⟨-, letters, rest, rfl, hletters, rfl, rfl⟩ := ih h
    refine ⟨[c], letters, rest, ⟨(Nat.max_eq_right hleft).symm, by simpa using hc⟩, hletters, rfl, ?_⟩
    simp [utf8Size_of_isHexDigit hc, Nat.add_assoc]
  | case8 start left escaped pos c cs hc hleft ih =>
    obtain ⟨t, letters, rest, ⟨hlength, ht⟩, hletters, rfl, rfl⟩ := ih h
    refine ⟨c :: t, letters, rest, ⟨?_, List.forall_mem_cons.mpr ⟨hc, ht⟩⟩, hletters, rfl, ?_⟩
    · rw [List.length_cons]
      omega
    · simp [utf8Size_of_isHexDigit hc, Nat.add_assoc]
  | case9 => cases h
  | case10 => cases h
  | case11 start escaped pos cs ih =>
    obtain ⟨-, letters, rest, rfl, hletters, rfl, rfl⟩ := ih h
    exact ⟨['}'], letters, rest, ⟨[], rfl, by simp⟩, hletters, rfl, by simp [hclose, Nat.add_assoc]⟩
  | case12 start escaped pos c cs hc ih =>
    obtain ⟨-, letters, rest, ⟨digits, rfl, hdigits⟩, hletters, rfl, rfl⟩ := ih h
    refine ⟨c :: digits ++ ['}'], letters, rest, ⟨c :: digits, rfl, ?_⟩, hletters, rfl, ?_⟩
    · rw [List.mem_cons, not_or]
      exact ⟨fun heq => hc heq.symm, hdigits⟩
    · simp [Nat.add_assoc]
  | case13 => cases h

theorem letters_of_skipWord (h : skipWord (.plain first) escaped pos cs = .ok escaped' stop) :
    ∃ letters rest, AreLetters first letters ∧ cs = spelling letters ++ rest
      ∧ stop = pos + Text.size (spelling letters) := by
  obtain ⟨-, letters, rest, rfl, hletters, hcs, hstop⟩ := exists_letters_of_skipWord h
  exact ⟨letters, rest, hletters, hcs, hstop⟩

/-! ## From the letters to a scan -/

/-- Does a word end in front of the text? -/
def EndsWord (first : Bool) (rest : Text) : Prop :=
  ∀ c ∈ rest.head?, c ≠ '\\' ∧ (if first then isIdStart c else isIdContinue c) = false

theorem skipWord_of_endsWord {rest : Text} (h : EndsWord first rest) :
    skipWord (.plain first) escaped pos rest = .ok escaped pos := by
  cases rest with
  | nil => rw [skipWord]
  | cons c rest =>
    obtain ⟨hne, hc⟩ := h c rfl
    rw [skipWord, if_neg (by simp [hc])]
    · exact fun cs heq _ => hne heq
    · exact fun cs heq _ => hne heq
    · exact hne

theorem skipWord_braces {start : Nat} (digits : Text) (h : '}' ∉ digits) (rest : Text) :
    skipWord (.braces start) escaped pos (digits ++ '}' :: rest)
      = skipWord (.plain false) true (pos + Text.size digits + 1) rest := by
  induction digits generalizing pos with
  | nil => rw [List.nil_append, skipWord, Text.size_nil, Nat.add_zero]
  | cons c digits ih =>
    rw [List.mem_cons, not_or] at h
    rw [List.cons_append, skipWord, ih h.2, Text.size_cons, Nat.add_assoc pos]
    exact fun heq => h.1 heq.symm

/-- Four digits complete an escape. -/
theorem skipWord_digits {start : Nat} {digits : Text} (hlength : digits.length = 4)
    (h : ∀ c ∈ digits, isHexDigit c = true) (rest : Text) :
    skipWord (.digits start 4) escaped pos (digits ++ rest)
      = skipWord (.plain false) true (pos + 4) rest := by
  match digits, hlength with
  | [a, b, c, d], _ =>
    simp only [List.mem_cons, List.not_mem_nil, or_false, forall_eq_or_imp, forall_eq] at h
    simp [skipWord, h]

/-- A row of letters is read as a word. -/
theorem skipWord_spelling {letters : List Letter} (h : AreLetters first letters) {rest : Text}
    (hrest : EndsWord (letters.isEmpty && first) rest) :
    ∃ escaped', skipWord (.plain first) escaped pos (spelling letters ++ rest)
      = .ok escaped' (pos + Text.size (spelling letters)) := by
  induction letters generalizing first escaped pos with
  | nil => exact ⟨_, skipWord_of_endsWord hrest⟩
  | cons l letters ih =>
    have hrest' : EndsWord (letters.isEmpty && false) rest := by
      rw [Bool.and_false]
      exact hrest
    rw [spelling_cons, List.append_assoc, Text.size_append]
    cases l with
    | plain c =>
      have hne := Letter.ne_backslash h.1
      obtain ⟨escaped', hskip⟩ := @ih _ escaped (pos + c.utf8Size) h.2 hrest'
      refine ⟨escaped', ?_⟩
      rw [Letter.size_plain, Letter.text, List.singleton_append, skipWord, if_pos (by exact h.1),
        hskip, Nat.add_assoc]
      · exact fun cs heq _ => hne heq
      · exact fun cs heq _ => hne heq
      · exact hne
    | short digits =>
      obtain ⟨escaped', hskip⟩ := @ih _ true (pos + 2 + 4) h.2 hrest'
      refine ⟨escaped', ?_⟩
      have hsize : Text.size digits = 4 := (size_of_hexDigits h.1.2).trans h.1.1
      rw [Letter.size_short, hsize, Letter.text, List.cons_append, List.cons_append, skipWord,
        skipWord_digits h.1.1 h.1.2, hskip]
      · congr 1
        omega
      · obtain ⟨c, t, rfl, hc⟩ := exists_cons_of_hexDigits h.1.1 h.1.2
        exact fun cs heq => hc (List.cons.inj heq).1
    | braced digits =>
      obtain ⟨escaped', hskip⟩ := @ih _ true (pos + 3 + Text.size digits + 1) h.2 hrest'
      refine ⟨escaped', ?_⟩
      rw [Letter.size_braced, Letter.text, List.cons_append, List.cons_append, List.cons_append,
        List.append_assoc, List.singleton_append, skipWord, skipWord_braces digits h.1, hskip]
      congr 1
      omega

end Downlevel.Lexer
