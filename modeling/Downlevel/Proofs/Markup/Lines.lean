import Mathlib.Data.List.DropRight
import Downlevel.Proofs.Markup.Reference

/-!
# The text between tags, line by line

The text between tags is gone through once, with white space held back until it is known whether
a line break follows.  What comes out can also be said line by line: each line loses its indent,
empty lines are dropped, and one space stands between the others.  Character references are
decoded after that, which makes no difference, since no reference holds white space.
-/

namespace Downlevel.Markup

/-! ## The definition by lines -/

/-- The lines of a text.  All but the first lose the white space before them, and all but the
last the white space after them. -/
def trimmedLines (t : Text) : List Text :=
  let lines := Text.split '\n' t
  lines.mapIdx fun i line =>
    let line := if i = 0 then line else line.dropWhile isIndent
    if i + 1 = lines.length then line else line.rdropWhile isIndent

/-- The lines that are not empty, with a space between them. -/
def joinedLines (t : Text) : Text :=
  Text.join [' '] ((trimmedLines t).filter fun line => !line.isEmpty)

/-- The text with its character references decoded from left to right.  `skip` characters are
passed over first. -/
def decodeReferences : Nat → Text → Text
  | _, [] => []
  | skip + 1, _ :: cs => decodeReferences skip cs
  | 0, c :: cs =>
    if c = '&' then
      match reference? cs with
      | some (d, length) => d :: decodeReferences length cs
      | none => c :: decodeReferences 0 cs
    else c :: decodeReferences 0 cs

/-- `unindent` without references. -/
def squeeze : Text → Bool → Bool → Text → Text
  | pending, atLineStart, started, c :: cs =>
    if isIndent c then
      squeeze (if atLineStart then pending else pending ++ [c]) atLineStart started cs
    else if c = '\n' then squeeze [] true started cs
    else (if started && atLineStart then [' '] else []) ++ pending ++ c :: squeeze [] false true cs
  | pending, atLineStart, _, [] => if atLineStart then [] else pending

/-! ## References hold no white space -/

/-- The text is at its end or at white space. -/
def Pauses (t : Text) : Prop :=
  ∀ c ∈ t.head?, isBreak c = true

/-- The texts are the same up to white space. -/
inductive SameWord : Text → Text → Prop
  | pause {s t : Text} : Pauses s → Pauses t → SameWord s t
  | cons (c : Char) {s t : Text} : SameWord s t → SameWord (c :: s) (c :: t)

section

variable {s t : Text} {c : Char}

theorem SameWord.symm (h : SameWord s t) : SameWord t s := by
  induction h with
  | pause hs ht => exact .pause ht hs
  | cons c _ ih => exact ih.cons c

theorem SameWord.exists_append {body rest : Text} (h : SameWord (body ++ ';' :: rest) t)
    (hbody : ∀ c ∈ body, isBreak c = false) : ∃ rest', t = body ++ ';' :: rest' := by
  induction body generalizing t with
  | nil =>
    cases h with
    | pause hs _ => cases hs ';' rfl
    | cons _ h => exact ⟨_, rfl⟩
  | cons c body ih =>
    rw [List.forall_mem_cons] at hbody
    cases h with
    | pause hs _ => simp [hs c rfl] at hbody
    | cons _ h =>
      obtain ⟨rest', rfl⟩ := ih h hbody.2
      exact ⟨rest', rfl⟩

/-- What follows white space has no part in a reference. -/
theorem SameWord.reference? (h : SameWord s t) : reference? s = reference? t := by
  have hsome {s t : Text} (h : SameWord s t) (c : Char) (n : Nat)
      (hs : Markup.reference? s = some (c, n)) : Markup.reference? t = some (c, n) := by
    obtain ⟨body, rest, rfl, rfl, hbody⟩ := reference?_eq_some_iff.mp hs
    obtain ⟨rest', rfl⟩ := h.exists_append hbody.isBreak_eq_false
    exact hbody.reference?
  exact Option.ext fun ⟨c, n⟩ => ⟨hsome h c n, hsome h.symm c n⟩

/-- No reference holds white space. -/
theorem forall_mem_of_reference? {d : Char} {n : Nat} (h : reference? t = some (d, n)) :
    ∀ c ∈ t.take n, isBreak c = false := by
  obtain ⟨body, rest, rfl, rfl, hbody⟩ := reference?_eq_some_iff.mp h
  intro c hc
  rw [List.take_length_add_append, List.mem_append] at hc
  rcases hc with hc | hc
  · exact hbody.isBreak_eq_false c hc
  · rw [List.mem_singleton.mp hc]
    rfl

end

/-! ## References after layout -/

section

variable {t pending : Text} {atLineStart started : Bool}

theorem squeeze_cons_of_isBreak {c : Char} (hc : isBreak c = false) :
    squeeze pending atLineStart started (c :: t) =
      (if started && atLineStart then [' '] else []) ++ pending ++ c :: squeeze [] false true t := by
  rw [isBreak, Bool.or_eq_false_iff] at hc
  rw [squeeze, if_neg (by simp [hc.1]), if_neg (by simpa using hc.2)]

theorem drop_squeeze {n : Nat} (h : ∀ c ∈ t.take n, isBreak c = false) :
    (squeeze [] false true t).drop n = squeeze [] false true (t.drop n) := by
  induction n generalizing t with
  | zero => rfl
  | succ n ih =>
    cases t with
    | nil => rfl
    | cons c t =>
      rw [List.take_succ_cons, List.forall_mem_cons] at h
      rw [squeeze_cons_of_isBreak h.1]
      exact ih h.2

theorem unindent_drop (n : Nat) :
    unindent n [] false true t = unindent 0 [] false true (t.drop n) := by
  induction n generalizing t with
  | zero => rfl
  | succ n ih =>
    cases t with
    | nil => rfl
    | cons c t => exact ih

theorem decodeReferences_drop (n : Nat) : decodeReferences n t = decodeReferences 0 (t.drop n) := by
  induction n generalizing t with
  | zero => rfl
  | succ n ih =>
    cases t with
    | nil => rfl
    | cons c t => exact ih

theorem decodeReferences_append {s : Text} (h : '&' ∉ s) :
    decodeReferences 0 (s ++ t) = s ++ decodeReferences 0 t := by
  induction s with
  | nil => rfl
  | cons c s ih =>
    rw [List.mem_cons, not_or] at h
    rw [List.cons_append, decodeReferences, if_neg (Ne.symm h.1), ih h.2, List.cons_append]

theorem pauses_pending {rest : Text} (hpending : ∀ c ∈ pending, isIndent c = true)
    (h : pending ≠ [] ∨ rest = []) : Pauses (pending ++ rest) := by
  cases pending with
  | nil =>
    rw [h.resolve_left (absurd rfl)]
    exact nofun
  | cons d pending =>
    intro c hc
    cases hc
    rw [isBreak, hpending d List.mem_cons_self, Bool.true_or]

/-- After white space comes white space or nothing. -/
theorem pauses_squeeze (hpending : ∀ c ∈ pending, isIndent c = true)
    (h : pending ≠ [] ∨ atLineStart = true) : Pauses (squeeze pending atLineStart true t) := by
  induction t generalizing pending atLineStart with
  | nil =>
    cases atLineStart with
    | true => rintro _ ⟨⟩
    | false => simpa [squeeze] using @pauses_pending _ [] hpending (.inr rfl)
  | cons c t ih =>
    rw [squeeze]
    split
    · rename_i hc
      cases atLineStart with
      | true => exact ih hpending (.inr rfl)
      | false => exact ih (by simpa [or_imp, forall_and] using ⟨hpending, hc⟩) (.inl (by simp))
    · split
      · exact ih (by simp) (.inr rfl)
      · cases atLineStart with
        | true =>
          intro d hd
          cases hd
          rfl
        | false => simpa using pauses_pending hpending (.inl (by simpa using h))

/-- Layout changes nothing up to white space. -/
theorem sameWord_squeeze : SameWord (squeeze [] false true t) t := by
  induction t with
  | nil => exact .pause nofun nofun
  | cons c t ih =>
    by_cases hc : isBreak c = true
    · refine .pause ?_ fun d hd => Option.some.inj hd ▸ hc
      rw [squeeze]
      split
      · rename_i hindent
        exact pauses_squeeze (by simpa using hindent) (.inl (by simp))
      · rename_i hindent
        rw [if_pos (by simpa [isBreak, hindent] using hc)]
        exact pauses_squeeze nofun (.inr rfl)
    · rw [squeeze_cons_of_isBreak (by simpa using hc)]
      exact ih.cons c

theorem notMem_of_isIndent (hpending : ∀ c ∈ pending, isIndent c = true) : '&' ∉ pending :=
  fun h => nomatch hpending '&' h

/-- References can be decoded once the layout is gone. -/
theorem unindent_eq (hpending : ∀ c ∈ pending, isIndent c = true) :
    unindent 0 pending atLineStart started t =
      decodeReferences 0 (squeeze pending atLineStart started t) := by
  induction hlength : t.length using Nat.strongRecOn generalizing t pending atLineStart started with
  | ind n ih =>
    cases t with
    | nil =>
      have hdecode := decodeReferences_append (t := []) (notMem_of_isIndent hpending)
      rw [List.append_nil] at hdecode
      cases atLineStart <;> simp [unindent, squeeze, hdecode, decodeReferences]
    | cons c t =>
      have hlt : t.length < n := by
        rw [← hlength]
        exact Nat.lt_succ_self _
      rw [unindent, squeeze]
      split
      · rename_i hc
        refine ih _ hlt ?_ rfl
        cases atLineStart with
        | true => exact hpending
        | false => simpa [or_imp, forall_and] using ⟨hpending, hc⟩
      · split
        · exact ih _ hlt (by simp) rfl
        · have hbefore : '&' ∉ (if started && atLineStart then [' '] else []) ++ pending := by
            have := notMem_of_isIndent hpending
            split <;> simp [this]
          have hrest : unindent 0 [] false true t = decodeReferences 0 (squeeze [] false true t) :=
            ih _ hlt (by simp) rfl
          rw [decodeReferences_append hbefore, decodeReferences, sameWord_squeeze.reference?]
          dsimp only
          split
          · cases href : reference? t with
            | none => simp only [hrest]
            | some found =>
              obtain ⟨d, length⟩ := found
              have hdrop := drop_squeeze (forall_mem_of_reference? href)
              have hlt' : (t.drop length).length < n := by
                rw [List.length_drop]
                omega
              have hskip : unindent 0 [] false true (t.drop length) =
                  decodeReferences 0 (squeeze [] false true (t.drop length)) :=
                ih _ hlt' (by simp) rfl
              simp only [unindent_drop length, decodeReferences_drop length, hdrop, hskip]
          · rw [hrest]

end

/-! ## Line by line -/

section

variable {line rest t pending : Text} {started : Bool} {lines : List Text}

/-- The lines after the first. -/
def trimmedRest : List Text → List Text
  | [] => []
  | [line] => [line.dropWhile isIndent]
  | line :: lines => (line.dropWhile isIndent).rdropWhile isIndent :: trimmedRest lines

theorem mapIdx_eq_trimmedRest (lines : List Text) :
    (lines.mapIdx fun i line =>
      if i + 1 = lines.length then line.dropWhile isIndent
      else (line.dropWhile isIndent).rdropWhile isIndent) = trimmedRest lines := by
  induction lines with
  | nil => rfl
  | cons line lines ih =>
    cases lines with
    | nil => rfl
    | cons line' lines =>
      rw [trimmedRest, ← ih, List.mapIdx_cons]
      · simp
      · simp

theorem trimmedLines_eq (h : Text.split '\n' t = line :: lines) : trimmedLines t =
      (if lines = [] then line else line.rdropWhile isIndent) :: trimmedRest lines := by
  rw [trimmedLines, h, ← mapIdx_eq_trimmedRest, List.mapIdx_cons]
  cases lines <;> simp

theorem split_of_notMem (h : '\n' ∉ line) : Text.split '\n' line = [line] := by
  induction line with
  | nil => rfl
  | cons c line ih =>
    rw [List.mem_cons, not_or] at h
    rw [Text.split, if_neg (Ne.symm h.1), ih h.2]

theorem split_append (h : '\n' ∉ line) :
    Text.split '\n' (line ++ '\n' :: rest) = line :: Text.split '\n' rest := by
  induction line with
  | nil => simp [Text.split]
  | cons c line ih =>
    rw [List.mem_cons, not_or] at h
    rw [List.cons_append, Text.split, if_neg (Ne.symm h.1), ih h.2]

theorem split_ne_nil : Text.split '\n' t ≠ [] := by
  cases t with
  | nil => nofun
  | cons c t =>
    rw [Text.split]
    split
    · nofun
    · split <;> nofun

theorem trimmedRest_cons (h : lines ≠ []) : trimmedRest (line :: lines) =
      (line.dropWhile isIndent).rdropWhile isIndent :: trimmedRest lines := by
  cases lines with
  | nil => exact absurd rfl h
  | cons line' lines => rfl

theorem rdropWhile_append_cons {c : Char} {s : Text} (hc : isIndent c = false) :
    (s ++ c :: t).rdropWhile isIndent = s ++ c :: t.rdropWhile isIndent := by
  have hdrop : (t.reverse ++ c :: s.reverse).dropWhile isIndent
      = t.reverse.dropWhile isIndent ++ c :: s.reverse := by
    rw [List.dropWhile_append]
    split
    · rename_i hnil
      rw [List.isEmpty_iff.mp hnil, List.dropWhile_cons_of_neg (by simp [hc]), List.nil_append]
    · rfl
  simp [List.rdropWhile, hdrop]

theorem rdropWhile_of_isIndent (h : ∀ c ∈ t, isIndent c = true) : t.rdropWhile isIndent = [] :=
  List.rdropWhile_eq_nil_iff.mpr h

/-- A line that has begun, and the white space held back on it. -/
theorem squeeze_line (hline : '\n' ∉ line) (hpending : ∀ c ∈ pending, isIndent c = true) :
    squeeze pending false started (line ++ '\n' :: rest) =
      (pending ++ line).rdropWhile isIndent
        ++ squeeze [] true (started || !((pending ++ line).rdropWhile isIndent).isEmpty) rest := by
  induction line generalizing pending started with
  | nil => simp [squeeze, isIndent, rdropWhile_of_isIndent hpending]
  | cons c line ih =>
    rw [List.mem_cons, not_or] at hline
    rw [List.cons_append, squeeze]
    by_cases hc : isIndent c = true
    · rw [if_pos hc, if_neg Bool.false_ne_true, ih hline.2 (by simpa [or_imp, forall_and] using ⟨hpending, hc⟩)]
      simp
    · rw [if_neg hc, if_neg (Ne.symm hline.1), ih hline.2 (by simp),
        rdropWhile_append_cons (by simpa using hc)]
      cases pending <;> simp

theorem squeeze_lastLine (hline : '\n' ∉ line) :
    squeeze pending false started line = pending ++ line := by
  induction line generalizing pending started with
  | nil => simp [squeeze]
  | cons c line ih =>
    rw [List.mem_cons, not_or] at hline
    rw [squeeze]
    by_cases hc : isIndent c = true
    · rw [if_pos hc, if_neg Bool.false_ne_true, ih hline.2]
      simp
    · rw [if_neg hc, if_neg (Ne.symm hline.1), ih hline.2]
      simp

/-- The white space before a line is not held back. -/
theorem squeeze_indent : squeeze [] true started (line ++ rest) =
    squeeze [] true started (line.dropWhile isIndent ++ rest) := by
  induction line with
  | nil => rfl
  | cons c line ih =>
    by_cases hc : isIndent c = true
    · rw [List.cons_append, squeeze, if_pos hc, if_pos rfl, ih, List.dropWhile_cons_of_pos hc]
    · rw [List.dropWhile_cons_of_neg hc]

/-- What a part of the text is put after. -/
def gap (started : Bool) (part : Text) : Text :=
  if started && !part.isEmpty then [' '] else []

/-- A line after the first, and the lines after it. -/
theorem squeeze_nextLine (hline : '\n' ∉ line) :
    squeeze [] true started (line ++ '\n' :: rest) =
      gap started ((line.dropWhile isIndent).rdropWhile isIndent)
        ++ (line.dropWhile isIndent).rdropWhile isIndent
        ++ squeeze [] true
          (started || !((line.dropWhile isIndent).rdropWhile isIndent).isEmpty) rest := by
  rw [squeeze_indent]
  cases hrest : line.dropWhile isIndent with
  | nil => simp [gap, squeeze, isIndent]
  | cons c line' =>
    have hc : isIndent c = false := by
      have := List.head?_dropWhile_not isIndent line
      rwa [hrest] at this
    have hline' : '\n' ∉ c :: line' := fun h =>
      hline ((List.dropWhile_sublist _).subset (hrest ▸ h))
    rw [List.mem_cons, not_or] at hline'
    have htrim := rdropWhile_append_cons (s := []) (t := line') hc
    rw [List.nil_append, List.nil_append] at htrim
    rw [List.cons_append, squeeze, if_neg (by simp [hc]), if_neg (Ne.symm hline'.1),
      squeeze_line hline'.2 (by simp), htrim]
    cases started <;> simp [gap]

theorem squeeze_lastNextLine (hline : '\n' ∉ line) :
    squeeze [] true started line =
      gap started (line.dropWhile isIndent) ++ line.dropWhile isIndent := by
  have hindent : squeeze [] true started line = squeeze [] true started (line.dropWhile isIndent) := by
    simpa using @squeeze_indent line [] started
  rw [hindent]
  cases hrest : line.dropWhile isIndent with
  | nil => simp [gap, squeeze]
  | cons c line' =>
    have hc : isIndent c = false := by
      have := List.head?_dropWhile_not isIndent line
      rwa [hrest] at this
    have hline' : '\n' ∉ c :: line' := fun h =>
      hline ((List.dropWhile_sublist _).subset (hrest ▸ h))
    rw [List.mem_cons, not_or] at hline'
    rw [squeeze, if_neg (by simp [hc]), if_neg (Ne.symm hline'.1), squeeze_lastLine hline'.2]
    cases started <;> simp [gap]

theorem join_cons (part : Text) (parts : List Text) :
    Text.join [' '] (part :: parts) =
      part ++ if parts = [] then [] else ' ' :: Text.join [' '] parts := by
  cases parts <;> simp [Text.join]

/-- The parts of the text that are not empty. -/
abbrev keptOf (lines : List Text) : List Text :=
  lines.filter fun line => !line.isEmpty

theorem keptOf_cons (line : Text) (lines : List Text) :
    keptOf (line :: lines) = if line.isEmpty then keptOf lines else line :: keptOf lines := by
  cases line <;> simp [keptOf]

/-- The lines after the first, each after a space if there was a part before. -/
theorem squeeze_rest :
    squeeze [] true started t =
      (if started && !(keptOf (trimmedRest (Text.split '\n' t))).isEmpty then [' '] else [])
        ++ Text.join [' '] (keptOf (trimmedRest (Text.split '\n' t))) := by
  induction hlength : t.length using Nat.strongRecOn generalizing t started with
  | ind n ih =>
    cases hcut : Text.cut '\n' t with
    | mk line after =>
      have hline : '\n' ∉ line := Text.notMem_of_cut hcut
      cases after with
      | none =>
        obtain rfl := Text.eq_of_cut hcut
        rw [split_of_notMem hline, squeeze_lastNextLine hline, trimmedRest, keptOf_cons]
        cases t.dropWhile isIndent <;> cases started <;> simp [gap, keptOf, Text.join]
      | some after =>
        obtain rfl := Text.eq_append_of_cut hcut
        have hlt : after.length < n := by
          rw [← hlength, List.length_append, List.length_cons]
          omega
        rw [split_append hline, trimmedRest_cons split_ne_nil, squeeze_nextLine hline, keptOf_cons,
          ih _ hlt rfl]
        generalize keptOf (trimmedRest (Text.split '\n' after)) = kept
        cases (line.dropWhile isIndent).rdropWhile isIndent with
        | nil => simp [gap]
        | cons c part => cases started <;> cases kept <;> simp [gap, join_cons, Text.join]

theorem squeeze_eq_joinedLines : squeeze [] false false t = joinedLines t := by
  change _ = Text.join [' '] (keptOf (trimmedLines t))
  cases hcut : Text.cut '\n' t with
  | mk line after =>
    have hline : '\n' ∉ line := Text.notMem_of_cut hcut
    cases after with
    | none =>
      obtain rfl := Text.eq_of_cut hcut
      rw [trimmedLines_eq (split_of_notMem hline), squeeze_lastLine hline, keptOf_cons]
      cases t <;> simp [keptOf, trimmedRest, Text.join]
    | some after =>
      obtain rfl := Text.eq_append_of_cut hcut
      rw [trimmedLines_eq (split_append hline), squeeze_line hline (by simp), squeeze_rest,
        if_neg split_ne_nil, keptOf_cons, List.nil_append]
      generalize keptOf (trimmedRest (Text.split '\n' after)) = kept
      cases line.rdropWhile isIndent with
      | nil => simp
      | cons c part => cases kept <;> simp [join_cons, Text.join]

end

/-! ## String literals -/

/-- What stands between the quotes of a JSON string, and the text it stands for. -/
inductive JsonCharacters : Text → Text → Prop
  | nil : JsonCharacters [] []
  | plain {c : Char} {s t : Text} : 32 ≤ c.toNat → c ≠ '\x22' → c ≠ '\\' → JsonCharacters s t →
      JsonCharacters (c :: s) (c :: t)
  | escape {c d : Char} {s t : Text} :
      (c, d) ∈ [('\x22', '\x22'), ('\\', '\\'), ('/', '/'), ('b', '\x08'), ('f', '\x0c'),
        ('n', '\n'), ('r', '\r'), ('t', '\t')] →
      JsonCharacters s t → JsonCharacters ('\\' :: c :: s) (d :: t)
  | code {digits s t : Text} {d : Char} : digits.length = 4 → digits.all Character.isHexDigit →
      Text.valueOfDigits 16 digits = d.toNat → JsonCharacters s t →
      JsonCharacters ('\\' :: 'u' :: digits ++ s) (d :: t)

/-- The literal is a JSON string that stands for the text. -/
def IsJsonString (literal t : Text) : Prop :=
  ∃ body, literal = '\x22' :: body ++ ['\x22'] ∧ JsonCharacters body t

theorem valueOfDigits_hexDigit : ∀ n < 32,
    let digits := ['0', '0', Text.hexDigit (n / 16), Text.hexDigit (n % 16)]
    digits.all Character.isHexDigit = true ∧ Text.valueOfDigits 16 digits = n := by
  decide

theorem JsonCharacters.escapeChar {s t : Text} (c : Char) (h : JsonCharacters s t) :
    JsonCharacters (Text.escapeChar c ++ s) (c :: t) := by
  have hescape {d : Char} (hd : (d, c) ∈ [('\x22', '\x22'), ('\\', '\\'), ('/', '/'), ('b', '\x08'),
      ('f', '\x0c'), ('n', '\n'), ('r', '\r'), ('t', '\t')]) : JsonCharacters ('\\' :: d :: s) (c :: t) :=
    .escape hd h
  rw [Text.escapeChar]
  by_cases hquote : c = '\x22'
  · subst hquote
    exact hescape (by decide)
  rw [if_neg hquote]
  by_cases hslash : c = '\\'
  · subst hslash
    exact hescape (by decide)
  rw [if_neg hslash]
  iterate 5
    split
    · subst c
      exact hescape (by decide)
  split
  · rename_i hcontrol
    obtain ⟨hdigits, hvalue⟩ := valueOfDigits_hexDigit c.toNat hcontrol
    exact .code rfl hdigits hvalue h
  · rename_i hcontrol
    exact .plain (Nat.not_lt.mp hcontrol) hquote hslash h

theorem isJsonString_quote (t : Text) : IsJsonString (Text.quote t) t := by
  refine ⟨t.flatMap Text.escapeChar, rfl, ?_⟩
  induction t with
  | nil => exact .nil
  | cons c t ih => exact ih.escapeChar c

/-- **The text between tags, line by line.**  Its literal is the JSON string of what is left of
its lines: all but the first lose the white space before them and all but the last the white space
after them, empty ones are dropped, the others are joined by single spaces, and in the result
character references are decoded from left to right. -/
theorem textLiteral_eq_quote_joinedLines (t : Text) :
    textLiteral t = Text.quote (decodeReferences 0 (joinedLines t))
      ∧ IsJsonString (textLiteral t) (decodeReferences 0 (joinedLines t)) := by
  have heq : textLiteral t = Text.quote (decodeReferences 0 (joinedLines t)) := by
    rw [textLiteral, unindent_eq (by simp), squeeze_eq_joinedLines]
  exact ⟨heq, heq ▸ isJsonString_quote _⟩

/-- A reference in a text of two lines, after a line of white space. -/
example : joinedLines " \n  a &amp; \r\n\n\tb ".toList = "a &amp; b ".toList
    ∧ textLiteral " \n  a &amp; \r\n\n\tb ".toList = "\x22a & b \x22".toList := by
  decide +kernel

end Downlevel.Markup
