import Downlevel.Proofs.Grammar.Speculation
import Downlevel.Proofs.Identifier
import Downlevel.Proofs.Lexer.Spelling
import Downlevel.Proofs.Linkage.Form

/-!
# Module declarations have a form

Every import that the grammar reads has one of the forms of an import, and every
export from another module one of the forms of an export.
-/

namespace Downlevel.Grammar

open Grammar.Parser Linkage

/-- The token is one of ordinary code, as it was read. -/
def Lexed (c : Setting) (t : Token) : Prop :=
  ∃ inType pos stop, Lexer.next inType c.source pos = .ok t stop

/-- A run finishes some tokens and leaves one ahead that is as it was read. -/
structure Reads (c : Setting) (st : State) (ts : List Token) (st' : State) : Prop where
  tokens : st'.tokens.toList = st.tokens.toList ++ ts
  isType : st'.isType = st.isType
  lexed : Lexed c st'.cur

/-- The token ahead is as it was read, outside types. -/
structure AtValue (c : Setting) (st : State) : Prop where
  lexed : Lexed c st.cur
  value : st.isType = false

section

variable {α β : Type} {c : Setting} {st st' st'' : State} {ts us : List Token} {kind : Kind}
  {tokens : Array Token} {i j : Nat} {t : Token} {g : Token → Token} {b : Bool} {call : Reference}
  {u : Token}

theorem Reads.refl (h : Lexed c st.cur) : Reads c st [] st :=
  ⟨(List.append_nil _).symm, rfl, h⟩

theorem Reads.trans (h : Reads c st ts st') (h' : Reads c st' us st'') :
    Reads c st (ts ++ us) st'' := by
  refine ⟨?_, h'.isType.trans h.isType, h'.lexed⟩
  rw [h'.tokens, h.tokens, List.append_assoc]

/-- A token in front of what is read later. -/
theorem Reads.cons (h : Reads c st [t] st') (h' : Reads c st' us st'') :
    Reads c st (t :: us) st'' :=
  h.trans h'

theorem Reads.atValue (h : Reads c st ts st') (hvalue : st.isType = false) : AtValue c st' :=
  ⟨h.lexed, h.isType.trans hvalue⟩

/-- A token that is read stays as what comes later is read. -/
theorem Reads.getElem?_of_kept (h : Reads c st [t] st') (hkept : Kept st'.tokens.size st' st'') :
    st''.tokens[st.tokens.size]? = some t := by
  have htokens : st'.tokens = st.tokens.push t :=
    Array.toList_inj.mp (by rw [h.tokens, Array.toList_push])
  rw [hkept.same _ (by simp [htokens]), htokens, Array.getElem?_push_size]

/-- Changing the first token that is read. -/
theorem Reads.modify_first (h : Reads c st (t :: ts) st') (g : Token → Token) :
    Reads c st (g t :: ts) { st' with tokens := st'.tokens.modify st.tokens.size g } := by
  refine ⟨?_, h.isType, h.lexed⟩
  rw [Array.toList_modify, h.tokens, List.modify_eq_take_cons_drop (by simp)]
  simp [List.drop_append]

/-! ## Tokens that are finished -/

theorem Lexed.exists_eq (h : Lexed c t) :
    ∃ kind start stop newlineBefore, t = { kind, start, stop, newlineBefore } := by
  obtain ⟨inType, pos, stop, hnext⟩ := h
  have hread : Lexer.read .normal inType c.source pos = .ok t stop := hnext
  obtain ⟨kind, start, newlineBefore, ht⟩ := Lexer.exists_of_read hread
  exact ⟨kind, start, stop, newlineBefore, ht⟩

theorem Lexed.isType (h : Lexed c t) : t.isType = false := by
  obtain ⟨_, _, _, _, rfl⟩ := h.exists_eq
  rfl

theorem Lexed.role (h : Lexed c t) : t.role = none := by
  obtain ⟨_, _, _, _, rfl⟩ := h.exists_eq
  rfl

theorem Lexed.context (h : Lexed c t) : t.context = none := by
  obtain ⟨_, _, _, _, rfl⟩ := h.exists_eq
  rfl

theorem isType_finished (hcur : Lexed c st.cur) : st.finished.isType = st.isType := by
  rw [State.finished, hcur.isType, Bool.false_or]

/-- Only a string literal may not be decoded. -/
theorem isSome_decode?_finished (hcur : Lexed c st.cur) (hkind : st.cur.kind ≠ .string) :
    (Identifier.decode? (st.finished.text c.source)).isSome = true := by
  obtain ⟨inType, pos, stop, hnext⟩ := hcur
  obtain ⟨letters, hletters, htext⟩ := (Lexer.exists_letters_of_next hnext).1 hkind
  have hfinished : st.finished.text c.source = st.cur.text c.source := rfl
  rw [hfinished, htext, Identifier.decode?_spelling hletters]
  rfl

theorem isMark_finished (hst : AtValue c st) (hkind : st.cur.kind = kind) :
    IsMark c.source kind st.finished where
  ne_as hname htext := by
    obtain ⟨inType, pos, stop, hnext⟩ := hst.lexed
    have hword := Lexer.kind_of_word hnext htext (by decide) (by decide)
    exact hname (hkind.symm.trans hword)
  kind := hkind
  isType := (isType_finished hst.lexed).trans hst.value
  role := hst.lexed.role

theorem isWord_finished {word : String} (hst : AtValue c st)
    (hword : (decide (st.cur.kind = .name) && decide (st.cur.text c.source = word.toList)) = true) :
    IsWord c.source word st.finished where
  kind := of_decide_eq_true (Bool.and_eq_true_iff.mp hword).1
  isType := (isType_finished hst.lexed).trans hst.value
  role := hst.lexed.role
  text := of_decide_eq_true (Bool.and_eq_true_iff.mp hword).2

/-! ## Moves -/

/-- A part that only looks disappears. -/
theorem Looks.bind_apply (p : Parser α) [Looks p] (f : α → Parser β) (c : Setting) (st : State) :
    (p >>= f) c st = f (Looks.seen p c st.cur) c st := by
  rw [Parser.bind_apply, Looks.apply_eq (p := p)]

theorem unexpected_ne_ok {a : α} : (unexpected : Parser α) c st ≠ .ok a st' := by
  unfold unexpected
  rw [Looks.bind_apply]
  split
  · nofun
  · rw [Looks.bind_apply]
    nofun

theorem finish_of_next (h : next c st = .ok () st') :
    ∃ t pos, Lexer.next st.isType c.source st.pos = .ok t pos ∧ st' = st.finish t pos := by
  unfold next at h
  rw [nextIn_apply] at h
  split at h
  · rename_i t pos hread
    exact ⟨t, pos, hread, (EStateM.Result.ok.inj h).2.symm⟩
  · cases h

theorem reads_next (h : next c st = .ok () st') : Reads c st [st.finished] st' := by
  obtain ⟨t, pos, hread, rfl⟩ := finish_of_next h
  exact ⟨by simp [State.finish], rfl, _, _, _, hread⟩

theorem reads_expect (h : expect kind c st = .ok () st') :
    st.cur.kind = kind ∧ Reads c st [st.finished] st' := by
  change (is kind >>= _) c st = _ at h
  rw [Looks.bind_apply] at h
  split at h
  · rename_i hkind
    exact ⟨of_decide_eq_true hkind, reads_next h⟩
  · cases h

theorem reads_eat (h : eat kind c st = .ok b st') :
    (b = true ∧ st.cur.kind = kind ∧ Reads c st [st.finished] st')
      ∨ (b = false ∧ st.cur.kind ≠ kind ∧ st' = st) := by
  change (is kind >>= _) c st = _ at h
  rw [Looks.bind_apply] at h
  split at h
  · rename_i hkind
    obtain ⟨_, st₁, hnext, hpure⟩ := Parser.exists_of_bind h
    cases hpure
    exact .inl ⟨rfl, of_decide_eq_true hkind, reads_next hnext⟩
  · rename_i hkind
    cases h
    exact .inr ⟨rfl, fun heq => hkind (decide_eq_true heq), rfl⟩

theorem reads_identifier {role : Role} (h : identifier role c st = .ok () st') :
    st.cur.kind = .name ∧ Reads c st [{ st.finished with role := some role }] st' := by
  change (is .name >>= _) c st = _ at h
  rw [Looks.bind_apply] at h
  split at h
  · rename_i hkind
    obtain ⟨_, st₁, hmodify, hnext⟩ := Parser.exists_of_bind h
    cases hmodify
    have hreads := reads_next hnext
    exact ⟨of_decide_eq_true hkind, hreads.tokens, hreads.isType, hreads.lexed⟩
  · exact absurd h unexpected_ne_ok

theorem isLocal_finished (hst : AtValue c st) (hkind : st.cur.kind = .name) :
    IsLocal c.source { st.finished with role := some .blockScoped } where
  kind := hkind
  isType := (isType_finished hst.lexed).trans hst.value
  role := rfl
  unquote := by
    obtain ⟨inType, pos, stop, hnext⟩ := hst.lexed
    have htext : ({ st.finished with role := some .blockScoped } : Token).text c.source
        = st.cur.text c.source := rfl
    rw [htext, Lexer.unquote_of_name hnext hkind]

theorem reads_semicolon (hcur : Lexed c st.cur) (h : semicolon c st = .ok () st') :
    ∃ ts, Reads c st ts st' ∧ ∀ t ∈ ts, t.kind = .semi := by
  obtain ⟨b, st₁, heat, hend⟩ := Parser.exists_of_bind h
  rcases reads_eat heat with ⟨rfl, hkind, hreads⟩ | ⟨rfl, -, rfl⟩
  · cases hend
    exact ⟨_, hreads, by simpa [State.finished] using hkind⟩
  · rw [if_neg Bool.false_ne_true, Looks.bind_apply] at hend
    split at hend
    · cases hend
      exact ⟨_, .refl hcur, by simp⟩
    · exact absurd hend unexpected_ne_ok

theorem eq_of_peek (h : peek c st = .ok t st') : st' = st := by
  rw [peek_apply] at h
  split at h
  · exact (EStateM.Result.ok.inj h).2.symm
  · cases h

theorem eq_of_peekIs (h : peekIs kind c st = .ok b st') : st' = st := by
  obtain ⟨t, st₀, hpeek, hpure⟩ := Parser.exists_of_bind h
  cases hpure
  exact eq_of_peek hpeek

/-- What is seen behind the token ahead comes next. -/
theorem cur_of_peek (h : peek c st = .ok t st) (hnext : next c st = .ok () st') :
    st'.cur = t := by
  obtain ⟨t', pos, hread, rfl⟩ := finish_of_next hnext
  rw [peek_apply, hread] at h
  exact (EStateM.Result.ok.inj h).1

/-- A loop up to a token of a kind. -/
theorem repeatUntil_apply {body : Parser Unit} (c : Setting) (st : State) :
    repeatUntil kind body c st =
      if st.cur.kind = kind then .ok () st
      else match body c st with
        | .error e st' => .error e st'
        | .ok _ st' =>
          if c.remaining st' < c.remaining st then repeatUntil kind body c st'
          else stalled c st' := by
  unfold repeatUntil repeatWhile
  rw [loop_apply, Looks.bind_apply]
  by_cases hkind : st.cur.kind = kind
  · have hseen : Looks.seen (do return !(← is kind) : Parser Bool) c st.cur = false := by
      change (!decide (st.cur.kind = kind)) = false
      rw [decide_eq_true hkind, Bool.not_true]
    rw [if_pos hkind, hseen]
    rfl
  · have hseen : Looks.seen (do return !(← is kind) : Parser Bool) c st.cur = true := by
      change (!decide (st.cur.kind = kind)) = true
      rw [decide_eq_false hkind, Bool.not_false]
    rw [if_neg hkind, hseen, if_pos rfl, Parser.bind_apply]
    cases body c st <;> rfl

/-- What a list between brackets is made of. -/
theorem reads_commaList {item : Parser Unit} {P : List Token → Prop}
    (hitem : ∀ st st', AtValue c st → st.cur.kind ≠ kind → item c st = .ok () st' →
      ∃ ts, Reads c st ts st' ∧ P ts) (hst : AtValue c st)
    (h : commaList kind item c st = .ok () st') :
    st'.cur.kind = kind ∧ ∃ ts, Reads c st ts st' ∧ Separated c.source P ts := by
  induction hrem : c.remaining st using Nat.strongRecOn generalizing st with
  | ind n ih =>
    unfold commaList at h ih
    rw [repeatUntil_apply] at h
    split at h
    · rename_i hkind
      cases h
      exact ⟨hkind, [], .refl hst.lexed, .nil⟩
    · rename_i hkind
      split at h
      · cases h
      rename_i st₂ hbody
      split at h
      case isFalse => cases h
      rename_i hlt
      obtain ⟨_, st₁, hone, hseparator⟩ := Parser.exists_of_bind hbody
      obtain ⟨us, hreads, hus⟩ := hitem st st₁ hst hkind hone
      -- either the list ends here or a comma goes in front of the rest
      change (is kind >>= _) c st₁ = _ at hseparator
      rw [Looks.bind_apply] at hseparator
      split at hseparator
      · obtain ⟨hcomma, hreads'⟩ := reads_expect hseparator
        have hst₁ := hreads.atValue hst.value
        obtain ⟨hend, ts, hts, hseparated⟩ := ih _ (hrem ▸ hlt) (hreads'.atValue hst₁.value) h rfl
        exact ⟨hend, _, hreads.trans (hreads'.cons hts),
          .more hus (isMark_finished hst₁ hcomma) hseparated⟩
      · rename_i hclose
        obtain ⟨-, rfl⟩ := EStateM.Result.ok.inj hseparator
        have hkind₁ : st₁.cur.kind = kind := by
          have hseen : (!decide (st₁.cur.kind = kind)) ≠ true := hclose
          simpa using hseen
        rw [repeatUntil_apply, if_pos hkind₁] at h
        cases h
        exact ⟨hkind₁, us, hreads, .last hus⟩

/-! ## Imports -/

/-- The path of a declaration and what may come behind it. -/
structure IsTail (source : Text) (path : Token) (rest : List Token) : Prop where
  path : IsMark source .string path
  semi : ∀ t ∈ rest, t.kind = .semi

theorem reads_moduleSource (hst : AtValue c st) (h : moduleSource c st = .ok () st') :
    ∃ word path rest, Reads c st (word :: path :: rest) st' ∧ IsWord c.source "from" word
      ∧ IsTail c.source path rest := by
  unfold moduleSource at h
  rw [Looks.bind_apply] at h
  split at h
  case isFalse => exact absurd h unexpected_ne_ok
  rename_i hword
  obtain ⟨_, st₁, hnext, h⟩ := Parser.exists_of_bind h
  obtain ⟨_, st₂, hexpect, hsemicolon⟩ := Parser.exists_of_bind h
  have hreads := reads_next hnext
  obtain ⟨hstring, hreads₁⟩ := reads_expect hexpect
  obtain ⟨rest, hreads₂, hsemi⟩ := reads_semicolon hreads₁.lexed hsemicolon
  exact ⟨_, _, rest, hreads.cons (hreads₁.cons hreads₂), isWord_finished hst hword,
    isMark_finished (hreads.atValue hst.value) hstring, hsemi⟩

theorem reads_plainImportSpecifier (hcur : Lexed c st.cur)
    (h : plainImportSpecifier c st = .ok () st') :
    ∃ ts, Reads c st ts st' ∧ (st.isType = true → ∀ t ∈ ts, t.isType = true)
      ∧ (st.isType = false → st.cur.kind ≠ .braceR → ImportItem c.source ts) := by
  obtain ⟨after, st₀, hpeek, hrest⟩ := Parser.exists_of_bind h
  obtain rfl := eq_of_peek hpeek
  rw [Looks.bind_apply] at hrest
  dsimp only at hrest
  split at hrest
  · rename_i hword
    obtain ⟨_, st₁, hnext, hrest⟩ := Parser.exists_of_bind hrest
    obtain ⟨_, st₂, hnext', hrest⟩ := Parser.exists_of_bind hrest
    obtain ⟨hname, hlocal⟩ := reads_identifier hrest
    have hfirst := reads_next hnext
    have hsecond := reads_next hnext'
    refine ⟨_, hfirst.cons (hsecond.cons hlocal), fun htype => ?_, fun hvalue hkind => ?_⟩
    · have htype₁ : st₁.isType = true := hfirst.isType.trans htype
      have htype₂ : st₂.isType = true := hsecond.isType.trans htype₁
      simp [State.finished, htype, htype₁, htype₂]
    · have hst₁ := hfirst.atValue hvalue
      refine .renamed ((isType_finished hcur).trans hvalue) hcur.role hkind
        (isWord_finished hst₁ ?_) (isLocal_finished (hsecond.atValue hst₁.value) hname)
      rw [cur_of_peek hpeek hnext]
      exact hword
  · obtain ⟨hname, hlocal⟩ := reads_identifier hrest
    refine ⟨_, hlocal, fun htype => ?_, fun hvalue _ => ?_⟩
    · simp [State.finished, htype]
    · exact .plain (isLocal_finished ⟨hcur, hvalue⟩ hname)

theorem eq_of_atTypeSpecifier (h : atTypeSpecifier c st = .ok b st') : st' = st := by
  have hpure : ∀ {x b : Bool} {st st' : State}, (pure x : Parser Bool) c st = .ok b st' → st' = st :=
    fun h => (EStateM.Result.ok.inj h).2.symm
  unfold atTypeSpecifier at h
  simp only [Looks.bind_apply] at h
  split at h
  case isFalse => exact hpure h
  obtain ⟨after, st₀, hpeek, hrest⟩ := Parser.exists_of_bind h
  obtain rfl := eq_of_peek hpeek
  split at hrest
  case isFalse => exact hpure hrest
  rw [Looks.bind_apply] at hrest
  split at hrest
  · exact Lookahead.typeNamedAs.eq_of_parser hrest
  · exact hpure hrest

theorem exists_of_inType {p : Parser Unit} (h : inType p c st = .ok () st') :
    ∃ st₁, p c { st with isType := true } = .ok () st₁ ∧ st' = { st₁ with isType := st.isType } := by
  unfold inType at h
  cases hrun : p c { st with isType := true } with
  | error e st₁ => simp [hrun] at h
  | ok a st₁ =>
    simp only [hrun] at h
    exact ⟨st₁, rfl, (EStateM.Result.ok.inj h).2.symm⟩

/-- What is read in a type is read in front of what comes after the type. -/
theorem Reads.of_typed (h : Reads c { st with isType := true } ts st') :
    Reads c st ts { st' with isType := st.isType } :=
  ⟨h.tokens, rfl, h.lexed⟩

theorem reads_importSpecifier (hst : AtValue c st) (hkind : st.cur.kind ≠ .braceR)
    (h : importSpecifier c st = .ok () st') :
    ∃ ts, Reads c st ts st' ∧ ImportItem c.source ts := by
  obtain ⟨b, st₀, hahead, hrest⟩ := Parser.exists_of_bind h
  obtain rfl := eq_of_atTypeSpecifier hahead
  split at hrest
  · obtain ⟨st₃, htyped, rfl⟩ := exists_of_inType hrest
    obtain ⟨_, st₁, hnext, htyped⟩ := Parser.exists_of_bind htyped
    have hfirst := reads_next hnext
    obtain ⟨ts, hreads, htypes, -⟩ := reads_plainImportSpecifier hfirst.lexed htyped
    refine ⟨_, (hfirst.cons hreads).of_typed, .typed ?_⟩
    intro t ht
    rcases List.mem_cons.mp ht with rfl | ht
    · simp [State.finished]
    · exact htypes hfirst.isType t ht
  · obtain ⟨ts, hreads, -, hitem⟩ := reads_plainImportSpecifier hst.lexed hrest
    exact ⟨ts, hreads, hitem hst.value hkind⟩

/-- What an import takes besides the default, up to its path. -/
theorem reads_importedNames {lead : List Token} (hlead : Lead c.source lead) (hst : AtValue c st)
    (h : importedNames c st = .ok () st') :
    ∃ ts path rest, Reads c st (ts ++ path :: rest) st' ∧ ImportForm c.source (lead ++ ts)
      ∧ IsTail c.source path rest := by
  obtain ⟨b, st₁, heat, h₁⟩ := Parser.exists_of_bind h
  rcases reads_eat heat with ⟨rfl, hstar, hfirst⟩ | ⟨rfl, -, rfl⟩
  · have hst₁ := hfirst.atValue hst.value
    rw [if_pos rfl, Looks.bind_apply] at h₁
    split at h₁
    case isFalse => exact absurd h₁ unexpected_ne_ok
    rename_i hword
    obtain ⟨_, st₂, hnext, h₂⟩ := Parser.exists_of_bind h₁
    obtain ⟨_, st₃, hidentifier, h₃⟩ := Parser.exists_of_bind h₂
    have hsecond := reads_next hnext
    have hst₂ := hsecond.atValue hst₁.value
    obtain ⟨hname, hthird⟩ := reads_identifier hidentifier
    obtain ⟨word, path, rest, hlast, hfrom, hpath⟩ := reads_moduleSource (hthird.atValue hst₂.value) h₃
    refine ⟨_, path, rest, by simpa using hfirst.cons (hsecond.cons (hthird.cons hlast)),
      .wildcard hlead (isMark_finished hst hstar) (isWord_finished hst₁ hword)
        (isLocal_finished hst₂ hname) hfrom, hpath⟩
  · rw [if_neg Bool.false_ne_true] at h₁
    obtain ⟨b, st₁, heat', h₂⟩ := Parser.exists_of_bind h₁
    rcases reads_eat heat' with ⟨rfl, hbrace, hfirst⟩ | ⟨rfl, -, rfl⟩
    case inr => exact absurd h₂ unexpected_ne_ok
    rw [if_pos rfl] at h₂
    obtain ⟨_, st₂, hlist, h₃⟩ := Parser.exists_of_bind h₂
    obtain ⟨_, st₃, hnext, h₄⟩ := Parser.exists_of_bind h₃
    obtain ⟨hclose, items, hitems, hseparated⟩ :=
      reads_commaList (P := ImportItem c.source) (fun st st' => reads_importSpecifier)
        (hfirst.atValue hst.value) hlist
    have hst₂ := hitems.atValue (hfirst.atValue hst.value).value
    have hclosing := reads_next hnext
    obtain ⟨word, path, rest, hlast, hfrom, hpath⟩ := reads_moduleSource (hclosing.atValue hst₂.value) h₄
    refine ⟨_, path, rest, ?_, .named hlead (isMark_finished hst hbrace) hseparated
      (isMark_finished hst₂ hclose) hfrom, hpath⟩
    simpa using hfirst.cons (hitems.trans (hclosing.cons hlast))

/-- The keyword of an import is finished as it stands ahead. -/
theorem getElem?_of_importDeclaration (h : importDeclaration c st = .ok () st') :
    st'.tokens[st.tokens.size]? = some st.finished := by
  obtain ⟨_, st₁, hexpect, hrest⟩ := Parser.exists_of_bind h
  have hkept := (keeps_importDeclaration_rest.run st₁.frame_isLoose).kept_of_ok hrest
  exact (reads_expect hexpect).2.getElem?_of_kept hkept

/-- An import that is read outside types has a form. -/
theorem reads_importDeclaration (hvalue : st.isType = false)
    (h : importDeclaration c st = .ok () st') :
    ∃ ts path rest, Reads c st (st.finished :: (ts ++ path :: rest)) st'
      ∧ ImportForm c.source ts ∧ IsTail c.source path rest := by
  obtain ⟨_, st₁, hexpect, h₁⟩ := Parser.exists_of_bind h
  obtain ⟨-, hfirst⟩ := reads_expect hexpect
  have hst₁ := hfirst.atValue hvalue
  obtain ⟨st₁', st₁'', hget, h₂⟩ := Parser.exists_of_bind h₁
  cases hget
  simp only [Looks.bind_apply, hst₁.value, Bool.false_and, Bool.false_eq_true, if_false] at h₂
  split at h₂
  · rename_i hstring
    obtain ⟨_, st₂, hnext, h₃⟩ := Parser.exists_of_bind h₂
    obtain ⟨rest, hlast, hsemi⟩ := reads_semicolon (reads_next hnext).lexed h₃
    exact ⟨[], _, rest, hfirst.cons ((reads_next hnext).cons hlast), .bare,
      isMark_finished hst₁ (of_decide_eq_true hstring), hsemi⟩
  rw [Looks.bind_apply] at h₂
  split at h₂
  · obtain ⟨b, st₀, hpeek, h₃⟩ := Parser.exists_of_bind h₂
    obtain rfl := eq_of_peekIs hpeek
    split at h₃
    · cases h₃
    obtain ⟨_, st₂, hidentifier, h₄⟩ := Parser.exists_of_bind h₃
    obtain ⟨b, st₃, heat, h₅⟩ := Parser.exists_of_bind h₄
    obtain ⟨hname, hsecond⟩ := reads_identifier hidentifier
    have hst₂ := hsecond.atValue hst₁.value
    have hlocal := isLocal_finished hst₁ hname
    rcases reads_eat heat with ⟨rfl, hcomma, hthird⟩ | ⟨rfl, -, rfl⟩
    · obtain ⟨ts, path, rest, hlast, hform, hpath⟩ :=
        reads_importedNames (.default hlocal (isMark_finished hst₂ hcomma))
          (hthird.atValue hst₂.value) h₅
      exact ⟨_, path, rest, hfirst.cons (hsecond.cons (hthird.cons hlast)), hform, hpath⟩
    · obtain ⟨word, path, rest, hlast, hfrom, hpath⟩ := reads_moduleSource hst₂ h₅
      exact ⟨_, path, rest, hfirst.cons (hsecond.cons hlast), .default hlocal hfrom, hpath⟩
  · obtain ⟨ts, path, rest, hreads, hform, hpath⟩ := reads_importedNames .none hst₁ h₂
    exact ⟨ts, path, rest, hfirst.cons hreads, hform, hpath⟩

/-- An import is part of a type, or it has a form. -/
theorem reads_importRule (h : importRule c st = .ok () st') :
    (∃ t, st'.tokens[st.tokens.size]? = some t ∧ t.isType = true)
      ∨ ∃ ts path rest, Reads c st (st.finished :: (ts ++ path :: rest)) st'
        ∧ st.cur.kind = .kwImport ∧ ImportForm c.source ts ∧ IsTail c.source path rest := by
  have hdeclaration : importDeclaration c st = .ok () st' →
      (∃ t, st'.tokens[st.tokens.size]? = some t ∧ t.isType = true)
        ∨ ∃ ts path rest, Reads c st (st.finished :: (ts ++ path :: rest)) st'
          ∧ st.cur.kind = .kwImport ∧ ImportForm c.source ts ∧ IsTail c.source path rest := by
    intro hrun
    by_cases htype : st.isType = true
    · exact .inl ⟨_, getElem?_of_importDeclaration hrun, by simp [State.finished, htype]⟩
    · obtain ⟨ts, path, rest, hreads, hform, hpath⟩ :=
        reads_importDeclaration (Bool.eq_false_iff.mpr htype) hrun
      obtain ⟨_, st₁, hexpect, -⟩ := Parser.exists_of_bind hrun
      exact .inr ⟨ts, path, rest, hreads, (reads_expect hexpect).1, hform, hpath⟩
  unfold importRule at h
  rw [Looks.bind_apply] at h
  split at h
  · obtain ⟨b, st₀, hahead, hrest⟩ := Parser.exists_of_bind h
    obtain rfl := Lookahead.typeImport.eq_of_parser hahead
    split at hrest
    · obtain ⟨st₁, htyped, rfl⟩ := exists_of_inType hrest
      have hfirst := getElem?_of_importDeclaration htyped
      exact .inl ⟨_, hfirst, Bool.or_true _⟩
    · exact hdeclaration hrest
  · exact hdeclaration h

/-! ## Exports from other modules -/

theorem reads_exportName (h : exportName c st = .ok () st') :
    Reads c st [st.finished] st' ∧ (st.cur.kind.isNameLike = true ∨ st.cur.kind = .string) := by
  unfold exportName at h
  rw [Looks.bind_apply] at h
  split at h
  · rename_i hkind
    have hkind' : (st.cur.kind.isNameLike || decide (st.cur.kind = .string)) = true := hkind
    exact ⟨reads_next h, by simpa using hkind'⟩
  · exact absurd h unexpected_ne_ok

/-- What an item of an export list is made of, depending on whether it is read in a
type. -/
def IsExportItem (c : Setting) (isType : Bool) (ts : List Token) : Prop :=
  (isType = true → ∀ t ∈ ts, t.isType = true ∧ (t.kind.isNameLike = true ∨ t.kind = .string))
    ∧ (isType = false → ExportItem c.source ts)

theorem reads_exportNames (hcur : st.cur.isType = false) (h : (do
      exportName
      if ← isName "as" then
        next
        exportName) c st = .ok () st') :
    ∃ ts, Reads c st ts st' ∧ IsExportItem c st.isType ts := by
  obtain ⟨_, st₁, hname, h₁⟩ := Parser.exists_of_bind h
  obtain ⟨hfirst, hkind⟩ := reads_exportName hname
  have htype : st.finished.isType = st.isType := by rw [State.finished, hcur, Bool.false_or]
  rw [Looks.bind_apply] at h₁
  split at h₁
  · rename_i hword
    obtain ⟨_, st₂, hnext, h₂⟩ := Parser.exists_of_bind h₁
    have hsecond := reads_next hnext
    obtain ⟨hthird, hkind'⟩ := reads_exportName h₂
    have htype₁ : st₁.finished.isType = st.isType :=
      (isType_finished hfirst.lexed).trans hfirst.isType
    have htype₂ : st₂.finished.isType = st.isType :=
      (isType_finished hsecond.lexed).trans (hsecond.isType.trans hfirst.isType)
    have hname₁ : st₁.finished.kind = .name := of_decide_eq_true (Bool.and_eq_true_iff.mp hword).1
    refine ⟨_, hfirst.cons (hsecond.cons hthird), fun htrue => ?_, fun hfalse => ?_⟩
    · simp only [List.mem_cons, List.not_mem_nil, or_false]
      rintro t (rfl | rfl | rfl)
      · exact ⟨htype.trans htrue, hkind⟩
      · exact ⟨htype₁.trans htrue, .inl (by rw [hname₁]; rfl)⟩
      · exact ⟨htype₂.trans htrue, hkind'⟩
    · exact .renamed ⟨hkind, htype.trans hfalse⟩
        (isWord_finished (hfirst.atValue hfalse) hword)
        ⟨hkind', htype₂.trans hfalse⟩
  · cases h₁
    refine ⟨_, hfirst, fun htrue => ?_, fun hfalse => .plain ⟨hkind, htype.trans hfalse⟩⟩
    simp only [List.mem_singleton]
    rintro t rfl
    exact ⟨htype.trans htrue, hkind⟩

theorem reads_exportSpecifier (hcur : Lexed c st.cur) (h : exportSpecifier c st = .ok () st') :
    ∃ ts, Reads c st ts st' ∧ IsExportItem c st.isType ts := by
  unfold exportSpecifier at h
  rw [Looks.bind_apply] at h
  dsimp only at h
  split at h
  · obtain ⟨_, st₁, hmodify, h₁⟩ := Parser.exists_of_bind h
    cases hmodify
    have hvalue : ({ st with cur := { st.cur with role := some .access } } : State).cur.isType
        = false := hcur.isType
    obtain ⟨ts, hreads, hitem⟩ := reads_exportNames hvalue h₁
    exact ⟨ts, ⟨hreads.tokens, hreads.isType, hreads.lexed⟩, hitem⟩
  · exact reads_exportNames hcur.isType h

theorem eq_of_atTypeExportSpecifier (h : atTypeExportSpecifier c st = .ok b st') :
    st' = st ∧ (b = true → st.cur.kind = .name) := by
  unfold atTypeExportSpecifier at h
  simp only [Looks.bind_apply] at h
  split at h
  · rename_i hahead
    obtain ⟨after, st₀, hpeek, hrest⟩ := Parser.exists_of_bind h
    obtain rfl := eq_of_peek hpeek
    rw [Looks.bind_apply] at hrest
    refine ⟨(EStateM.Result.ok.inj hrest).2.symm, fun _ => ?_⟩
    exact of_decide_eq_true (Bool.and_eq_true_iff.mp (Bool.and_eq_true_iff.mp hahead).2).1
  · cases h
    exact ⟨rfl, by simp⟩

theorem reads_exportListItem (hst : AtValue c st) (h : (do
      if ← atTypeExportSpecifier then
        inType do
          next
          exportSpecifier
      else exportSpecifier) c st = .ok () st') :
    ∃ ts, Reads c st ts st' ∧ ExportItem c.source ts := by
  obtain ⟨b, st₀, hahead, hrest⟩ := Parser.exists_of_bind h
  obtain ⟨rfl, hname⟩ := eq_of_atTypeExportSpecifier hahead
  split at hrest
  · rename_i hb
    obtain ⟨st₃, htyped, rfl⟩ := exists_of_inType hrest
    obtain ⟨_, st₁, hnext, htyped⟩ := Parser.exists_of_bind htyped
    have hfirst := reads_next hnext
    obtain ⟨ts, hreads, hitem⟩ := reads_exportSpecifier hfirst.lexed htyped
    refine ⟨_, (hfirst.cons hreads).of_typed, .typed ?_⟩
    intro t ht
    rcases List.mem_cons.mp ht with rfl | ht
    · exact ⟨by simp [State.finished], .inl (by simp [State.finished, hname hb]; rfl)⟩
    · exact hitem.1 hfirst.isType t ht
  · obtain ⟨ts, hreads, hitem⟩ := reads_exportSpecifier hst.lexed hrest
    exact ⟨ts, hreads, hitem.2 hst.value⟩

/-- Forgetting the roles of names does not change the form of a list. -/
theorem separated_export_map (h : Separated c.source (ExportItem c.source) ts) :
    Separated c.source (ExportItem c.source) (ts.map fun t => { t with role := none }) := by
  have hitem : ∀ {us : List Token}, ExportItem c.source us →
      ExportItem c.source (us.map fun t => { t with role := none }) := by
    intro us hus
    cases hus with
    | plain hname => exact .plain ⟨hname.kind, hname.isType⟩
    | renamed hname hword hexported =>
      exact .renamed ⟨hname.kind, hname.isType⟩ ⟨hword.kind, hword.isType, rfl, hword.text⟩
        ⟨hexported.kind, hexported.isType⟩
    | typed htyped =>
      refine .typed fun t ht => ?_
      obtain ⟨u, hu, rfl⟩ := List.mem_map.mp ht
      exact htyped u hu
  induction h with
  | nil => exact .nil
  | last hus => exact .last (hitem hus)
  | more hus hcomma _ ih =>
    rw [List.map_append, List.map_cons]
    exact .more (hitem hus) ⟨hcomma.ne_as, hcomma.kind, hcomma.isType, rfl⟩ ih

/-- Changing the tokens from an index on changes those that were added. -/
theorem toList_modifyFrom (h : st'.tokens.toList = st.tokens.toList ++ ts) :
    (st'.tokens.mapIdx fun i t => if st.tokens.size ≤ i then g t else t).toList
      = st.tokens.toList ++ ts.map g := by
  rw [Array.toList_mapIdx, h, List.mapIdx_append]
  congr 1
  · refine List.ext_getElem (by simp) fun i hi _ => ?_
    rw [List.getElem_mapIdx, if_neg (by simpa using hi)]
  · refine List.ext_getElem (by simp) fun i hi _ => ?_
    simp

/-- An export list is one of the module itself, or it has a form. -/
theorem reads_exportList (hst : AtValue c st) (h : exportList c st = .ok () st') :
    (∃ items opening closing rest, Reads c st (opening :: (items ++ closing :: rest)) st'
        ∧ Separated c.source (ExportItem c.source) items ∧ IsMark c.source .braceL opening
        ∧ IsMark c.source .braceR closing ∧ ∀ t ∈ rest, t.kind = .semi)
      ∨ ∃ ts path rest, Reads c st (ts ++ path :: rest) st' ∧ ExportForm c.source ts
        ∧ IsTail c.source path rest := by
  obtain ⟨start, st₀, hstart, h₁⟩ := Parser.exists_of_bind h
  cases hstart
  obtain ⟨_, st₁, hexpect, h₂⟩ := Parser.exists_of_bind h₁
  obtain ⟨_, st₂, hlist, h₃⟩ := Parser.exists_of_bind h₂
  obtain ⟨_, st₃, hnext, h₄⟩ := Parser.exists_of_bind h₃
  obtain ⟨hbrace, hfirst⟩ := reads_expect hexpect
  obtain ⟨hclose, items, hitems, hseparated⟩ :=
    reads_commaList (P := ExportItem c.source) (fun st st' hst _ => reads_exportListItem hst)
      (hfirst.atValue hst.value) hlist
  have hst₂ := hitems.atValue (hfirst.atValue hst.value).value
  have hlast := reads_next hnext
  have hopening := isMark_finished hst hbrace
  have hclosing := isMark_finished hst₂ hclose
  have hreads := hfirst.cons (hitems.trans hlast)
  rw [Looks.bind_apply] at h₄
  split at h₄
  · obtain ⟨_, st₄, hmodify, h₅⟩ := Parser.exists_of_bind h₄
    cases hmodify
    obtain ⟨word, path, rest, hsource, hfrom, hpath⟩ :=
      reads_moduleSource ⟨by exact hlast.lexed, by exact hlast.isType.trans hst₂.value⟩ h₅
    have htokens := toList_modifyFrom (g := fun t => { t with role := none }) hreads.tokens
    have hopening' : IsMark c.source .braceL { st.finished with role := none } :=
      ⟨hopening.ne_as, hopening.kind, hopening.isType, rfl⟩
    have hclosing' : IsMark c.source .braceR { st₂.finished with role := none } :=
      ⟨hclosing.ne_as, hclosing.kind, hclosing.isType, rfl⟩
    refine .inr ⟨_, path, rest, ⟨?_, hsource.isType.trans hreads.isType, hsource.lexed⟩,
      .list hopening' (separated_export_map hseparated) hclosing' hfrom, hpath⟩
    rw [hsource.tokens, htokens]
    simp
  · obtain ⟨rest, hsemi, hkind⟩ := reads_semicolon hlast.lexed h₄
    refine .inl ⟨items, _, _, rest, ?_, hseparated, hopening, hclosing, hkind⟩
    simpa using hreads.trans hsemi

theorem reads_exportAll (hst : AtValue c st) (hstar : st.cur.kind = .star)
    (h : exportAll c st = .ok () st') :
    ∃ ts path rest, Reads c st (ts ++ path :: rest) st' ∧ ExportForm c.source ts
      ∧ IsTail c.source path rest := by
  unfold exportAll at h
  obtain ⟨_, st₁, hnext, h₁⟩ := Parser.exists_of_bind h
  have hfirst := reads_next hnext
  have hst₁ := hfirst.atValue hst.value
  rw [Looks.bind_apply] at h₁
  dsimp only at h₁
  split at h₁
  · rename_i hword
    obtain ⟨_, st₂, hnext₁, h₂⟩ := Parser.exists_of_bind h₁
    obtain ⟨_, st₃, hnext₂, h₃⟩ := Parser.exists_of_bind h₂
    have hsecond := reads_next hnext₁
    have hthird := reads_next hnext₂
    have hst₂ := hsecond.atValue hst₁.value
    obtain ⟨word, path, rest, hlast, hfrom, hpath⟩ := reads_moduleSource (hthird.atValue hst₂.value) h₃
    refine ⟨_, path, rest, by simpa using hfirst.cons (hsecond.cons (hthird.cons hlast)),
      .allAs (isMark_finished hst hstar) (isWord_finished hst₁ hword)
        ((isType_finished hsecond.lexed).trans hst₂.value)
        (fun hkind => isSome_decode?_finished hsecond.lexed hkind) hfrom, hpath⟩
  · obtain ⟨word, path, rest, hlast, hfrom, hpath⟩ := reads_moduleSource hst₁ h₁
    exact ⟨_, path, rest, by simpa using hfirst.cons hlast,
      .all (isMark_finished hst hstar) hfrom, hpath⟩

/-! ## Declarations of a program -/

/-- The tokens from `i` up to `j` are those that are finished between two states. -/
structure Covers (tokens : Array Token) (i j : Nat) (st st' : State) : Prop where
  start : st.tokens.size = i
  stop : st'.tokens.size = j
  same : ∀ k, i ≤ k → k < j → tokens[k]? = st'.tokens[k]?

/-- An import declaration is read as the tokens from `i` up to `j`. -/
def ImportStands (c : Setting) (tokens : Array Token) (i j : Nat) : Prop :=
  ∃ st st', importRule c st = .ok () st' ∧ Covers tokens i j st st'

/-- An export declaration is read as the tokens from `i` up to `j`. -/
def ExportStands (c : Setting) (tokens : Array Token) (i j : Nat) : Prop :=
  ∃ call st st', Calls c call ∧ st.cur.kind = .kwExport ∧ st.cur.isType = false
    ∧ exportRule call c st = .ok () st' ∧ Covers tokens i j st st'

theorem Covers.drop_eq (h : Covers tokens i j st st') (hreads : Reads c st ts st') :
    j = i + ts.length ∧ tokens.toList.drop i = ts ++ tokens.toList.drop j := by
  have hj : j = i + ts.length := by
    rw [← h.stop, ← h.start, ← Array.length_toList, hreads.tokens, List.length_append,
      Array.length_toList]
  refine ⟨hj, List.ext_getElem? fun k => ?_⟩
  rw [List.getElem?_drop, Array.getElem?_toList]
  by_cases hk : k < ts.length
  · rw [List.getElem?_append_left hk, h.same (i + k) (by omega) (by omega),
      ← Array.getElem?_toList, hreads.tokens, ← h.start, List.getElem?_append_right (by simp)]
    simp
  · rw [List.getElem?_append_right (by omega), List.getElem?_drop, Array.getElem?_toList]
    congr 1
    omega

/-- An import declaration that is no type has a form. -/
theorem ImportStands.form (h : ImportStands c tokens i j)
    (hvalue : ∀ t, tokens[i]? = some t → t.isType = false) :
    ∃ t ts path rest, tokens.toList.drop i = t :: (ts ++ path :: (rest ++ tokens.toList.drop j))
      ∧ j = i + 1 + ts.length + 1 + rest.length ∧ t.kind = .kwImport ∧ ImportForm c.source ts
      ∧ IsTail c.source path rest := by
  obtain ⟨st, st', hrun, hcovers⟩ := h
  rcases reads_importRule hrun with ⟨t, ht, htype⟩ | ⟨ts, path, rest, hreads, hkind, hform, hpath⟩
  · have hlt : i < j := by
      obtain ⟨hlt, -⟩ := Array.getElem?_eq_some_iff.mp ht
      exact hcovers.start ▸ hcovers.stop ▸ hlt
    rw [hcovers.start, ← hcovers.same i (Nat.le_refl i) hlt] at ht
    rw [hvalue t ht] at htype
    cases htype
  · obtain ⟨hj, hdrop⟩ := hcovers.drop_eq hreads
    refine ⟨st.finished, ts, path, rest, ?_, ?_, hkind, hform, hpath⟩
    · rw [hdrop, List.cons_append, List.append_assoc, List.cons_append]
    · simp only [hj, List.length_cons, List.length_append]
      omega

/-- Finding out whether an export is one of types changes nothing.  Such an export
goes on with a name. -/
theorem eq_of_atTypeExport (h : atTypeExport c st = .ok b st') :
    st' = st ∧ (b = true → ∃ t pos, Lexer.next st.isType c.source st.pos = .ok t pos
      ∧ t.kind = .name) := by
  unfold atTypeExport at h
  rw [Looks.bind_apply] at h
  split at h
  · obtain ⟨after, st₀, hpeek, hrest⟩ := Parser.exists_of_bind h
    obtain rfl := eq_of_peek hpeek
    split at hrest
    · rename_i hname
      simp only [Looks.bind_apply] at hrest
      refine ⟨(EStateM.Result.ok.inj hrest).2.symm, fun _ => ?_⟩
      rw [peek_apply] at hpeek
      split at hpeek
      · rename_i t pos hread
        obtain ⟨rfl, -⟩ := EStateM.Result.ok.inj hpeek
        exact ⟨t, pos, hread, hname⟩
      · cases hpeek
    · cases hrest
      exact ⟨rfl, by simp⟩
  · cases h
    exact ⟨rfl, by simp⟩

/-- Is the token after an index part of a type, and the last token, too? -/
def State.endsInType (st : State) (i : Nat) : Bool :=
  st.tokens.back?.any Token.isType && (st.tokens[i + 1]?).any Token.isType

theorem State.endsInType_modify (st : State) (i : Nat) (hg : ∀ t, (g t).isType = t.isType) :
    State.endsInType { st with tokens := st.tokens.modify i g } i = st.endsInType i := by
  have hany : ∀ k : Nat, ((st.tokens.modify i g)[k]?).any Token.isType
      = (st.tokens[k]?).any Token.isType := by
    intro k
    rw [Array.getElem?_modify]
    split
    · cases st.tokens[k]? <;> simp [hg]
    · rfl
  simp only [State.endsInType, Array.back?_eq_getElem?, Array.size_modify, hany]

theorem modify_modify (ts : Array Token) (i : Nat) (f g : Token → Token) :
    (ts.modify i f).modify i g = ts.modify i fun t => g (f t) := by
  refine Array.ext_getElem? fun k => ?_
  simp only [Array.getElem?_modify]
  split
  · cases ts[k]? <;> rfl
  · rfl

theorem markTypeExport_apply (i : Nat) (c : Setting) (st : State) :
    markTypeExport i c st = .ok () { st with
      tokens := st.tokens.modify i fun t => { t with isType := t.isType || st.endsInType i } } := by
  change (if st.endsInType i = true then modifyToken i _ else pure ()) c st = _
  cases h : st.endsInType i with
  | true =>
    simp only [Bool.or_true]
    rfl
  | false =>
    have hsame : st.tokens.modify i (fun t => { t with isType := t.isType || false })
        = st.tokens := by
      refine Array.ext_getElem? fun k => ?_
      rw [Array.getElem?_modify]
      cases st.tokens[k]? <;> simp
    rw [hsame]
    rfl

/-- An export declaration is one of types, or it exports something and its keyword is
made part of a type if that starts and ends as one. -/
theorem exists_of_exportRule (h : exportRule call c st = .ok () st') :
    (∃ st₁ st₂, next c { st with isType := true } = .ok () st₁ ∧ st₁.cur.kind = .name
        ∧ typeExport call c st₁ = .ok () st₂ ∧ st' = { st₂ with isType := st.isType })
      ∨ ∃ st₁ st₂ g, next c st = .ok () st₁ ∧ exported call c st₁ = .ok () st₂
        ∧ st' = { st₂ with tokens := st₂.tokens.modify st.tokens.size g }
        ∧ ∀ t, (g t).isType = (t.isType || st₂.endsInType st.tokens.size)
          ∧ (g t).kind = t.kind ∧ (g t).depth = t.depth := by
  obtain ⟨i, st₀, hcount, h₁⟩ := Parser.exists_of_bind h
  cases hcount
  obtain ⟨b, st₀, hahead, h₂⟩ := Parser.exists_of_bind h₁
  obtain ⟨rfl, hname⟩ := eq_of_atTypeExport hahead
  split at h₂
  · rename_i hb
    obtain ⟨st₂, htyped, hst'⟩ := exists_of_inType h₂
    obtain ⟨_, st₁, hnext, hexport⟩ := Parser.exists_of_bind htyped
    obtain ⟨t, pos, hread, hkind⟩ := hname hb
    have hread' : Lexer.next true c.source st₀.pos = .ok t pos := Lexer.next_of_name hread hkind
    obtain ⟨t', pos', hread'', rfl⟩ := finish_of_next hnext
    obtain ⟨rfl, rfl⟩ := EStateM.Result.ok.inj (hread''.symm.trans hread')
    exact .inl ⟨_, st₂, hnext, hkind, hexport, hst'⟩
  obtain ⟨_, st₁, hnext, h₃⟩ := Parser.exists_of_bind h₂
  simp only [Looks.bind_apply] at h₃
  obtain ⟨_, st₂, hexported, h₄⟩ := Parser.exists_of_bind h₃
  obtain ⟨stop, _, hstop, h₅⟩ := Parser.exists_of_bind h₄
  cases hstop
  refine .inr ⟨st₁, st₂, ?_⟩
  split at h₅
  · obtain ⟨_, st₃, hmodify, h₆⟩ := Parser.exists_of_bind h₅
    cases hmodify
    rw [markTypeExport_apply] at h₆
    have hends := st₂.endsInType_modify st₀.tokens.size
      (g := fun t => { t with rhsEnd := some st₂.tokens.size }) fun t => rfl
    refine ⟨fun t => { t with
      isType := t.isType || st₂.endsInType st₀.tokens.size
      rhsEnd := some st₂.tokens.size }, hnext, hexported, ?_, fun t => ⟨rfl, rfl, rfl⟩⟩
    rw [← (EStateM.Result.ok.inj h₆).2]
    dsimp only
    rw [hends, modify_modify]
  · rw [markTypeExport_apply] at h₅
    exact ⟨_, hnext, hexported, (EStateM.Result.ok.inj h₅).2.symm, fun t => ⟨rfl, rfl, rfl⟩⟩

/-- What the kind of the token ahead can become before the token is finished. -/
def Becomes (kind kind' : Kind) : Prop :=
  kind' = kind ∨ kind' = .jsxTagStart ∨ kind' = .regex

/-- The first token that steps finish is the one that was ahead. -/
theorem Steps.first_kind {n : Nat} {x y : Stage × State} (h : Steps c n x y)
    (hn : x.2.tokens.size = n) :
    (y.2.tokens.size = n ∧ Becomes x.2.cur.kind y.2.cur.kind)
      ∨ ∃ t, y.2.tokens[n]? = some t ∧ Becomes x.2.cur.kind t.kind := by
  induction h with
  | refl => exact .inl ⟨hn, .inl rfl⟩
  | tail _ hstep ih =>
    cases hstep with
    | @finish s f st mode token pos hread =>
      rcases ih with ⟨hsize, hkind⟩ | ⟨t, ht, hkind⟩
      · refine .inr ⟨st.finished, ?_, hkind⟩
        simp only at hsize
        simp [State.finish, ← hsize]
      · refine .inr ⟨t, ?_, hkind⟩
        obtain ⟨hlt, -⟩ := Array.getElem?_eq_some_iff.mp ht
        simp only at hlt ht
        simp only [State.finish, Array.getElem?_push, if_neg (Nat.ne_of_lt hlt), ht]
    | @annotate s st i g hi hg =>
      rcases ih with ⟨hsize, hkind⟩ | ⟨t, ht, hkind⟩
      · exact .inl ⟨by simpa using hsize, hkind⟩
      · simp only at ht ⊢
        rw [Array.getElem?_modify]
        split
        · rename_i hin
          refine .inr ⟨g t, by rw [ht]; rfl, ?_⟩
          rw [(hg t (hin ▸ ht)).kind]
          exact hkind
        · exact .inr ⟨t, ht, hkind⟩
    | @annotateFrom s st i g hi hg =>
      rcases ih with ⟨hsize, hkind⟩ | ⟨t, ht, hkind⟩
      · exact .inl ⟨by simpa using hsize, hkind⟩
      · simp only at ht ⊢
        rw [Array.getElem?_mapIdx, ht]
        refine .inr ⟨_, rfl, ?_⟩
        split
        · rename_i hin
          rw [(hg n t hin ht).kind]
          exact hkind
        · exact hkind
    | retag hahead =>
      rcases ih with ⟨hsize, -⟩ | hfinished
      · exact .inl ⟨hsize, .inr (.inl rfl)⟩
      · exact .inr hfinished
    | regex _ hread =>
      rcases ih with ⟨hsize, -⟩ | hfinished
      · obtain ⟨_, _, _, ht⟩ := Lexer.exists_of_regex hread
        exact .inl ⟨hsize, .inr (.inr (by rw [ht]))⟩
      · exact .inr hfinished
    | _ => exact ih

/-- What is exported starts with the token ahead. -/
theorem kind_of_exported (hc : Calls c call) (hcur : Lexed c st.cur)
    (h : exported call c st = .ok () st') (ht : st'.tokens[st.tokens.size]? = some t)
    (hkind : t.kind = .star ∨ t.kind = .braceL ∨ t.kind = .kwDefault) : st.cur.kind = t.kind := by
  have hcontext : st.view.cur.context = none := hcur.context
  have hsteps := (runs_exported hc st.frame_isLoose hcontext).steps_of_ok h
  rcases hsteps.first_kind rfl with ⟨hsize, -⟩ | ⟨u, hu, hbecomes⟩
  · rw [Array.getElem?_eq_none (Nat.le_of_eq hsize)] at ht
    cases ht
  · obtain rfl : u = t := Option.some.inj (hu.symm.trans ht)
    rcases hbecomes with h | h | h
    · exact h.symm
    all_goals simp [h] at hkind

/-- An export declaration is part of a type and no export of a default, or its keyword stands
in front of what is exported. -/
theorem ExportStands.cases (h : ExportStands c tokens i j) :
    (∃ t, tokens[i]? = some t ∧ t.isType = true ∧ t.kind = .kwExport
        ∧ ∀ u, i + 1 < j → tokens[i + 1]? = some u → u.kind ≠ .kwDefault)
      ∨ ∃ call st st₁ st₂ g, Calls c call ∧ st.cur.kind = .kwExport ∧ st.cur.isType = false
        ∧ Reads c st [st.finished] st₁ ∧ exported call c st₁ = .ok () st₂
        ∧ Covers tokens i j st { st₂ with tokens := st₂.tokens.modify st.tokens.size g }
        ∧ tokens[i]? = some (g st.finished)
        ∧ ∀ t, (g t).isType = (t.isType || st₂.endsInType st.tokens.size)
          ∧ (g t).kind = t.kind ∧ (g t).depth = t.depth := by
  obtain ⟨call, st, st', hc, hkind, hcur, hrun, hcovers⟩ := h
  rcases exists_of_exportRule hrun with ⟨st₁, st₂, hnext, hname, htyped, rfl⟩
    | ⟨st₁, st₂, g, hnext, hexported, rfl, hg⟩
  · have hsteps := ((keeps_typeExport hc).run st₁.frame_isLoose).steps_of_ok htyped
    have hfirst := (reads_next hnext).getElem?_of_kept (hsteps.kept (Nat.le_refl _))
    have hsize : st₁.tokens.size = i + 1 := by
      rw [← Array.length_toList, (reads_next hnext).tokens]
      simp [← hcovers.start]
    have hlt : i < j := by
      rw [← hcovers.start, ← hcovers.stop]
      exact (Array.getElem?_eq_some_iff.mp hfirst).1
    refine .inl ⟨State.finished { st with isType := true }, ?_, Bool.or_true _, hkind, ?_⟩
    · rw [hcovers.same i (Nat.le_refl i) hlt, ← hcovers.start]
      exact hfirst
    · -- the token behind the keyword is the name that was seen there
      intro u hu hget hdefault
      rw [hcovers.same (i + 1) (Nat.le_succ i) hu, ← hsize] at hget
      rcases hsteps.first_kind rfl with ⟨hsame, -⟩ | ⟨t, ht, hbecomes⟩
      · rw [Array.getElem?_eq_none (Nat.le_of_eq hsame)] at hget
        cases hget
      · obtain rfl : t = u := Option.some.inj (ht.symm.trans hget)
        simp only [Becomes, hname, hdefault] at hbecomes
        simp at hbecomes
  · have hreads := reads_next hnext
    have hcontext : st₁.view.cur.context = none := hreads.lexed.context
    have hkept := (runs_exported hc st₁.frame_isLoose hcontext).kept_of_ok hexported
    have hfirst := hreads.getElem?_of_kept hkept
    have hlt : i < j := by
      rw [← hcovers.start, ← hcovers.stop]
      simpa using (Array.getElem?_eq_some_iff.mp hfirst).1
    refine .inr ⟨call, st, st₁, st₂, g, hc, hkind, hcur, hreads, hexported, hcovers, ?_, hg⟩
    rw [hcovers.same i (Nat.le_refl i) hlt, ← hcovers.start, Array.getElem?_modify, if_pos rfl, hfirst]
    rfl

/-- The token behind the keyword of an export is the first of what is exported. -/
theorem Covers.getElem?_second {st₁ st₂ : State} (hfirst : Reads c st [t] st₁)
    (h : Covers tokens i j st { st₂ with tokens := st₂.tokens.modify st.tokens.size g })
    (hlt : i + 1 < j) (hu : tokens[i + 1]? = some u) : st₂.tokens[st₁.tokens.size]? = some u := by
  have hsize : st₁.tokens.size = i + 1 := by
    rw [← Array.length_toList, hfirst.tokens]
    simp [← h.start]
  rw [h.same _ (Nat.le_succ i) hlt, Array.getElem?_modify, if_neg (by rw [h.start]; omega)] at hu
  rw [hsize, hu]

/-- An export of all names or of a list that is no type is one of the module itself, or it
has a form. -/
theorem ExportStands.form (h : ExportStands c tokens i j)
    (hvalue : ∀ t, tokens[i]? = some t → t.isType = false) (hlt : i + 1 < j)
    (hu : tokens[i + 1]? = some u) (hlist : u.kind = .star ∨ u.kind = .braceL) :
    ∃ t, t.kind = .kwExport ∧
      ((∃ items opening closing rest,
          tokens.toList.drop i = t :: opening :: (items ++ closing :: (rest ++ tokens.toList.drop j))
          ∧ j = i + 2 + items.length + 1 + rest.length ∧ Separated c.source (ExportItem c.source) items ∧ IsMark c.source .braceL opening
          ∧ IsMark c.source .braceR closing ∧ ∀ t ∈ rest, t.kind = .semi)
        ∨ ∃ ts path rest, tokens.toList.drop i = t :: (ts ++ path :: (rest ++ tokens.toList.drop j))
          ∧ j = i + 1 + ts.length + 1 + rest.length ∧ ExportForm c.source ts
          ∧ IsTail c.source path rest) := by
  rcases h.cases with ⟨t, ht, htype, -, -⟩
    | ⟨call, st, st₁, st₂, g, hc, hkind, hcur, hfirst, hexported, hcovers, hget, hg⟩
  · rw [hvalue t ht] at htype
    cases htype
  have hst₁ : AtValue c st₁ := by
    have hfalse := hvalue _ hget
    rw [(hg _).1, Bool.or_eq_false_iff, State.finished, hcur, Bool.false_or] at hfalse
    exact hfirst.atValue hfalse.1
  have hahead : st₁.cur.kind = u.kind :=
    kind_of_exported hc hfirst.lexed hexported (hcovers.getElem?_second hfirst hlt hu)
      (hlist.imp_right .inl)
  refine ⟨g st.finished, (hg _).2.1.trans hkind, ?_⟩
  unfold exported at hexported
  rw [Looks.bind_apply] at hexported
  have hseen : (Looks.seen cur c st₁.cur).kind = u.kind := hahead
  have hform : ∀ {ts path rest}, Reads c st₁ (ts ++ path :: rest) st₂ → 
      tokens.toList.drop i = g st.finished :: (ts ++ path :: (rest ++ tokens.toList.drop j))
        ∧ j = i + 1 + ts.length + 1 + rest.length := by
    intro ts path rest hreads
    obtain ⟨hj, hdrop⟩ := hcovers.drop_eq ((hfirst.cons hreads).modify_first g)
    refine ⟨by simpa using hdrop, ?_⟩
    simp only [hj, List.length_cons, List.length_append]
    omega
  rcases hlist with hstar | hbrace
  · rw [hseen, hstar] at hexported
    obtain ⟨ts, path, rest, hreads, hexport, hpath⟩ :=
      reads_exportAll hst₁ (hahead.trans hstar) hexported
    obtain ⟨hdrop, hlength⟩ := hform hreads
    exact .inr ⟨ts, path, rest, hdrop, hlength, hexport, hpath⟩
  · rw [hseen, hbrace] at hexported
    rcases reads_exportList hst₁ hexported with
      ⟨items, opening, closing, rest, hreads, hitems, hopening, hclosing, hrest⟩
      | ⟨ts, path, rest, hreads, hexport, hpath⟩
    · obtain ⟨hj, hdrop⟩ := hcovers.drop_eq ((hfirst.cons hreads).modify_first g)
      refine .inl ⟨items, opening, closing, rest, by simpa using hdrop, ?_, hitems, hopening,
        hclosing, hrest⟩
      simp only [hj, List.length_cons, List.length_append]
      omega
    · obtain ⟨hdrop, hlength⟩ := hform hreads
      exact .inr ⟨ts, path, rest, hdrop, hlength, hexport, hpath⟩

theorem ExportStands.kind_first (h : ExportStands c tokens i j) :
    ∃ t, tokens[i]? = some t ∧ t.kind = .kwExport := by
  rcases h.cases with ⟨t, ht, -, hkind, -⟩ | ⟨_, st, _, _, g, -, hkind, -, -, -, -, hget, hg⟩
  · exact ⟨t, ht, hkind⟩
  · exact ⟨_, hget, (hg _).2.1.trans hkind⟩

/-- Whether an export ends as a type is seen at its second and its last token. -/
theorem Covers.endsInType {st₂ : State}
    (h : Covers tokens i j st { st₂ with tokens := st₂.tokens.modify st.tokens.size g })
    (hlt : i + 1 < j) :
    st₂.endsInType st.tokens.size
      = ((tokens[j - 1]?).any Token.isType && (tokens[i + 1]?).any Token.isType) := by
  have hsize : st₂.tokens.size = j := by
    have hstop := h.stop
    rwa [Array.size_modify] at hstop
  have hsame : ∀ k, i < k → k < j → tokens[k]? = st₂.tokens[k]? := by
    intro k hik hkj
    rw [h.same k (Nat.le_of_lt hik) hkj, Array.getElem?_modify, if_neg]
    rw [h.start]
    omega
  rw [State.endsInType, Array.back?_eq_getElem?, hsize, h.start, hsame (j - 1) (by omega) (by omega),
    hsame (i + 1) (by omega) hlt]

/-- The keyword of an export that starts and ends as a type is part of the type. -/
theorem ExportStands.isType (h : ExportStands c tokens i j) (hlt : i + 1 < j)
    (hsecond : (tokens[i + 1]?).any Token.isType = true)
    (hlast : (tokens[j - 1]?).any Token.isType = true) :
    (tokens[i]?).any Token.isType = true := by
  rcases h.cases with ⟨t, ht, htype, -, -⟩ | ⟨_, st, _, _, g, -, -, -, -, -, hcovers, hget, hg⟩
  · rw [ht, Option.any_some, htype]
  · rw [hget, Option.any_some, (hg _).1, hcovers.endsInType hlt, hsecond, hlast, Bool.and_self,
      Bool.or_true]

/-- The keyword of an export of a default is no part of a type if the `default` is none. -/
theorem ExportStands.not_isType (h : ExportStands c tokens i j) (hlt : i + 1 < j)
    (hu : tokens[i + 1]? = some u) (hdefault : u.kind = .kwDefault) (hvalue : u.isType = false) :
    (tokens[i]?).any Token.isType = false := by
  rcases h.cases with ⟨_, -, -, -, hne⟩
    | ⟨call, st, st₁, st₂, g, hc, -, hcur, hfirst, hexported, hcovers, hget, hg⟩
  · exact absurd hdefault (hne u hlt hu)
  have hread := hcovers.getElem?_second hfirst hlt hu
  -- the `default` is the token ahead, so that it shows whether a type is read
  have hahead : st₁.cur.kind = .kwDefault :=
    (kind_of_exported hc hfirst.lexed hexported hread (.inr (.inr hdefault))).trans hdefault
  have hfinished : u = st₁.finished := by
    unfold exported at hexported
    rw [Looks.bind_apply] at hexported
    have hseen : (Looks.seen cur c st₁.cur).kind = .kwDefault := hahead
    rw [hseen] at hexported
    obtain ⟨_, st₃, hnext, hrest⟩ := Parser.exists_of_bind hexported
    have hkept := (keeps_exportDefault hc _ st₃.frame _).kept_of_ok hrest
    exact Option.some.inj (hread.symm.trans ((reads_next hnext).getElem?_of_kept hkept))
  have htype : st.isType = false := by
    rw [hfinished, State.finished, Bool.or_eq_false_iff] at hvalue
    exact hfirst.isType.symm.trans hvalue.2
  rw [hget, Option.any_some, (hg _).1, hcovers.endsInType hlt, hu, Option.any_some, hvalue,
    Bool.and_false, Bool.or_false, State.finished, hcur, htype, Bool.or_self]

/-! ## Reading declarations -/

/-- Is the token ahead of this kind once the first rule has read the tokens up to `i`, and
does the second rule read those up to `j` from there? -/
def readsAfter (before : Parser Unit) (kind : Kind) (rule : Parser Unit) (c : Setting)
    (tokens : Array Token) (i j : Nat) : Bool :=
  match State.initial c.source with
  | .error _ => false
  | .ok st₀ =>
    match before c st₀ with
    | .error _ _ => false
    | .ok _ st =>
      match rule c st with
      | .error _ _ => false
      | .ok _ st' => decide (st.cur.kind = kind ∧ st.cur.isType = false ∧ st.tokens.size = i
          ∧ st'.tokens = tokens.extract 0 j ∧ j ≤ tokens.size)

/-- Is the first token of a source of this kind, and does a rule read the tokens up to `j`
from there? -/
def readsFirst (kind : Kind) (rule : Parser Unit) (c : Setting) (tokens : Array Token) (j : Nat) :
    Bool :=
  readsAfter (pure ()) kind rule c tokens 0 j

theorem exists_of_readsAfter {before rule : Parser Unit}
    (h : readsAfter before kind rule c tokens i j = true) :
    ∃ st₀ st st', State.initial c.source = .ok st₀ ∧ before c st₀ = .ok () st ∧ st.cur.kind = kind
      ∧ st.cur.isType = false ∧ rule c st = .ok () st' ∧ Covers tokens i j st st' := by
  unfold readsAfter at h
  split at h
  · cases h
  rename_i st₀ hinitial
  split at h
  · cases h
  rename_i st hbefore
  split at h
  · cases h
  rename_i st' hrun
  obtain ⟨hkind, htype, hsize, htokens, hj⟩ := of_decide_eq_true h
  refine ⟨st₀, st, st', hinitial, hbefore, hkind, htype, hrun, hsize, ?_, fun k _ hk => ?_⟩
  · rw [htokens, Array.size_extract]
    omega
  · rw [htokens, Array.getElem?_extract, if_pos (by omega), Nat.zero_add]

theorem importStands_of_readsAfter {before : Parser Unit}
    (h : readsAfter before .kwImport importRule c tokens i j = true) :
    ImportStands c tokens i j := by
  obtain ⟨-, st, st', -, -, -, -, hrun, hcovers⟩ := exists_of_readsAfter h
  exact ⟨st, st', hrun, hcovers⟩

theorem exportStands_of_readsAfter {before : Parser Unit}
    (h : readsAfter before .kwExport (exportRule run) c tokens i j = true) :
    ExportStands c tokens i j := by
  obtain ⟨-, st, st', -, -, hkind, htype, hrun, hcovers⟩ := exists_of_readsAfter h
  exact ⟨run, st, st', calls_run c, hkind, htype, hrun, hcovers⟩

end

end Downlevel.Grammar
