import Downlevel.Proofs.Grammar.Moves
import Downlevel.Proofs.Grammar.Unfold

/-!
# What parts of the grammar do to the frame

`Takes c n f kind p g` says that running `p` at a token of the kind `kind` leads from the frame `f`
to the frame `g`.  Most parts keep the frame, and only a few steps change it (`Shifts`), so what a
part of the grammar does is put together from its parts by instances.  Types are passed over
without matching brackets, so that they only keep a frame where that is allowed (`Loose`).
-/

set_option synthInstance.maxSize 1000000000000000000
set_option synthInstance.maxHeartbeats 200000

namespace Downlevel.Grammar

open Grammar.Parser

variable {kinds : List Kind}

/-- Running the parser at a token of the kind leads from one frame to another. -/
class Takes {α : Type} (c : Setting) (n : Nat) (f : Frame) (kind : Kind) (p : Parser α)
    (g : Frame) : Prop where
  runs : ∀ v, v.cur.kind = kind → Runs c n f.plain v p (fun _ => g.plain) fun _ _ => True

/-- A single step that leads to a frame that can be told from the one before it. -/
class Shifts {α : Type} (c : Setting) (n : Nat) (f : Frame) (kind : Kind) (p : Parser α)
    (g : outParam (α → Frame)) : Prop where
  runs : ∀ v, v.cur.kind = kind → Runs c n f.plain v p (fun a => (g a).plain) fun _ _ => True

/-- The parser keeps the frame and ends at a token of the kind. -/
class EndsAt (c : Setting) (n : Nat) (f : Frame) (p : Parser Unit) (kind : outParam Kind) :
    Prop where
  runs : ∀ v, Runs c n f.plain v p (fun _ => f.plain) fun _ w => w.cur.kind = kind

/-- The index is not below the base. -/
class AtMost (n i : Nat) : Prop where
  le : n ≤ i

/-- An index that is not below the base. -/
structure Place (n : Nat) where
  index : Nat
  le : n ≤ index

instance {n : Nat} (s : Place n) : AtMost n s.index := ⟨s.le⟩

/-! ## Frames -/

/-- Brackets need not match in the frame. -/
class Loose (f : Frame) : Prop where
  isLoose : f.IsLoose

/-- A frame in which brackets need not match. -/
structure LooseFrame where
  frame : Frame
  isLoose : frame.IsLoose

instance (s : LooseFrame) : Loose s.frame := ⟨s.isLoose⟩
instance {f : Frame} : Loose f.typed := ⟨.inl rfl⟩
instance {f : Frame} {bracket : Bracket} [h : Loose f] : Loose (f.push bracket) := ⟨h.isLoose⟩
/-- A token that neither opens nor closes anything. -/
class Neutral (kind : Kind) : Prop where
  eq : isNeutral kind = true

/-- Is this not the kind of a bracket? -/
@[reducible] def notBracket : Kind → Bool
  | .parenL | .parenR | .braceL | .braceR | .dollarBraceL => false
  | _ => true

instance {kind : Kind} [h : IsTrue (notBracket kind)] : Neutral kind where
  eq := by
    have := h.eq
    cases kind <;> first | rfl | exact nomatch this

/-- A kind of tokens that neither open nor close anything. -/
structure NeutralKind where
  kind : Kind
  eq : isNeutral kind = true

instance (s : NeutralKind) : Neutral s.kind := ⟨s.eq⟩

/-- A token of the kind leads from one frame to the other. -/
class PassesTo (f : Frame) (kind : Kind) (g : outParam Frame) : Prop where
  passes : Passes f kind .none g

section

variable {f : Frame} {kind : Kind}

instance (priority := high) [h : Loose f] : PassesTo f kind f := ⟨.loose h.isLoose⟩
instance [h : Neutral kind] : PassesTo f kind f := ⟨.neutral h.eq⟩
instance : PassesTo f .parenL (f.push (.paren none)) := ⟨.parenL⟩
instance : PassesTo (f.push (.paren none)) .parenR f := ⟨.parenR⟩
instance : PassesTo f .braceL (f.push (.brace none)) := ⟨.braceL⟩
instance : PassesTo (f.push (.brace none)) .braceR f := ⟨.braceR⟩

end

/-! ## Rules -/

/-- What is asked of a rule.  A type may only stand where brackets need not
match, `new` and an element only at the token they start with. -/
def Obeys (c : Setting) : Rule → Parser Unit → Prop
  | .type _, p => KeepsLoose c p
  | .typeOperand, p => KeepsLoose c p
  | .newExpression, p => KeepsAt c .kwNew p
  | .element after, p =>
    ∀ n f b v, v.cur.kind = .lessThan ∨ v.cur.kind = .jsxTagStart →
      Runs c n { frame := f, inTag := b } v p (fun _ => f.after after) fun _ _ => True
  | .statement, p => Keeps c p
  | .assignment _, p => Keeps c p
  | .unary, p => Keeps c p
  | .binding _, p => Keeps c p

/-- Every rule does what is asked of it. -/
class Calls (c : Setting) (call : Reference) : Prop where
  obeys : ∀ rule, Obeys c rule (call rule)

/-! ## What conditions say -/

/-- The condition says which kind it is. -/
class Tells (P : Prop) (kind : Kind) (kind' : outParam Kind) : Prop where
  eq : P → kind = kind'

/-- Kinds of tokens that neither open nor close anything. -/
class Neutrals (kinds : List Kind) : Prop where
  eq : ∀ kind ∈ kinds, isNeutral kind = true

instance : Neutrals [] := ⟨nofun⟩

instance {kind : Kind} [h : Neutral kind] [h' : Neutrals kinds] :
    Neutrals (kind :: kinds) :=
  ⟨List.forall_mem_cons.mpr ⟨h.eq, h'.eq⟩⟩

/-- The condition says that it is not a bracket. -/
class Calms (P : Prop) (kind : Kind) : Prop where
  eq : P → isNeutral kind = true

section

variable {kind kind' : Kind} {P : Prop} {a b : Bool}

instance : Tells (kind = kind') kind kind' := ⟨id⟩

instance [Decidable P] [h : Tells P kind kind'] : Tells (decide P = true) kind kind' :=
  ⟨fun hP => h.eq (of_decide_eq_true hP)⟩

instance [h : Tells (a = true) kind kind'] : Tells ((a && b) = true) kind kind' :=
  ⟨fun hP => h.eq (Bool.and_eq_true_iff.mp hP).1⟩

instance [h : Tells (b = true) kind kind'] : Tells ((a && b) = true) kind kind' :=
  ⟨fun hP => h.eq (Bool.and_eq_true_iff.mp hP).2⟩

instance [h : Tells P kind kind'] [h' : Neutral kind'] : Calms P kind :=
  ⟨fun hP => h.eq hP ▸ h'.eq⟩

instance [h : Calms (a = true) kind] [h' : Calms (b = true) kind] : Calms ((a || b) = true) kind :=
  ⟨fun hP => (Bool.or_eq_true_iff.mp hP).elim h.eq h'.eq⟩

instance [h : Neutrals kinds] : Calms (kinds.contains kind = true) kind :=
  ⟨fun hP => h.eq kind (List.contains_iff_mem.mp hP)⟩

theorem isNeutral_of_isNameLike (h : kind.isNameLike = true) : isNeutral kind = true := by
  revert h
  cases kind <;> decide

instance : Calms (kind.isNameLike = true) kind := ⟨isNeutral_of_isNameLike⟩

instance : Calms (kind.isBinaryOperator = true) kind where
  eq h := by
    revert h
    cases kind <;> decide

end

namespace Takes

variable {α β σ : Type} {c : Setting} {n : Nat} {f f₁ g : Frame} {kind kind' : Kind}
  {p q : Parser α} {k : α → Parser β} {P : Prop} {inst : Decidable P} {i : Nat}
  {step : σ → Parser (ForInStep σ)}

/-- What holds at every token. -/
theorem run [h : ∀ kind, Takes c n f kind p g] {v : View} :
    Runs c n f.plain v p (fun _ => g.plain) fun _ _ => True :=
  (h v.cur.kind).runs v rfl

theorem keeps [h : ∀ n f kind, Takes c n f kind p f] : Keeps c p :=
  fun n f v => (h n f v.cur.kind).runs v rfl

theorem keepsLoose [h : ∀ n (s : LooseFrame) kind, Takes c n s.frame kind p s.frame] :
    KeepsLoose c p :=
  fun n f v hf => (h n ⟨f, hf⟩ v.cur.kind).runs v rfl

theorem of_keeps (h : Keeps c p) : Takes c n f kind p f :=
  ⟨fun v _ => h n f v⟩

theorem of_loose [hf : Loose f] (h : KeepsLoose c p) : Takes c n f kind p f :=
  ⟨fun v _ => h n f v hf.isLoose⟩

section

variable {call : Reference} [h : Calls c call]

instance {b : Bool} [Loose f] : Takes c n f kind (call (.type b)) f := of_loose (h.obeys (.type b))
instance [Loose f] : Takes c n f kind (call .typeOperand) f := of_loose (h.obeys .typeOperand)
instance : Takes c n f kind (call .statement) f := of_keeps (h.obeys .statement)
instance {b : Bool} : Takes c n f kind (call (.assignment b)) f := of_keeps (h.obeys (.assignment b))
instance : Takes c n f kind (call .unary) f := of_keeps (h.obeys .unary)
instance : Takes c n f .kwNew (call .newExpression) f := ⟨h.obeys .newExpression n f⟩
instance {role : Role} : Takes c n f kind (call (.binding role)) f := of_keeps (h.obeys (.binding role))

end

/-! ## Putting parts together -/

theorem bind_of (hp : Takes c n f kind p f) (hk : ∀ a kind', Takes c n f kind' (k a) g) :
    Takes c n f kind (p >>= k) g where
  runs v hv := (hp.runs v hv).bind fun a w _ => (hk a w.cur.kind).runs w rfl

instance [hp : Takes c n f kind p f] [hk : ∀ a kind', Takes c n f kind' (k a) g] :
    Takes c n f kind (p >>= k) g :=
  bind_of hp hk

theorem bind_shift {f₁ : α → Frame} [hp : Shifts c n f kind p f₁]
    (hk : ∀ a kind', Takes c n (f₁ a) kind' (k a) g) : Takes c n f kind (p >>= k) g where
  runs v hv := (hp.runs v hv).bind fun a w _ => (hk a w.cur.kind).runs w rfl

instance (priority := high) {f₁ : α → Frame} [hp : Shifts c n f kind p f₁]
    [hk : ∀ a kind', Takes c n (f₁ a) kind' (k a) g] : Takes c n f kind (p >>= k) g :=
  bind_shift hk

instance (priority := high) [hp : Shifts c n f kind p fun _ => g] : Takes c n f kind p g :=
  ⟨hp.runs⟩

instance (priority := high) {p : Parser Unit} {k : Unit → Parser β} [hp : EndsAt c n f p kind']
    [hk : Takes c n f kind' (k ()) g] : Takes c n f kind (p >>= k) g where
  runs v _ := (hp.runs v).bind fun _ w hw => hk.runs w hw

instance (priority := high) {γ : Type} {k' : β → Parser γ}
    [h : Takes c n f kind (p >>= fun a => k a >>= k') g] :
    Takes c n f kind ((p >>= k) >>= k') g := by
  rwa [bind_assoc]

instance (priority := high) {a : α} [h : Takes c n f kind (k a) g] :
    Takes c n f kind ((pure a : Parser α) >>= k) g := by
  rwa [pure_bind]

instance (priority := high) [h : Takes c n f kind (@ite _ P inst (p >>= k) (q >>= k)) g] :
    Takes c n f kind (@ite _ P inst p q >>= k) g := by
  rwa [← apply_ite (· >>= k)] at h

theorem ite_of (hp : P → Takes c n f kind p g) (hq : ¬P → Takes c n f kind q g) :
    Takes c n f kind (@ite _ P inst p q) g where
  runs v hv := Runs.ite (fun h => (hp h).runs v hv) fun h => (hq h).runs v hv

instance (priority := high) [hP : Tells P kind kind'] [hp : Takes c n f kind' p g]
    [hq : Takes c n f kind q g] :
    Takes c n f kind (@ite _ P inst p q) g :=
  ite_of (fun h => hP.eq h ▸ hp) fun _ => hq

instance [hP : Calms P kind] [hp : ∀ s : NeutralKind, Takes c n f s.kind p g]
    [hq : Takes c n f kind q g] :
    Takes c n f kind (@ite _ P inst p q) g :=
  ite_of (fun h => hp ⟨kind, hP.eq h⟩) fun _ => hq

instance (priority := low) [hp : Takes c n f kind p g] [hq : Takes c n f kind q g] :
    Takes c n f kind (@ite _ P inst p q) g :=
  ite_of (fun _ => hp) fun _ => hq

instance (priority := high) {inst : Decidable (true = true)} [hp : Takes c n f kind p g] :
    Takes c n f kind (@ite _ (true = true) inst p q) g := by
  rwa [if_pos rfl]

instance (priority := high) {inst : Decidable (false = true)} [hq : Takes c n f kind q g] :
    Takes c n f kind (@ite _ (false = true) inst p q) g := by
  rwa [if_neg nofun]

instance (priority := low) [h : Unfolds p q] [hq : Takes c n f kind q g] : Takes c n f kind p g :=
  h.eq ▸ hq

instance (priority := high) {p q : Parser Bool} {k : Bool → Parser β} [h : Unfolds p q]
    [hq : Takes c n f kind (q >>= k) g] : Takes c n f kind (p >>= k) g :=
  h.eq ▸ hq

instance {p q : Parser Unit} [h : Unfolds p q] [hq : EndsAt c n f q kind] : EndsAt c n f p kind :=
  h.eq ▸ hq

/-! ## Looking and failing -/

instance {a : α} : Takes c n f kind (pure a : Parser α) f :=
  ⟨fun _ _ => Runs.pure rfl trivial⟩

theorem bind_looks [Looks p] (hk : ∀ t : Token, t.kind = kind → Takes c n f kind (k (Looks.seen p c t)) g) :
    Takes c n f kind (p >>= k) g :=
  ⟨fun v hv => runs_looks.mpr ((hk v.cur hv).runs v hv)⟩

instance (priority := low) [Looks p] : Takes c n f kind p f :=
  ⟨fun _ _ => Runs.looks rfl trivial⟩

instance (priority := 900) [Looks p] [hk : ∀ a, Takes c n f kind (k a) g] :
    Takes c n f kind (p >>= k) g :=
  bind_looks fun _ _ => hk _

instance {k : Bool → Parser β} [hk : Takes c n f kind (k (decide (kind = kind'))) g] :
    Takes c n f kind (is kind' >>= k) g :=
  bind_looks fun _ ht => ht ▸ hk

instance {k : Bool → Parser β} [hk : Takes c n f kind (k (kinds.contains kind)) g] :
    Takes c n f kind (isOneOf kinds >>= k) g :=
  bind_looks fun _ ht => ht ▸ hk

instance {word : String} {k : Bool → Parser β}
    [hk : ∀ b, Takes c n f kind (k (decide (kind = .name) && b)) g] :
    Takes c n f kind (isName word >>= k) g :=
  bind_looks fun _ ht => ht ▸ hk _

theorem after_isName {word : String} {k : Bool → Parser β} (htrue : Takes c n f .name (k true) g)
    (hfalse : Takes c n f kind (k false) g) : Takes c n f kind (isName word >>= k) g :=
  bind_looks fun t ht => by
    cases hb : Looks.seen (isName word) c t with
    | true => exact (of_decide_eq_true (Bool.and_eq_true_iff.mp hb).1 : t.kind = .name).symm.trans ht ▸ htrue
    | false => exact hfalse

instance {words : List String} {k : Bool → Parser β}
    [hk : ∀ b, Takes c n f kind (k (decide (kind = .name) && b)) g] :
    Takes c n f kind (isNameOf words >>= k) g :=
  bind_looks fun _ ht => ht ▸ hk _

theorem after_cur {k : Token → Parser β} (hk : ∀ t : Token, Takes c n f t.kind (k t) g) :
    Takes c n f kind (cur >>= k) g :=
  bind_looks fun t ht => ht ▸ hk t

instance {k : Token → Parser β} [hk : ∀ t : Token, Takes c n f t.kind (k t) g] :
    Takes c n f kind (cur >>= k) g :=
  after_cur hk

instance {k : State → Parser β} [hk : ∀ st, Takes c n f kind (k st) g] :
    Takes c n f kind ((get : Parser State) >>= k) g where
  runs v hv := Runs.look (Q := fun _ => True) (fun st _ _ => ⟨st, rfl, trivial⟩)
    fun st _ => (hk st).runs v hv

theorem after_peek {k : Token → Parser β} (hk : ∀ t, Takes c n f kind (k t) g) :
    Takes c n f kind (peek >>= k) g :=
  ⟨fun _ hv => Runs.peek fun t => (hk t).runs _ hv⟩

instance {k : Token → Parser β} [hk : ∀ t, Takes c n f kind (k t) g] :
    Takes c n f kind (peek >>= k) g :=
  after_peek hk

instance {k : Bool → Parser β} [hk : ∀ b, Takes c n f kind (k b) g] :
    Takes c n f kind (peekIs kind' >>= k) g := by
  unfold peekIs
  infer_instance

instance {k : Nat → Parser β} [hk : ∀ s : Place n, Takes c n f kind (k s.index) g] :
    Takes c n f kind (tokenCount >>= k) g :=
  ⟨fun v hv => Runs.tokenCount fun m hm _ => (hk ⟨m, hm⟩).runs v hv⟩

instance {x : Fault} : Takes c n f kind (fault x : Parser α) g := ⟨fun _ _ => Runs.fault⟩
instance : Takes c n f kind (unexpected : Parser α) g := ⟨fun _ _ => Runs.unexpected⟩

/-! ## Steps -/

instance [h : PassesTo f kind g] : Shifts c n f kind next fun _ => g :=
  ⟨fun _ hv => (Runs.next (hv ▸ h.passes)).any⟩

instance [h : PassesTo f kind' g] : Shifts c n f kind (expect kind') fun _ => g :=
  ⟨fun _ _ => (Runs.expect h.passes).any⟩

instance [h : PassesTo f kind' f] : Shifts c n f kind (eat kind') fun _ => f :=
  ⟨fun _ _ => (Runs.eatKeeping h.passes).any⟩

instance {k : Bool → Parser β} [htrue : ∀ kind', Takes c n (f.push (.paren none)) kind' (k true) g]
    [hfalse : ∀ kind', Takes c n f kind' (k false) g] : Takes c n f kind (eat .parenL >>= k) g where
  runs _ _ := (Runs.eat .parenL).bind fun b w _ => by
    cases b with
    | true => exact (htrue w.cur.kind).runs w rfl
    | false => exact (hfalse w.cur.kind).runs w rfl

instance {role : Role} : Shifts c n f kind (identifier role) fun _ => f :=
  ⟨fun _ _ => Runs.identifier.any⟩

instance : Shifts c n f kind enterScope fun _ => f.deeper := ⟨fun _ _ => Runs.enterScope.any⟩

instance : Shifts c n f.deeper kind leaveScope fun _ => f := ⟨fun _ _ => Runs.leaveScope.any⟩

instance : Shifts c n f kind (openContext .parenL)
    fun id => (f.push (.paren (some id))).inContext id :=
  ⟨fun _ _ => Runs.openContext fun _ => .parenL_opening⟩

instance : Shifts c n f kind (openContext .braceL)
    fun id => (f.push (.brace (some id))).inContext id :=
  ⟨fun _ _ => Runs.openContext fun _ => .braceL_opening⟩

instance {id : Nat} : Shifts c n ((f.push (.paren (some id))).inContext id) kind
    (closeContext .parenR) fun _ => f :=
  ⟨fun _ _ => Runs.closeContext .parenR_inside rfl⟩

instance {id : Nat} : Shifts c n ((f.push (.brace (some id))).inContext id) kind
    (closeContext .braceR) fun _ => f :=
  ⟨fun _ _ => Runs.closeContext .braceR_inside rfl⟩

instance [h : AtMost n i] : Shifts c n f kind (markTypesFrom i) fun _ => f :=
  ⟨fun _ _ => (Runs.markTypesFrom h.le).any⟩

instance {stop : Option Nat} [h : AtMost n i] :
    Shifts c n f kind (modifyToken i fun t => { t with rhsEnd := stop }) fun _ => f :=
  ⟨fun _ _ => (Runs.modifyToken (h := fun t => { t with rhsEnd := stop }) h.le
    fun _ _ => ⟨rfl, rfl, rfl, rfl, rfl, id, fun _ => rfl⟩).any⟩

instance [h : AtMost n i] :
    Shifts c n f kind (modifyToken i fun t => { t with isType := true }) fun _ => f :=
  ⟨fun _ _ => (Runs.modifyToken (h := fun t => { t with isType := true }) h.le
    fun _ _ => ⟨rfl, rfl, rfl, rfl, rfl, fun _ => rfl, fun _ => rfl⟩).any⟩

/-! ## Speculation, types and repetition -/

instance {k : Unit → Parser β} [h : Takes c n f kind (p >>= fun _ => k ()) g] :
    Takes c n f kind (discard p >>= k) g := by
  rwa [Parser.discard_bind]

instance [Takes c n f kind p f] : Takes c n f kind (discard p) f := by
  rw [Parser.discard_eq]
  infer_instance

theorem attempt_bind {p : Parser Unit} {k : Bool → Parser β} (hp : ∀ m, Takes c m f kind p f₁)
    (htrue : ∀ kind', Takes c n f₁ kind' (k true) g) (hfalse : Takes c n f kind (k false) g) :
    Takes c n f kind (attempt p >>= k) g where
  runs v hv := (Runs.attempt (t := f₁.plain) (v := v)
      fun m _ => (hp m).runs _ hv).bind fun b w hw => by
    cases b with
    | true => exact (htrue w.cur.kind).runs w rfl
    | false => exact hfalse.runs w (by rw [show w = v from hw]; exact hv)

instance {p : Parser Unit} {k : Bool → Parser β} [hp : ∀ m, Takes c m f kind p f]
    [htrue : ∀ kind', Takes c n f kind' (k true) g] [hfalse : Takes c n f kind (k false) g] :
    Takes c n f kind (attempt p >>= k) g :=
  attempt_bind hp htrue hfalse

instance (priority := 900) {p : Parser Unit} {k : Bool → Parser β}
    [hp : ∀ m, Takes c m f kind p f.deeper] [htrue : ∀ kind', Takes c n f.deeper kind' (k true) g]
    [hfalse : Takes c n f kind (k false) g] : Takes c n f kind (attempt p >>= k) g :=
  attempt_bind hp htrue hfalse

instance [hp : ∀ m, Takes c m f kind p f] : Takes c n f kind (lookahead p) f :=
  ⟨fun _ hv => (Runs.lookahead fun m _ => (hp m).runs _ hv).any⟩

instance [hp : Takes c n f.typed kind p f.typed] : Takes c n f kind (inType p) f :=
  ⟨fun _ hv => Runs.inType (hp.runs _ hv)⟩

theorem of_rounds {x : σ}
    (h : ∀ x kind, Takes c n f kind (step x) f) : Takes c n f kind (loop x step) f :=
  ⟨fun _ _ => Runs.loopKeeping fun x w => (h x w.cur.kind).runs w rfl⟩

instance {x : σ} [h : ∀ x kind, Takes c n f kind (step x) f] : Takes c n f kind (loop x step) f :=
  of_rounds h

instance {body : Parser Unit} [h : ∀ kind', Takes c n f kind' body f] :
    EndsAt c n f (repeatUntil kind body) kind :=
  ⟨fun _ => Runs.repeatUntil fun w _ => (h w.cur.kind).runs w rfl⟩

end Takes

end Downlevel.Grammar
