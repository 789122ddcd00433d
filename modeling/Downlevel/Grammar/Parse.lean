import Downlevel.Grammar.Statement

/-!
# Parsing a program
-/

namespace Downlevel.Grammar

/-- The definition of each rule. -/
def define (call : Reference) : Rule → Parser Unit
  | .statement => statement call
  | .assignment noIn => assignment call noIn
  | .unary => unary call
  | .newExpression => newExpression call
  | .binding role => binding call role
  | .type conditional => typeRule call conditional
  | .typeOperand => typeOperand call
  | .element after => element call after

/-- How many rules in a row can come after this one without a token between them. -/
def Rule.rank : Rule → Nat
  | .statement => 3
  | .assignment _ => 2
  | .unary | .type _ => 1
  | .newExpression | .binding _ | .typeOperand | .element _ => 0

/-- How much can be left to do for a rule: that of a rule is more than that of
every rule it refers to. -/
def weight (c : Setting) (rule : Rule) (st : State) : Nat :=
  4 * c.remaining st + rule.rank

/-- Runs a rule from a state on.  Each rule that it refers to has to have less
weight. -/
def runFrom (rule : Rule) (c : Setting) (st : State) : EStateM.Result Error State Unit :=
  define (fun rule' c' st' =>
    if weight c' rule' st' < weight c rule st then runFrom rule' c' st'
    else Parser.stalled c' st') rule c st
termination_by weight c rule st

/-- Runs a rule. -/
def run : Reference :=
  runFrom

/-- A whole program. -/
def program : Parser Unit :=
  Parser.repeatUntil .eof (run .statement)

/-- The annotated tokens of a source. -/
def parse (source : Text) (o : Options) : Except Error (Array Token) := do
  let st ← State.initial source
  match program (Setting.ofOptions source o) st with
  | .ok _ st' => .ok st'.tokens
  | .error e _ => .error e

end Downlevel.Grammar
