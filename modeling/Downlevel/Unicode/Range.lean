/-!
# Ranges of code points

A small Unicode property is held as the list of its maximal ranges.  A large one is held as
the lengths of its runs: how many code points lack it, how many have it then, and so on in
turn.
-/

namespace Downlevel.Unicode

/-- A range of code points, both ends included. -/
abbrev Range := Nat × Nat

/-- Does the code point of `c` lie in the range? -/
def Range.contains (c : Char) (r : Range) : Bool :=
  decide (r.1 ≤ c.toNat) && decide (c.toNat ≤ r.2)

/-- Does the `n`-th code point have the property?  The first run has it if `holds`. -/
def inRuns (holds : Bool) : List Nat → Nat → Bool
  | [], _ => false
  | size :: runs, n => if n < size then holds else inRuns (!holds) runs (n - size)

end Downlevel.Unicode
