import Downlevel.Text.Basic
import Downlevel.Unicode.ClusterClass
import Downlevel.Unicode.Conjunct

/-!
# Clusters

A cluster is what a reader takes for one character: a letter with its marks, a
syllable, a flag, pictographs that are joined.  A text is cut into clusters from
the left, and whether a character goes on with the cluster before it depends on
its class and on a little of what came before.
-/

namespace Downlevel.Unicode

/-! ## What came before -/

/-- How far the last characters are on the way to joining two pictographs. -/
inductive PictographPart where
  | none
  /-- A pictograph and its extenders. -/
  | base
  /-- A pictograph, its extenders and a joiner. -/
  | joined
  deriving Repr, DecidableEq, Inhabited

/-- The part after one more character, whose class is given. -/
def PictographPart.next : PictographPart → ClusterClass → PictographPart
  | _, .pictograph => .base
  | .base, .extender => .base
  | .base, .joiner => .joined
  | _, _ => .none

/-- How far the last characters are on the way to joining two consonants. -/
inductive ConjunctPart where
  | none
  /-- A consonant and its extenders. -/
  | consonant
  /-- A consonant and its extenders, a linker among them. -/
  | linked
  deriving Repr, DecidableEq, Inhabited

/-- The part after one more character.  The zero width non-joiner keeps consonants
apart. -/
def ConjunctPart.next (p : ConjunctPart) (c : Char) : ConjunctPart :=
  if isConsonant c then .consonant
  else if isLinker c then if p = .none then .none else .linked
  else if c = '\u200D' || (isExtender c && c ≠ '\u200C') then p
  else .none

/-- What the characters so far tell about the next one. -/
structure ClusterContext where
  last : ClusterClass := .control
  pictograph : PictographPart := .none
  conjunct : ConjunctPart := .none
  /-- Is the last character the first letter of a flag? -/
  halfFlag : Bool := false
  deriving Repr, DecidableEq, Inhabited

namespace ClusterContext

/-- The context after one more character. -/
def next (s : ClusterContext) (c : Char) : ClusterContext :=
  let kind := ClusterClass.ofChar c
  { last := kind
    pictograph := s.pictograph.next kind
    conjunct := s.conjunct.next c
    halfFlag := kind = .regional && !s.halfFlag }

/-- Does the character go on with the cluster before it? -/
def joins (s : ClusterContext) (c : Char) : Bool :=
  let kind := ClusterClass.ofChar c
  if s.last.isAlone || kind.isAlone then s.last = .carriageReturn && kind = .lineFeed
  else if s.last = .prepended then true
  else
    match s.last, kind with
    | _, .extender | _, .joiner | _, .spacingMark => true
    | .hangul before, .hangul after => before.joins after
    | _, .pictograph => s.pictograph = .joined
    | _, .regional => s.halfFlag
    | _, _ => s.conjunct = .linked && isConsonant c

end ClusterContext

/-! ## Cutting a text -/

/-- What is left of the cluster that the context is in, and the clusters after it. -/
def clustersFrom (s : ClusterContext) : Text → Text × List Text
  | [] => ([], [])
  | c :: cs =>
      let (cluster, clusters) := clustersFrom (s.next c) cs
      if s.joins c then (c :: cluster, clusters) else ([], (c :: cluster) :: clusters)

/-- The clusters of a text. -/
def clusters (t : Text) : List Text :=
  (clustersFrom {} t).2

end Downlevel.Unicode
