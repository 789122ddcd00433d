import Downlevel.Linkage.Dependency
import Downlevel.Linkage.Helper
import Downlevel.Names

/-!
# Bindings of a module

Every module path gets a variable, and every imported name an expression on the
variable of its module.
-/

namespace Downlevel.Linkage

/-- How the names of other modules are reached. -/
structure Bindings where
  /-- The variable of each path that has one. -/
  moduleNames : List (Text × Text) := []
  /-- The statement that loads each path. -/
  loads : List (Text × Text) := []
  /-- The expression of each imported name, later ones first. -/
  replacements : List (Text × Text) := []
  helpers : Helpers := {}
  hasExport : Bool := false
  hasDefaultExport : Bool := false
  hasNamedExports : Bool := false
  deriving Repr, DecidableEq, Inhabited

namespace Bindings

/-- The expression of an imported name. -/
def replacement? (b : Bindings) (name : Text) : Option Text :=
  b.replacements.lookup name

/-- The variable of a path. -/
def moduleName? (b : Bindings) (path : Text) : Option Text :=
  b.moduleNames.lookup path

/-- The statement that loads a path, empty if it needs none. -/
def load (b : Bindings) (path : Text) : Text :=
  (b.loads.lookup path).getD []

/-- A call of `require` for the string literal of a path. -/
def requireCall (rawPath : Text) : Text :=
  "require(".toList ++ rawPath ++ ")".toList

/-- With a path nothing is taken from.  It is still loaded for its effects,
unless names were taken that are not used. -/
def addUnused (b : Bindings) (path : Text) (d : Dependency) : Bindings :=
  let code := if d.hadBindings then [] else requireCall d.rawPath ++ ";".toList
  { b with loads := b.loads ++ [(path, code)] }

/-- The name of a helper, which is claimed the first time it is needed. -/
def claimHelper (known : Option Text) (base : String) (names : Names) : Text × Names :=
  match known with
  | some name => (name, names)
  | none => names.claim base.toList

/-- The helper that loads a dependency. -/
def claimLoader (h : Helpers) (d : Dependency) (names : Names) : Text × Helpers × Names :=
  if d.isOnlyDefault then
    let (name, names) := claimHelper h.default "_interopRequireDefault" names
    (name, { h with default := some name }, names)
  else
    let (name, names) := claimHelper h.wildcard "_interopRequireWildcard" names
    (name, { h with wildcard := some name }, names)

/-- The helper that passes on all names, if a dependency needs it. -/
def claimExportStar (h : Helpers) (d : Dependency) (names : Names) : Helpers × Names :=
  if d.hasStarExport then
    let (name, names) := claimHelper h.exportStar "_exportStar" names
    ({ h with exportStar := some name }, names)
  else (h, names)

/-- The expressions of the names taken from the module of a variable, later ones first. -/
def replacementsOf (variableName : Text) (d : Dependency) : List (Text × Text) :=
  let defaults := d.defaultNames.map fun name => (name, variableName ++ ".default".toList)
  let wildcards := d.wildcardNames.map fun name => (name, variableName)
  let named := d.named.map fun (imported, name) => (name, variableName ++ '.' :: imported)
  (defaults ++ wildcards ++ named).reverse

/-- With a path something is taken from. -/
def addUsed (b : Bindings) (path : Text) (d : Dependency) (names : Names) :
    Bindings × Names :=
  let (variableName, names) := names.claim (moduleBaseName path)
  let (loader, helpers, names) := claimLoader b.helpers d names
  let (helpers, names) := claimExportStar helpers d names
  let code :=
    "var ".toList ++ variableName ++ " = ".toList ++ loader ++ "(".toList
      ++ requireCall d.rawPath ++ ");".toList
  ({ b with
      moduleNames := b.moduleNames ++ [(path, variableName)]
      loads := b.loads ++ [(path, code)]
      replacements := replacementsOf variableName d ++ b.replacements
      helpers },
    names)

/-- With the paths of a list. -/
def addAll (b : Bindings) (names : Names) : List (Text × Dependency) → Bindings × Names
  | [] => (b, names)
  | (path, d) :: rest =>
      if d.isEmpty then (b.addUnused path d).addAll names rest
      else
        let (b, names) := b.addUsed path d names
        b.addAll names rest

/-- The bindings of a program, and the names that are taken after them. -/
def ofTokens (source : Text) (tokens : List Token) (o : Options) (names : Names) :
    Except Error (Bindings × Names) := do
  let ds ← Dependencies.ofTokens source tokens o
  let b : Bindings :=
    { hasExport := ds.hasExport, hasDefaultExport := ds.hasDefaultExport,
      hasNamedExports := ds.hasNamedExports }
  return b.addAll names ds.modules

end Bindings

end Downlevel.Linkage
