import Downlevel.Linkage.Statement
import Downlevel.Options

/-!
# Dependencies of a module

What a module takes from each other module, over all its statements.
-/

namespace Downlevel.Linkage

/-- What a module takes from one other module. -/
structure Dependency where
  /-- The string literal of the path, as written last. -/
  rawPath : Text := []
  defaultNames : List Text := []
  wildcardNames : List Text := []
  named : List (Text × Text) := []
  /-- Some statement binds a name. -/
  hadBindings : Bool := false
  /-- Some statement passes on names. -/
  hasReexport : Bool := false
  /-- Some statement passes on all names. -/
  hasStarExport : Bool := false
  deriving Repr, DecidableEq, Inhabited

namespace Dependency

/-- Is nothing taken? -/
def isEmpty (d : Dependency) : Bool :=
  d.defaultNames.isEmpty && d.wildcardNames.isEmpty && d.named.isEmpty && !d.hasReexport

/-- Is only the default taken? -/
def isOnlyDefault (d : Dependency) : Bool :=
  d.wildcardNames.isEmpty && d.named.isEmpty && !d.hasReexport

/-- Takes what an import takes, too. -/
def addImport (d : Dependency) (i : Import) : Dependency :=
  { d with
    rawPath := i.rawPath
    defaultNames := d.defaultNames ++ i.defaultName.toList
    wildcardNames := d.wildcardNames ++ i.wildcardName.toList
    named := d.named ++ i.named
    hadBindings := d.hadBindings || i.hasBindings }

/-- Takes what an export passes on, too. -/
def addReexport (d : Dependency) (rawPath : Text) (isStar : Bool) : Dependency :=
  { d with rawPath, hasReexport := true, hasStarExport := d.hasStarExport || isStar }

/-- Without the names that are not used. -/
def prune (d : Dependency) (used : List Text) : Dependency :=
  { d with
    defaultNames := d.defaultNames.filter used.contains
    wildcardNames := d.wildcardNames.filter used.contains
    named := d.named.filter fun pair => used.contains pair.2 }

end Dependency

/-- The dependencies of a module by path, in the order the paths first occur, and
what it exports. -/
structure Dependencies where
  modules : List (Text × Dependency) := []
  hasExport : Bool := false
  hasDefaultExport : Bool := false
  hasNamedExports : Bool := false
  deriving Repr, DecidableEq, Inhabited

/-- Changes the value of a key, which is added at the end if it is new. -/
def update (modules : List (Text × Dependency)) (path : Text) (f : Dependency → Dependency) :
    List (Text × Dependency) :=
  match modules with
  | [] => [(path, f {})]
  | (p, d) :: rest => if p = path then (p, f d) :: rest else (p, d) :: update rest path f

namespace Dependencies

/-- With an import. -/
def addImport (ds : Dependencies) (i : Import) : Dependencies :=
  { ds with modules := update ds.modules (unquote i.rawPath) (·.addImport i) }

/-- With an export. -/
def addExport (ds : Dependencies) (e : Export) : Dependencies :=
  { modules :=
      match e.reexport with
      | some rawPath => update ds.modules (unquote rawPath) (·.addReexport rawPath e.isStar)
      | none => ds.modules
    hasExport := true
    hasDefaultExport := ds.hasDefaultExport || e.isDefault
    hasNamedExports := ds.hasNamedExports || e.isNamed }

/-- With what the tokens say, of which only those outside functions and types count. -/
def scan (source : Text) (ds : Dependencies) : List Token → Except Error Dependencies
  | [] => .ok ds
  | t :: ts =>
      if t.isType || t.depth != 0 then scan source ds ts
      else if t.kind = .kwImport && !startsExpression ts.head? then
        match importOf source (statementTokens true none 0 ts) with
        | .ok i => scan source (ds.addImport i) ts
        | .error e => .error e
      else if t.kind = .kwExport then
        scan source (ds.addExport (exportOf source (statementTokens false none 0 ts))) ts
      else scan source ds ts

/-- The names that a program uses as values.  Elements use what their pragmas
start with. -/
def usedNames (source : Text) (tokens : List Token) (o : Options) : List Text :=
  ((tokens.filter fun t => !t.isType && t.isReference).map (Token.text source))
    ++ (if tokens.any fun t => t.kind = .jsxTagStart then
          [pragmaBase o.jsxPragma, pragmaBase o.jsxFragmentPragma]
        else [])

/-- Without the names that are not used as values. -/
def prune (ds : Dependencies) (used : List Text) : Dependencies :=
  { ds with modules := ds.modules.map fun (path, d) => (path, d.prune used) }

/-- The dependencies of a program.  With types, names that only types use are
left out. -/
def ofTokens (source : Text) (tokens : List Token) (o : Options) : Except Error Dependencies :=
  match scan source {} tokens with
  | .error e => .error e
  | .ok ds => .ok (if o.has .typescript then ds.prune (usedNames source tokens o) else ds)

end Dependencies

end Downlevel.Linkage
