import Downlevel.Error
import Downlevel.Token.Basic
import Downlevel.Unicode.Word

/-!
# Import and export statements

What a statement says about another module: its path, and the names that it
binds or passes on.
-/

namespace Downlevel.Linkage

/-! ## Paths and pragmas -/

/-- The text inside the quotes of a string literal; any other text as it is. -/
def unquote (t : Text) : Text :=
  match t with
  | c :: cs =>
      if 2 ≤ Text.size t && (c == '\x22' || c == '\x27') then cs.dropLast else t
  | [] => []

/-- The name of a module variable: the last part of the path after an underscore,
without characters that cannot be in a word. -/
def moduleBaseName (path : Text) : Text :=
  '_' :: ((Text.split '/' path).getLastD []).filter Unicode.isWord

/-- The part of a pragma before its first dot. -/
def pragmaBase (pragma : Text) : Text :=
  (Text.cut '.' pragma).1

/-! ## The tokens of a statement -/

/-- Can a statement go on after its first token?  A name goes on in an import only. -/
def goesOn (isImport : Bool) : Kind → Bool
  | .braceL | .star => true
  | .name => isImport
  | _ => false

/-- The tokens of a statement up to its path, without those of types.  `before` is
the token read last, if any, and `count` the number of tokens read. -/
def statementTokens (isImport : Bool) (before : Option Token) (count : Nat) :
    List Token → List Token
  | [] => []
  | t :: ts =>
      if t.isType then statementTokens isImport before count ts
      else if t.kind = .semi then []
      else
        let afterName := 2 ≤ count && before.any fun b => b.kind = .name
        if t.kind = .string && (count = 0 || afterName) then [t]
        else if count = 0 && !goesOn isImport t.kind then [t]
        else t :: statementTokens isImport (some t) (count + 1) ts

/-- Is an `import` or `export` with this token after it an expression? -/
def startsExpression (after : Option Token) : Bool :=
  after.any fun t => t.kind = .parenL || t.kind = .dot

/-! ## Imports -/

/-- What a statement imports. -/
structure Import where
  /-- The string literal of the path. -/
  rawPath : Text
  defaultName : Option Text := none
  wildcardName : Option Text := none
  /-- Imported names, each with the name it is bound to. -/
  named : List (Text × Text) := []
  deriving Repr, DecidableEq, Inhabited

/-- Does the statement bind a name? -/
def Import.hasBindings (i : Import) : Bool :=
  i.defaultName.isSome || i.wildcardName.isSome || !i.named.isEmpty

/-- Is the first token written like this? -/
def startsWith (source : Text) (word : String) (ts : List Token) : Bool :=
  ts.head?.any fun t => t.text source = word.toList

/-- Is the first token of this kind? -/
def startsWithKind (kind : Kind) (ts : List Token) : Bool :=
  ts.head?.any fun t => t.kind = kind

/-- The text of the first token, empty if there is none. -/
def headText (source : Text) (ts : List Token) : Text :=
  (ts.head?.map (Token.text source)).getD []

/-- The names in braces after the opening brace, and the tokens after the closing
one.  A list that is not closed gives nothing. -/
def namedImports (source : Text) : List Token → Option (List (Text × Text) × List Token)
  | [] => none
  | t :: ts =>
      if t.kind = .braceR then some ([], ts)
      else if t.kind = .comma then namedImports source ts
      else if t.kind = .eof then none
      else
        let imported := unquote (t.text source)
        match ts with
        | a :: b :: rest =>
            if a.text source = "as".toList then
              (namedImports source rest).map fun (names, after) =>
                ((imported, b.text source) :: names, after)
            else
              (namedImports source (a :: b :: rest)).map fun (names, after) =>
                ((imported, imported) :: names, after)
        | ts =>
            (namedImports source ts).map fun (names, after) =>
              ((imported, imported) :: names, after)
  termination_by ts => ts.length

/-- The default name of an import and the tokens after it. -/
def defaultImport (source : Text) : List Token → Option Text × List Token
  | t :: ts =>
      if t.kind = .name && (startsWithKind .comma ts || startsWith source "from" ts) then
        (some (t.text source), if startsWithKind .comma ts then ts.drop 1 else ts)
      else (none, t :: ts)
  | [] => (none, [])

/-- The statement that the tokens after `import` make. -/
def importOf (source : Text) (ts : List Token) : Except Error Import :=
  let malformed : Except Error Import := .error (.invariant .malformedImport)
  let finish (defaultName wildcardName : Option Text) (named : List (Text × Text))
      (rest : List Token) : Except Error Import :=
    if startsWith source "from" rest && startsWithKind .string (rest.drop 1) then
      .ok { rawPath := headText source (rest.drop 1), defaultName, wildcardName, named }
    else malformed
  if startsWithKind .string ts then .ok { rawPath := headText source ts }
  else
    let (defaultName, ts) := defaultImport source ts
    if startsWithKind .star ts then
      finish defaultName (some (headText source (ts.drop 2))) [] (ts.drop 3)
    else if startsWithKind .braceL ts then
      match namedImports source (ts.drop 1) with
      | some (named, rest) => finish defaultName none named rest
      | none => malformed
    else finish defaultName none [] ts

/-! ## Exports -/

/-- What a statement exports. -/
structure Export where
  /-- It gives the module a default. -/
  isDefault : Bool := false
  /-- It gives the module a name other than the default. -/
  isNamed : Bool := false
  /-- The string literal of the path, if it passes on names of another module. -/
  reexport : Option Text := none
  /-- It passes on all names of that module as they are. -/
  isStar : Bool := false
  deriving Repr, DecidableEq, Inhabited

/-- The names in braces after the opening brace: whether one of them is the
default and whether one is not, and the tokens after the closing brace. -/
def exportedNames (source : Text) : List Token → Bool × Bool × List Token
  | [] => (false, false, [])
  | t :: ts =>
      if t.kind = .braceR then (false, false, ts)
      else if t.kind = .eof then (false, false, [])
      else if t.kind = .comma then exportedNames source ts
      else
        let add (exported : Text) : Bool × Bool × List Token → Bool × Bool × List Token :=
          fun (isDefault, isNamed, rest) =>
            if unquote exported = "default".toList then (true, isNamed, rest)
            else (isDefault, true, rest)
        match ts with
        | a :: b :: rest =>
            if a.text source = "as".toList then
              add (b.text source) (exportedNames source rest)
            else add (t.text source) (exportedNames source (a :: b :: rest))
        | [a] =>
            if a.text source = "as".toList then add [] (false, false, [])
            else add (t.text source) (exportedNames source [a])
        | [] => add (t.text source) (false, false, [])
  termination_by ts => ts.length

/-- The statement that the tokens after `export` make. -/
def exportOf (source : Text) (ts : List Token) : Export :=
  if startsWithKind .kwDefault ts then { isDefault := true }
  else if startsWithKind .star ts then
    if startsWith source "as" (ts.drop 1) then
      { isNamed := true, reexport := some (headText source (ts.drop 4)) }
    else { isNamed := true, reexport := some (headText source (ts.drop 2)), isStar := true }
  else if startsWithKind .braceL ts then
    let (isDefault, isNamed, rest) := exportedNames source (ts.drop 1)
    { isDefault, isNamed,
      reexport :=
        if startsWith source "from" rest && startsWithKind .string (rest.drop 1) then
          some (headText source (rest.drop 1))
        else none }
  else { isNamed := true }

end Downlevel.Linkage
