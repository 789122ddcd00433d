import Downlevel.Error
import Downlevel.Unicode.Blank

/-!
# Options of a run
-/

namespace Downlevel

/-- A syntax extension that can be enabled. -/
inductive Transform where
  | imports
  | flow
  | typescript
  | jsx
  | addModuleExports
  deriving Repr, DecidableEq, Inhabited

namespace Transform

/-- Every extension, in the order of their declaration. -/
def all : List Transform :=
  [.imports, .flow, .typescript, .jsx, .addModuleExports]

/-- The name an extension is enabled by. -/
def name : Transform → Text
  | .imports => "imports".toList
  | .flow => "flow".toList
  | .typescript => "typescript".toList
  | .jsx => "jsx".toList
  | .addModuleExports => "add-module-exports".toList

/-- The extension of exactly this name. -/
def ofName (t : Text) : Except Error Transform :=
  match all.find? (·.name == t) with
  | some transform => .ok transform
  | none => .error (.config (.unknownTransform t))

/-- The extensions of a list separated by commas, with blanks around the names
and empty names dropped. -/
def ofList (t : Text) : Except Error (List Transform) :=
  (((Text.split ',' t).map Unicode.trim).filter (!·.isEmpty)).mapM ofName

end Transform

/-- The options of a run. -/
structure Options where
  /-- The enabled extensions. -/
  transforms : List Transform := []
  /-- Where the source comes from; elements then carry debugging properties. -/
  filePath : Option Text := none
  /-- The function called for an element. -/
  jsxPragma : Text := "React.createElement".toList
  /-- What stands for a fragment. -/
  jsxFragmentPragma : Text := "React.Fragment".toList
  deriving Repr, DecidableEq, Inhabited

namespace Options

/-- Is the extension enabled? -/
def has (o : Options) (t : Transform) : Bool :=
  o.transforms.contains t

/-- Refuses extensions that do not go together. -/
def validate (o : Options) : Except Error Unit :=
  if o.has .typescript && !o.has .imports then
    .error (.config .typescriptWithoutImports)
  else if o.has .typescript && o.has .flow then
    .error (.config .flowWithTypescript)
  else .ok ()

end Options

end Downlevel
