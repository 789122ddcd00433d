import Downlevel.Lower.Transform
import Downlevel.Proofs.Grammar.Unfold

/-!
# What the parts of lowering are made of

As for the grammar, `Unfolds` says how the parts of lowering that have a name are defined.
-/

namespace Downlevel.Lower

variable {token : Lower Unit} {layout : ClassLayout} {body : Lower Unit} {initializers : Text}
  {classIndex : Nat}

instance {condition : Lower Bool} :
    Unfolds (repeatWhile condition body) (zeta% delta% repeatWhile condition body) := ⟨rfl⟩
instance {stop : Nat} : Unfolds (repeatTo stop body) (zeta% delta% repeatTo stop body) := ⟨rfl⟩

/-! ## Classes -/

instance : Unfolds skipTypes (zeta% delta% skipTypes) := ⟨rfl⟩
instance {last : Nat} : Unfolds (skipThrough last) (zeta% delta% skipThrough last) := ⟨rfl⟩
instance : Unfolds skipContext (zeta% delta% skipContext) := ⟨rfl⟩
instance : Unfolds skipMethod (zeta% delta% skipMethod) := ⟨rfl⟩
instance : Unfolds initializerEnd (zeta% delta% initializerEnd) := ⟨rfl⟩
instance : Unfolds skipMember (zeta% delta% skipMember) := ⟨rfl⟩
instance : Unfolds skipModifiers (zeta% delta% skipModifiers) := ⟨rfl⟩
instance : Unfolds classHead (zeta% delta% classHead) := ⟨rfl⟩
instance {start : Nat} {isStatic : Bool} {access : Text} :
    Unfolds (fieldLayout token layout start isStatic access)
      (zeta% delta% fieldLayout token layout start isStatic access) := ⟨rfl⟩
instance :
    Unfolds (namedMemberLayout token layout) (zeta% delta% namedMemberLayout token layout) := ⟨rfl⟩
instance : Unfolds (memberLayout token layout) (zeta% delta% memberLayout token layout) := ⟨rfl⟩
instance {i : Nat} : Unfolds (classMembers.member token layout initializers i)
      (zeta% delta% classMembers.member token layout initializers i) := ⟨rfl⟩
instance {hasSuperclass : Bool} : Unfolds (constructorCode hasSuperclass initializers)
      (zeta% delta% constructorCode hasSuperclass initializers) := ⟨rfl⟩
instance : Unfolds (scanClass token) (zeta% delta% scanClass token) := ⟨rfl⟩
instance {id : Nat} :
    Unfolds (classBody token layout id) (zeta% delta% classBody token layout id) := ⟨rfl⟩
instance : Unfolds (classRule token) (zeta% delta% classRule token) := ⟨rfl⟩

/-! ## Brackets, types and literals -/

instance : Unfolds typeRun (zeta% delta% typeRun) := ⟨rfl⟩
instance : Unfolds arrowParametersEnd (zeta% delta% arrowParametersEnd) := ⟨rfl⟩
instance : Unfolds numericSeparators (zeta% delta% numericSeparators) := ⟨rfl⟩
instance : Unfolds catchBinding (zeta% delta% catchBinding) := ⟨rfl⟩

instance : Unfolds (asyncTypeParameters token) (zeta% delta% asyncTypeParameters token) := ⟨rfl⟩
/-! ## Elements -/

instance {code : Text} : Unfolds (pragma code) (zeta% delta% pragma code) := ⟨rfl⟩
instance : Unfolds (elementName token) (zeta% delta% elementName token) := ⟨rfl⟩
instance : Unfolds propertyKey (zeta% delta% propertyKey) := ⟨rfl⟩
instance : Unfolds (container token) (zeta% delta% container token) := ⟨rfl⟩
instance : Unfolds quotedProperty (zeta% delta% quotedProperty) := ⟨rfl⟩
instance : Unfolds (propertyValue token) (zeta% delta% propertyValue token) := ⟨rfl⟩
instance : Unfolds childText (zeta% delta% childText) := ⟨rfl⟩
instance : Unfolds (children token) (zeta% delta% children token) := ⟨rfl⟩
instance : Unfolds closingTag (zeta% delta% closingTag) := ⟨rfl⟩
instance : Unfolds (element token) (zeta% delta% element token) := ⟨rfl⟩
instance : Unfolds (elementRule token) (zeta% delta% elementRule token) := ⟨rfl⟩

/-! ## Imports and exports -/

instance : Unfolds atModulePath (zeta% delta% atModulePath) := ⟨rfl⟩
instance : Unfolds bindings (zeta% delta% bindings) := ⟨rfl⟩
instance : Unfolds removeSemicolon (zeta% delta% removeSemicolon) := ⟨rfl⟩
instance {last : Nat} : Unfolds (removeThrough last) (zeta% delta% removeThrough last) := ⟨rfl⟩
instance {nameIndex : Nat} :
    Unfolds (namedFunction token nameIndex) (zeta% delta% namedFunction token nameIndex) := ⟨rfl⟩
instance : Unfolds (exportFunction token) (zeta% delta% exportFunction token) := ⟨rfl⟩
instance : Unfolds specifierName (zeta% delta% specifierName) := ⟨rfl⟩
instance : Unfolds specifiers (zeta% delta% specifiers) := ⟨rfl⟩
instance : Unfolds exportNames (zeta% delta% exportNames) := ⟨rfl⟩
instance {path : Text} : Unfolds (moduleVariable path) (zeta% delta% moduleVariable path) := ⟨rfl⟩
instance :
    Unfolds (classAt token classIndex) (zeta% delta% classAt token classIndex) := ⟨rfl⟩
instance :
    Unfolds (exportClass token classIndex) (zeta% delta% exportClass token classIndex) := ⟨rfl⟩
instance {missing : Breach} :
    Unfolds (removeToPath missing) (zeta% delta% removeToPath missing) := ⟨rfl⟩
instance : Unfolds importDeclaration (zeta% delta% importDeclaration) := ⟨rfl⟩
instance {pathIndex : Nat} :
    Unfolds (reexportNames pathIndex) (zeta% delta% reexportNames pathIndex) := ⟨rfl⟩
instance : Unfolds exportList (zeta% delta% exportList) := ⟨rfl⟩
instance : Unfolds (moduleRule token) (zeta% delta% moduleRule token) := ⟨rfl⟩

end Downlevel.Lower
