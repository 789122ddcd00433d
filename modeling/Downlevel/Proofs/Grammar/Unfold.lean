import Downlevel.Grammar.Parse
import Mathlib.Util.TermReduce

/-!
# What the parts of the grammar are made of

A property of parsers that is put together from what their parts do is found by instances.  Where
it comes to a part of the grammar that has a name, `Unfolds` says how that part is defined.
-/

namespace Downlevel

/-- The program is defined as another one. -/
class Unfolds {α : Type} (p : α) (q : outParam α) : Prop where
  eq : p = q

namespace Grammar

open Grammar.Parser

variable {call : Reference} {role : Role} {noIn : Bool} {kind : Kind} {close : Kind} {id : Nat}
  {body : Parser Unit}

/-! ## Steps -/

instance {α : Type} : Unfolds (unexpected : Parser α) (zeta% delta% unexpected) := ⟨rfl⟩
instance : Unfolds (peekIs kind) (zeta% delta% peekIs kind) := ⟨rfl⟩
instance : Unfolds next (zeta% delta% next) := ⟨rfl⟩
instance {mode : Lexer.Mode} :
    Unfolds (expectIn kind mode) (zeta% delta% expectIn kind mode) := ⟨rfl⟩
instance : Unfolds (expect kind) (zeta% delta% expect kind) := ⟨rfl⟩
instance : Unfolds (identifier role) (zeta% delta% identifier role) := ⟨rfl⟩
instance : Unfolds semicolon (zeta% delta% semicolon) := ⟨rfl⟩
instance : Unfolds (openContext kind) (zeta% delta% openContext kind) := ⟨rfl⟩
instance : Unfolds (closeContext kind) (zeta% delta% closeContext kind) := ⟨rfl⟩
instance {condition : Parser Bool} :
    Unfolds (repeatWhile condition body) (zeta% delta% repeatWhile condition body) := ⟨rfl⟩
instance :
    Unfolds (repeatUntil kind body) (zeta% delta% repeatUntil kind body) := ⟨rfl⟩
instance : Unfolds (separator close) (zeta% delta% separator close) := ⟨rfl⟩
instance {item : Parser Unit} :
    Unfolds (commaList close item) (zeta% delta% commaList close item) := ⟨rfl⟩

/-! ## Types -/

instance {part : Parser Unit} : Unfolds (templateWith part) (zeta% delta% templateWith part) := ⟨rfl⟩
instance : Unfolds (templateType call) (zeta% delta% templateType call) := ⟨rfl⟩
instance {stack : List Kind} :
    Unfolds (balancedStep stack) (zeta% delta% balancedStep stack) := ⟨rfl⟩
instance : Unfolds (angleBrackets call) (zeta% delta% angleBrackets call) := ⟨rfl⟩
instance : Unfolds (qualifiedTail call) (zeta% delta% qualifiedTail call) := ⟨rfl⟩
instance : Unfolds atTypeOperator (zeta% delta% atTypeOperator) := ⟨rfl⟩
instance : Unfolds atTypePrefix (zeta% delta% atTypePrefix) := ⟨rfl⟩
instance : Unfolds (typeSuffix call) (zeta% delta% typeSuffix call) := ⟨rfl⟩
instance {conditional : Bool} :
    Unfolds (typeRule call conditional) (zeta% delta% typeRule call conditional) := ⟨rfl⟩
instance : Unfolds ( typeAnnotation call) (zeta% delta% typeAnnotation call) := ⟨rfl⟩
instance : Unfolds ( maybeAnnotation call) (zeta% delta% maybeAnnotation call) := ⟨rfl⟩
instance : Unfolds (maybeReturnType call) (zeta% delta% maybeReturnType call) := ⟨rfl⟩
instance : Unfolds (typeArguments call) (zeta% delta% typeArguments call) := ⟨rfl⟩
instance : Unfolds (maybeTypeParameters call) (zeta% delta% maybeTypeParameters call) := ⟨rfl⟩
instance : Unfolds (callTypeArguments call) (zeta% delta% callTypeArguments call) := ⟨rfl⟩
instance : Unfolds (typeAlias call) (zeta% delta% typeAlias call) := ⟨rfl⟩
instance : Unfolds (interface call) (zeta% delta% interface call) := ⟨rfl⟩
instance : Unfolds atTypeAlias (zeta% delta% atTypeAlias) := ⟨rfl⟩
instance : Unfolds atInterface (zeta% delta% atInterface) := ⟨rfl⟩

/-! ## Bindings -/

instance : Unfolds atParameterModifier (zeta% delta% atParameterModifier) := ⟨rfl⟩
instance : Unfolds atThisParameter (zeta% delta% atThisParameter) := ⟨rfl⟩
instance {modifiers : Bool} :
    Unfolds (bindingElement call role modifiers)
      (zeta% delta% bindingElement call role modifiers) := ⟨rfl⟩
instance {holes modifiers : Bool} :
    Unfolds (bindingList call close role holes modifiers)
      (zeta% delta% bindingList call close role holes modifiers) := ⟨rfl⟩
instance :
    Unfolds (propertyBinding call role) (zeta% delta% propertyBinding call role) := ⟨rfl⟩

/-! ## Functions -/

instance : Unfolds (statements call) (zeta% delta% statements call) := ⟨rfl⟩
instance : Unfolds (functionBody call) (zeta% delta% functionBody call) := ⟨rfl⟩
instance {modifiers : Bool} :
    Unfolds (parameters call modifiers) (zeta% delta% parameters call modifiers) := ⟨rfl⟩
instance {start : Nat} {modifiers : Bool} :
    Unfolds (signatureAndBody call start modifiers)
      (zeta% delta% signatureAndBody call start modifiers) := ⟨rfl⟩
instance {start : Option Nat} {modifiers : Bool} :
    Unfolds (method call start modifiers) (zeta% delta% method call start modifiers) := ⟨rfl⟩
instance {isStatement isAsync : Bool} :
    Unfolds (function call isStatement isAsync)
      (zeta% delta% function call isStatement isAsync) := ⟨rfl⟩
instance : Unfolds (arrowParameters call) (zeta% delta% arrowParameters call) := ⟨rfl⟩
instance : Unfolds (arrowBody call) (zeta% delta% arrowBody call) := ⟨rfl⟩
instance : Unfolds (simpleArrow call) (zeta% delta% simpleArrow call) := ⟨rfl⟩
instance : Unfolds (genericArrow call) (zeta% delta% genericArrow call) := ⟨rfl⟩

/-! ## Classes -/

instance : Unfolds atMemberModifier (zeta% delta% atMemberModifier) := ⟨rfl⟩
instance : Unfolds modifiers (zeta% delta% modifiers) := ⟨rfl⟩
instance : Unfolds atIndexSignature (zeta% delta% atIndexSignature) := ⟨rfl⟩
instance : Unfolds atStaticBlock (zeta% delta% atStaticBlock) := ⟨rfl⟩
instance : Unfolds atConstructor (zeta% delta% atConstructor) := ⟨rfl⟩
instance : Unfolds (memberName call) (zeta% delta% memberName call) := ⟨rfl⟩
instance : Unfolds (field call) (zeta% delta% field call) := ⟨rfl⟩
instance {start : Nat} :
    Unfolds (namedMember call start) (zeta% delta% namedMember call start) := ⟨rfl⟩
instance : Unfolds (classMember call) (zeta% delta% classMember call) := ⟨rfl⟩
instance {isStatement : Bool} :
    Unfolds (maybeClassName isStatement) (zeta% delta% maybeClassName isStatement) := ⟨rfl⟩
instance : Unfolds (classHeritage call) (zeta% delta% classHeritage call) := ⟨rfl⟩
instance : Unfolds (classBody call id) (zeta% delta% classBody call id) := ⟨rfl⟩
instance {isStatement : Bool} :
    Unfolds (classRule call isStatement) (zeta% delta% classRule call isStatement) := ⟨rfl⟩

/-! ## Expressions -/

instance : Unfolds (expression call noIn) (zeta% delta% expression call noIn) := ⟨rfl⟩

/-! ## Elements -/

instance : Unfolds tagName (zeta% delta% tagName) := ⟨rfl⟩
instance : Unfolds elementName (zeta% delta% elementName) := ⟨rfl⟩
instance : Unfolds (childExpression call) (zeta% delta% childExpression call) := ⟨rfl⟩
instance {name : Text} {after : Lexer.Mode} :
    Unfolds (closingTag name after) (zeta% delta% closingTag name after) := ⟨rfl⟩
instance {after : Lexer.Mode} :
    Unfolds (namedElement call after) (zeta% delta% namedElement call after) := ⟨rfl⟩

instance {after : Lexer.Mode} :
    Unfolds (element call after) (zeta% delta% element call after) := ⟨rfl⟩

instance : Unfolds propertyName (zeta% delta% propertyName) := ⟨rfl⟩
instance : Unfolds (arguments call) (zeta% delta% arguments call) := ⟨rfl⟩
instance : Unfolds (index call) (zeta% delta% index call) := ⟨rfl⟩
instance : Unfolds (template call) (zeta% delta% template call) := ⟨rfl⟩
instance : Unfolds atKeyModifier (zeta% delta% atKeyModifier) := ⟨rfl⟩
instance {hasModifier : Bool} :
    Unfolds (objectKey call id hasModifier) (zeta% delta% objectKey call id hasModifier) := ⟨rfl⟩
instance : Unfolds (objectMember call id) (zeta% delta% objectMember call id) := ⟨rfl⟩
instance : Unfolds (object call) (zeta% delta% object call) := ⟨rfl⟩
instance : Unfolds (array call) (zeta% delta% array call) := ⟨rfl⟩
instance : Unfolds (plainName call) (zeta% delta% plainName call) := ⟨rfl⟩
instance : Unfolds (asyncArrowHead call) (zeta% delta% asyncArrowHead call) := ⟨rfl⟩
instance : Unfolds (parenthesized call) (zeta% delta% parenthesized call) := ⟨rfl⟩
instance : Unfolds (importExpression call) (zeta% delta% importExpression call) := ⟨rfl⟩
instance : Unfolds (newExpression call) (zeta% delta% newExpression call) := ⟨rfl⟩
instance : Unfolds (suffixed call) (zeta% delta% suffixed call) := ⟨rfl⟩
instance : Unfolds (unary call) (zeta% delta% unary call) := ⟨rfl⟩
instance : Unfolds (assertedType call) (zeta% delta% assertedType call) := ⟨rfl⟩
instance : Unfolds (operators call noIn) (zeta% delta% operators call noIn) := ⟨rfl⟩
instance :
    Unfolds (conditional call noIn) (zeta% delta% conditional call noIn) := ⟨rfl⟩
instance : Unfolds (assignment call noIn) (zeta% delta% assignment call noIn) := ⟨rfl⟩

/-! ## Imports and exports -/

instance : Unfolds moduleSource (zeta% delta% moduleSource) := ⟨rfl⟩
instance : Unfolds plainImportSpecifier (zeta% delta% plainImportSpecifier) := ⟨rfl⟩
instance : Unfolds atTypeNamedAs (zeta% delta% atTypeNamedAs) := ⟨rfl⟩
instance : Unfolds atTypeSpecifier (zeta% delta% atTypeSpecifier) := ⟨rfl⟩
instance : Unfolds importSpecifier (zeta% delta% importSpecifier) := ⟨rfl⟩
instance : Unfolds importedNames (zeta% delta% importedNames) := ⟨rfl⟩
instance : Unfolds importDeclaration (zeta% delta% importDeclaration) := ⟨rfl⟩
instance : Unfolds atTypeImport (zeta% delta% atTypeImport) := ⟨rfl⟩
instance : Unfolds importRule (zeta% delta% importRule) := ⟨rfl⟩
instance : Unfolds exportName (zeta% delta% exportName) := ⟨rfl⟩
instance : Unfolds exportSpecifier (zeta% delta% exportSpecifier) := ⟨rfl⟩
instance : Unfolds atTypeExportSpecifier (zeta% delta% atTypeExportSpecifier) := ⟨rfl⟩
instance : Unfolds exportList (zeta% delta% exportList) := ⟨rfl⟩
instance : Unfolds exportAll (zeta% delta% exportAll) := ⟨rfl⟩
instance : Unfolds atTypeExport (zeta% delta% atTypeExport) := ⟨rfl⟩
instance : Unfolds (exportedTypeList call) (zeta% delta% exportedTypeList call) := ⟨rfl⟩
instance : Unfolds (typeExport call) (zeta% delta% typeExport call) := ⟨rfl⟩

/-! ## Statements -/

instance : Unfolds (expressionStatement call) (zeta% delta% expressionStatement call) := ⟨rfl⟩
instance : Unfolds (parenExpression call) (zeta% delta% parenExpression call) := ⟨rfl⟩
instance : Unfolds (block call) (zeta% delta% block call) := ⟨rfl⟩
instance :
    Unfolds (declarations call role noIn) (zeta% delta% declarations call role noIn) := ⟨rfl⟩
instance :
    Unfolds (variableStatement call role) (zeta% delta% variableStatement call role) := ⟨rfl⟩
instance : Unfolds atLet (zeta% delta% atLet) := ⟨rfl⟩
instance : Unfolds (forInit call) (zeta% delta% forInit call) := ⟨rfl⟩
instance : Unfolds (forStatement call) (zeta% delta% forStatement call) := ⟨rfl⟩
instance : Unfolds (tryStatement call) (zeta% delta% tryStatement call) := ⟨rfl⟩
instance : Unfolds (switchStatement call) (zeta% delta% switchStatement call) := ⟨rfl⟩
instance : Unfolds (ifStatement call) (zeta% delta% ifStatement call) := ⟨rfl⟩
instance : Unfolds (doStatement call) (zeta% delta% doStatement call) := ⟨rfl⟩
instance : Unfolds (returnStatement call) (zeta% delta% returnStatement call) := ⟨rfl⟩
instance : Unfolds jumpStatement (zeta% delta% jumpStatement) := ⟨rfl⟩
instance : Unfolds (enumDeclaration call) (zeta% delta% enumDeclaration call) := ⟨rfl⟩
instance : Unfolds (namespaceDeclaration call) (zeta% delta% namespaceDeclaration call) := ⟨rfl⟩
instance : Unfolds (constStatement call) (zeta% delta% constStatement call) := ⟨rfl⟩
instance {after : Token} :
    Unfolds (typedNameStatement call after) (zeta% delta% typedNameStatement call after) := ⟨rfl⟩
instance : Unfolds (nameStatement call) (zeta% delta% nameStatement call) := ⟨rfl⟩
instance : Unfolds atAsyncFunction (zeta% delta% atAsyncFunction) := ⟨rfl⟩
instance : Unfolds atAbstractClass (zeta% delta% atAbstractClass) := ⟨rfl⟩
instance : Unfolds (exportDefault call) (zeta% delta% exportDefault call) := ⟨rfl⟩
instance {index : Nat} : Unfolds (markTypeExport index) (zeta% delta% markTypeExport index) := ⟨rfl⟩
instance : Unfolds (exportRule call) (zeta% delta% exportRule call) := ⟨rfl⟩

instance : Unfolds program (zeta% delta% program) := ⟨rfl⟩

end Grammar

end Downlevel
