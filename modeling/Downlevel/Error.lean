import Downlevel.Text.Line
import Downlevel.Token.Kind

/-!
# What can go wrong

A run fails for one of three reasons: the source text is malformed at some
place, the token sequence breaks an assumption of lowering, or the options
contradict each other.  Each reason is a list of causes, and the wording of
every cause stands in this file.
-/

namespace Downlevel

/-- What is wrong with a source text. -/
inductive Fault where
  | unterminatedComment
  | unterminatedString
  | unterminatedRegex
  | unterminatedTemplate
  | unexpectedCharacter (c : Char)
  /-- A character outside ASCII that starts no token. -/
  | unreadableCharacter
  | unexpectedTagCharacter (c : Char)
  | missingUnicodeEscape
  | badUnicodeEscape
  | identifierAfterNumber
  | unexpectedEnd
  | unexpectedToken (text : Text)
  | expectedKind (kind : Kind)
  | expectedBinding
  | decorator
  | enumDeclaration
  | namespaceDeclaration
  | importAssignment
  | exportAssignment
  | unclosedFragment
  | unclosedElement (name : Text)
  | unterminatedElement
  | badAttributeValue
  deriving Repr, DecidableEq, Inhabited

/-- The wording of a fault. -/
def Fault.message : Fault → String
  | .unterminatedComment => "Unterminated comment"
  | .unterminatedString => "Unterminated string constant"
  | .unterminatedRegex => "Unterminated regular expression"
  | .unterminatedTemplate => "Unterminated template"
  | .unexpectedCharacter c => "Unexpected character '" ++ String.singleton c ++ "'"
  | .unreadableCharacter => "Unexpected character"
  | .unexpectedTagCharacter c =>
      "Unexpected character '" ++ String.singleton c ++ "' in JSX tag"
  | .missingUnicodeEscape => "Expected Unicode escape sequence \\uXXXX"
  | .badUnicodeEscape => "Bad character escape sequence"
  | .identifierAfterNumber => "Identifier directly after number"
  | .unexpectedEnd => "Unexpected end of input"
  | .unexpectedToken text => "Unexpected token '" ++ String.ofList text ++ "'"
  | .expectedKind kind => "Unexpected token, expected " ++ kind.label
  | .expectedBinding => "Expected a binding identifier or pattern"
  | .decorator => "Decorators are not supported"
  | .enumDeclaration => "TypeScript enums are not supported"
  | .namespaceDeclaration => "TypeScript namespaces are not supported"
  | .importAssignment => "import = require() is not supported"
  | .exportAssignment => "export = is not supported"
  | .unclosedFragment => "Expected corresponding closing tag for JSX fragment"
  | .unclosedElement name =>
      "Expected corresponding JSX closing tag for <" ++ String.ofList name ++ ">"
  | .unterminatedElement => "Unterminated JSX contents"
  | .badAttributeValue => "JSX value should be either an expression or a quoted JSX text"

/-- Which assumption about the tokens does not hold. -/
inductive Breach where
  | contextUnderflow
  | classContextUnderflow
  | endOfInput
  | wrongToken (expected found : Kind)
  | unfinished
  | strayCloser
  | classContext
  | classBody
  | className
  | classEnd
  | classBraceContext
  | initializerEnd
  | computedName
  | matchingContext
  | constructorParameters
  | constructorBody
  | parameterName
  | tagEnd
  | tagName
  | closingTag
  | elementChild
  | malformedImport
  | noBindings
  | importSource
  | exportForm
  | exportedFunctionName
  | functionParameters
  | functionBody
  | exportedClassName
  | declarationEnd
  | exportSpecifiers
  | exportSource
  | moduleName (path : Text)
  | starHelper
  | objectContext
  | objectEnd
  /-- An escape cannot be cut off inside a character. -/
  | splitCharacter
  /-- More scopes are left than were entered; no source text leads here. -/
  | scopeUnderflow
  /-- Parsing or lowering stood still; no source text leads here. -/
  | noProgress
  deriving Repr, DecidableEq, Inhabited

/-- The wording of a breach. -/
def Breach.message : Breach → String
  | .contextUnderflow => "context stack underflow"
  | .classContextUnderflow => "class context missing"
  | .endOfInput => "Unexpectedly reached end of input."
  | .wrongToken expected found =>
      "Expected token " ++ expected.label ++ ", found " ++ found.label
  | .unfinished => "Tried to finish processing tokens before reaching the end."
  | .strayCloser => "Unexpected closing token at top level."
  | .classContext => "Expected class to have a context ID."
  | .classBody => "Expected class body."
  | .className => "Expected class name for static initializers."
  | .classEnd => "Unexpected end of input in class body."
  | .classBraceContext => "Expected non-null class context ID on class open-brace."
  | .initializerEnd => "Expected rhs_end_index on class field assignment."
  | .computedName => "Unterminated computed class member name."
  | .matchingContext => "Expected a matching context token."
  | .constructorParameters => "Expected context ID on constructor parameters."
  | .constructorBody => "Expected context ID on constructor body."
  | .parameterName => "Expected identifier after access modifiers in constructor arg."
  | .tagEnd => "Expected either /> or > at the end of the tag."
  | .tagName => "Unterminated JSX tag."
  | .closingTag => "Unterminated JSX closing tag."
  | .elementChild => "Unexpected token when processing JSX children."
  | .malformedImport => "Malformed import statement"
  | .noBindings => "Import processor is not available."
  | .importSource => "Expected a module source in import."
  | .exportForm => "Unrecognized export form."
  | .exportedFunctionName => "Expected a name on exported function."
  | .functionParameters => "Expected context ID on function parameters."
  | .functionBody => "Expected context ID on function body."
  | .exportedClassName => "Expected class to have a name when exported."
  | .declarationEnd => "Expected end index on exported declaration."
  | .exportSpecifiers => "Unterminated export specifiers."
  | .exportSource => "Expected a module source in export."
  | .moduleName path => "No module name for " ++ String.ofList path
  | .starHelper => "Missing export star helper."
  | .objectContext => "Expected non-null context ID on object open-brace."
  | .objectEnd => "Unexpected end of input when processing React class."
  | .splitCharacter => "byte index 4 is not a char boundary"
  | .scopeUnderflow => "scope depth underflow"
  | .noProgress => "No progress was made."

/-- Why the options cannot be used. -/
inductive Conflict where
  | unknownTransform (name : Text)
  | typescriptWithoutImports
  | flowWithTypescript
  deriving Repr, DecidableEq, Inhabited

/-- The wording of a conflict. -/
def Conflict.message : Conflict → String
  | .unknownTransform name => "Unknown transform: " ++ String.ofList name
  | .typescriptWithoutImports => "the typescript transform requires the imports transform"
  | .flowWithTypescript => "the flow and typescript transforms cannot be combined"

/-- Why a run failed. -/
inductive Error where
  | source (fault : Fault) (place : Location)
  | invariant (breach : Breach)
  | config (conflict : Conflict)
  deriving Repr, DecidableEq, Inhabited

namespace Error

/-- A message with the line and column it is about. -/
def withLineAndColumn (message : String) (line column : Nat) : String :=
  message ++ " (" ++ toString line ++ ":" ++ toString column ++ ")"

/-- A message with the byte offset it is about. -/
def withOffset (message : String) (offset : Nat) : String :=
  message ++ " (" ++ toString offset ++ ")"

/-- The text of a report on a broken assumption. -/
def invariantReport (what : String) : String :=
  "Invariant violated: " ++ what

/-- The text of a report on the options. -/
def configReport (what : String) : String :=
  "Invalid configuration: " ++ what

/-- What is reported of a failed run. -/
def message : Error → String
  | .source fault place =>
      withOffset (withLineAndColumn fault.message place.line place.column) place.offset
  | .invariant breach => invariantReport breach.message
  | .config conflict => configReport conflict.message

/-- Does the error end a run for good?  No speculation takes it back. -/
def isFatal : Error → Bool
  | .invariant .scopeUnderflow | .invariant .noProgress => true
  | _ => false

/-- The byte offset of a malformed place. -/
def offset? : Error → Option Nat
  | .source _ place => some place.offset
  | _ => none

end Error

/-- A fault and the byte offset it is found at. -/
structure Failure where
  fault : Fault
  offset : Nat
  deriving Repr, DecidableEq, Inhabited

/-- The error that a failure is in a given source. -/
def Failure.toError (source : Text) (f : Failure) : Error :=
  .source f.fault (Text.locate source f.offset)

end Downlevel
