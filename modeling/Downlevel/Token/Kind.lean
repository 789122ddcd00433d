import Downlevel.Text.Basic

/-!
# Kinds of tokens
-/

namespace Downlevel

/-- What a token is, as far as scanning and lowering care.  Operators of one
precedence and use share a kind. -/
inductive Kind where
  | name
  | privateName
  | num
  | bigInt
  | string
  | regex
  | template
  | jsxName
  | jsxText
  | jsxTagStart
  | jsxTagEnd
  | bracketL
  | bracketR
  | braceL
  | braceR
  | parenL
  | parenR
  | comma
  | semi
  | colon
  | dot
  | question
  | questionDot
  | arrow
  | ellipsis
  | backQuote
  | dollarBraceL
  | at
  | eq
  | assign
  | incDec
  | bang
  | tilde
  | plusMin
  | star
  | slash
  | modulo
  | exponent
  | lessThan
  | greaterThan
  | relational
  | equality
  | bitShift
  | bitOr
  | bitXor
  | bitAnd
  | logicalOr
  | logicalAnd
  | nullishCoalescing
  | kwBreak
  | kwCase
  | kwCatch
  | kwClass
  | kwConst
  | kwContinue
  | kwDebugger
  | kwDefault
  | kwDelete
  | kwDo
  | kwElse
  | kwExport
  | kwExtends
  | kwFalse
  | kwFinally
  | kwFor
  | kwFunction
  | kwIf
  | kwImport
  | kwIn
  | kwInstanceOf
  | kwNew
  | kwNull
  | kwReturn
  | kwSuper
  | kwSwitch
  | kwThis
  | kwThrow
  | kwTrue
  | kwTry
  | kwTypeOf
  | kwVar
  | kwVoid
  | kwWhile
  | kwWith
  | eof
  deriving Repr, DecidableEq, Inhabited

namespace Kind

/-- Every kind, in the order of their declaration. -/
def all : List Kind :=
  [.name, .privateName, .num, .bigInt, .string, .regex, .template, .jsxName, .jsxText,
    .jsxTagStart, .jsxTagEnd, .bracketL, .bracketR, .braceL, .braceR, .parenL, .parenR, .comma,
    .semi, .colon, .dot, .question, .questionDot, .arrow, .ellipsis, .backQuote, .dollarBraceL,
    .at, .eq, .assign, .incDec, .bang, .tilde, .plusMin, .star, .slash, .modulo, .exponent,
    .lessThan, .greaterThan, .relational, .equality, .bitShift, .bitOr, .bitXor, .bitAnd,
    .logicalOr, .logicalAnd, .nullishCoalescing, .kwBreak, .kwCase, .kwCatch, .kwClass, .kwConst,
    .kwContinue, .kwDebugger, .kwDefault, .kwDelete, .kwDo, .kwElse, .kwExport, .kwExtends,
    .kwFalse, .kwFinally, .kwFor, .kwFunction, .kwIf, .kwImport, .kwIn, .kwInstanceOf, .kwNew,
    .kwNull, .kwReturn, .kwSuper, .kwSwitch, .kwThis, .kwThrow, .kwTrue, .kwTry, .kwTypeOf,
    .kwVar, .kwVoid, .kwWhile, .kwWith, .eof]

/-- The name of a kind in messages. -/
def label : Kind → String
  | .name => "Name"
  | .privateName => "PrivateName"
  | .num => "Num"
  | .bigInt => "BigInt"
  | .string => "String"
  | .regex => "Regex"
  | .template => "Template"
  | .jsxName => "JsxName"
  | .jsxText => "JsxText"
  | .jsxTagStart => "JsxTagStart"
  | .jsxTagEnd => "JsxTagEnd"
  | .bracketL => "BracketL"
  | .bracketR => "BracketR"
  | .braceL => "BraceL"
  | .braceR => "BraceR"
  | .parenL => "ParenL"
  | .parenR => "ParenR"
  | .comma => "Comma"
  | .semi => "Semi"
  | .colon => "Colon"
  | .dot => "Dot"
  | .question => "Question"
  | .questionDot => "QuestionDot"
  | .arrow => "Arrow"
  | .ellipsis => "Ellipsis"
  | .backQuote => "BackQuote"
  | .dollarBraceL => "DollarBraceL"
  | .at => "At"
  | .eq => "Eq"
  | .assign => "Assign"
  | .incDec => "IncDec"
  | .bang => "Bang"
  | .tilde => "Tilde"
  | .plusMin => "PlusMin"
  | .star => "Star"
  | .slash => "Slash"
  | .modulo => "Modulo"
  | .exponent => "Exponent"
  | .lessThan => "LessThan"
  | .greaterThan => "GreaterThan"
  | .relational => "Relational"
  | .equality => "Equality"
  | .bitShift => "BitShift"
  | .bitOr => "BitOr"
  | .bitXor => "BitXor"
  | .bitAnd => "BitAnd"
  | .logicalOr => "LogicalOr"
  | .logicalAnd => "LogicalAnd"
  | .nullishCoalescing => "NullishCoalescing"
  | .kwBreak => "Break"
  | .kwCase => "Case"
  | .kwCatch => "Catch"
  | .kwClass => "Class"
  | .kwConst => "Const"
  | .kwContinue => "Continue"
  | .kwDebugger => "Debugger"
  | .kwDefault => "Default"
  | .kwDelete => "Delete"
  | .kwDo => "Do"
  | .kwElse => "Else"
  | .kwExport => "Export"
  | .kwExtends => "Extends"
  | .kwFalse => "False"
  | .kwFinally => "Finally"
  | .kwFor => "For"
  | .kwFunction => "Function"
  | .kwIf => "If"
  | .kwImport => "Import"
  | .kwIn => "In"
  | .kwInstanceOf => "InstanceOf"
  | .kwNew => "New"
  | .kwNull => "Null"
  | .kwReturn => "Return"
  | .kwSuper => "Super"
  | .kwSwitch => "Switch"
  | .kwThis => "This"
  | .kwThrow => "Throw"
  | .kwTrue => "True"
  | .kwTry => "Try"
  | .kwTypeOf => "TypeOf"
  | .kwVar => "Var"
  | .kwVoid => "Void"
  | .kwWhile => "While"
  | .kwWith => "With"
  | .eof => "Eof"

/-- The reserved words and their kinds. -/
def keywords : List (Text × Kind) :=
  [("break".toList, .kwBreak), ("case".toList, .kwCase), ("catch".toList, .kwCatch),
    ("class".toList, .kwClass), ("const".toList, .kwConst), ("continue".toList, .kwContinue),
    ("debugger".toList, .kwDebugger), ("default".toList, .kwDefault),
    ("delete".toList, .kwDelete), ("do".toList, .kwDo), ("else".toList, .kwElse),
    ("export".toList, .kwExport), ("extends".toList, .kwExtends), ("false".toList, .kwFalse),
    ("finally".toList, .kwFinally), ("for".toList, .kwFor), ("function".toList, .kwFunction),
    ("if".toList, .kwIf), ("import".toList, .kwImport), ("in".toList, .kwIn),
    ("instanceof".toList, .kwInstanceOf), ("new".toList, .kwNew), ("null".toList, .kwNull),
    ("return".toList, .kwReturn), ("super".toList, .kwSuper), ("switch".toList, .kwSwitch),
    ("this".toList, .kwThis), ("throw".toList, .kwThrow), ("true".toList, .kwTrue),
    ("try".toList, .kwTry), ("typeof".toList, .kwTypeOf), ("var".toList, .kwVar),
    ("void".toList, .kwVoid), ("while".toList, .kwWhile), ("with".toList, .kwWith)]

/-- The kind of a reserved word. -/
def keyword? (word : Text) : Option Kind :=
  keywords.lookup word

/-- Is this the kind of a reserved word? -/
def isKeyword (k : Kind) : Bool :=
  keywords.any (·.2 == k)

/-- Names and reserved words, which can all be property keys. -/
def isNameLike (k : Kind) : Bool :=
  k == .name || isKeyword k

/-- The binary operators, which carry an expression on. -/
def binaryOperators : List Kind :=
  [.plusMin, .star, .slash, .modulo, .exponent, .lessThan, .greaterThan, .relational, .equality,
    .bitShift, .bitOr, .bitXor, .bitAnd, .logicalOr, .logicalAnd, .nullishCoalescing,
    .kwInstanceOf, .kwIn]

/-- Is this the kind of a binary operator? -/
def isBinaryOperator (k : Kind) : Bool :=
  binaryOperators.contains k

end Kind

end Downlevel
