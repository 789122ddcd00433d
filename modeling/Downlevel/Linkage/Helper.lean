import Downlevel.Text.Basic

/-!
# Functions that generated code calls

Each is defined once in the output, under a name that is free there.
-/

namespace Downlevel.Linkage

/-- The names of the functions that are needed. -/
structure Helpers where
  /-- Makes an object of a module that has no default. -/
  wildcard : Option Text := none
  /-- Gives a module that has no default one. -/
  default : Option Text := none
  /-- Passes on all names of a module. -/
  exportStar : Option Text := none
  deriving Repr, DecidableEq, Inhabited

/-- The definition of the wildcard helper. -/
def wildcardCode (name : Text) : Text :=
  " function ".toList ++ name
    ++ ("(obj) \x7b if (obj && obj.__esModule) \x7b return obj; \x7d else \x7b var newObj = "
      ++ "\x7b\x7d; if (obj != null) \x7b for (var key in obj) \x7b "
      ++ "if (Object.prototype.hasOwnProperty.call(obj, key)) \x7b newObj[key] = obj[key]; \x7d "
      ++ "\x7d \x7d newObj.default = obj; return newObj; \x7d \x7d").toList

/-- The definition of the default helper. -/
def defaultCode (name : Text) : Text :=
  " function ".toList ++ name
    ++ ("(obj) \x7b return obj && obj.__esModule ? obj : \x7b default: obj \x7d; \x7d").toList

/-- The definition of the helper that passes on all names. -/
def exportStarCode (name : Text) : Text :=
  " function ".toList ++ name
    ++ ("(obj) \x7b Object.keys(obj).forEach(function(key) \x7b "
      ++ "if (key === \"default\" || key === \"__esModule\") \x7b return; \x7d "
      ++ "Object.defineProperty(exports, key, \x7benumerable: true, get: function() "
      ++ "\x7b return obj[key]; \x7d\x7d); \x7d); \x7d").toList

/-- The definitions of the functions that are needed. -/
def Helpers.code (h : Helpers) : Text :=
  (h.wildcard.map wildcardCode).getD [] ++ (h.default.map defaultCode).getD []
    ++ (h.exportStar.map exportStarCode).getD []

end Downlevel.Linkage
