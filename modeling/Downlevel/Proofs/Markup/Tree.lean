import Downlevel.Proofs.Text.Offset
import Downlevel.Token.Basic
import Downlevel.Character

/-!
# Trees of elements

Elements with attributes and children, how they are written as tags (`Element.print`), and the
call that stands for them (`Element.render`).  A tree has names of letters only, and no two texts
next to each other, so that what is written is read back as the same tree.
-/

namespace Downlevel.Markup

open Character

/-! ## Trees -/

/-- A word made of letters. -/
structure Word where
  text : Text
  ne_nil : text ≠ []
  letters : ∀ c ∈ text, isLetter c = true

/-- A word that is no keyword. -/
structure Variable extends Word where
  notKeyword : Kind.keyword? text = none

/-- The value of an attribute, made of letters, digits and dots. -/
structure Value where
  text : Text
  plain : ∀ c ∈ text, isLetter c = true ∨ isDigit c = true ∨ c = '.'

/-- A text between tags, made of letters and digits. -/
structure Content where
  text : Text
  ne_nil : text ≠ []
  plain : ∀ c ∈ text, isLetter c = true ∨ isDigit c = true

/-- An attribute, with or without a value. -/
structure Attribute where
  name : Word
  value : Option Value

mutual

/-- An element with its attributes and children. -/
inductive Element where
  | mk (name : Word) (attributes : List Attribute) (children : Children true)

/-- Children of an element.  The index says whether a text may come first. -/
inductive Children : Bool → Type where
  | nil {mayBeText : Bool} : Children mayBeText
  | element {mayBeText : Bool} (e : Element) (rest : Children true) : Children mayBeText
  | braces {mayBeText : Bool} (x : Variable) (rest : Children true) : Children mayBeText
  | text (t : Content) (rest : Children false) : Children true

end

/-! ## Tags -/

/-- An attribute as it is written in a tag. -/
def Attribute.print (a : Attribute) : Text :=
  match a.value with
  | none => ' ' :: a.name.text
  | some v => ' ' :: a.name.text ++ "=\"".toList ++ v.text ++ "\"".toList

mutual

/-- An element as it is written with tags. -/
def Element.print : Element → Text
  | .mk name attributes children =>
    "<".toList ++ name.text ++ attributes.flatMap Attribute.print ++ ">".toList
      ++ children.print ++ "</".toList ++ name.text ++ ">".toList

/-- The children of an element as they are written between its tags. -/
def Children.print {mayBeText : Bool} : Children mayBeText → Text
  | .nil => []
  | .element e rest => e.print ++ rest.print
  | .braces x rest => "\x7b".toList ++ x.text ++ "\x7d".toList ++ rest.print
  | .text t rest => t.text ++ rest.print

end

/-! ## Calls -/

/-- The name of an element in a call: a string if it starts in lower case, and else a value. -/
def Word.render (name : Word) : Text :=
  if name.text.head?.any isLower then "'".toList ++ name.text ++ "'".toList else name.text

/-- An attribute as a property of an object. -/
def Attribute.render (a : Attribute) : Text :=
  match a.value with
  | none => " ".toList ++ a.name.text ++ ": true,".toList
  | some v => " ".toList ++ a.name.text ++ ": \"".toList ++ v.text ++ "\",".toList

/-- The attributes of an element as one argument of a call. -/
def renderAttributes : List Attribute → Text
  | [] => ", null".toList
  | attributes => ", \x7b".toList ++ attributes.flatMap Attribute.render ++ "\x7d".toList

mutual

/-- The call that stands for an element. -/
def Element.render : Element → Text
  | .mk name attributes children =>
    "React.createElement(".toList ++ name.render ++ renderAttributes attributes
      ++ children.render ++ ")".toList

/-- The children of an element as further arguments of a call. -/
def Children.render {mayBeText : Bool} : Children mayBeText → Text
  | .nil => []
  | .element e rest => ", ".toList ++ e.render ++ rest.render
  | .braces x rest => ", ".toList ++ x.text ++ rest.render
  | .text t rest => ", \"".toList ++ t.text ++ "\"".toList ++ rest.render

end

theorem Element.render_mk (name : Word) (as : List Attribute) (cs : Children true) :
    (Element.mk name as cs).render = "React.createElement(".toList ++ name.render ++ renderAttributes as
      ++ cs.render ++ ")".toList := rfl

section

variable {mayBeText : Bool}

theorem Children.render_element (e : Element) (cs : Children true) :
    (Children.element e cs : Children mayBeText).render = ", ".toList ++ e.render ++ cs.render := rfl

theorem Children.render_braces (x : Variable) (cs : Children true) :
    (Children.braces x cs : Children mayBeText).render = ", ".toList ++ x.text ++ cs.render := rfl

theorem Children.render_text (t : Content) (cs : Children false) :
    (Children.text t cs).render = ", \"".toList ++ t.text ++ "\"".toList ++ cs.render := rfl

end

end Downlevel.Markup
