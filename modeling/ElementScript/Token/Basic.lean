import ElementScript.Text.Basic

/-!
Tokens: the pieces that a source is cut into.

Plain code outside of markup is one token per region. All other tokens describe elements: their
tags, the names and values of their properties, and their children.
-/

namespace ElementScript

namespace Token

inductive Kind where
  /-- Script text outside of every element. -/
  | code
  /-- The text of an opening tag up to its name's end. -/
  | elementStart
  /-- A closing tag, or the end of a tag that closes itself. -/
  | elementEnd
  | propertyName
  /-- A quoted property value as a string literal, or the code of a braced one. -/
  | propertyValue
  | childText
  | childCode
  | childWhitespace
  /-- The code before the first element of a braced region that holds elements. -/
  | fragmentStart
  /-- The code after the last element of such a region. -/
  | fragmentEnd
deriving DecidableEq, Repr

namespace Kind

/-- All kinds in the order of their declaration. -/
def all : List Kind :=
  [.code, .elementStart, .elementEnd, .propertyName, .propertyValue, .childText, .childCode,
    .childWhitespace, .fragmentStart, .fragmentEnd]

def label : Kind → String
  | .code => "code"
  | .elementStart => "element_start"
  | .elementEnd => "element_end"
  | .propertyName => "prop_name"
  | .propertyValue => "prop_value"
  | .childText => "child_text"
  | .childCode => "child_code"
  | .childWhitespace => "child_whitespace"
  | .fragmentStart => "fragment_start"
  | .fragmentEnd => "fragment_end"

/-- The word for a kind in error messages. -/
def word : Kind → String
  | .code => "Code"
  | .elementStart => "ElementStart"
  | .elementEnd => "ElementEnd"
  | .propertyName => "PropName"
  | .propertyValue => "PropValue"
  | .childText => "ChildText"
  | .childCode => "ChildCode"
  | .childWhitespace => "ChildWhitespace"
  | .fragmentStart => "FragmentStart"
  | .fragmentEnd => "FragmentEnd"

def ofLabel? (label : String) : Option Kind :=
  all.find? fun kind => kind.label = label

end Kind

end Token

structure Token where
  kind : Token.Kind
  text : Text
  offset : Nat
deriving DecidableEq, Repr

/-- The name in the text of a tag: what is left without the first `<`, the first `/` and the
first `>`. -/
def tagName (text : Text) : Text :=
  ((text.erase '<').erase '/').erase '>'

example : tagName "</ui.Button>".toList = "ui.Button".toList := by decide
example : tagName "/>".toList = [] := by decide

end ElementScript
