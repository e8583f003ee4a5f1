import ElementScript.Text.Basic

/-!
The tree of a source: script code and elements, with their properties and children.

The parts of an element are generic in what stands for the elements nested in them. In the tree that
is `Element` itself; while an element is written it is the text written for the nested elements.
-/

namespace ElementScript

/-- Script code that is copied as it is. -/
structure Code where
  text : Text
  offset : Nat
  depth : Nat
deriving DecidableEq, Repr

/-- A piece of a braced region that holds elements. -/
inductive Part (ε : Type) where
  | code (code : Code)
  | element (element : ε)
deriving DecidableEq, Repr

inductive PropertyValue (ε : Type) where
  /-- A string literal or the code of a braced value. -/
  | code (code : Code)
  /-- A braced value that is an element. -/
  | element (element : ε)
  /-- A braced value of code and elements. -/
  | fragment (parts : List (Part ε))
deriving DecidableEq, Repr

/-- A property of an element. One without a value is true. -/
structure Property (ε : Type) where
  name : Text
  value : Option (PropertyValue ε)
deriving DecidableEq, Repr

inductive Child (ε : Type) where
  | text (text : Text)
  /-- Braced code without its braces. -/
  | code (text : Text)
  | whitespace (text : Text)
  | element (element : ε)
  /-- A braced region of code and elements. It is one child. -/
  | expression (parts : List (Part ε))
deriving DecidableEq, Repr

structure Element where
  /-- The name of the tag, or the fragment identifier for a tag without a name. -/
  name : Text
  /-- Whether the name denotes a component of the script. -/
  isComponent : Bool
  properties : List (Property Element)
  children : List (Child Element)
  /-- How deep the element is nested. It determines the indentation of the output. -/
  depth : Nat
  offset : Nat

/-- Whether a name denotes a component: it starts with a capital letter or has a dot. -/
def isComponentName (name : Text) : Bool :=
  name.head?.any Char.isUpper || name.contains '.'

inductive Node where
  | code (code : Code)
  | element (element : Element)

structure Program where
  body : List Node

/-! ## Replacing nested elements -/

variable {α β : Type}

def Part.map (f : α → β) : Part α → Part β
  | .code piece => .code piece
  | .element inner => .element (f inner)

def PropertyValue.map (f : α → β) : PropertyValue α → PropertyValue β
  | .code piece => .code piece
  | .element inner => .element (f inner)
  | .fragment parts => .fragment (parts.map (Part.map f))

def Property.map (f : α → β) (property : Property α) : Property β :=
  { name := property.name, value := property.value.map (PropertyValue.map f) }

def Child.map (f : α → β) : Child α → Child β
  | .text content => .text content
  | .code content => .code content
  | .whitespace content => .whitespace content
  | .element inner => .element (f inner)
  | .expression parts => .expression (parts.map (Part.map f))

/-! ## Nested elements in document order -/

def Part.elements : Part α → List α
  | .code _ => []
  | .element inner => [inner]

def PropertyValue.elements : PropertyValue α → List α
  | .code _ => []
  | .element inner => [inner]
  | .fragment parts => parts.flatMap Part.elements

def Property.elements (property : Property α) : List α :=
  (property.value.map PropertyValue.elements).getD []

def Child.elements : Child α → List α
  | .text _ | .code _ | .whitespace _ => []
  | .element inner => [inner]
  | .expression parts => parts.flatMap Part.elements

@[simp] theorem Part.elements_map (f : α → β) (part : Part α) :
    (part.map f).elements = part.elements.map f := by
  cases part <;> rfl

theorem Part.flatMap_elements_map (f : α → β) (parts : List (Part α)) :
    (parts.map (Part.map f)).flatMap Part.elements = (parts.flatMap Part.elements).map f := by
  induction parts with
  | nil => rfl
  | cons part parts induction => simp [induction]

@[simp] theorem PropertyValue.elements_map (f : α → β) (value : PropertyValue α) :
    (value.map f).elements = value.elements.map f := by
  cases value with
  | code code => rfl
  | element element => rfl
  | fragment parts => exact Part.flatMap_elements_map f parts

@[simp] theorem Property.elements_map (f : α → β) (property : Property α) :
    (property.map f).elements = property.elements.map f := by
  obtain ⟨name, value⟩ := property
  cases value with
  | none => rfl
  | some value => exact PropertyValue.elements_map f value

@[simp] theorem Child.elements_map (f : α → β) (child : Child α) :
    (child.map f).elements = child.elements.map f := by
  cases child with
  | text text => rfl
  | code text => rfl
  | whitespace text => rfl
  | element element => rfl
  | expression parts => exact Part.flatMap_elements_map f parts

/-- The elements directly inside an element: those of its properties, then those of its children. -/
def Element.nested (element : Element) : List Element :=
  element.properties.flatMap Property.elements ++ element.children.flatMap Child.elements

end ElementScript
