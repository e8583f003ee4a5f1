import ElementScript.Tree.Basic

/-!
Recursion over elements.

`Element.fold` replaces every nested element by a value and combines the values of an element's
properties and children. The recursion goes through the lists and options in between, one function
for each; `fold_eq` says that together they are the one equation that the name promises. All other
recursion over trees goes through it.
-/

namespace ElementScript

namespace Element

variable {α : Type}

/-- How the value of an element is made from the element and the values of the elements in it. -/
abbrev Algebra (α : Type) :=
  Element → List (Property α) → List (Child α) → α

mutual

/-- The value of an element. -/
def fold (combine : Algebra α) : Element → α
  | ⟨name, isComponent, properties, children, depth, offset⟩ =>
      combine ⟨name, isComponent, properties, children, depth, offset⟩
        (foldProperties combine properties) (foldChildren combine children)

def foldProperties (combine : Algebra α) : List (Property Element) → List (Property α)
  | [] => []
  | property :: properties =>
      foldProperty combine property :: foldProperties combine properties

def foldProperty (combine : Algebra α) : Property Element → Property α
  | ⟨name, value⟩ => ⟨name, foldValue? combine value⟩

def foldValue? (combine : Algebra α) : Option (PropertyValue Element) → Option (PropertyValue α)
  | none => none
  | some value => some (foldValue combine value)

def foldValue (combine : Algebra α) : PropertyValue Element → PropertyValue α
  | .code code => .code code
  | .element element => .element (fold combine element)
  | .fragment parts => .fragment (foldParts combine parts)

def foldParts (combine : Algebra α) : List (Part Element) → List (Part α)
  | [] => []
  | part :: parts => foldPart combine part :: foldParts combine parts

def foldPart (combine : Algebra α) : Part Element → Part α
  | .code code => .code code
  | .element element => .element (fold combine element)

def foldChildren (combine : Algebra α) : List (Child Element) → List (Child α)
  | [] => []
  | child :: children => foldChild combine child :: foldChildren combine children

def foldChild (combine : Algebra α) : Child Element → Child α
  | .text text => .text text
  | .code text => .code text
  | .whitespace text => .whitespace text
  | .element element => .element (fold combine element)
  | .expression parts => .expression (foldParts combine parts)

end

theorem foldPart_eq (combine : Algebra α) (part : Part Element) :
    foldPart combine part = part.map (fold combine) := by
  cases part <;> rfl

theorem foldParts_eq (combine : Algebra α) (parts : List (Part Element)) :
    foldParts combine parts = parts.map (Part.map (fold combine)) := by
  induction parts with
  | nil => rfl
  | cons part parts induction => simp [foldParts, foldPart_eq, induction]

theorem foldValue_eq (combine : Algebra α) (value : PropertyValue Element) :
    foldValue combine value = value.map (fold combine) := by
  cases value with
  | code code => rfl
  | element element => rfl
  | fragment parts => simp [foldValue, PropertyValue.map, foldParts_eq]

theorem foldProperty_eq (combine : Algebra α) (property : Property Element) :
    foldProperty combine property = property.map (fold combine) := by
  obtain ⟨name, value⟩ := property
  cases value with
  | none => rfl
  | some value => simp [foldProperty, foldValue?, Property.map, foldValue_eq]

theorem foldProperties_eq (combine : Algebra α) (properties : List (Property Element)) :
    foldProperties combine properties = properties.map (Property.map (fold combine)) := by
  induction properties with
  | nil => rfl
  | cons property properties induction => simp [foldProperties, foldProperty_eq, induction]

theorem foldChild_eq (combine : Algebra α) (child : Child Element) :
    foldChild combine child = child.map (fold combine) := by
  cases child with
  | text text => rfl
  | code text => rfl
  | whitespace text => rfl
  | element element => rfl
  | expression parts => simp [foldChild, Child.map, foldParts_eq]

theorem foldChildren_eq (combine : Algebra α) (children : List (Child Element)) :
    foldChildren combine children = children.map (Child.map (fold combine)) := by
  induction children with
  | nil => rfl
  | cons child children induction => simp [foldChildren, foldChild_eq, induction]

/-- The value of an element is made from the values of the elements in it. -/
theorem fold_eq (combine : Algebra α) (element : Element) :
    element.fold combine =
      combine element (element.properties.map (Property.map (fold combine)))
        (element.children.map (Child.map (fold combine))) := by
  rw [← foldProperties_eq, ← foldChildren_eq]
  cases element
  rfl

/-! ## The number of elements -/

/-- The sum of some weights. -/
def total (weights : List Nat) : Nat :=
  weights.foldr (· + ·) 0

@[simp] theorem total_nil : total [] = 0 := rfl

@[simp] theorem total_cons (weight : Nat) (weights : List Nat) :
    total (weight :: weights) = weight + total weights := rfl

theorem total_append (first second : List Nat) :
    total (first ++ second) = total first + total second := by
  induction first with
  | nil => simp
  | cons weight first induction => simp [induction, Nat.add_assoc]

def weight (element : Element) : Nat :=
  element.fold fun _ properties children =>
    1 + total (properties.flatMap Property.elements) + total (children.flatMap Child.elements)

theorem weight_eq (element : Element) :
    element.weight = 1 + total (element.nested.map weight) := by
  have properties : (element.properties.map (Property.map weight)).flatMap Property.elements =
      (element.properties.flatMap Property.elements).map weight := by
    simp [List.flatMap_map, List.map_flatMap]
  have children : (element.children.map (Child.map weight)).flatMap Child.elements =
      (element.children.flatMap Child.elements).map weight := by
    simp [List.flatMap_map, List.map_flatMap]
  have unfolded := fold_eq (fun _ properties children =>
    1 + total (properties.flatMap Property.elements) +
      total (children.flatMap Child.elements)) element
  change element.weight = 1 +
    total ((element.properties.map (Property.map weight)).flatMap Property.elements) +
    total ((element.children.map (Child.map weight)).flatMap Child.elements) at unfolded
  rw [unfolded, properties, children, nested, List.map_append, total_append]
  omega

end Element

end ElementScript
