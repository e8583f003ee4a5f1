import ElementScript.Proofs.Tree.Contents

/-! # The depths of a tree

The depth of an element is fixed when its start is read, from the innermost open element and its
open region, before anything around it is complete. `Program.HoldsAt` counts in the finished tree
what stands around an element: elements, and regions that are values of properties. A region among
the children does not count. `Program.ofTokens_depths` says that the depth is the sum of the two
counts, and where the code of an element lies relative to it.

One element deeper is a step of the tree, so the depths are compared along each such step only
(`Spells.liesAt`), and the counts follow by induction.
-/

namespace ElementScript

/-! ## What stands around an element -/

/-- Whether an element of a tree stands inside of so many elements and so many regions that are
values of properties. -/
inductive Program.HoldsAt (program : Program) : Nat → Nat → Element → Prop where
  | root {element : Element} (member : .element element ∈ program.body) :
      HoldsAt program 0 0 element
  | value {elements regions : Nat} {outer element : Element} {property : Property Element}
      (around : HoldsAt program elements regions outer) (listed : property ∈ outer.properties)
      (value : property.value = some (.element element)) :
      HoldsAt program (elements + 1) regions element
  | valueRegion {elements regions : Nat} {outer element : Element} {property : Property Element}
      {parts : List (Part Element)} (around : HoldsAt program elements regions outer)
      (listed : property ∈ outer.properties) (value : property.value = some (.fragment parts))
      (member : .element element ∈ parts) :
      HoldsAt program (elements + 1) (regions + 1) element
  | child {elements regions : Nat} {outer element : Element}
      (around : HoldsAt program elements regions outer)
      (listed : .element element ∈ outer.children) :
      HoldsAt program (elements + 1) regions element
  | childRegion {elements regions : Nat} {outer element : Element} {parts : List (Part Element)}
      (around : HoldsAt program elements regions outer)
      (listed : .expression parts ∈ outer.children) (member : .element element ∈ parts) :
      HoldsAt program (elements + 1) regions element

theorem Part.mem_flatMap_elements {parts : List (Part Element)} {element : Element} :
    element ∈ parts.flatMap Part.elements ↔ .element element ∈ parts := by
  rw [List.mem_flatMap]
  constructor
  · rintro ⟨part, listed, inside⟩
    cases part with
    | code piece => cases inside
    | element inner =>
        rw [List.mem_singleton.mp inside]
        exact listed
  · intro listed
    exact ⟨.element element, listed, List.mem_singleton_self element⟩

namespace Program

variable {program : Program} {element inner : Element} {elements regions : Nat}

theorem mem_elements_of_root (member : .element element ∈ program.body) :
    element ∈ program.elements :=
  List.mem_flatMap.mpr
    ⟨element, List.mem_flatMap.mpr ⟨_, member, List.mem_singleton_self element⟩,
      element.mem_subtree_self⟩

theorem mem_elements_of_nested (member : element ∈ program.elements)
    (nested : inner ∈ element.nested) : inner ∈ program.elements := by
  rcases List.mem_flatMap.mp member with ⟨root, listed, inside⟩
  have below := Element.mem_subtree_of_nested nested inner.mem_subtree_self
  exact List.mem_flatMap.mpr ⟨root, listed, Element.mem_subtree_trans inside below⟩

theorem HoldsAt.mem_elements (holds : program.HoldsAt elements regions element) :
    element ∈ program.elements := by
  induction holds with
  | root member => exact mem_elements_of_root member
  | value around listed value induction =>
      refine mem_elements_of_nested induction (Element.mem_nested_of_property listed ?_)
      simp [Property.elements, value, PropertyValue.elements]
  | valueRegion around listed value member induction =>
      refine mem_elements_of_nested induction (Element.mem_nested_of_property listed ?_)
      simpa [Property.elements, value, PropertyValue.elements]
        using Part.mem_flatMap_elements.mpr member
  | child around listed induction =>
      exact mem_elements_of_nested induction
        (Element.mem_nested_of_child listed (List.mem_singleton_self _))
  | childRegion around listed member induction =>
      exact mem_elements_of_nested induction
        (Element.mem_nested_of_child listed (Part.mem_flatMap_elements.mpr member))

/-- An element directly inside of another one is the value of a property, a child, or a part of
either. -/
theorem HoldsAt.nested (holds : program.HoldsAt elements regions element)
    (nested : inner ∈ element.nested) :
    ∃ elements regions, program.HoldsAt elements regions inner := by
  rcases List.mem_append.mp nested with inProperties | inChildren
  · rcases List.mem_flatMap.mp inProperties with ⟨property, listed, inside⟩
    cases value : property.value with
    | none => simp [Property.elements, value] at inside
    | some content =>
        rw [Property.elements, value, Option.map_some, Option.getD_some] at inside
        cases content with
        | code piece => cases inside
        | element whole =>
            rw [List.mem_singleton.mp inside]
            exact ⟨_, _, .value holds listed value⟩
        | fragment parts =>
            exact ⟨_, _, .valueRegion holds listed value (Part.mem_flatMap_elements.mp inside)⟩
  · rcases List.mem_flatMap.mp inChildren with ⟨child, listed, inside⟩
    cases child with
    | text content | code content | whitespace content => cases inside
    | element whole =>
        rw [List.mem_singleton.mp inside]
        exact ⟨_, _, .child holds listed⟩
    | expression parts =>
        exact ⟨_, _, .childRegion holds listed (Part.mem_flatMap_elements.mp inside)⟩

/-- Every element of a tree stands somewhere in it. -/
theorem mem_elements_iff_holdsAt :
    element ∈ program.elements ↔ ∃ elements regions, program.HoldsAt elements regions element := by
  constructor
  · intro member
    rcases List.mem_flatMap.mp member with ⟨root, listed, inside⟩
    rcases List.mem_flatMap.mp listed with ⟨node, inBody, isRoot⟩
    cases node with
    | code piece => cases isRoot
    | element whole =>
        rw [List.mem_singleton.mp isRoot] at inside
        refine Element.of_mem_subtree
          (motive := fun inner => ∃ elements regions, program.HoldsAt elements regions inner)
          ?_ ⟨0, 0, .root inBody⟩ inside
        rintro outer inner ⟨elements, regions, holds⟩ nested
        exact holds.nested nested
  · rintro ⟨elements, regions, holds⟩
    exact holds.mem_elements

end Program

/-! ## Depths along one step of the tree -/

/-- Whether a part of a region lies at the region's depth: code at the depth itself, and an element
one deeper. -/
def Part.LiesAt (depth : Nat) : Part Element → Prop
  | .code piece => piece.depth = depth
  | .element inner => inner.depth = depth + 1

/-- Whether a value lies at the depth of the element that has the property. A region is one deeper
than the element. -/
def PropertyValue.LiesAt (depth : Nat) : PropertyValue Element → Prop
  | .code piece => piece.depth = depth
  | .element inner => inner.depth = depth + 1
  | .fragment parts => ∀ part ∈ parts, part.LiesAt (depth + 1)

/-- Whether a child lies at the depth of its parent. A region is as deep as the parent. -/
def Child.LiesAt (depth : Nat) : Child Element → Prop
  | .text _ | .code _ | .whitespace _ => True
  | .element inner => inner.depth = depth + 1
  | .expression parts => ∀ part ∈ parts, part.LiesAt depth

/-- Whether the properties and the children of an element lie at its depth. -/
def Element.ContentsLie (element : Element) : Prop :=
  (∀ property ∈ element.properties, ∀ value ∈ property.value, value.LiesAt element.depth) ∧
    ∀ child ∈ element.children, child.LiesAt element.depth

def Node.LiesAtTop : Node → Prop
  | .code piece => piece.depth = 0
  | .element root => root.depth = 0

/-- Whether what stands directly in a part of a tree lies at its depth. -/
def Piece.ContentsLie : Piece → Prop
  | .script body => ∀ node ∈ body, node.LiesAtTop
  | .element _ => True
  | .items depth properties children =>
      (∀ property ∈ properties, ∀ value ∈ property.value, value.LiesAt depth) ∧
        ∀ child ∈ children, child.LiesAt depth
  | .region depth inside | .parts depth inside => ∀ part ∈ inside, part.LiesAt depth

/-- The child that a token stands for has no depth. -/
theorem Token.liesAt_child? (token : Token) (depth : Nat) :
    ∀ child ∈ token.child?.toList, child.LiesAt depth := by
  unfold Token.child?
  split
  · simp only
    split <;> simp [Child.LiesAt]
  · split <;> simp [Child.LiesAt]
  · simp [Child.LiesAt]
  · simp

/-- What tokens spell lies at the depth that it is spelled for. -/
theorem Spells.contentsLie {fragment : Text} {tokens : List Token} {piece : Piece}
    (spells : Spells fragment tokens piece) : piece.ContentsLie := by
  -- An element that is complete says nothing here: its contents are those of a piece of its own.
  induction spells with
  | noScript | noItems | noParts => simp [Piece.ContentsLie]
  | code before kind induction =>
      exact List.forall_mem_append.mpr ⟨induction, List.forall_mem_singleton.mpr rfl⟩
  | scriptElement before inner depth induction inside =>
      exact List.forall_mem_append.mpr ⟨induction, List.forall_mem_singleton.mpr depth⟩
  | element kind inside ends induction => trivial
  | bareProperty before kind induction =>
      refine ⟨List.forall_mem_append.mpr ⟨induction.1, ?_⟩, induction.2⟩
      simp
  | valuedProperty before kind valueKind induction =>
      refine ⟨List.forall_mem_append.mpr ⟨induction.1, ?_⟩, induction.2⟩
      simp [PropertyValue.LiesAt, Token.toCode]
  | elementProperty before kind inner deeper induction inside =>
      refine ⟨List.forall_mem_append.mpr ⟨induction.1, ?_⟩, induction.2⟩
      simpa [PropertyValue.LiesAt] using deeper
  | regionProperty before kind inner induction inside =>
      refine ⟨List.forall_mem_append.mpr ⟨induction.1, ?_⟩, induction.2⟩
      simpa [PropertyValue.LiesAt, Piece.ContentsLie] using inside
  | @child read depth properties children token before kind induction =>
      exact ⟨induction.1, List.forall_mem_append.mpr ⟨induction.2, token.liesAt_child? depth⟩⟩
  | childElement before unnamed inner deeper induction inside =>
      exact ⟨induction.1,
        List.forall_mem_append.mpr ⟨induction.2, List.forall_mem_singleton.mpr deeper⟩⟩
  | childRegion before unnamed inner induction inside =>
      exact ⟨induction.1,
        List.forall_mem_append.mpr ⟨induction.2, List.forall_mem_singleton.mpr inside⟩⟩
  | region kind inside closes induction =>
      refine List.forall_mem_cons.mpr ⟨rfl, List.forall_mem_append.mpr ⟨induction, ?_⟩⟩
      exact List.forall_mem_singleton.mpr rfl
  | part before kind induction =>
      exact List.forall_mem_append.mpr ⟨induction, List.forall_mem_singleton.mpr rfl⟩
  | partElement before inner deeper induction inside =>
      exact List.forall_mem_append.mpr ⟨induction, List.forall_mem_singleton.mpr deeper⟩

/-- An element that tokens spell is a component by its name, and its contents lie at its depth. -/
theorem Spells.element_agrees {fragment : Text} {tokens : List Token} {element : Element}
    (spells : Spells fragment tokens (.element element)) :
    element.ContentsLie ∧ element.isComponent = isComponentName element.name := by
  cases spells with
  | element kind inside ends => exact ⟨inside.contentsLie, rfl⟩

/-- The depth of an element counts what stands around it. -/
theorem Program.HoldsAt.depth_eq {program : Program} {elements regions : Nat} {element : Element}
    (top : ∀ node ∈ program.body, node.LiesAtTop)
    (lie : ∀ outer ∈ program.elements, outer.ContentsLie)
    (holds : program.HoldsAt elements regions element) : element.depth = elements + regions := by
  induction holds with
  | root member => exact top _ member
  | value around listed value induction =>
      have deeper := (lie _ around.mem_elements).1 _ listed _ value
      rw [PropertyValue.LiesAt, induction] at deeper
      omega
  | valueRegion around listed value member induction =>
      have deeper := (lie _ around.mem_elements).1 _ listed _ value _ member
      rw [Part.LiesAt, induction] at deeper
      omega
  | child around listed induction =>
      have deeper := (lie _ around.mem_elements).2 _ listed
      rw [Child.LiesAt, induction] at deeper
      omega
  | childRegion around listed member induction =>
      have deeper := (lie _ around.mem_elements).2 _ listed _ member
      rw [Part.LiesAt, induction] at deeper
      omega

/-! ## Whole sequences -/

/-- In the tree of some tokens, the depth of every element is the number of the elements around it
plus the number of the regions around it that are values of properties. Code outside of every
element has depth zero. The code of a value and the code of a region among the children have the
depth of the element that they belong to, and the code of a region that is a value is one deeper.
Every element is a component if its name is that of one, and the name is the one in the tag that
starts the element, or the fragment identifier for a tag without a name. -/
theorem Program.ofTokens_depths {input : TreeInput} {tokens : List Token} {program : Program}
    (built : Program.ofTokens input tokens = .ok program) :
    (∀ node ∈ program.body, node.LiesAtTop) ∧
      (∀ element ∈ program.elements, element.ContentsLie ∧
        element.isComponent = isComponentName element.name ∧
        element.StandsIn input.fragment tokens ∧
        ∃ elements regions, program.HoldsAt elements regions element) ∧
      ∀ elements regions element, program.HoldsAt elements regions element →
        element ∈ program.elements ∧ element.depth = elements + regions := by
  have spells := Program.ofTokens_spells built
  have agrees : ∀ element ∈ program.elements,
      element.ContentsLie ∧ element.isComponent = isComponentName element.name := by
    intro element member
    rcases spells.exists_stretch member with ⟨stretch, -, spelled⟩
    exact spelled.element_agrees
  refine ⟨spells.contentsLie, ?_, ?_⟩
  · intro element member
    exact ⟨(agrees element member).1, (agrees element member).2, spells.standsIn member,
      Program.mem_elements_iff_holdsAt.mp member⟩
  · intro elements regions element holds
    exact ⟨holds.mem_elements,
      holds.depth_eq spells.contentsLie fun outer member => (agrees outer member).1⟩

/-- The tokens of an element with a region as a value and a region among its children. -/
theorem Program.ofTokens_depths_sample :
    let tokens : List Token :=
      [{ kind := .code, text := "x = ".toList, offset := 0 },
        { kind := .elementStart, text := "<".toList, offset := 4 },
        { kind := .propertyName, text := "p".toList, offset := 6 },
        { kind := .fragmentStart, text := "f(".toList, offset := 9 },
        { kind := .elementStart, text := "<ui.b".toList, offset := 11 },
        { kind := .elementEnd, text := "/>".toList, offset := 17 },
        { kind := .fragmentEnd, text := ")".toList, offset := 19 },
        { kind := .fragmentStart, text := "\x7bg(".toList, offset := 22 },
        { kind := .elementStart, text := "<c".toList, offset := 25 },
        { kind := .elementEnd, text := "/>".toList, offset := 28 },
        { kind := .fragmentEnd, text := ")\x7d".toList, offset := 30 },
        { kind := .elementEnd, text := "</>".toList, offset := 32 }]
    let inValue : Element :=
      { name := "ui.b".toList, isComponent := true, properties := [], children := [], depth := 2
        offset := 11 }
    let inChild : Element :=
      { name := "c".toList, isComponent := false, properties := [], children := [], depth := 1
        offset := 25 }
    let outer : Element :=
      { name := "F".toList
        isComponent := true
        properties :=
          [{ name := "p".toList
             value := some (.fragment
              [.code { text := "f(".toList, offset := 9, depth := 1 }, .element inValue,
                .code { text := ")".toList, offset := 19, depth := 1 }]) }]
        children :=
          [.expression
            [.code { text := "\x7bg(".toList, offset := 22, depth := 0 }, .element inChild,
              .code { text := ")\x7d".toList, offset := 30, depth := 0 }]]
        depth := 0
        offset := 4 }
    let program : Program :=
      { body := [.code { text := "x = ".toList, offset := 0, depth := 0 }, .element outer] }
    Program.ofTokens { source := [], fragment := "F".toList, ceiling := 9 } tokens =
        .ok program ∧
      program.HoldsAt 1 1 inValue ∧ inValue.depth = 1 + 1 ∧
      program.HoldsAt 1 0 inChild ∧ inChild.depth = 1 + 0 ∧
      outer.ContentsLie ∧ outer.isComponent = isComponentName outer.name := by
  intro tokens inValue inChild outer program
  have built : Program.ofTokens { source := [], fragment := "F".toList, ceiling := 9 } tokens =
      .ok program := by rfl
  have depths := Program.ofTokens_depths built
  have around : program.HoldsAt 0 0 outer := .root (by simp [program])
  have value : program.HoldsAt 1 1 inValue :=
    .valueRegion around List.mem_cons_self rfl (by simp)
  have child : program.HoldsAt 1 0 inChild :=
    .childRegion around List.mem_cons_self (by simp)
  have agrees := depths.2.1 outer around.mem_elements
  exact ⟨built, value, (depths.2.2 1 1 inValue value).2, child, (depths.2.2 1 0 inChild child).2,
    agrees.1, agrees.2.1⟩

end ElementScript
