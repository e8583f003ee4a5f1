import ElementScript.Proofs.Markup.RoundTrip

/-! # Properties that adopt a child

No token marks the end of an open tag. A property without a value that stands last in its tag waits
for the token after it, and if the first child is an element or a braced region with elements, that
token starts the child: the child becomes the value of the property and is missing among the
children. A text, a run of whitespace or braced code as the first child does not do so, and neither
does a property with a value as the last one.
-/

namespace ElementScript.Markup

open Stage (Reaches)
open TreeBuilder (innerDepth)

/-- Whether the first child is an element or a region with elements. -/
def startsWithMarkup : Markup .children → Bool
  | .child _ _ => true
  | .region _ _ _ => true
  | _ => false

/-- What a waiting property of an element takes from the children of that element. -/
def adopted (depth offset : Nat) : Markup .children → Option (PropertyValue Element)
  | .child inner _ => some (.element (inner.tree (depth + 1) offset))
  | .region first parts _ =>
      some (.fragment (.code { text := first, offset := offset + 1, depth := depth + 1 } ::
        parts.tree (depth + 1) (offset + 1 + first.length)))
  | _ => none

/-- The children that a waiting property leaves. -/
def unadopted (depth offset : Nat) : Markup .children → List (Child Element)
  | .child inner others => others.tree depth (offset + inner.length)
  | .region first parts others =>
      others.tree depth (offset + 1 + first.length + parts.length)
  | children => children.tree depth offset

theorem adopted_eq_none_iff {depth offset : Nat} (children : Markup .children) :
    children.adopted depth offset = none ↔ children.startsWithMarkup = false := by
  cases children <;> simp [adopted, startsWithMarkup]

theorem unadopted_of_startsWithMarkup {depth offset : Nat} {children : Markup .children}
    (plain : children.startsWithMarkup = false) :
    children.unadopted depth offset = children.tree depth offset := by
  cases children with
  | child inner others => cases plain
  | region first parts others => cases plain
  | _ => rfl

section Building

variable {input : TreeInput} {body : Array Node} {element : OpenElement} {name : Text}
  {outer : List OpenElement} {calls offset : Nat}

/-- The region that a token opens as the value of a property. -/
def valueRegion (token : Token) (name : Text) (depth : Nat) : OpenRegion :=
  { property := some name
    parts := #[.code (token.toCode (depth + 1))]
    depth := depth + 1
    offset := token.offset }

theorem attachRegion_valueRegion {token : Token} (outside : element.region = none)
    (parts : List (Part Element)) :
    ((element.await name).openRegion token).attachRegion
        ((valueRegion token name element.depth).addParts parts) =
      element.settle.addProperties
        [{ name
           value := some (.fragment (.code (token.toCode (element.depth + 1)) :: parts)) }] := by
  rw [← OpenElement.addProperty_await]
  simp [OpenElement.openRegion, OpenElement.attachRegion, OpenElement.await, valueRegion,
    OpenRegion.addParts, OpenElement.addProperty, outside]

/-- What the children of a tag whose last property waits leave of the open element. -/
structure Adopts (name : Text) (children : Markup .children) (offset : Nat)
    (element after : OpenElement) : Prop where
  outside : after.region = none
  settled : after.settle =
    (element.settle.addProperties
      [{ name, value := children.adopted element.depth offset }]).addChildren
        (children.unadopted element.depth offset)

/-- The element with its waiting property completed, before any of its children. -/
def completed (element : OpenElement) (name : Text) (value : Option (PropertyValue Element)) :
    OpenElement :=
  element.settle.addProperties [{ name, value }]

section Completed

variable (name : Text) (value : Option (PropertyValue Element))

theorem region_completed (outside : element.region = none) :
    (completed element name value).region = none := by
  rwa [← element.settle_region] at outside

theorem pending_completed (element : OpenElement) :
    (completed element name value).pending = none :=
  element.settle_pending

theorem depth_completed (element : OpenElement) :
    (completed element name value).depth = element.depth :=
  element.settle_depth

end Completed

theorem adopts_completed {children : Markup .children} (outside : element.region = none) :
    Adopts name children offset element
      ((completed element name (children.adopted element.depth offset)).addChildren
        (children.unadopted element.depth offset)) := by
  let value := children.adopted element.depth offset
  have idle := pending_completed name value element
  exact ⟨region_completed name value outside, OpenElement.settle_of_pending_eq_none idle⟩

/-- A first child that is a single token settles the waiting property. -/
theorem reaches_settling {token : Token} {child : Child Element} {others : Markup .children}
    {next : Nat} (built : others.Builds) (outside : element.region = none)
    (kind : token.kind.isChild) (stands : token.child? = some child)
    (room : calls + others.pieces ≤ input.ceiling) :
    Reaches input (token :: others.tokens next)
      { body, stack := element.await name :: outer, calls }
      { body
        stack := (completed element name none).addChildren
          (child :: others.tree element.depth next) :: outer
        calls := calls + others.pieces } := by
  have first := @reaches_child input body (element.await name) outer calls token child
    (OpenElement.region_await outside) kind stands
  rw [OpenElement.settle_await] at first
  have after := @built input body ((completed element name none).addChild child) outer calls next
    room (region_completed name none outside) (pending_completed name none element)
  apply (first.cons after).congr rfl
  rw [OpenElement.addChildren_cons, ← depth_completed name none element]
  rfl

/-- A first child that completes the waiting property is not among the children. -/
theorem reaches_adopting {tokens : List Token} {value : PropertyValue Element}
    {others : Markup .children} {reached next : Nat} (built : others.Builds)
    (outside : element.region = none) (room : reached + others.pieces ≤ input.ceiling)
    (first : Reaches input tokens { body, stack := element.await name :: outer, calls }
      { body, stack := completed element name (some value) :: outer, calls := reached }) :
    Reaches input (tokens ++ others.tokens next)
      { body, stack := element.await name :: outer, calls }
      { body
        stack := (completed element name (some value)).addChildren
          (others.tree element.depth next) :: outer
        calls := reached + others.pieces } := by
  have after := @built input body (completed element name (some value)) outer reached next
    room (region_completed name _ outside) (pending_completed name _ element)
  rw [depth_completed] at after
  exact first.append after

theorem adopts_children (children : Markup .children) (formed : children.wellFormed)
    (outside : element.region = none) (room : calls + children.pieces ≤ input.ceiling) :
    ∃ after, Adopts name children offset element after ∧
      Reaches input (children.tokens offset)
        { body, stack := element.await name :: outer, calls }
        { body, stack := after :: outer, calls := calls + children.pieces } := by
  cases children with
  | noChildren =>
      refine ⟨_, ⟨OpenElement.region_await outside, ?_⟩, Reaches.refl _⟩
      exact OpenElement.settle_await
  | text content others =>
      simp only [wellFormed, Bool.and_eq_true] at formed
      exact ⟨_, adopts_completed outside, reaches_settling (builds others formed.2) outside
        (isChild_textToken offset content) (child?_textToken offset content) room⟩
  | bracedCode code others =>
      simp only [wellFormed, Bool.and_eq_true, Bool.not_eq_true'] at formed
      exact ⟨_, adopts_completed outside, reaches_settling (builds others formed.2) outside rfl
        (child?_code formed.1.1 formed.1.2) room⟩
  | child inner others =>
      simp only [wellFormed, Bool.and_eq_true] at formed
      rw [pieces, ← Nat.add_assoc] at room
      have depth : innerDepth (element.await name :: outer) = element.depth + 1 := by
        simp [innerDepth, OpenElement.await, outside]
      have first := @builds _ inner formed.1 input body (element.await name :: outer) calls offset
        (by omega)
      rw [depth, Stage.receive_cons, OpenElement.attach_await outside] at first
      refine ⟨_, adopts_completed outside, ?_⟩
      apply (reaches_adopting (builds others formed.2) outside room first).congr rfl
      rw [Nat.add_assoc calls]
      rfl
  | region code parts others =>
      simp only [wellFormed, Bool.and_eq_true] at formed
      rw [pieces, ← Nat.add_assoc, ← Nat.add_assoc] at room
      let token : Token := { kind := .fragmentStart, text := code, offset := offset + 1 }
      have depth : (element.await name).depth = element.depth := element.settle_depth
      have opens : ((element.await name).openRegion token).region =
          some (valueRegion token name element.depth) := by
        simp [OpenElement.openRegion, valueRegion, OpenElement.await]
      have first := @reaches_region input body (element.await name) _ outer calls
        (offset + 1 + code.length) parts token (builds parts formed.1.2)
        (OpenElement.region_await outside) rfl opens (by omega)
      rw [attachRegion_valueRegion outside] at first
      refine ⟨_, adopts_completed outside, ?_⟩
      apply (reaches_adopting (builds others formed.2) outside room first).congr rfl
      rw [Nat.add_assoc calls, Nat.add_assoc calls]
      rfl

end Building

/-! ## Whole sources -/

section Sources

variable {name property : Text} {children : Markup .children}

/-- An element whose only property has no value, as a whole source. -/
def bareTag (name property : Text) (children : Markup .children) : Markup .script :=
  .markup (.paired name (.bare property .noProperties) children []) .noScript

/-- The element that such a source is read as. -/
def adoptingElement (name property : Text) (children : Markup .children) : Element :=
  let between := name.length + property.length + 3
  { name
    isComponent := isComponentName name
    properties := [{ name := property, value := children.adopted 0 between }]
    children := children.unadopted 0 between
    depth := 0
    offset := 0 }

theorem scans_bareTag (named : isTagName name)
    (bare : isPropertyName property ∨ isSpreadName property) (formed : children.wellFormed) :
    (bareTag name property children).Scans := by
  have inTag : (Markup.bare property .noProperties).wellFormed := by
    simpa [wellFormed] using bare
  exact scans_markup (opensElement_paired named inTag)
    (scans_paired named (scans _ inTag) (scans children formed) nofun) scans_noScript

theorem reaches_bareTag {input : TreeInput} (named : isTagName name)
    (formed : children.wellFormed)
    (room : (bareTag name property children).pieces ≤ input.ceiling) :
    Reaches input ((bareTag name property children).tokens 0)
      { body := #[], stack := [], calls := 0 }
      { body := #[.element (adoptingElement name property children)]
        stack := []
        calls := (bareTag name property children).pieces } := by
  simp only [bareTag, pieces, Nat.add_zero] at room
  let opening := opened name 0 0
  let between := 0 + 1 + name.length + (Markup.bare property .noProperties).length + 1
  have start : between = name.length + property.length + 3 := by
    simp [between, length, render]
    omega
  have opens := @reaches_opened name input #[] [] 0 0 _ named (tagName_start named) (by omega)
  have waits := @Stage.reaches_take input #[] opening (opening.await property) [] 1
    { kind := .propertyName, text := property, offset := 0 + 1 + name.length + 1 }
    (.name rfl rfl)
  rcases @adopts_children input #[] opening property [] 1 between children formed rfl room with
    ⟨after, adopts, filled⟩
  have tag : after.name = name := by
    rw [← after.settle_name, adopts.settled]
    rfl
  have closes := @Stage.reaches_close input #[] after [] (1 + children.pieces)
    { kind := .elementEnd, text := '<' :: '/' :: (name ++ ['>'])
      offset := between + children.length + 0 }
    adopts.outside ⟨rfl, Or.inr ((tagName_end named).trans tag.symm)⟩
  have closed : after.settle.close = adoptingElement name property children := by
    rw [adopts.settled, start]
    simp [opening, opened, OpenElement.settle, OpenElement.addProperties,
      OpenElement.addChildren, OpenElement.close, adoptingElement]
  rw [closed, Stage.receive_nil] at closes
  apply (opens.cons (waits.cons (filled.append closes))).congr
  · simp [bareTag, tokens, openTag, between]
  · simp [bareTag, pieces]

/-- A property without a value that stands alone in its tag has no value in the tree, and the
children are all there, exactly when the first child is neither an element nor a region with
elements. -/
theorem parse_bareTag (options : Options) (named : isTagName name)
    (bare : isPropertyName property ∨ isSpreadName property) (formed : children.wellFormed)
    (uncommented : (bareTag name property children).render.opensNoComment)
    (room : (bareTag name property children).pieces ≤ options.ceiling) :
    options.parse (bareTag name property children).render =
        .ok { body := [.element (adoptingElement name property children)] } ∧
      ((adoptingElement name property children).properties =
            [{ name := property, value := none }] ∧
          (adoptingElement name property children).children =
            children.tree 0 (name.length + property.length + 3) ↔
        children.startsWithMarkup = false) := by
  constructor
  · have entered := Nat.le_trans (entries_le_pieces (bareTag name property children)).1 room
    exact parse_of_reaches (scans_bareTag named bare formed) uncommented entered
      fun input ceiling => reaches_bareTag named formed (by simpa [ceiling] using room)
  · constructor
    · rintro ⟨properties, -⟩
      have idle : children.adopted 0 (name.length + property.length + 3) = none := by
        simpa [adoptingElement] using properties
      exact (adopted_eq_none_iff children).mp idle
    · intro plain
      have idle : children.adopted 0 (name.length + property.length + 3) = none :=
        (adopted_eq_none_iff children).mpr plain
      exact ⟨by simp [adoptingElement, idle], unadopted_of_startsWithMarkup plain⟩

/-- In `<A p><e/></A>` the element `e` is the value of `p`, and `A` has no children. -/
theorem parse_bareTag_element :
    ({} : Options).parse "<A p><e/></A>".toList = .ok
      { body := [.element
          { name := ['A']
            isComponent := true
            properties :=
              [{ name := ['p']
                 value := some (.element
                   { name := ['e'], isComponent := false, properties := [], children := []
                     depth := 1, offset := 5 }) }]
            children := []
            depth := 0
            offset := 0 }] } :=
  (@parse_bareTag ['A'] ['p'] (.child (.selfClosing ['e'] .noProperties) .noChildren) {}
    (by decide) (by decide) (by decide) (by decide) (by decide)).1

end Sources

end ElementScript.Markup
