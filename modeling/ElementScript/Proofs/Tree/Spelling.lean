import ElementScript.Proofs.Tree.Grammar
import ElementScript.Tree.Fold

/-! # The tokens that spell a tree

The grammar of tokens says which sequences form a tree, and `Spells` says which tree each of them
forms: how every part of a tree is spelled out in tokens, from the left to the right. The properties
and the children of an element may alternate; each of the two lists is in the order of the tokens. A
name of a property is bare only where neither an element nor a region follows it.

`Program.ofTokens_spells` says that a tree is spelled by the tokens it was built from. What holds of
the tree because of its tokens is then an induction over the spelling, without the builder.
-/

namespace ElementScript

/-! ## The elements of a tree -/

/-- An element and all elements inside of it. -/
def Element.subtree (element : Element) : List Element :=
  element.fold fun element properties children =>
    element :: ((properties.flatMap Property.elements).flatten ++
      (children.flatMap Child.elements).flatten)

theorem Element.subtree_eq (element : Element) :
    element.subtree = element :: element.nested.flatMap Element.subtree := by
  have properties : (element.properties.map (Property.map subtree)).flatMap Property.elements =
      (element.properties.flatMap Property.elements).map subtree := by
    simp [List.flatMap_map, List.map_flatMap]
  have children : (element.children.map (Child.map subtree)).flatMap Child.elements =
      (element.children.flatMap Child.elements).map subtree := by
    simp [List.flatMap_map, List.map_flatMap]
  have unfolded := fold_eq (fun element properties children =>
    element :: ((properties.flatMap Property.elements).flatten ++
      (children.flatMap Child.elements).flatten)) element
  change element.subtree = element ::
    (((element.properties.map (Property.map subtree)).flatMap Property.elements).flatten ++
      ((element.children.map (Child.map subtree)).flatMap Child.elements).flatten) at unfolded
  rw [unfolded, properties, children, nested, List.flatMap_append, ← List.flatMap_def,
    ← List.flatMap_def]

namespace Element

variable {element inner : Element}

theorem le_total_of_mem {weight : Nat} {weights : List Nat} (member : weight ∈ weights) :
    weight ≤ total weights := by
  induction weights with
  | nil => cases member
  | cons first rest induction =>
      rw [total_cons]
      rcases List.mem_cons.mp member with rfl | later
      · omega
      · have bound := induction later
        omega

theorem weight_lt_of_mem_nested (member : inner ∈ element.nested) :
    inner.weight < element.weight := by
  have bound := le_total_of_mem (List.mem_map_of_mem member (f := weight))
  rw [element.weight_eq]
  omega

theorem mem_nested_of_property {property : Property Element}
    (listed : property ∈ element.properties) (member : inner ∈ property.elements) :
    inner ∈ element.nested :=
  List.mem_append_left _ (List.mem_flatMap.mpr ⟨property, listed, member⟩)

theorem mem_nested_of_child {child : Child Element}
    (listed : child ∈ element.children) (member : inner ∈ child.elements) :
    inner ∈ element.nested :=
  List.mem_append_right _ (List.mem_flatMap.mpr ⟨child, listed, member⟩)

theorem mem_subtree_self (element : Element) : element ∈ element.subtree := by
  rw [element.subtree_eq]
  exact List.mem_cons_self

theorem mem_subtree_of_nested {deeper : Element} (member : inner ∈ element.nested)
    (below : deeper ∈ inner.subtree) : deeper ∈ element.subtree := by
  rw [element.subtree_eq]
  exact List.mem_cons_of_mem _ (List.mem_flatMap.mpr ⟨inner, member, below⟩)

/-- What holds of an element, and of the elements directly inside of any that it holds of, holds of
all elements inside of it. -/
theorem of_mem_subtree {motive : Element → Prop}
    (passes : ∀ {outer inner : Element}, motive outer → inner ∈ outer.nested → motive inner)
    {root : Element} (holds : motive root) (member : element ∈ root.subtree) :
    motive element := by
  rw [root.subtree_eq] at member
  rcases List.mem_cons.mp member with rfl | deeper
  · exact holds
  · rcases List.mem_flatMap.mp deeper with ⟨inner, nested, below⟩
    have lighter := weight_lt_of_mem_nested nested
    exact of_mem_subtree passes (passes holds nested) below
termination_by root.weight

theorem mem_subtree_trans {root : Element} (member : element ∈ root.subtree)
    (below : inner ∈ element.subtree) : inner ∈ root.subtree := by
  let motive (outer : Element) : Prop := ∀ deeper ∈ outer.subtree, deeper ∈ root.subtree
  have passes : ∀ {outer middle : Element}, motive outer → middle ∈ outer.nested →
      motive middle := by
    intro outer middle holds nested deeper inside
    exact holds deeper (mem_subtree_of_nested nested inside)
  exact of_mem_subtree passes (fun _ inside => inside) member inner below

end Element

/-- The element of a node. -/
def Node.elements : Node → List Element
  | .code _ => []
  | .element root => [root]

/-- All elements of a tree. -/
def Program.elements (program : Program) : List Element :=
  (program.body.flatMap Node.elements).flatMap Element.subtree

/-! ## Parts of a tree -/

/-- A part of a tree. The depth is that of the element or the region whose contents it is. -/
inductive Piece where
  /-- What stands outside of every element. -/
  | script (body : List Node)
  | element (element : Element)
  | items (depth : Nat) (properties : List (Property Element)) (children : List (Child Element))
  | region (depth : Nat) (parts : List (Part Element))
  /-- What stands between the first and the last code of a region. -/
  | parts (depth : Nat) (parts : List (Part Element))

namespace Piece

/-- The elements that stand in a part of a tree and in no other element of it. -/
def outermost : Piece → List Element
  | .script body => body.flatMap Node.elements
  | .element whole => [whole]
  | .items _ properties children =>
      properties.flatMap Property.elements ++ children.flatMap Child.elements
  | .region _ inside | .parts _ inside => inside.flatMap Part.elements

/-- All elements of a part of a tree. -/
def elements (piece : Piece) : List Element :=
  piece.outermost.flatMap Element.subtree

/-! A part that is made longer has the elements of what it is made longer by. -/

variable {inner : Element} {depth : Nat} {properties : List (Property Element)}
  {children : List (Child Element)}

theorem mem_elements_element {whole : Element} :
    inner ∈ (Piece.element whole).elements ↔
      inner = whole ∨ inner ∈ (Piece.items depth whole.properties whole.children).elements := by
  simp only [elements, outermost, List.flatMap_singleton, whole.subtree_eq, List.mem_cons,
    Element.nested]

theorem mem_elements_node {body : List Node} {node : Node} :
    inner ∈ (Piece.script (body ++ [node])).elements ↔
      inner ∈ (Piece.script body).elements ∨ inner ∈ node.elements.flatMap Element.subtree := by
  simp only [elements, outermost, List.flatMap_append, List.flatMap_singleton, List.mem_append]

theorem mem_elements_property {property : Property Element} :
    inner ∈ (Piece.items depth (properties ++ [property]) children).elements ↔
      inner ∈ (Piece.items depth properties children).elements ∨
        inner ∈ property.elements.flatMap Element.subtree := by
  simp only [elements, outermost, List.flatMap_append, List.flatMap_singleton, List.mem_append]
  exact or_right_comm

theorem mem_elements_children {added : List (Child Element)} :
    inner ∈ (Piece.items depth properties (children ++ added)).elements ↔
      inner ∈ (Piece.items depth properties children).elements ∨
        inner ∈ (added.flatMap Child.elements).flatMap Element.subtree := by
  simp only [elements, outermost, List.flatMap_append, List.mem_append, or_assoc]

theorem mem_elements_part {parts : List (Part Element)} {part : Part Element} :
    inner ∈ (Piece.parts depth (parts ++ [part])).elements ↔
      inner ∈ (Piece.parts depth parts).elements ∨
        inner ∈ part.elements.flatMap Element.subtree := by
  simp only [elements, outermost, List.flatMap_append, List.flatMap_singleton, List.mem_append]

theorem mem_elements_region {parts : List (Part Element)} {opening closing : Code} :
    inner ∈ (Piece.region depth (.code opening :: (parts ++ [.code closing]))).elements ↔
      inner ∈ (Piece.parts depth parts).elements := by
  simp [elements, outermost, Part.elements]

end Piece

/-- The child that a token stands for is no element and holds none. -/
theorem Token.elements_child? (token : Token) :
    token.child?.toList.flatMap Child.elements = [] := by
  unfold Token.child?
  split
  · simp only
    split <;> rfl
  · split <;> rfl
  · rfl
  · rfl

/-- Whether the last of some tokens is the name of a property. -/
def EndsInName (tokens : List Token) : Prop :=
  ∃ before name, tokens = before ++ [name] ∧ name.kind = .propertyName

theorem not_endsInName_nil : ¬ EndsInName [] := by
  rintro ⟨before, name, split, -⟩
  simp at split

theorem not_endsInName_append {before : List Token} {last : Token}
    (other : last.kind ≠ .propertyName) : ¬ EndsInName (before ++ [last]) := by
  rintro ⟨others, name, split, kind⟩
  have same : last = name := by simpa using congrArg List.getLast? split
  exact other (same ▸ kind)

/-- How tokens spell a part of a tree. -/
inductive Spells (fragment : Text) : List Token → Piece → Prop where
  | noScript : Spells fragment [] (.script [])
  | code {read : List Token} {body : List Node} {token : Token}
      (before : Spells fragment read (.script body)) (kind : token.kind = .code) :
      Spells fragment (read ++ [token]) (.script (body ++ [.code (token.toCode 0)]))
  | scriptElement {read tokens : List Token} {body : List Node} {element : Element}
      (before : Spells fragment read (.script body))
      (inner : Spells fragment tokens (.element element)) (depth : element.depth = 0) :
      Spells fragment (read ++ tokens) (.script (body ++ [.element element]))
  | element {start stop : Token} {tokens : List Token} {depth : Nat}
      {properties : List (Property Element)} {children : List (Child Element)}
      (kind : start.kind = .elementStart)
      (inside : Spells fragment tokens (.items depth properties children))
      (ends : stop.Ends (elementName fragment start)) :
      Spells fragment (start :: (tokens ++ [stop])) (.element
        { name := elementName fragment start
          isComponent := isComponentName (elementName fragment start)
          properties, children, depth, offset := start.offset })
  | noItems {depth : Nat} : Spells fragment [] (.items depth [] [])
  | bareProperty {read : List Token} {depth : Nat} {properties : List (Property Element)}
      {children : List (Child Element)} {name : Token}
      (before : Spells fragment read (.items depth properties children))
      (kind : name.kind = .propertyName) :
      Spells fragment (read ++ [name])
        (.items depth (properties ++ [{ name := name.text, value := none }]) children)
  | valuedProperty {read : List Token} {depth : Nat} {properties : List (Property Element)}
      {children : List (Child Element)} {name value : Token}
      (before : Spells fragment read (.items depth properties children))
      (kind : name.kind = .propertyName) (valueKind : value.kind.isValue) :
      Spells fragment (read ++ [name, value])
        (.items depth
          (properties ++ [{ name := name.text, value := some (.code (value.toCode depth)) }])
          children)
  | elementProperty {read tokens : List Token} {depth : Nat}
      {properties : List (Property Element)} {children : List (Child Element)} {name : Token}
      {element : Element} (before : Spells fragment read (.items depth properties children))
      (kind : name.kind = .propertyName) (inner : Spells fragment tokens (.element element))
      (deeper : element.depth = depth + 1) :
      Spells fragment (read ++ name :: tokens)
        (.items depth (properties ++ [{ name := name.text, value := some (.element element) }])
          children)
  | regionProperty {read tokens : List Token} {depth : Nat}
      {properties : List (Property Element)} {children : List (Child Element)} {name : Token}
      {parts : List (Part Element)}
      (before : Spells fragment read (.items depth properties children))
      (kind : name.kind = .propertyName)
      (inner : Spells fragment tokens (.region (depth + 1) parts)) :
      Spells fragment (read ++ name :: tokens)
        (.items depth (properties ++ [{ name := name.text, value := some (.fragment parts) }])
          children)
  /-- A token may stand for no child at all, such as one of nothing but whitespace. -/
  | child {read : List Token} {depth : Nat} {properties : List (Property Element)}
      {children : List (Child Element)} {token : Token}
      (before : Spells fragment read (.items depth properties children))
      (kind : token.kind.isChild) :
      Spells fragment (read ++ [token])
        (.items depth properties (children ++ token.child?.toList))
  | childElement {read tokens : List Token} {depth : Nat} {properties : List (Property Element)}
      {children : List (Child Element)} {element : Element}
      (before : Spells fragment read (.items depth properties children))
      (unnamed : ¬ EndsInName read) (inner : Spells fragment tokens (.element element))
      (deeper : element.depth = depth + 1) :
      Spells fragment (read ++ tokens)
        (.items depth properties (children ++ [.element element]))
  | childRegion {read tokens : List Token} {depth : Nat} {properties : List (Property Element)}
      {children : List (Child Element)} {parts : List (Part Element)}
      (before : Spells fragment read (.items depth properties children))
      (unnamed : ¬ EndsInName read) (inner : Spells fragment tokens (.region depth parts)) :
      Spells fragment (read ++ tokens)
        (.items depth properties (children ++ [.expression parts]))
  | region {opening closing : Token} {tokens : List Token} {depth : Nat}
      {parts : List (Part Element)} (kind : opening.kind = .fragmentStart)
      (inside : Spells fragment tokens (.parts depth parts))
      (closes : closing.kind = .fragmentEnd) :
      Spells fragment (opening :: (tokens ++ [closing]))
        (.region depth (.code (opening.toCode depth) ::
          (parts ++ [.code (closing.toCode depth)])))
  | noParts {depth : Nat} : Spells fragment [] (.parts depth [])
  | part {read : List Token} {depth : Nat} {parts : List (Part Element)} {token : Token}
      (before : Spells fragment read (.parts depth parts)) (kind : token.kind.isPart) :
      Spells fragment (read ++ [token]) (.parts depth (parts ++ [.code (token.toCode depth)]))
  | partElement {read tokens : List Token} {depth : Nat} {parts : List (Part Element)}
      {element : Element} (before : Spells fragment read (.parts depth parts))
      (inner : Spells fragment tokens (.element element)) (deeper : element.depth = depth + 1) :
      Spells fragment (read ++ tokens) (.parts depth (parts ++ [.element element]))

/-- Every element of a part of a tree is spelled by a stretch of the tokens that spell the part. -/
theorem Spells.exists_stretch {fragment : Text} {tokens : List Token} {piece : Piece}
    {element : Element} (spells : Spells fragment tokens piece)
    (member : element ∈ piece.elements) :
    ∃ stretch, stretch <:+: tokens ∧ Spells fragment stretch (.element element) := by
  have wider : ∀ {part whole : List Token}, part <:+: whole →
      (∃ stretch, stretch <:+: part ∧ Spells fragment stretch (.element element)) →
        ∃ stretch, stretch <:+: whole ∧ Spells fragment stretch (.element element) := by
    rintro part whole within ⟨stretch, inside, spelled⟩
    exact ⟨stretch, inside.trans within, spelled⟩
  induction spells with
  | noScript | noItems | noParts => cases member
  | code before kind induction =>
      rcases Piece.mem_elements_node.mp member with member | member
      · exact wider (List.prefix_append _ _).isInfix (induction member)
      · cases member
  | scriptElement before inner depth induction inside =>
      rcases Piece.mem_elements_node.mp member with member | member
      · exact wider (List.prefix_append _ _).isInfix (induction member)
      · exact wider (List.suffix_append _ _).isInfix (inside member)
  | @element start stop tokens depth properties children kind inside ends induction =>
      rcases Piece.mem_elements_element.mp member with rfl | member
      · exact ⟨_, List.infix_rfl, .element kind inside ends⟩
      · exact wider ⟨[start], [stop], rfl⟩ (induction member)
  | bareProperty before kind induction =>
      rcases Piece.mem_elements_property.mp member with member | member
      · exact wider (List.prefix_append _ _).isInfix (induction member)
      · cases member
  | valuedProperty before kind valueKind induction =>
      rcases Piece.mem_elements_property.mp member with member | member
      · exact wider (List.prefix_append _ _).isInfix (induction member)
      · cases member
  | elementProperty before kind inner deeper induction inside =>
      rcases Piece.mem_elements_property.mp member with member | member
      · exact wider (List.prefix_append _ _).isInfix (induction member)
      · exact wider ((List.suffix_cons _ _).trans (List.suffix_append _ _)).isInfix (inside member)
  | regionProperty before kind inner induction inside =>
      rcases Piece.mem_elements_property.mp member with member | member
      · exact wider (List.prefix_append _ _).isInfix (induction member)
      · exact wider ((List.suffix_cons _ _).trans (List.suffix_append _ _)).isInfix (inside member)
  | @child read depth properties children token before kind induction =>
      rcases Piece.mem_elements_children.mp member with member | member
      · exact wider (List.prefix_append _ _).isInfix (induction member)
      · rw [token.elements_child?] at member
        cases member
  | childElement before unnamed inner deeper induction inside =>
      rcases Piece.mem_elements_children.mp member with member | member
      · exact wider (List.prefix_append _ _).isInfix (induction member)
      · exact wider (List.suffix_append _ _).isInfix (inside member)
  | childRegion before unnamed inner induction inside =>
      rcases Piece.mem_elements_children.mp member with member | member
      · exact wider (List.prefix_append _ _).isInfix (induction member)
      · rw [List.flatMap_singleton] at member
        exact wider (List.suffix_append _ _).isInfix (inside member)
  | @region opening closing tokens depth parts kind inside closes induction =>
      exact wider ⟨[opening], [closing], rfl⟩ (induction (Piece.mem_elements_region.mp member))
  | part before kind induction =>
      rcases Piece.mem_elements_part.mp member with member | member
      · exact wider (List.prefix_append _ _).isInfix (induction member)
      · cases member
  | partElement before inner deeper induction inside =>
      rcases Piece.mem_elements_part.mp member with member | member
      · exact wider (List.prefix_append _ _).isInfix (induction member)
      · exact wider (List.suffix_append _ _).isInfix (inside member)

/-! ## Open elements -/

/-- Whether tokens spell the properties and children of an element, perhaps with the name of one
more property behind them. -/
def SpelledItems (fragment : Text) (items : Piece) (pending : Option Text) (read : List Token) :
    Prop :=
  match pending with
  | none => Spells fragment read items ∧ ¬ EndsInName read
  | some text => ∃ before name, read = before ++ [name] ∧ name.kind = .propertyName ∧
      name.text = text ∧ Spells fragment before items

/-- Tokens that spell an element end with the end of that element. -/
theorem Spells.exists_elementEnd {fragment : Text} {tokens : List Token} {element : Element}
    (spells : Spells fragment tokens (.element element)) :
    ∃ before stop, tokens = before ++ [stop] ∧ stop.kind = .elementEnd := by
  cases spells with
  | @element start stop inside _ _ _ kind spells ends => exact ⟨start :: inside, stop, rfl, ends.1⟩

namespace OpenElement

variable {fragment : Text} {element next : OpenElement} {read tokens : List Token} {token : Token}

/-- What is fixed of an element when it starts: its name, its depth and its offset. -/
def heading (element : OpenElement) : Text × Nat × Nat :=
  (element.name, element.depth, element.offset)

theorem heading_settle (element : OpenElement) : element.settle.heading = element.heading := by
  unfold settle
  split <;> rfl

theorem heading_attach (element : OpenElement) (inner : Element) :
    (element.attach inner).heading = element.heading := by
  unfold attach
  split
  · rfl
  · split <;> rfl

theorem Takes.heading (taken : element.Takes token next) : next.heading = element.heading := by
  cases taken with
  | name outside kind => exact element.heading_settle
  | value outside waiting kind => rfl
  | child outside kind =>
      rw [← element.heading_settle]
      unfold addChild?
      split <;> rfl
  | part inside kind => rfl
  | regionEnd inside kind =>
      unfold attachRegion
      split <;> rfl

/-- The properties and children of an open element as a part of its tree. -/
def items (element : OpenElement) : Piece :=
  .items element.depth element.properties.toList element.children.toList

theorem items_addProperty (element : OpenElement) (name : Text)
    (value : Option (PropertyValue Element)) :
    (element.addProperty name value).items =
      .items element.depth (element.properties.toList ++ [{ name := name, value := value }])
        element.children.toList := by
  simp [items, addProperty]

theorem items_addChild (element : OpenElement) (child : Child Element) :
    (element.addChild child).items =
      .items element.depth element.properties.toList (element.children.toList ++ [child]) := by
  simp [items, addChild]

theorem items_addChild? (element : OpenElement) (token : Token) :
    (element.addChild? token).items = .items element.depth element.properties.toList
      (element.children.toList ++ token.child?.toList) := by
  unfold addChild?
  cases token.child? <;> simp [items, addChild]

/-- Whether tokens spell a region of an element up to where it has been read. -/
structure SpelledRegion (fragment : Text) (element : OpenElement) (region : OpenRegion)
    (read : List Token) : Prop where
  idle : element.pending = none
  depth : region.depth = if region.property.isSome then element.depth + 1 else element.depth
  parts : ∃ before opening tokens parts, read = before ++ opening :: tokens ∧
    SpelledItems fragment element.items region.property before ∧ opening.kind = .fragmentStart ∧
    region.parts.toList = .code (opening.toCode region.depth) :: parts ∧
    Spells fragment tokens (.parts region.depth parts)

/-- Whether tokens are the ones that an open element has been built from since its start. -/
def Spelled (fragment : Text) (element : OpenElement) (read : List Token) : Prop :=
  match element.region with
  | none => SpelledItems fragment element.items element.pending read
  | some region => element.SpelledRegion fragment region read

theorem spelled_of_outside (outside : element.region = none) :
    element.Spelled fragment read ↔
      SpelledItems fragment element.items element.pending read := by
  rw [Spelled, outside]

theorem spelled_of_inside {region : OpenRegion} (inside : element.region = some region) :
    element.Spelled fragment read ↔ element.SpelledRegion fragment region read := by
  rw [Spelled, inside]

/-- An element in which nothing waits is spelled as soon as its items are. -/
theorem spelled_of_spells {last : Token} (outside : element.region = none)
    (idle : element.pending = none) (spells : Spells fragment (read ++ [last]) element.items)
    (other : last.kind ≠ .propertyName) : element.Spelled fragment (read ++ [last]) := by
  rw [spelled_of_outside outside, idle]
  exact ⟨spells, not_endsInName_append other⟩

/-- A name that waits turns out to be bare. -/
theorem spells_settle (spelled : SpelledItems fragment element.items element.pending read) :
    Spells fragment read element.settle.items := by
  unfold settle
  cases pending : element.pending with
  | none =>
      rw [pending] at spelled
      exact spelled.1
  | some text =>
      rw [pending] at spelled
      rcases spelled with ⟨before, name, rfl, kind, rfl, spells⟩
      simp only [items_addProperty]
      exact .bareProperty spells kind

/-- A part of a region is one more part of it. -/
theorem SpelledRegion.push {region : OpenRegion} {part : Part Element}
    (spelled : element.SpelledRegion fragment region read)
    (extends_ : ∀ {before parts}, Spells fragment before (.parts region.depth parts) →
      Spells fragment (before ++ tokens) (.parts region.depth (parts ++ [part]))) :
    ({ element with region := some { region with parts := region.parts.push part } } :
      OpenElement).Spelled fragment (read ++ tokens) := by
  rcases spelled with
    ⟨idle, depth, before, opening, others, parts, rfl, waits, opens, built, spells⟩
  refine ⟨idle, depth, before, opening, others ++ tokens, parts ++ [part], ?_, waits, opens, ?_,
    extends_ spells⟩
  · simp
  · simp [built]

/-- A region that ends is the value of a property or a child. -/
theorem SpelledRegion.close {region : OpenRegion}
    (spelled : element.SpelledRegion fragment region read) (kind : token.kind = .fragmentEnd) :
    (element.attachRegion { region with
      parts := region.parts.push (.code (token.toCode region.depth)) }).Spelled fragment
      (read ++ [token]) := by
  rcases spelled with
    ⟨idle, depth, before, opening, tokens, parts, rfl, waits, opens, built, spells⟩
  have whole := Spells.region opens spells kind
  refine spelled_of_spells (region_attachRegion element _) (pending_attachRegion idle _) ?_
    (by simp [kind])
  unfold attachRegion
  cases property : region.property with
  | none =>
      rw [property] at waits depth
      simp only [Option.isSome_none, Bool.false_eq_true, if_false] at depth
      rw [depth] at whole
      simp only [items_addChild, Array.toList_push, built, depth]
      simpa using Spells.childRegion waits.1 waits.2 whole
  | some text =>
      rw [property] at waits depth
      simp only [Option.isSome_some, if_true] at depth
      rcases waits with ⟨others, name, rfl, named, rfl, spelled⟩
      rw [depth] at whole
      simp only [items_addProperty, Array.toList_push, built, depth]
      simpa using Spells.regionProperty spelled named whole

/-- A token that an open element takes is one more of its tokens. -/
theorem Takes.spelled (taken : element.Takes token next)
    (spelled : element.Spelled fragment read) : next.Spelled fragment (read ++ [token]) := by
  cases taken with
  | name outside kind =>
      rw [spelled_of_outside outside] at spelled
      have waits := spells_settle spelled
      rw [spelled_of_outside (by simpa using outside)]
      exact ⟨read, token, rfl, kind, rfl, waits⟩
  | value outside waiting kind =>
      rw [spelled_of_outside outside, waiting] at spelled
      rcases spelled with ⟨before, name, rfl, named, rfl, spells⟩
      refine spelled_of_spells outside rfl ?_
        (by rintro isName; simp [isName, Token.Kind.isValue] at kind)
      rw [items_addProperty]
      simpa using Spells.valuedProperty spells named kind
  | child outside kind =>
      rw [spelled_of_outside outside] at spelled
      have idle : (element.settle.addChild? token).pending = none := by
        unfold addChild?
        split <;> simp [addChild]
      refine spelled_of_spells (by simpa using outside) idle ?_
        (by rintro isName; simp [isName, Token.Kind.isChild] at kind)
      rw [items_addChild?]
      exact .child (spells_settle spelled) kind
  | part inside kind =>
      rw [spelled_of_inside inside] at spelled
      exact spelled.push fun spells => .part spells kind
  | regionEnd inside kind =>
      rw [spelled_of_inside inside] at spelled
      exact spelled.close kind

theorem spelled_openRegion (outside : element.region = none)
    (kind : token.kind = .fragmentStart) (spelled : element.Spelled fragment read) :
    (element.openRegion token).Spelled fragment (read ++ [token]) := by
  rw [spelled_of_outside outside] at spelled
  exact ⟨rfl, rfl, read, token, [], [], rfl, spelled, kind, rfl, .noParts⟩

/-- A nested element is one more part, value or child of the element around it. -/
theorem spelled_attach {inner : Element} (above : List OpenElement)
    (spells : Spells fragment tokens (.element inner))
    (deeper : inner.depth = TreeBuilder.innerDepth (element :: above))
    (spelled : element.Spelled fragment read) :
    (element.attach inner).Spelled fragment (read ++ tokens) := by
  cases place : element.region with
  | some region =>
      rw [spelled_of_inside place] at spelled
      rw [TreeBuilder.innerDepth, place] at deeper
      simp only [attach, place]
      exact spelled.push fun before => .partElement before spells deeper
  | none =>
      rw [spelled_of_outside place] at spelled
      rw [TreeBuilder.innerDepth, place] at deeper
      rcases spells.exists_elementEnd with ⟨others, stop, rfl, ends⟩
      have other : stop.kind ≠ .propertyName := by simp [ends]
      cases pending : element.pending with
      | some text =>
          rw [pending] at spelled
          rcases spelled with ⟨before, name, rfl, named, rfl, items⟩
          simp only [attach, place, pending]
          rw [← List.append_assoc]
          refine spelled_of_spells place rfl ?_ other
          rw [items_addProperty]
          simpa using Spells.elementProperty items named spells deeper
      | none =>
          rw [pending] at spelled
          simp only [attach, place, pending]
          rw [← List.append_assoc]
          refine spelled_of_spells place pending ?_ other
          rw [items_addChild]
          simpa using Spells.childElement spelled.1 spelled.2 spells deeper

/-- An element that ends is spelled by the tokens since its start. -/
theorem spells_close {start : Token} {depth : Nat} (kind : start.kind = .elementStart)
    (opened : element.heading = (elementName fragment start, depth, start.offset))
    (outside : element.region = none) (spelled : element.Spelled fragment read)
    (ends : token.Ends element.name) :
    Spells fragment (start :: (read ++ [token])) (.element element.settle.close) := by
  rw [spelled_of_outside outside] at spelled
  have settled := element.heading_settle.trans opened
  simp only [heading, Prod.mk.injEq] at opened settled
  rw [opened.1] at ends
  have whole := Spells.element kind (spells_settle spelled) ends
  rw [← settled.1, ← settled.2.2] at whole
  exact whole

end OpenElement

/-! ## Whole sequences -/

/-- Whether tokens spell a script up to where it has been read: its finished nodes, then the open
elements, innermost first. -/
inductive SpelledStack (fragment : Text) (body : List Node) :
    List OpenElement → List Token → Prop where
  | script {read : List Token} (spells : Spells fragment read (.script body)) :
      SpelledStack fragment body [] read
  | element {element : OpenElement} {outer : List OpenElement} {before inside : List Token}
      {start : Token} (around : SpelledStack fragment body outer before)
      (kind : start.kind = .elementStart)
      (opened : element.heading =
        (elementName fragment start, TreeBuilder.innerDepth outer, start.offset))
      (spelled : element.Spelled fragment inside) :
      SpelledStack fragment body (element :: outer) (before ++ start :: inside)

namespace TreeBuilder

variable {input : TreeInput} {builder next : TreeBuilder} {token : Token}
  {read tokens : List Token}

/-- Whether tokens are the ones that a builder has read. -/
def Spelled (fragment : Text) (builder : TreeBuilder) (read : List Token) : Prop :=
  SpelledStack fragment builder.body.toList builder.stack read

/-- The innermost open element changes, with more tokens behind it. -/
theorem spelledStack_extend {fragment : Text} {body : List Node} {element changed : OpenElement}
    {outer : List OpenElement} (stack : SpelledStack fragment body (element :: outer) read)
    (heading : changed.heading = element.heading)
    (grows : ∀ inside, element.Spelled fragment inside →
      changed.Spelled fragment (inside ++ tokens)) :
    SpelledStack fragment body (changed :: outer) (read ++ tokens) := by
  cases stack with
  | element around kind opened spelled =>
      rw [List.append_assoc, List.cons_append]
      exact .element around kind (heading.trans opened) (grows _ spelled)

theorem spelledStack_close {fragment : Text} {element : OpenElement} {outer : List OpenElement}
    (outside : element.region = none) (ends : token.Ends element.name)
    (stack : SpelledStack fragment builder.body.toList (element :: outer) read) :
    (builder.closeInnermost element outer).Spelled fragment (read ++ [token]) := by
  cases stack with
  | element around kind opened spelled =>
      have whole := OpenElement.spells_close kind opened outside spelled ends
      have depth : element.settle.close.depth = innerDepth outer :=
        congrArg (·.2.1) (element.heading_settle.trans opened)
      rw [List.append_assoc, List.cons_append]
      cases outer with
      | nil =>
          cases around with
          | script spells =>
              refine .script ?_
              simp only [closeInnermost, Array.toList_push]
              exact .scriptElement spells whole depth
      | cons parent above =>
          exact spelledStack_extend around (parent.heading_attach _) fun _ =>
            OpenElement.spelled_attach above whole depth

/-- A builder that takes up a token has read that token after the others. -/
theorem Reads.spelled (reads : Reads input builder token next)
    (spelled : builder.Spelled input.fragment read) :
    next.Spelled input.fragment (read ++ [token]) := by
  unfold Spelled at *
  cases reads with
  | code outside kind room =>
      rw [outside] at spelled ⊢
      cases spelled with
      | script spells =>
          rw [Array.toList_push]
          exact .script (.code spells kind)
  | start kind room => exact .element spelled kind rfl ⟨.noItems, not_endsInName_nil⟩
  | take stack taken =>
      rw [stack] at spelled
      exact spelledStack_extend spelled taken.heading fun _ => taken.spelled
  | region stack outside kind room =>
      rw [stack] at spelled
      exact spelledStack_extend spelled rfl fun _ => OpenElement.spelled_openRegion outside kind
  | close stack outside ends =>
      rw [stack] at spelled
      exact spelledStack_close outside ends spelled

theorem run_spelled (spelled : builder.Spelled input.fragment read)
    (ran : builder.run input tokens = .ok next) :
    next.Spelled input.fragment (read ++ tokens) := by
  induction tokens generalizing builder read with
  | nil =>
      cases ran
      simpa using spelled
  | cons token tokens induction =>
      rw [run] at ran
      split at ran
      · cases ran
      · rename_i reached stepped
        have taken : reached.advance.Spelled input.fragment (read ++ [token]) :=
          (step_eq_ok_iff.mp stepped).spelled spelled
        have longer := induction taken ran
        rwa [List.append_assoc, List.singleton_append] at longer

end TreeBuilder

/-- A tree is spelled by the tokens that it was built from. -/
theorem Program.ofTokens_spells {input : TreeInput} {tokens : List Token} {program : Program}
    (built : Program.ofTokens input tokens = .ok program) :
    Spells input.fragment tokens (.script program.body) := by
  rcases ofTokens_eq_ok_iff.mp built with ⟨final, ran, finished⟩
  have coherent := TreeBuilder.run_coherent TreeBuilder.coherent_initial ran
  have closed : final.stack = [] :=
    (TreeBuilder.finish_succeeds_iff coherent).mp ⟨program, finished⟩
  have initial : ({} : TreeBuilder).Spelled input.fragment [] := .script .noScript
  have spelled := TreeBuilder.run_spelled initial ran
  rw [TreeBuilder.Spelled, closed] at spelled
  cases spelled with
  | script spells =>
      have body : program.body = final.body.toList := by
        unfold TreeBuilder.finish at finished
        split at finished
        · cases finished
        · split at finished
          · cases finished
          · cases finished
            rfl
      rw [body]
      exact spells

end ElementScript
