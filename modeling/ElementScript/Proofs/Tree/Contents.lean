import Mathlib.Data.List.Basic
import ElementScript.Proofs.Tree.Spelling

/-! # The contents of a tree

Every token leaves at most one thing in the tree that it is built into: an element, a property, a
piece of code, or a child that is neither an element nor a region. `Token.content?` says what, and
`Program.contents` lists what there is in a tree. `Program.ofTokens_keeps_contents` says that the
two lists are permutations of each other, so that nothing is lost and nothing is there twice, and
that the tokens between the start and the end of each element spell its properties and its children
in order.
-/

namespace ElementScript

/-- What a token leaves in a tree. -/
inductive Content where
  | element (name : Text) (offset : Nat)
  | property (name : Text)
  /-- Code that is copied as it is. -/
  | raw (text : Text) (offset : Nat)
  | text (text : Text)
  | whitespace (text : Text)
  /-- Code that is a child of its own. -/
  | code (text : Text)
deriving DecidableEq, Repr

/-! ## In a tree -/

section Trees

variable {ε : Type}

def Code.content (code : Code) : Content :=
  .raw code.text code.offset

/-- The contents of a part of a region, without those of an element in its place. -/
def Part.contents : Part ε → List Content
  | .code piece => [piece.content]
  | .element _ => []

def PropertyValue.contents : PropertyValue ε → List Content
  | .code piece => [piece.content]
  | .element _ => []
  | .fragment parts => parts.flatMap Part.contents

def Property.contents (property : Property ε) : List Content :=
  .property property.name :: (property.value.map PropertyValue.contents).getD []

def Child.contents : Child ε → List Content
  | .text content => [.text content]
  | .code content => [.code content]
  | .whitespace content => [.whitespace content]
  | .element _ => []
  | .expression parts => parts.flatMap Part.contents

/-- The contents of an element, without those of the elements in it. -/
def Element.contents (element : Element) : List Content :=
  .element element.name element.offset ::
    (element.properties.flatMap Property.contents ++ element.children.flatMap Child.contents)

def Node.contents : Node → List Content
  | .code piece => [piece.content]
  | .element _ => []

/-- All contents of a tree. -/
def Program.contents (program : Program) : List Content :=
  program.body.flatMap Node.contents ++ program.elements.flatMap Element.contents

/-- The contents of a part of a tree that belong to no element of it. -/
def Piece.ownContents : Piece → List Content
  | .script body => body.flatMap Node.contents
  | .element _ => []
  | .items _ properties children =>
      properties.flatMap Property.contents ++ children.flatMap Child.contents
  | .region _ inside | .parts _ inside => inside.flatMap Part.contents

/-- All contents of a part of a tree. -/
def Piece.contents (piece : Piece) : List Content :=
  piece.ownContents ++ piece.elements.flatMap Element.contents

end Trees

/-! ## In a sequence of tokens -/

/-- What a token leaves in a tree, given whether it stands in a region that holds elements. -/
def Token.content? (fragment : Text) (inRegion : Bool) (token : Token) : Option Content :=
  match token.kind with
  | .elementStart => some (.element (elementName fragment token) token.offset)
  | .elementEnd => none
  | .propertyName => some (.property token.text)
  | .code | .propertyValue | .fragmentStart | .fragmentEnd => some (.raw token.text token.offset)
  | .childText => if token.text.isAllWhitespace then none else some (.text token.text)
  | .childWhitespace => some (.whitespace token.text)
  | .childCode =>
      if inRegion then some (.raw token.text token.offset)
      else
        let code := stripBraces token.text.trim
        if code.isEmpty then none else some (.code code)

/-- The open elements after a token, innermost first: whether each has an open region. -/
def placesAfter (places : List Bool) (token : Token) : List Bool :=
  match token.kind, places with
  | .elementStart, _ => false :: places
  | .elementEnd, _ => places.tail
  | .fragmentStart, _ :: outer => true :: outer
  | .fragmentEnd, _ :: outer => false :: outer
  | _, _ => places

/-- What tokens leave in a tree, in their order. -/
def contentsFrom (fragment : Text) : List Bool → List Token → List Content
  | _, [] => []
  | places, token :: rest =>
      (token.content? fragment (places.headD false)).toList ++
        contentsFrom fragment (placesAfter places token) rest

variable {fragment : Text}

theorem contentsFrom_append (places : List Bool) (first second : List Token) :
    contentsFrom fragment places (first ++ second) =
      contentsFrom fragment places first ++
        contentsFrom fragment (first.foldl placesAfter places) second := by
  induction first generalizing places with
  | nil => rfl
  | cons token first induction => simp [contentsFrom, induction]

/-- Whether tokens leave these contents, in some order, and all open elements as they are. -/
def Leaves (fragment : Text) (places : List Bool) (tokens : List Token) (contents : List Content) :
    Prop :=
  tokens.foldl placesAfter places = places ∧
    (contentsFrom fragment places tokens).Perm contents

namespace Leaves

variable {places : List Bool} {first second tokens : List Token} {token : Token}
  {before after contents : List Content}

theorem nil : Leaves fragment places [] [] := ⟨rfl, .refl _⟩

theorem append (leavesFirst : Leaves fragment places first before)
    (leavesSecond : Leaves fragment places second after) :
    Leaves fragment places (first ++ second) (before ++ after) := by
  refine ⟨?_, ?_⟩
  · rw [List.foldl_append, leavesFirst.1, leavesSecond.1]
  · rw [contentsFrom_append, leavesFirst.1]
    exact leavesFirst.2.append leavesSecond.2

theorem singleton (stays : placesAfter places token = places) :
    Leaves fragment places [token]
      (token.content? fragment (places.headD false)).toList := by
  refine ⟨stays, ?_⟩
  simp [contentsFrom]

theorem of_content {content : Content} (stays : placesAfter places token = places)
    (left : token.content? fragment (places.headD false) = some content) :
    Leaves fragment places [token] [content] := by
  have single := @singleton fragment places token stays
  rwa [left] at single

theorem perm (leaves : Leaves fragment places tokens before) (same : before.Perm after) :
    Leaves fragment places tokens after :=
  ⟨leaves.1, leaves.2.trans same⟩

end Leaves

namespace Piece

/-- Whether a part of a tree can be spelled where these elements are open. -/
def Stands : Piece → List Bool → Prop
  | .script _, places => places = []
  | .element _, _ => True
  | .items _ _ _, places | .region _ _, places => ∃ outer, places = false :: outer
  | .parts _ _, places => ∃ outer, places = true :: outer

theorem contents_element (whole : Element) :
    (Piece.element whole).contents = .element whole.name whole.offset ::
      (Piece.items whole.depth whole.properties whole.children).contents := by
  simp [contents, ownContents, elements, outermost, Element.subtree_eq whole, Element.nested,
    Element.contents]

end Piece

namespace Leaves

variable {places : List Bool} {read tokens : List Token} {piece longer : Piece}

/-- A part of a tree grows by the contents and the elements that more tokens leave. -/
theorem extend (added : List Content) (roots : List Element)
    (before : Leaves fragment places read piece.contents)
    (following : Leaves fragment places tokens
      (added ++ (roots.flatMap Element.subtree).flatMap Element.contents))
    (own : (piece.ownContents ++ added).Perm longer.ownContents)
    (outer : (piece.outermost ++ roots).Perm longer.outermost) :
    Leaves fragment places (read ++ tokens) longer.contents := by
  apply (before.append following).perm
  have inner := (outer.flatMap_right Element.subtree).flatMap_right Element.contents
  rw [List.flatMap_append, List.flatMap_append] at inner
  apply List.Perm.trans _ (own.append inner)
  apply List.perm_iff_count.mpr
  intro content
  simp only [Piece.contents, Piece.elements, List.count_append]
  omega

/-- The elements among the properties stand before those among the children. -/
theorem extendProperties {depth : Nat} {properties : List (Property Element)}
    {children : List (Child Element)} (property : Property Element)
    (before : Leaves fragment places read (Piece.items depth properties children).contents)
    (following : Leaves fragment places tokens
      (property.contents ++ (property.elements.flatMap Element.subtree).flatMap Element.contents)) :
    Leaves fragment places (read ++ tokens)
      (Piece.items depth (properties ++ [property]) children).contents := by
  apply before.extend _ _ following
  · simpa [Piece.ownContents] using List.perm_append_comm.append_left _
  · simpa [Piece.outermost] using List.perm_append_comm.append_left _

theorem extendChildren {depth : Nat} {properties : List (Property Element)}
    {children : List (Child Element)} (added : List (Child Element))
    (before : Leaves fragment places read (Piece.items depth properties children).contents)
    (following : Leaves fragment places tokens (added.flatMap Child.contents ++
      ((added.flatMap Child.elements).flatMap Element.subtree).flatMap Element.contents)) :
    Leaves fragment places (read ++ tokens)
      (Piece.items depth properties (children ++ added)).contents := by
  apply before.extend _ _ following
  · simp [Piece.ownContents]
  · simp [Piece.outermost]

theorem extendParts {depth : Nat} {parts : List (Part Element)} (part : Part Element)
    (before : Leaves fragment places read (Piece.parts depth parts).contents)
    (following : Leaves fragment places tokens
      (part.contents ++ (part.elements.flatMap Element.subtree).flatMap Element.contents)) :
    Leaves fragment places (read ++ tokens) (Piece.parts depth (parts ++ [part])).contents := by
  apply before.extend _ _ following
  · simp [Piece.ownContents]
  · simp [Piece.outermost]

theorem extendScript {body : List Node} (node : Node)
    (before : Leaves fragment places read (Piece.script body).contents)
    (following : Leaves fragment places tokens
      (node.contents ++ (node.elements.flatMap Element.subtree).flatMap Element.contents)) :
    Leaves fragment places (read ++ tokens) (Piece.script (body ++ [node])).contents := by
  apply before.extend _ _ following
  · simp [Piece.ownContents]
  · simp [Piece.outermost]

end Leaves

/-- The child that a token stands for is what it leaves outside of regions. -/
theorem Token.contents_child? {token : Token} (kind : token.kind.isChild) :
    (token.content? fragment false).toList = token.child?.toList.flatMap Child.contents ++
      ((token.child?.toList.flatMap Child.elements).flatMap Element.subtree).flatMap
        Element.contents := by
  unfold Token.content? Token.child?
  cases shape : token.kind with
  | childCode =>
      simp only [Bool.false_eq_true, if_false]
      split <;> simp [Child.contents, Child.elements]
  | childText =>
      simp only
      split <;> simp [Child.contents, Child.elements]
  | childWhitespace => simp [Child.contents, Child.elements]
  | _ => simp [shape, Kind.isChild] at kind

/-- A name of a property leaves the property's name, and what stands after it the value. -/
theorem Leaves.property {places : List Bool} {name : Token} {tokens : List Token}
    {value : PropertyValue Element} (kind : name.kind = .propertyName)
    (following : Leaves fragment places tokens (value.contents ++
      (value.elements.flatMap Element.subtree).flatMap Element.contents)) :
    Leaves fragment places (name :: tokens)
      (Property.contents { name := name.text, value := some value } ++
        ((Property.elements { name := name.text, value := some value }).flatMap
          Element.subtree).flatMap Element.contents) := by
  have named : Leaves fragment places [name] [.property name.text] :=
    .of_content (by simp [placesAfter, kind]) (by simp [Token.content?, kind])
  exact named.append following

theorem Token.content?_of_isValue {token : Token} (kind : token.kind.isValue) (inRegion : Bool) :
    token.content? fragment inRegion = some (.raw token.text token.offset) := by
  unfold Token.content?
  cases shape : token.kind <;> simp_all [Kind.isValue]

theorem Token.content?_of_isPart {token : Token} (kind : token.kind.isPart) :
    token.content? fragment true = some (.raw token.text token.offset) := by
  unfold Token.content?
  cases shape : token.kind <;> simp_all [Kind.isPart]

/-- What spells a part of a tree leaves its contents. -/
theorem Spells.leaves {tokens : List Token} {piece : Piece} {places : List Bool}
    (spells : Spells fragment tokens piece) (stands : piece.Stands places) :
    Leaves fragment places tokens piece.contents := by
  induction spells generalizing places with
  | noScript | noItems | noParts => exact .nil
  | @code read body token before kind induction =>
      have left : token.content? fragment (places.headD false) =
          some (token.toCode 0).content := by
        simp [Token.content?, kind, Token.toCode, Code.content]
      exact (induction stands).extendScript _ (.of_content (by simp [placesAfter, kind]) left)
  | @scriptElement read tokens body element before inner depth induction inside =>
      exact (induction stands).extendScript (.element element) (inside trivial)
  | @element start stop tokens depth properties children kind inside ends induction =>
      have filled := @induction (false :: places) ⟨places, rfl⟩
      rw [Piece.contents_element]
      constructor
      · simp [placesAfter, kind, filled.1, ends.1]
      · simpa [contentsFrom, contentsFrom_append, placesAfter, kind, ends.1, Token.content?]
          using filled.2
  | @bareProperty read depth properties children name before kind induction =>
      exact (induction stands).extendProperties _
        (.of_content (by simp [placesAfter, kind]) (by simp [Token.content?, kind]))
  | @valuedProperty read depth properties children name value before kind valueKind induction =>
      have left := @Token.content?_of_isValue fragment value valueKind (places.headD false)
      refine (induction stands).extendProperties _ (.property kind (.of_content ?_ left))
      cases shape : value.kind <;> simp_all [placesAfter, Token.Kind.isValue]
  | elementProperty before kind inner deeper induction inside =>
      exact (induction stands).extendProperties _ (.property kind (inside trivial))
  | regionProperty before kind inner induction inside =>
      exact (induction stands).extendProperties _ (.property kind (inside stands))
  | @child read depth properties children token before kind induction =>
      rcases stands with ⟨outer, rfl⟩
      refine (induction ⟨outer, rfl⟩).extendChildren _ ?_
      rw [← Token.contents_child? kind]
      refine .singleton ?_
      cases shape : token.kind <;> simp_all [placesAfter, Token.Kind.isChild]
  | @childElement read tokens depth properties children element before unnamed inner deeper
      induction inside =>
      exact (induction stands).extendChildren [.element element] (inside trivial)
  | @childRegion read tokens depth properties children parts before unnamed inner induction
      inside =>
      refine (induction stands).extendChildren [.expression parts] ?_
      simpa [Child.contents, Child.elements, Piece.contents, Piece.ownContents, Piece.elements,
        Piece.outermost] using inside stands
  | @region opening closing tokens depth parts kind inside closes induction =>
      rcases stands with ⟨outer, rfl⟩
      have filled := @induction (true :: outer) ⟨outer, rfl⟩
      constructor
      · simp [placesAfter, kind, filled.1, closes]
      · have closed := filled.2.append_right [(closing.toCode depth).content]
        have moved : ((Piece.parts depth parts).contents ++ [(closing.toCode depth).content]).Perm
            ((Piece.parts depth parts).ownContents ++ (closing.toCode depth).content ::
              (Piece.parts depth parts).elements.flatMap Element.contents) := by
          rw [Piece.contents, List.append_assoc]
          exact List.perm_append_comm.append_left _
        have whole := (closed.trans moved).cons (opening.toCode depth).content
        simpa [contentsFrom, contentsFrom_append, placesAfter, kind, closes, filled.1,
          Token.content?, Piece.contents, Piece.ownContents, Piece.elements, Piece.outermost,
          Part.contents, Part.elements, Code.content, Token.toCode] using whole
  | @part read depth parts token before kind induction =>
      rcases stands with ⟨outer, rfl⟩
      have left := @Token.content?_of_isPart fragment token kind
      refine (induction ⟨outer, rfl⟩).extendParts _ (.of_content ?_ left)
      cases shape : token.kind <;> simp_all [placesAfter, Token.Kind.isPart]
  | @partElement read tokens depth parts element before inner deeper induction inside =>
      exact (induction stands).extendParts (.element element) (inside trivial)

/-! ## The order within each element -/

/-- Whether an element stands among tokens: with a start of its name and offset, with an end that it
may have, and between the two with tokens that spell its properties and its children in order. -/
def Element.StandsIn (fragment : Text) (tokens : List Token) (element : Element) : Prop :=
  ∃ start inside stop, start :: (inside ++ [stop]) <:+: tokens ∧ start.kind = .elementStart ∧
    element.name = elementName fragment start ∧ element.offset = start.offset ∧
    stop.Ends element.name ∧
    Spells fragment inside (.items element.depth element.properties element.children)

theorem Spells.standsIn {tokens : List Token} {piece : Piece} {element : Element}
    (spells : Spells fragment tokens piece) (member : element ∈ piece.elements) :
    element.StandsIn fragment tokens := by
  rcases spells.exists_stretch member with ⟨stretch, within, spelled⟩
  cases spelled with
  | @element start stop inside depth properties children kind items ends =>
      exact ⟨start, inside, stop, within, kind, rfl, rfl, ends, items⟩

/-! ## Whole sequences -/

/-- A tree holds exactly what its tokens leave, each thing once: an element for every element start,
with its name and offset, a property for every name of a property, a piece of code with its text and
offset for every code token, value, region start and region end and for every child code in a
region, and a child for every other token of a child that is more than nothing. Within each element
the properties are in the order of the tokens, and so are the children. -/
theorem Program.ofTokens_keeps_contents {input : TreeInput} {tokens : List Token}
    {program : Program} (built : Program.ofTokens input tokens = .ok program) :
    program.contents.Perm (contentsFrom input.fragment [] tokens) ∧
      ∀ element ∈ program.elements, element.StandsIn input.fragment tokens := by
  have spells := Program.ofTokens_spells built
  have leaves := @Spells.leaves input.fragment tokens _ [] spells rfl
  exact ⟨leaves.2.symm, fun _ member => spells.standsIn member⟩

/-- The tokens of an element with a bare and a valued property, a region around an element, text and
code. -/
theorem Program.ofTokens_keeps_contents_sample :
    let tokens : List Token :=
      [{ kind := .elementStart, text := "<a".toList, offset := 0 },
        { kind := .propertyName, text := "y".toList, offset := 3 },
        { kind := .propertyName, text := "x".toList, offset := 5 },
        { kind := .propertyValue, text := "1".toList, offset := 8 },
        { kind := .fragmentStart, text := "f(".toList, offset := 12 },
        { kind := .elementStart, text := "<b".toList, offset := 14 },
        { kind := .elementEnd, text := "/>".toList, offset := 16 },
        { kind := .fragmentEnd, text := ")".toList, offset := 18 },
        { kind := .childText, text := "t".toList, offset := 20 },
        { kind := .childCode, text := " z ".toList, offset := 22 },
        { kind := .elementEnd, text := "</a>".toList, offset := 26 }]
    let inner : Element :=
      { name := "b".toList, isComponent := false, properties := [], children := [], depth := 1
        offset := 14 }
    let outer : Element :=
      { name := "a".toList
        isComponent := false
        properties :=
          [{ name := "y".toList, value := none },
            { name := "x".toList
              value := some (.code { text := "1".toList, offset := 8, depth := 0 }) }]
        children :=
          [.expression
              [.code { text := "f(".toList, offset := 12, depth := 0 }, .element inner,
                .code { text := ")".toList, offset := 18, depth := 0 }],
            .text "t".toList, .code "z".toList]
        depth := 0
        offset := 0 }
    Program.ofTokens { source := [], fragment := "F".toList, ceiling := 3 } tokens =
        .ok { body := [.element outer] } ∧
      (outer.contents ++ inner.contents).Perm
        [.element "a".toList 0, .property "y".toList, .property "x".toList, .raw "1".toList 8,
          .raw "f(".toList 12, .element "b".toList 14, .raw ")".toList 18, .text "t".toList,
          .code "z".toList] ∧
      outer.StandsIn "F".toList tokens ∧ inner.StandsIn "F".toList tokens := by
  intro tokens inner outer
  have built : Program.ofTokens { source := [], fragment := "F".toList, ceiling := 3 } tokens =
      .ok { body := [.element outer] } := by rfl
  have kept := Program.ofTokens_keeps_contents built
  have subtree : Program.elements { body := [.element outer] } = [outer, inner] := by
    rw [Program.elements, List.flatMap_singleton, Node.elements, List.flatMap_singleton,
      Element.subtree_eq]
    change outer :: [inner].flatMap Element.subtree = _
    rw [List.flatMap_singleton, Element.subtree_eq]
    rfl
  rw [subtree] at kept
  have contents : Program.contents { body := [.element outer] } =
      outer.contents ++ inner.contents := by
    simp [Program.contents, subtree, Node.contents]
  rw [contents] at kept
  exact ⟨built, kept.1, kept.2 outer (by simp), kept.2 inner (by simp)⟩

end ElementScript
