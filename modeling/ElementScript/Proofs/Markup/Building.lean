import ElementScript.Proofs.Markup.Scanning
import ElementScript.Proofs.Tree.Stage

/-! # Building the tree of markup

The tokens of a piece of markup lead a builder to the stage with the piece's tree in its place
(`Markup.builds`). As for scanning, there is one statement for each kind of piece, and the whole is
an induction over the markup.
-/

namespace ElementScript

namespace OpenElement

def addProperties (element : OpenElement) (properties : List (Property Element)) : OpenElement :=
  { element with properties := element.properties ++ properties.toArray }

def addChildren (element : OpenElement) (children : List (Child Element)) : OpenElement :=
  { element with children := element.children ++ children.toArray }

/-- The element with a property whose value is not known yet. -/
def await (element : OpenElement) (name : Text) : OpenElement :=
  { element.settle with pending := some name }

/-- The element with an open region. -/
def within (element : OpenElement) (region : OpenRegion) : OpenElement :=
  { element with region := some region }

variable {element : OpenElement} {name : Text}

theorem addProperties_append (first second : List (Property Element)) :
    (element.addProperties first).addProperties second =
      element.addProperties (first ++ second) := by
  simp [addProperties, Array.append_assoc]

theorem addProperties_nil : element.addProperties [] = element := by
  simp [addProperties]

/-- A value, or that there is none, completes the property that waits for it. -/
theorem addProperty_await (value : Option (PropertyValue Element)) :
    (element.await name).addProperty name value =
      element.settle.addProperties [{ name, value }] := by
  have idle := element.settle_pending
  generalize equal : element.settle = settled at idle
  simp [await, equal, addProperty, addProperties, ← idle]

theorem settle_await :
    (element.await name).settle = element.settle.addProperties [{ name, value := none }] := by
  rw [← addProperty_await]
  rfl

theorem region_await (outside : element.region = none) :
    (element.await name).region = none := by
  simpa [OpenElement.await] using outside

theorem attach_await (outside : element.region = none) (inner : Element) :
    (element.await name).attach inner =
      element.settle.addProperties [{ name, value := some (.element inner) }] := by
  rw [← addProperty_await]
  simp [attach, await, outside]

theorem addChildren_cons (child : Child Element) (children : List (Child Element)) :
    (element.addChild child).addChildren children = element.addChildren (child :: children) := by
  simp [addChildren, addChild]

theorem addChildren_nil (element : OpenElement) : element.addChildren [] = element := by
  simp [addChildren]

end OpenElement

def OpenRegion.addParts (region : OpenRegion) (parts : List (Part Element)) : OpenRegion :=
  { region with parts := region.parts ++ parts.toArray }

theorem OpenRegion.push_eq_addParts (region : OpenRegion) (part : Part Element) :
    { region with parts := region.parts.push part } = region.addParts [part] := by
  simp [addParts]

theorem OpenRegion.addParts_append {region : OpenRegion} (first second : List (Part Element)) :
    (region.addParts first).addParts second = region.addParts (first ++ second) := by
  simp [addParts, Array.append_assoc]

namespace Markup

open Stage (Reaches)
open TreeBuilder (innerDepth)

variable {role : Role}

/-! ## Names and code in tokens -/

section Texts

variable {name : Text}

theorem not_mem_tagName {character : Char} (named : isTagName name)
    (excluded : isTagCharacter character = false) : character ∉ name := by
  intro member
  exact ne_of_class (isTagCharacter_of_isTagName named character member) excluded rfl

theorem tagName_start (named : isTagName name) : tagName ('<' :: name) = name := by
  have slash : '/' ∉ name := not_mem_tagName named (by decide)
  have bracket : '>' ∉ name := not_mem_tagName named (by decide)
  rw [tagName, List.erase_cons_head, List.erase_of_not_mem slash, List.erase_of_not_mem bracket]

theorem tagName_bracket (named : isTagName name) : tagName ('<' :: (name ++ ['>'])) = name := by
  have slash : '/' ∉ name ++ ['>'] := by simpa using not_mem_tagName named (by decide)
  have bracket : '>' ∉ name := not_mem_tagName named (by decide)
  rw [tagName, List.erase_cons_head, List.erase_of_not_mem slash,
    List.erase_append_right _ bracket, List.erase_cons_head, List.append_nil]

theorem tagName_end (named : isTagName name) :
    tagName ('<' :: '/' :: (name ++ ['>'])) = name := by
  have bracket : '>' ∉ name := not_mem_tagName named (by decide)
  rw [tagName, List.erase_cons_head, List.erase_cons_head, List.erase_append_right _ bracket,
    List.erase_cons_head, List.append_nil]

theorem tagName_openTag (named : isTagName name) (properties : Markup .properties) :
    tagName (openTag name properties) = name := by
  cases properties with
  | noProperties => exact tagName_bracket named
  | _ => exact tagName_start named

theorem elementName_eq {fragment : Text} {token : Token} (named : isTagName name)
    (tagged : tagName token.text = name) : elementName fragment token = name := by
  rw [elementName, tagged]
  cases name with
  | nil => cases named
  | cons first others => rfl

/-- Code without braces has none to strip. -/
theorem stripBraces_trim {code : Text} (inside : isCode code) :
    stripBraces code.trim = code.trim := by
  simp only [isCode, List.all_eq_true, Bool.and_eq_true, decide_eq_true_eq] at inside
  have members : ∀ character ∈ code.trim, character ∈ code := by
    intro character member
    simp only [Text.trim, Text.trimEnd, Text.trimStart, List.mem_reverse] at member
    exact List.dropWhile_subset _ (List.mem_reverse.mp (List.dropWhile_subset _ member))
  have opening : code.trim.head? ≠ some '{' := by
    intro head
    exact (inside _ (members _ (List.mem_of_mem_head? head))).1.2 rfl
  have closing : code.trim.getLast? ≠ some '}' := by
    intro last
    exact (inside _ (members _ (List.mem_of_mem_getLast? last))).2 rfl
  rw [stripBraces, if_neg opening, if_neg closing]

end Texts

/-! ## What building a piece means -/

/-- What the properties of a tag leave of the open element: the last of them may still wait. -/
structure Gains (element after : OpenElement) (properties : List (Property Element)) : Prop where
  outside : after.region = none
  settled : after.settle = element.settle.addProperties properties

/-- What it is for a builder to take up the tokens of a piece of markup wherever it may stand. -/
def Builds : {role : Role} → Markup role → Prop
  | .element, element => ∀ ⦃input body stack calls offset⦄,
      calls + element.pieces ≤ input.ceiling →
      Reaches input (element.tokens offset) { body, stack, calls }
        (Stage.receive { body, stack, calls := calls + element.pieces }
          (element.tree (innerDepth stack) offset))
  | .properties, properties => ∀ ⦃input body element outer calls offset⦄,
      calls + properties.pieces ≤ input.ceiling → element.region = none →
      ∃ after, Gains element after (properties.tree element.depth offset) ∧
        (properties.endsBare element.pending.isSome = false → after.pending = none) ∧
        Reaches input (properties.tokens offset) { body, stack := element :: outer, calls }
          { body, stack := after :: outer, calls := calls + properties.pieces }
  | .children, children => ∀ ⦃input body element outer calls offset⦄,
      calls + children.pieces ≤ input.ceiling → element.region = none →
      element.pending = none →
      Reaches input (children.tokens offset) { body, stack := element :: outer, calls }
        { body
          stack := element.addChildren (children.tree element.depth offset) :: outer
          calls := calls + children.pieces }
  | .parts, parts => ∀ ⦃input body element region outer calls offset⦄,
      calls + parts.pieces ≤ input.ceiling → element.region = some region →
      Reaches input (parts.tokens offset) { body, stack := element :: outer, calls }
        { body
          stack := element.attachRegion
            (region.addParts (parts.tree region.depth offset)) :: outer
          calls := calls + parts.pieces }
  | .script, script => ∀ ⦃input body calls offset⦄,
      calls + script.pieces ≤ input.ceiling →
      Reaches input (script.tokens offset) { body, stack := [], calls }
        { body := body ++ (script.tree 0 offset).toArray
          stack := []
          calls := calls + script.pieces }

/-! ## Properties -/

section Properties

variable {element middle after : OpenElement} {name : Text} {others : Markup .properties}

theorem Gains.cons {property : Property Element} {properties : List (Property Element)}
    (first : middle.settle = element.settle.addProperties [property])
    (gains : Gains middle after properties) : Gains element after (property :: properties) := by
  refine ⟨gains.outside, ?_⟩
  rw [gains.settled, first, OpenElement.addProperties_append]
  rfl

theorem builds_noProperties : Builds .noProperties := by
  intro input body element outer calls offset room outside
  refine ⟨element, ⟨outside, ?_⟩, ?_, Reaches.refl _⟩
  · exact OpenElement.addProperties_nil.symm
  · intro valued
    simpa [endsBare] using valued

theorem builds_bare (built : others.Builds) : Builds (.bare name others) := by
  intro input body element outer calls offset room outside
  have waits : (element.await name).region = none := OpenElement.region_await outside
  rcases @built input body _ outer calls (offset + 1 + name.length) room waits with
    ⟨after, gains, idle, reaches⟩
  have depth : (element.await name).depth = element.depth := element.settle_depth
  rw [depth] at gains
  exact ⟨after, gains.cons OpenElement.settle_await, idle,
    (Stage.reaches_take (.name outside rfl)).cons reaches⟩

/-- A property with a value: its name, the tokens of the value, and the properties after it. -/
theorem builds_valued {input : TreeInput} {body : Array Node} {outer : List OpenElement}
    {calls reached : Nat} {tokens : List Token} {value : PropertyValue Element}
    (built : others.Builds) (outside : element.region = none)
    (room : reached + others.pieces ≤ input.ceiling)
    (reaches : Reaches input tokens { body, stack := element.await name :: outer, calls }
      { body
        stack := element.settle.addProperties [{ name, value := some value }] :: outer
        calls := reached })
    (offset next : Nat) :
    ∃ after, Gains element after ({ name, value := some value } ::
        others.tree element.depth next) ∧
      (others.endsBare false = false → after.pending = none) ∧
      Reaches input
        ({ kind := .propertyName, text := name, offset } :: (tokens ++ others.tokens next))
        { body, stack := element :: outer, calls }
        { body, stack := after :: outer, calls := reached + others.pieces } := by
  let middle := element.settle.addProperties [{ name, value := some value }]
  have idle : middle.pending = none := element.settle_pending
  have outsideMiddle : middle.region = none := by
    rwa [← element.settle_region] at outside
  have depth : middle.depth = element.depth := element.settle_depth
  rcases @built input body middle outer reached next room outsideMiddle with
    ⟨after, gains, idleAfter, reachesAfter⟩
  rw [depth] at gains
  rw [idle] at idleAfter
  exact ⟨after, gains.cons (OpenElement.settle_of_pending_eq_none idle), idleAfter,
    (Stage.reaches_take (.name outside rfl)).cons (reaches.append reachesAfter)⟩

theorem reaches_value {input : TreeInput} {body : Array Node} {outer : List OpenElement}
    {calls offset : Nat} {text : Text} (outside : element.region = none) :
    Reaches input [{ kind := .propertyValue, text, offset }]
      { body, stack := element.await name :: outer, calls }
      { body
        stack := element.settle.addProperties
          [{ name, value := some (.code { text, offset, depth := element.depth }) }] :: outer
        calls } := by
  apply (Stage.reaches_take (.value (OpenElement.region_await outside) rfl rfl)).congr rfl
  have depth : (element.await name).depth = element.depth := element.settle_depth
  rw [OpenElement.addProperty_await, Token.toCode, depth]

theorem builds_quoted {value : Text} (built : others.Builds) :
    Builds (.quoted name value others) := by
  intro input body element outer calls offset room outside
  let start := offset + 1 + name.length + 2
  exact builds_valued built outside room (reaches_value outside) (offset + 1)
    (start + value.length + 1)

theorem builds_braced {code : Text} (built : others.Builds) :
    Builds (.braced name code others) := by
  intro input body element outer calls offset room outside
  let start := offset + 1 + name.length + 2
  exact builds_valued built outside room (reaches_value outside) (offset + 1)
    (start + code.length + 1)

theorem builds_nested {value : Markup .element} (builtValue : value.Builds)
    (built : others.Builds) : Builds (.nested name value others) := by
  intro input body element outer calls offset room outside
  let start := offset + 1 + name.length + 2
  rw [pieces] at room
  have reached : Reaches input (value.tokens start)
      { body, stack := element.await name :: outer, calls }
      { body
        stack := element.settle.addProperties
          [{ name, value := some (.element (value.tree (element.depth + 1) start)) }] :: outer
        calls := calls + value.pieces } := by
    have depth : innerDepth (element.await name :: outer) = element.depth + 1 := by
      simp [innerDepth, OpenElement.await, outside]
    apply (builtValue (by omega)).congr rfl
    rw [depth, Stage.receive_cons, OpenElement.attach_await outside]
  have valued := builds_valued built outside (by omega) reached (offset + 1)
    (start + value.length + 1)
  rw [Nat.add_assoc calls] at valued
  exact valued

end Properties

/-! ## Elements -/

section Elements

variable {name : Text} {properties : Markup .properties} {children : Markup .children}
  {blanks : Text}

/-- The element that is open right after its start. -/
def opened (name : Text) (depth offset : Nat) : OpenElement :=
  { name, depth, offset }

theorem reaches_opened {input : TreeInput} {body : Array Node} {stack : List OpenElement}
    {calls offset : Nat} {text : Text} (named : isTagName name) (tagged : tagName text = name)
    (room : calls < input.ceiling) :
    Reaches input [{ kind := .elementStart, text, offset }] { body, stack, calls }
      { body, stack := opened name (innerDepth stack) offset :: stack, calls := calls + 1 } := by
  apply (Stage.reaches_start rfl room).congr rfl
  rw [elementName_eq named tagged]
  rfl

section Gained

variable {element after : OpenElement} {gained : List (Property Element)}

theorem Gains.name_eq (gains : Gains element after gained) : after.name = element.name := by
  rw [← after.settle_name, gains.settled]
  exact element.settle_name

theorem Gains.depth_eq (gains : Gains element after gained) : after.depth = element.depth := by
  rw [← after.settle_depth, gains.settled]
  exact element.settle_depth

/-- An element closes with the properties that it gained. -/
theorem Gains.close_eq {depth offset : Nat} (gains : Gains (opened name depth offset) after gained)
    (children : List (Child Element)) :
    (after.settle.addChildren children).close =
      { name, isComponent := isComponentName name, properties := gained, children, depth
        offset } := by
  have settled : (opened name depth offset).settle = opened name depth offset := rfl
  rw [gains.settled, settled]
  simp [opened, OpenElement.addProperties, OpenElement.addChildren, OpenElement.close]

end Gained

theorem builds_selfClosing (named : isTagName name) (built : properties.Builds) :
    Builds (.selfClosing name properties) := by
  intro input body stack calls offset room
  rw [pieces, ← Nat.add_assoc] at room
  have opens := @reaches_opened name input body stack calls offset _ named
    (tagName_start named) (by omega)
  rcases @built input body (opened name (innerDepth stack) offset) stack (calls + 1)
    (offset + 1 + name.length) room rfl with ⟨after, gains, -, gained⟩
  have closes := @Stage.reaches_close input body after stack (calls + 1 + properties.pieces)
    { kind := .elementEnd, text := ['/', '>']
      offset := offset + 1 + name.length + properties.length }
    gains.outside ⟨rfl, Or.inl rfl⟩
  apply (opens.cons (gained.append closes)).congr rfl
  rw [← after.settle.addChildren_nil, gains.close_eq, Nat.add_assoc calls]
  rfl

theorem builds_paired (named : isTagName name) (valued : properties.endsBare false = false)
    (builtProperties : properties.Builds) (builtChildren : children.Builds) :
    Builds (.paired name properties children blanks) := by
  intro input body stack calls offset room
  rw [pieces, ← Nat.add_assoc, ← Nat.add_assoc] at room
  have opens := @reaches_opened name input body stack calls offset _ named
    (tagName_openTag named properties) (by omega)
  rcases @builtProperties input body (opened name (innerDepth stack) offset) stack (calls + 1)
    (offset + 1 + name.length) (by omega) rfl with ⟨after, gains, idle, gained⟩
  have idle : after.pending = none := idle valued
  have settled := OpenElement.settle_of_pending_eq_none idle
  let between := offset + 1 + name.length + properties.length + 1
  have filled := @builtChildren input body after stack (calls + 1 + properties.pieces) between
    room gains.outside idle
  have closes := @Stage.reaches_close input body
    (after.addChildren (children.tree after.depth between)) stack
    (calls + 1 + properties.pieces + children.pieces)
    { kind := .elementEnd, text := '<' :: '/' :: (name ++ ['>'])
      offset := between + children.length + blanks.length }
    gains.outside ⟨rfl, Or.inr ((tagName_end named).trans gains.name_eq.symm)⟩
  apply (opens.cons (gained.append (filled.append closes))).congr rfl
  have settledAll : (after.addChildren (children.tree after.depth between)).settle =
      after.settle.addChildren (children.tree after.depth between) := by
    rw [settled]
    exact OpenElement.settle_of_pending_eq_none idle
  rw [settledAll, gains.close_eq, gains.depth_eq, Nat.add_assoc calls, Nat.add_assoc calls]
  rfl

end Elements

/-! ## Children -/

section Children

variable {others : Markup .children}

theorem builds_noChildren : Builds .noChildren := by
  intro input body element outer calls offset room outside idle
  apply (Reaches.refl _).congr rfl
  rw [tree, OpenElement.addChildren_nil]
  rfl

/-- A child and the children after it. -/
theorem builds_first {input : TreeInput} {body : Array Node} {element : OpenElement}
    {outer : List OpenElement} {calls reached next : Nat} {tokens : List Token}
    {child : Child Element} (built : others.Builds) (outside : element.region = none)
    (idle : element.pending = none) (room : reached + others.pieces ≤ input.ceiling)
    (reaches : Reaches input tokens { body, stack := element :: outer, calls }
      { body, stack := element.addChild child :: outer, calls := reached }) :
    Reaches input (tokens ++ others.tokens next) { body, stack := element :: outer, calls }
      { body
        stack := element.addChildren (child :: others.tree element.depth next) :: outer
        calls := reached + others.pieces } := by
  have after := @built input body (element.addChild child) outer reached next room outside idle
  apply (reaches.append after).congr rfl
  rw [OpenElement.addChildren_cons]
  rfl

/-- A token that stands for a child settles the property that waits, if one does. -/
theorem reaches_child {input : TreeInput} {body : Array Node} {element : OpenElement}
    {outer : List OpenElement} {calls : Nat} {token : Token} {child : Child Element}
    (outside : element.region = none) (kind : token.kind.isChild)
    (stands : token.child? = some child) :
    Reaches input [token] { body, stack := element :: outer, calls }
      { body, stack := element.settle.addChild child :: outer, calls } := by
  apply (Stage.reaches_take (.child outside kind)).congr rfl
  rw [OpenElement.addChild?, stands]

theorem isChild_textToken (offset : Nat) (content : Text) :
    (textToken offset content).kind.isChild := by
  cases whitespace : content.isAllWhitespace <;> simp [textToken, whitespace, Token.Kind.isChild]

theorem child?_textToken (offset : Nat) (content : Text) :
    (textToken offset content).child? = some (textChild content) := by
  cases whitespace : content.isAllWhitespace <;>
    simp [textToken, textChild, Token.child?, whitespace]

theorem child?_code {code : Text} {offset : Nat} (inside : isCode code)
    (solid : code.isAllWhitespace = false) :
    Token.child? { kind := .childCode, text := code, offset } = some (.code code.trim) := by
  have nonempty : code.trim ≠ [] := by
    rw [ne_eq, Text.trim_eq_nil_iff, solid]
    exact Bool.false_ne_true
  simp [Token.child?, stripBraces_trim inside, nonempty]

theorem builds_text {content : Text} (built : others.Builds) : Builds (.text content others) := by
  intro input body element outer calls offset room outside idle
  have reaches := @reaches_child input body element outer calls _ _ outside
    (isChild_textToken offset content) (child?_textToken offset content)
  rw [OpenElement.settle_of_pending_eq_none idle] at reaches
  exact builds_first built outside idle room reaches

theorem builds_bracedCode {code : Text} (inside : isCode code)
    (solid : code.isAllWhitespace = false) (built : others.Builds) :
    Builds (.bracedCode code others) := by
  intro input body element outer calls offset room outside idle
  have reaches := @reaches_child input body element outer calls
    { kind := .childCode, text := code, offset := offset + 1 } _ outside rfl
    (child?_code inside solid)
  rw [OpenElement.settle_of_pending_eq_none idle] at reaches
  exact builds_first built outside idle room reaches

theorem builds_child {inner : Markup .element} (builtInner : inner.Builds)
    (built : others.Builds) : Builds (.child inner others) := by
  intro input body element outer calls offset room outside idle
  rw [pieces] at room
  have depth : innerDepth (element :: outer) = element.depth + 1 := by
    simp [innerDepth, outside]
  have attached (child : Element) : element.attach child = element.addChild (.element child) := by
    simp [OpenElement.attach, outside, idle]
  have reaches := @builtInner input body (element :: outer) calls offset (by omega)
  rw [depth, Stage.receive_cons, attached] at reaches
  apply (builds_first built outside idle (by omega) reaches).congr rfl
  rw [Nat.add_assoc]
  rfl

end Children

/-! ## Regions -/

section Regions

variable {input : TreeInput} {body : Array Node} {element : OpenElement} {region : OpenRegion}
  {outer : List OpenElement} {calls offset : Nat} {inner : Markup .element} {code : Text}

theorem reaches_regionElement (built : inner.Builds) (inside : element.region = some region)
    (room : calls + inner.pieces ≤ input.ceiling) :
    Reaches input (inner.tokens offset) { body, stack := element :: outer, calls }
      { body
        stack := element.within
          (region.addParts [.element (inner.tree (region.depth + 1) offset)]) :: outer
        calls := calls + inner.pieces } := by
  have depth : innerDepth (element :: outer) = region.depth + 1 := by
    simp [innerDepth, inside]
  apply (@built input body (element :: outer) calls offset room).congr rfl
  rw [depth, Stage.receive_cons, OpenElement.attach, inside]
  simp [OpenRegion.addParts, OpenElement.within]

theorem reaches_regionCode (inside : element.region = some region) :
    Reaches input (codeTokens offset code) { body, stack := element :: outer, calls }
      { body
        stack := element.within
          (region.addParts (regionCode { text := code, offset, depth := region.depth })) :: outer
        calls } := by
  rw [codeTokens, regionCode]
  cases empty : code.isEmpty with
  | true =>
      apply (Reaches.refl _).congr rfl
      simp [OpenRegion.addParts, OpenElement.within, ← inside]
  | false =>
      apply (Stage.reaches_take (.part inside rfl)).congr rfl
      simp [OpenRegion.addParts, OpenElement.within, Token.toCode]

theorem builds_lastPart (built : inner.Builds) : Builds (.lastPart inner code) := by
  intro input body element region outer calls offset room inside
  let first := region.addParts [.element (inner.tree (region.depth + 1) offset)]
  have starts := @reaches_regionElement input body element region outer calls offset inner built
    inside room
  have ends := @Stage.reaches_take input body (element.within first) _ outer
    (calls + inner.pieces)
    { kind := .fragmentEnd, text := code, offset := offset + inner.length }
    (.regionEnd rfl rfl)
  apply (starts.append ends).congr rfl
  rw [OpenRegion.push_eq_addParts, OpenRegion.addParts_append]
  rfl

theorem builds_part {others : Markup .parts} (builtInner : inner.Builds) (built : others.Builds) :
    Builds (.part inner code others) := by
  intro input body element region outer calls offset room inside
  rw [pieces] at room
  let start := offset + inner.length
  let first := region.addParts [.element (inner.tree (region.depth + 1) offset)]
  let second := first.addParts (regionCode { text := code, offset := start, depth := region.depth })
  have starts := @reaches_regionElement input body element region outer calls offset inner
    builtInner inside (by omega)
  have continues := @reaches_regionCode input body (element.within first) first outer
    (calls + inner.pieces) start code rfl
  have ends := @built input body (element.within second) second outer (calls + inner.pieces)
    (start + code.length) (by omega) rfl
  apply (starts.append (continues.append ends)).congr rfl
  have complete : second.addParts (others.tree region.depth (start + code.length)) =
      region.addParts ((part inner code others).tree region.depth offset) := by
    rw [OpenRegion.addParts_append, OpenRegion.addParts_append]
    rfl
  rw [← complete, pieces, ← Nat.add_assoc calls]
  rfl

/-- A whole region, from its opening to its end. -/
theorem reaches_region {parts : Markup .parts} {token : Token} (built : parts.Builds)
    (outside : element.region = none) (kind : token.kind = .fragmentStart)
    (opens : (element.openRegion token).region = some region)
    (room : calls + 1 + parts.pieces ≤ input.ceiling) :
    Reaches input (token :: parts.tokens offset) { body, stack := element :: outer, calls }
      { body
        stack := (element.openRegion token).attachRegion
          (region.addParts (parts.tree region.depth offset)) :: outer
        calls := calls + 1 + parts.pieces } :=
  (Stage.reaches_region outside kind (by omega)).cons (built room opens)

/-- The region that a token opens where no property waits. -/
def childRegion (token : Token) (depth : Nat) : OpenRegion :=
  { property := none, parts := #[.code (token.toCode depth)], depth, offset := token.offset }

theorem attachRegion_childRegion {token : Token} (outside : element.region = none)
    (idle : element.pending = none) (parts : List (Part Element)) :
    (element.openRegion token).attachRegion
        ((childRegion token element.depth).addParts parts) =
      element.addChild (.expression (.code (token.toCode element.depth) :: parts)) := by
  rcases element with ⟨name, depth, offset, properties, children, pending, region⟩
  cases outside
  cases idle
  simp [OpenElement.openRegion, OpenElement.attachRegion, OpenElement.addChild, childRegion,
    OpenRegion.addParts]

theorem builds_region {parts : Markup .parts} {others : Markup .children}
    (builtParts : parts.Builds) (built : others.Builds) : Builds (.region code parts others) := by
  intro input body element outer calls offset room outside idle
  rw [pieces, ← Nat.add_assoc, ← Nat.add_assoc] at room
  let token : Token := { kind := .fragmentStart, text := code, offset := offset + 1 }
  have opens : (element.openRegion token).region = some (childRegion token element.depth) := by
    simp [OpenElement.openRegion, idle, childRegion]
  have reaches := @reaches_region input body element _ outer calls (offset + 1 + code.length)
    parts token builtParts outside rfl opens (by omega)
  rw [attachRegion_childRegion outside idle] at reaches
  apply (builds_first built outside idle room reaches).congr rfl
  rw [Nat.add_assoc calls, Nat.add_assoc calls]
  rfl

end Regions

/-! ## Scripts -/

section Scripts

variable {others : Markup .script}

theorem builds_noScript : Builds .noScript := by
  intro input body calls offset room
  apply (Reaches.refl _).congr rfl
  rw [tree]
  rfl

theorem builds_plain {code : Text} (built : others.Builds) : Builds (.plain code others) := by
  intro input body calls offset room
  rw [pieces, ← Nat.add_assoc] at room
  have first := @Stage.reaches_code input body calls { kind := .code, text := code, offset } rfl
    (by omega)
  apply (first.cons (built room)).congr rfl
  simp [tree, pieces, Token.toCode, Nat.add_assoc]

theorem builds_markup {inner : Markup .element} (builtInner : inner.Builds)
    (built : others.Builds) : Builds (.markup inner others) := by
  intro input body calls offset room
  rw [pieces, ← Nat.add_assoc] at room
  have first := @builtInner input body [] calls offset (by omega)
  rw [Stage.receive_nil] at first
  apply (first.append (built room)).congr rfl
  simp [tree, pieces, innerDepth, Nat.add_assoc]

end Scripts

/-- A builder takes up the tokens of every well-formed piece of markup, wherever the piece may
stand. -/
theorem builds (markup : Markup role) (formed : markup.wellFormed) : markup.Builds := by
  induction markup with
  | selfClosing name properties induction =>
      simp only [wellFormed, Bool.and_eq_true] at formed
      exact builds_selfClosing formed.1 (induction formed.2)
  | paired name properties children blanks inProperties inChildren =>
      simp only [wellFormed, Bool.and_eq_true, Bool.not_eq_true'] at formed
      exact builds_paired formed.1.1.1.1 formed.1.1.2 (inProperties formed.1.1.1.2)
        (inChildren formed.1.2)
  | noProperties => exact builds_noProperties
  | bare name others induction =>
      simp only [wellFormed, Bool.and_eq_true] at formed
      exact builds_bare (induction formed.2)
  | quoted name value others induction =>
      simp only [wellFormed, Bool.and_eq_true] at formed
      exact builds_quoted (induction formed.2)
  | braced name code others induction =>
      simp only [wellFormed, Bool.and_eq_true] at formed
      exact builds_braced (induction formed.2)
  | nested name value others inValue induction =>
      simp only [wellFormed, Bool.and_eq_true] at formed
      exact builds_nested (inValue formed.1.2) (induction formed.2)
  | noChildren => exact builds_noChildren
  | text content others induction =>
      simp only [wellFormed, Bool.and_eq_true] at formed
      exact builds_text (induction formed.2)
  | bracedCode code others induction =>
      simp only [wellFormed, Bool.and_eq_true, Bool.not_eq_true'] at formed
      exact builds_bracedCode formed.1.1 formed.1.2 (induction formed.2)
  | child element others inElement induction =>
      simp only [wellFormed, Bool.and_eq_true] at formed
      exact builds_child (inElement formed.1) (induction formed.2)
  | region first parts others inParts induction =>
      simp only [wellFormed, Bool.and_eq_true] at formed
      exact builds_region (inParts formed.1.2) (induction formed.2)
  | lastPart element code induction =>
      simp only [wellFormed, Bool.and_eq_true] at formed
      exact builds_lastPart (induction formed.1)
  | part element code others inElement induction =>
      simp only [wellFormed, Bool.and_eq_true] at formed
      exact builds_part (inElement formed.1.1) (induction formed.2)
  | noScript => exact builds_noScript
  | plain code others induction =>
      simp only [wellFormed, Bool.and_eq_true] at formed
      exact builds_plain (induction formed.2)
  | markup element others inElement induction =>
      simp only [wellFormed, Bool.and_eq_true] at formed
      exact builds_markup (inElement formed.1) (induction formed.2)

end Markup

end ElementScript
