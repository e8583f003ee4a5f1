import ElementScript.Location
import ElementScript.Token.Basic
import ElementScript.Tree.Basic

/-!
Building the tree of a source from its tokens.

The tokens are read once, from left to right, against a stack of open elements. A property name
waits for the token after it: a value completes it, an element start makes that element its value, a
region start makes the region its value, and any other token shows that it has none.

Every place where a token may stand is known from the innermost open element alone, so the first
token out of place is found when it is read.
-/

namespace ElementScript

/-- Why tokens do not form a tree. The index is that of the offending token. -/
inductive TreeError where
  | mismatchedClosingTag (expected found : Text) (index : Nat) (location : Location)
  | unexpectedToken (kind : Token.Kind) (index : Nat) (location : Location)
  /-- A token that cannot stand in a braced region that holds elements. -/
  | unexpectedRegionToken (kind : Token.Kind) (index : Nat) (location : Location)
  /-- A braced region that holds elements and is still open at the end. -/
  | unterminatedRegion (location : Location)
  | unbalancedElements (starts ends : Nat)
  | limitExceeded (limit : Nat)
deriving DecidableEq, Repr

namespace TreeError

def location? : TreeError → Option Location
  | .mismatchedClosingTag _ _ _ location => some location
  | .unexpectedToken _ _ location => some location
  | .unexpectedRegionToken _ _ location => some location
  | .unterminatedRegion location => some location
  | .unbalancedElements _ _ => none
  | .limitExceeded _ => none

def message : TreeError → String
  | .mismatchedClosingTag expected found index location =>
      let place := location.describe
      let foundName := String.ofList found
      let expectedName := String.ofList expected
      let number := index.repr
      s!"Parse error at {place}: closing element `</{foundName}>` does not match " ++
        s!"opening element `<{expectedName}>` (token #{number})"
  | .unexpectedToken kind index location =>
      let place := location.describe
      let word := kind.word
      let number := index.repr
      s!"Parse error at {place}: tokens are out of order, found {word} (token #{number})"
  | .unexpectedRegionToken kind index location =>
      let place := location.describe
      let word := kind.word
      let number := index.repr
      s!"Parse error at {place}: unexpected {word} in a braced expression " ++
        s!"holding elements (token #{number})"
  | .unterminatedRegion location =>
      let place := location.describe
      s!"Parse error at {place}: braced expression containing elements is never closed"
  | .unbalancedElements starts ends =>
      let opened := starts.repr
      let closed := ends.repr
      s!"Parse error: the number of opening elements ({opened}) does not match " ++
        s!"the number of closing elements ({closed})"
  | .limitExceeded limit =>
      let bound := limit.repr
      s!"Parse error: call count exceeded the limit of {bound}; " ++
        "raise `max_recursion_calls` if the source is large but valid"

end TreeError

/-- What a tree is built for: the source, which errors are located in, the name of elements without
one, and the ceiling on the number of pieces. -/
structure TreeInput where
  source : Text
  fragment : Text
  ceiling : Nat
deriving DecidableEq, Repr

/-! ## The state between two tokens -/

/-- A braced region that holds elements, before its end has been read. -/
structure OpenRegion where
  /-- The property that the region is the value of; none if it is a child. -/
  property : Option Text
  parts : Array (Part Element)
  depth : Nat
  /-- The offset of the region's first token. -/
  offset : Nat

/-- An element whose end has not been read. -/
structure OpenElement where
  name : Text
  depth : Nat
  offset : Nat
  properties : Array (Property Element) := #[]
  children : Array (Child Element) := #[]
  /-- A property whose value is not known yet. -/
  pending : Option Text := none
  region : Option OpenRegion := none

structure TreeBuilder where
  index : Nat := 0
  /-- The number of pieces counted against the ceiling. -/
  calls : Nat := 0
  starts : Nat := 0
  ends : Nat := 0
  body : Array Node := #[]
  /-- The open elements, innermost first. -/
  stack : List OpenElement := []

namespace OpenElement

def addProperty (element : OpenElement) (name : Text) (value : Option (PropertyValue Element)) :
    OpenElement :=
  { element with properties := element.properties.push { name, value }, pending := none }

def addChild (element : OpenElement) (child : Child Element) : OpenElement :=
  { element with children := element.children.push child }

/-- Completes a waiting property as one without a value. -/
def settle (element : OpenElement) : OpenElement :=
  match element.pending with
  | some name => element.addProperty name none
  | none => element

def close (element : OpenElement) : Element where
  name := element.name
  isComponent := isComponentName element.name
  properties := element.properties.toList
  children := element.children.toList
  depth := element.depth
  offset := element.offset

/-- Puts a finished element where its parent expects it: in the open region, as the value of the
waiting property, or among the children. -/
def attach (parent : OpenElement) (element : Element) : OpenElement :=
  match parent.region with
  | some region =>
      { parent with region := some { region with parts := region.parts.push (.element element) } }
  | none =>
      match parent.pending with
      | some name => parent.addProperty name (some (.element element))
      | none => parent.addChild (.element element)

def attachRegion (element : OpenElement) (region : OpenRegion) : OpenElement :=
  let closed := { element with region := none }
  match region.property with
  | some name => closed.addProperty name (some (.fragment region.parts.toList))
  | none => closed.addChild (.expression region.parts.toList)

end OpenElement

/-- Braced code without its braces: one at the start and one at the end. -/
def stripBraces (code : Text) : Text :=
  let opened := if code.head? = some '{' then code.drop 1 else code
  if opened.getLast? = some '}' then opened.dropLast else opened

def Token.toCode (token : Token) (depth : Nat) : Code :=
  { text := token.text, offset := token.offset, depth }

namespace TreeBuilder

variable (input : TreeInput)

def locate (token : Token) : Location :=
  .locate input.source token.offset

def enter (builder : TreeBuilder) : Except TreeError TreeBuilder :=
  if input.ceiling < builder.calls + 1 then .error (.limitExceeded input.ceiling)
  else .ok { builder with calls := builder.calls + 1 }

/-! ## Opening and closing -/

def openElement (builder : TreeBuilder) (token : Token) (depth : Nat) :
    Except TreeError TreeBuilder := do
  let entered ← builder.enter input
  let tag := tagName token.text
  let name := if tag.isEmpty then input.fragment else tag
  return { entered with
    starts := entered.starts + 1
    stack := { name, depth, offset := token.offset } :: entered.stack }

/-- Closes the element on top of the stack, whose end a token is. -/
def closeElement (builder : TreeBuilder) (token : Token) (element : OpenElement)
    (outer : List OpenElement) : Except TreeError TreeBuilder :=
  let found := tagName token.text
  if found.isEmpty = false ∧ found ≠ element.name then
    .error (.mismatchedClosingTag element.name found builder.index (locate input token))
  else
    let closed := { builder with ends := builder.ends + 1 }
    match outer with
    | [] => .ok { closed with body := closed.body.push (.element element.close), stack := [] }
    | parent :: above => .ok { closed with stack := parent.attach element.close :: above }

/-- Opens the braced region that a token starts in the element on top of the stack. -/
def openRegion (builder : TreeBuilder) (token : Token) (property : Option Text) (depth : Nat)
    (element : OpenElement) (outer : List OpenElement) : Except TreeError TreeBuilder := do
  let entered ← builder.enter input
  let region : OpenRegion :=
    { property, parts := #[.code (token.toCode depth)], depth, offset := token.offset }
  return { entered with stack := { element with pending := none, region := some region } :: outer }

/-! ## Reading tokens -/

def outsideStep (builder : TreeBuilder) (token : Token) : Except TreeError TreeBuilder :=
  match token.kind with
  | .code => do
      let entered ← builder.enter input
      return { entered with body := entered.body.push (.code (token.toCode 0)) }
  | .elementStart => builder.openElement input token 0
  | kind => .error (.unexpectedToken kind builder.index (locate input token))

/-- Reads a token directly inside an element with no waiting property. -/
def elementStep (builder : TreeBuilder) (token : Token) (element : OpenElement)
    (outer : List OpenElement) : Except TreeError TreeBuilder :=
  let continueWith (next : OpenElement) : Except TreeError TreeBuilder :=
    .ok { builder with stack := next :: outer }
  match token.kind with
  | .elementStart =>
      { builder with stack := element :: outer }.openElement input token (element.depth + 1)
  | .propertyName => continueWith { element with pending := some token.text }
  | .childCode =>
      let code := stripBraces token.text.trim
      continueWith (if code.isEmpty then element else element.addChild (.code code))
  | .childText =>
      continueWith
        (if token.text.isAllWhitespace then element else element.addChild (.text token.text))
  | .childWhitespace => continueWith (element.addChild (.whitespace token.text))
  | .fragmentStart => builder.openRegion input token none element.depth element outer
  | .elementEnd => builder.closeElement input token element outer
  | .code | .propertyValue | .fragmentEnd =>
      .error (.unexpectedToken token.kind builder.index (locate input token))

def pendingStep (builder : TreeBuilder) (token : Token) (name : Text) (element : OpenElement)
    (outer : List OpenElement) : Except TreeError TreeBuilder :=
  match token.kind with
  | .propertyValue | .code =>
      let value := PropertyValue.code (token.toCode element.depth)
      .ok { builder with stack := element.addProperty name (some value) :: outer }
  | .elementStart => builder.openElement input token (element.depth + 1)
  | .fragmentStart =>
      builder.openRegion input token (some name) (element.depth + 1) element outer
  | _ => builder.elementStep input token element.settle outer

/-- Reads a token inside a braced region that holds elements. -/
def regionStep (builder : TreeBuilder) (token : Token) (region : OpenRegion)
    (element : OpenElement) (outer : List OpenElement) : Except TreeError TreeBuilder :=
  let extended := { region with parts := region.parts.push (.code (token.toCode region.depth)) }
  match token.kind with
  | .elementStart => builder.openElement input token (region.depth + 1)
  | .propertyValue | .childCode =>
      .ok { builder with stack := { element with region := some extended } :: outer }
  | .fragmentEnd => .ok { builder with stack := element.attachRegion extended :: outer }
  | kind => .error (.unexpectedRegionToken kind builder.index (locate input token))

def step (builder : TreeBuilder) (token : Token) : Except TreeError TreeBuilder :=
  match builder.stack with
  | [] => builder.outsideStep input token
  | element :: outer =>
      match element.region, element.pending with
      | some region, _ => builder.regionStep input token region element outer
      | none, some name => builder.pendingStep input token name element outer
      | none, none => builder.elementStep input token element outer

/-- The builder with one more token behind it. -/
def advance (builder : TreeBuilder) : TreeBuilder :=
  { builder with index := builder.index + 1 }

def run (builder : TreeBuilder) : List Token → Except TreeError TreeBuilder
  | [] => .ok builder
  | token :: tokens =>
      match builder.step input token with
      | .error error => .error error
      | .ok next => run next.advance tokens

/-- The tree of a builder that has read all tokens, if nothing is left open. -/
def finish (builder : TreeBuilder) : Except TreeError Program :=
  match builder.stack.findSome? (·.region) with
  | some region => .error (.unterminatedRegion (.locate input.source region.offset))
  | none =>
      if builder.starts ≠ builder.ends then
        .error (.unbalancedElements builder.starts builder.ends)
      else .ok { body := builder.body.toList }

end TreeBuilder

/-- The tree that a sequence of tokens forms. -/
def Program.ofTokens (input : TreeInput) (tokens : List Token) : Except TreeError Program :=
  match ({} : TreeBuilder).run input tokens with
  | .error error => .error error
  | .ok builder => builder.finish input

end ElementScript
