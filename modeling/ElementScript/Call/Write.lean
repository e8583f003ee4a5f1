import ElementScript.Call.Layout
import ElementScript.Tree.Fold

/-!
Writing elements as factory calls.

The text of an element is defined by recursion: `Element.call` puts the call of each nested element
where that element stands. Elements of properties and of braced regions are written inline, and
elements that are children themselves start a line.

A program writes an element without recursion (`writeElement`): a stack of drafts holds the elements
whose nested elements are still being written, and a finished call is handed to the draft below it.
Each draft then takes the calls handed to it in document order.
-/

namespace ElementScript

/-! ## By recursion -/

/-- The calls of a child's nested elements, each written the way its place asks for. -/
def Child.written : Child (Bool → Text) → Child Text
  | .text content => .text content
  | .code content => .code content
  | .whitespace content => .whitespace content
  | .element write => .element (write false)
  | .expression parts => .expression (parts.map (Part.map (· true)))

/-- The call that an element becomes, inline or on a line of its own. -/
def Element.call (factory : Text) (element : Element) : Bool → Text :=
  element.fold fun element properties children inline =>
    Call.compose factory element inline (properties.map (Property.map (· true)))
      (children.map Child.written)

namespace Call

/-! ## By a stack of drafts -/

/-- The nested elements of a child, each with whether it is written inline. -/
def childTasks : Child Element → List (Element × Bool)
  | .text _ | .code _ | .whitespace _ => []
  | .element element => [(element, false)]
  | .expression parts => (parts.flatMap Part.elements).map (·, true)

/-- The nested elements of an element in document order, each with whether it is written inline. -/
def tasks (element : Element) : List (Element × Bool) :=
  (element.properties.flatMap Property.elements).map (·, true) ++
    element.children.flatMap childTasks

/-- An element whose nested elements are being written. -/
structure Draft where
  element : Element
  inline : Bool
  /-- The nested elements that are not written yet. -/
  remaining : List (Element × Bool)
  /-- The calls of those that are. -/
  written : Array Text

def Draft.start (element : Element) (inline : Bool) : Draft :=
  { element, inline, remaining := tasks element, written := #[] }

/-! ### Putting the written calls in place

Each of these functions takes calls from the front of a list and returns what is left of it. -/

def fillParts : List (Part Element) → List Text → List (Part Text) × List Text
  | [], calls => ([], calls)
  | .code code :: parts, calls =>
      let (filled, left) := fillParts parts calls
      (.code code :: filled, left)
  | .element _ :: parts, calls =>
      let (filled, left) := fillParts parts calls.tail
      (.element (calls.headD []) :: filled, left)

def fillValue : Option (PropertyValue Element) → List Text →
    Option (PropertyValue Text) × List Text
  | none, calls => (none, calls)
  | some (.code code), calls => (some (.code code), calls)
  | some (.element _), calls => (some (.element (calls.headD [])), calls.tail)
  | some (.fragment parts), calls =>
      let (filled, left) := fillParts parts calls
      (some (.fragment filled), left)

def fillProperties : List (Property Element) → List Text → List (Property Text) × List Text
  | [], calls => ([], calls)
  | property :: properties, calls =>
      let (value, afterValue) := fillValue property.value calls
      let (filled, left) := fillProperties properties afterValue
      ({ name := property.name, value } :: filled, left)

def fillChild : Child Element → List Text → Child Text × List Text
  | .text content, calls => (.text content, calls)
  | .code content, calls => (.code content, calls)
  | .whitespace content, calls => (.whitespace content, calls)
  | .element _, calls => (.element (calls.headD []), calls.tail)
  | .expression parts, calls =>
      let (filled, left) := fillParts parts calls
      (.expression filled, left)

def fillChildren : List (Child Element) → List Text → List (Child Text) × List Text
  | [], calls => ([], calls)
  | child :: children, calls =>
      let (first, afterFirst) := fillChild child calls
      let (filled, left) := fillChildren children afterFirst
      (first :: filled, left)

/-- The call of a draft's element. -/
def Draft.finish (factory : Text) (draft : Draft) : Text :=
  let (properties, left) := fillProperties draft.element.properties draft.written.toList
  let (children, _) := fillChildren draft.element.children left
  compose factory draft.element draft.inline properties children

/-! ### Termination

A draft costs one step to finish and two for each element that is still to be written in it, one to
start that element and one to finish it. -/

def Draft.cost (draft : Draft) : Nat :=
  1 + 2 * Element.total (draft.remaining.map (·.1.weight))

theorem map_fst_childTasks (child : Child Element) :
    (childTasks child).map (·.1) = child.elements := by
  cases child with
  | text content => rfl
  | code content => rfl
  | whitespace content => rfl
  | element element => rfl
  | expression parts => simp [childTasks, Child.elements, Function.comp_def]

theorem map_fst_tasks (element : Element) : (tasks element).map (·.1) = element.nested := by
  simp [tasks, Element.nested, List.map_flatMap, map_fst_childTasks, Function.comp_def]

theorem Draft.cost_start (element : Element) (inline : Bool) :
    (Draft.start element inline).cost + 1 = 2 * element.weight := by
  have weights : (tasks element).map (·.1.weight) = element.nested.map Element.weight := by
    rw [← map_fst_tasks, List.map_map]
    rfl
  rw [Element.weight_eq]
  simp only [Draft.cost, Draft.start, weights]
  omega

/-- Works off a stack of drafts, innermost first, and returns the call of the outermost one. -/
def writeDrafts (factory : Text) : List Draft → Text
  | [] => []
  | ⟨element, inline, (next, nextInline) :: remaining, written⟩ :: below =>
      writeDrafts factory
        (.start next nextInline :: ⟨element, inline, remaining, written⟩ :: below)
  | ⟨element, inline, [], written⟩ :: below =>
      let call := Draft.finish factory ⟨element, inline, [], written⟩
      match below with
      | [] => call
      | parent :: others =>
          writeDrafts factory ({ parent with written := parent.written.push call } :: others)
termination_by drafts => Element.total (drafts.map Draft.cost)
decreasing_by
  · have started := Draft.cost_start next nextInline
    simp only [List.map_cons, Element.total_cons]
    simp only [Draft.cost, List.map_cons, Element.total_cons] at started ⊢
    omega
  · simp only [List.map_cons, Element.total_cons, Draft.cost]
    omega

/-- The call that an element becomes. -/
def writeElement (factory : Text) (element : Element) (inline : Bool) : Text :=
  writeDrafts factory [.start element inline]

end Call

/-! ## Whole programs -/

/-- How a tree is written: the factory to call, and whether the output starts with a strict-mode
directive. -/
structure WriteOptions where
  factory : Text
  strict : Bool
deriving DecidableEq, Repr

def strictDirective : Text := "\"use strict\";\n".toList

/-- Whether a script has a strict-mode directive, in either kind of quotes. -/
def hasStrictDirective (script : Text) : Bool :=
  Text.holds "\"use strict\"".toList script || Text.holds "'use strict'".toList script

def Node.write (factory : Text) : Node → Text
  | .code piece => piece.text
  | .element root => Call.writeElement factory root false

/-- The script that a tree becomes. -/
def Program.write (options : WriteOptions) (program : Program) : Text :=
  let script := program.body.flatMap (Node.write options.factory)
  if options.strict && !hasStrictDirective script then strictDirective ++ script else script

end ElementScript
