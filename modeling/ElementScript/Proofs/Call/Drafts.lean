import Mathlib.Logic.Relation
import ElementScript.Call.Write

/-! # Writing with a stack of drafts is writing by recursion

`Call.writeElement` works off a stack of drafts, and `Element.call` is defined by recursion. Both
give the same text. What carries the proof is the state of the stack between two steps: the calls
handed to a draft are those of its first tasks, one for one, and each draft below the innermost one
waits for the call of the draft above it (`Consistent`).

The tasks of an element are collected in one order and the calls are put in place in another
function, with an empty text where a call should be missing. `Draft.filled_of_holds` says that the
two orders agree: a finished draft puts every call that was handed to it in the place of its
element, none is missing and none is left over.
-/

namespace ElementScript

/-! ## The recursive definition -/

/-- A child with the calls of the elements in it: inline in a braced region, on a line of its own
otherwise. -/
def Child.withCalls (factory : Text) : Child Element → Child Text
  | .text content => .text content
  | .code content => .code content
  | .whitespace content => .whitespace content
  | .element inner => .element (inner.call factory false)
  | .expression parts => .expression (parts.map (Part.map (·.call factory true)))

theorem Child.written_map_call (factory : Text) (child : Child Element) :
    (child.map (Element.call factory)).written = child.withCalls factory := by
  cases child with
  | text content => rfl
  | code content => rfl
  | whitespace content => rfl
  | element element => rfl
  | expression parts =>
      simp only [Child.map, Child.written, Child.withCalls, List.map_map, Child.expression.injEq]
      refine List.map_congr_left fun part _ => ?_
      cases part <;> rfl

/-- The call of an element has the call of every nested element where that element stands. -/
theorem Element.call_eq (factory : Text) (element : Element) (inline : Bool) :
    element.call factory inline =
      Call.compose factory element inline
        (element.properties.map (Property.map (·.call factory true)))
        (element.children.map (Child.withCalls factory)) := by
  have properties : (element.properties.map (Property.map (Element.call factory))).map
      (Property.map (· true)) = element.properties.map (Property.map (·.call factory true)) := by
    rw [List.map_map]
    refine List.map_congr_left fun property _ => ?_
    rcases property with ⟨name, _ | value⟩
    · rfl
    · cases value with
      | code code => rfl
      | element element => rfl
      | fragment parts =>
          simp only [Function.comp, Property.map, Option.map_some, PropertyValue.map,
            List.map_map, Property.mk.injEq, Option.some.injEq, PropertyValue.fragment.injEq,
            true_and]
          refine List.map_congr_left fun part _ => ?_
          cases part <;> rfl
  have children : (element.children.map (Child.map (Element.call factory))).map Child.written =
      element.children.map (Child.withCalls factory) := by
    rw [List.map_map]
    exact List.map_congr_left fun child _ => child.written_map_call factory
  rw [← properties, ← children]
  exact congrFun (Element.fold_eq _ element) inline

namespace Call

variable {factory : Text}

/-! ## Calls in their places

Each of the functions that put calls in place takes exactly the calls of the elements it meets, and
leaves those after them. -/

/-- The calls of some tasks. -/
def calls (factory : Text) (tasks : List (Element × Bool)) : List Text :=
  tasks.map fun task => task.1.call factory task.2

theorem calls_append (first second : List (Element × Bool)) :
    calls factory (first ++ second) = calls factory first ++ calls factory second :=
  List.map_append

theorem calls_inline (elements : List Element) :
    calls factory (elements.map (·, true)) = elements.map (·.call factory true) := by
  simp [calls, Function.comp_def]

theorem fillParts_calls (parts : List (Part Element)) (write : Element → Text)
    (rest : List Text) :
    fillParts parts ((parts.flatMap Part.elements).map write ++ rest) =
      (parts.map (Part.map write), rest) := by
  induction parts with
  | nil => rfl
  | cons part parts induction =>
      cases part with
      | code code => simp [fillParts, Part.elements, Part.map, induction]
      | element element => simp [fillParts, Part.elements, Part.map, induction]

theorem fillProperties_calls (properties : List (Property Element)) (write : Element → Text)
    (rest : List Text) :
    fillProperties properties ((properties.flatMap Property.elements).map write ++ rest) =
      (properties.map (Property.map write), rest) := by
  induction properties with
  | nil => rfl
  | cons property properties induction =>
      rcases property with ⟨name, _ | value⟩
      · simp [fillProperties, fillValue, Property.elements, Property.map, induction]
      · cases value with
        | code code =>
            simp [fillProperties, fillValue, Property.elements, PropertyValue.elements,
              Property.map, PropertyValue.map, induction]
        | element element =>
            simp [fillProperties, fillValue, Property.elements, PropertyValue.elements,
              Property.map, PropertyValue.map, induction]
        | fragment parts =>
            have filled := fillParts_calls parts write
              ((properties.flatMap Property.elements).map write ++ rest)
            simp [fillProperties, fillValue, Property.elements, PropertyValue.elements,
              Property.map, PropertyValue.map, filled, induction]

theorem fillChildren_calls (children : List (Child Element)) (rest : List Text) :
    fillChildren children (calls factory (children.flatMap childTasks) ++ rest) =
      (children.map (Child.withCalls factory), rest) := by
  induction children with
  | nil => rfl
  | cons child children induction =>
      have filled : fillChild child (calls factory (childTasks child) ++
          (calls factory (children.flatMap childTasks) ++ rest)) =
          (child.withCalls factory, calls factory (children.flatMap childTasks) ++ rest) := by
        cases child with
        | text content => rfl
        | code content => rfl
        | whitespace content => rfl
        | element element => rfl
        | expression parts =>
            rw [childTasks, calls_inline]
            simp only [fillChild, fillParts_calls, Child.withCalls]
      rw [List.flatMap_cons, calls_append, List.append_assoc, fillChildren, filled]
      simp only [induction, List.map_cons]

/-! ## Finished drafts -/

/-- The properties and children of a draft's element with the handed calls in place, and the calls
that are left over. -/
def Draft.filled (draft : Draft) : (List (Property Text) × List (Child Text)) × List Text :=
  let (properties, left) := fillProperties draft.element.properties draft.written.toList
  let (children, unused) := fillChildren draft.element.children left
  ((properties, children), unused)

/-- The calls in the properties and children of a draft's element, in document order. -/
def Draft.placed (draft : Draft) : List Text :=
  draft.filled.1.1.flatMap Property.elements ++ draft.filled.1.2.flatMap Child.elements

theorem Draft.finish_eq (factory : Text) (draft : Draft) :
    draft.finish factory =
      compose factory draft.element draft.inline draft.filled.1.1 draft.filled.1.2 := rfl

/-- Whether a draft has been handed the calls of its tasks up to `current`, and has those after
`current` still to write. -/
def Draft.Holds (factory : Text) (draft : Draft) (current : List (Element × Bool)) : Prop :=
  ∃ done, tasks draft.element = done ++ current ++ draft.remaining ∧
    draft.written.toList = calls factory done

variable {draft : Draft}

theorem Draft.holds_start (element : Element) (inline : Bool) :
    (Draft.start element inline).Holds factory [] :=
  ⟨[], rfl, rfl⟩

theorem Draft.Holds.written_eq (holds : draft.Holds factory []) (finished : draft.remaining = []) :
    draft.written.toList = calls factory (tasks draft.element) := by
  rcases holds with ⟨done, split, written⟩
  rw [finished, List.append_nil, List.append_nil] at split
  rw [split, written]

/-- A finished draft has a call for every nested element and no other. -/
theorem Draft.filled_of_holds (holds : draft.Holds factory []) (finished : draft.remaining = []) :
    draft.filled =
      ((draft.element.properties.map (Property.map (·.call factory true)),
        draft.element.children.map (Child.withCalls factory)), []) := by
  have written : draft.written.toList =
      (draft.element.properties.flatMap Property.elements).map (·.call factory true) ++
        (calls factory (draft.element.children.flatMap childTasks) ++ []) := by
    rw [holds.written_eq finished, tasks, calls_append, calls_inline, List.append_nil]
  simp only [Draft.filled, written, fillProperties_calls, fillChildren_calls]

theorem Draft.finish_of_holds (holds : draft.Holds factory []) (finished : draft.remaining = []) :
    draft.finish factory = draft.element.call factory draft.inline := by
  rw [Draft.finish_eq, Draft.filled_of_holds holds finished, Element.call_eq]

theorem elements_withCalls (child : Child Element) :
    (child.withCalls factory).elements = calls factory (childTasks child) := by
  cases child with
  | text content => rfl
  | code content => rfl
  | whitespace content => rfl
  | element element => rfl
  | expression parts =>
      rw [childTasks, calls_inline]
      exact Part.flatMap_elements_map _ parts

/-- The calls in place are the calls that were handed over, in the same order. -/
theorem Draft.placed_of_holds (holds : draft.Holds factory []) (finished : draft.remaining = []) :
    draft.placed = draft.written.toList := by
  rw [holds.written_eq finished, Draft.placed, Draft.filled_of_holds holds finished, tasks,
    calls_append, calls_inline]
  simp [List.flatMap_map, List.map_flatMap, elements_withCalls, calls]

/-! ## The steps of writing -/

/-- One step of writing: the next nested element is started, or a finished call is handed to the
draft below. -/
inductive Advances (factory : Text) : List Draft → List Draft → Prop where
  | start {element next : Element} {inline nextInline : Bool} {remaining : List (Element × Bool)}
      {written : Array Text} {below : List Draft} :
      Advances factory (⟨element, inline, (next, nextInline) :: remaining, written⟩ :: below)
        (.start next nextInline :: ⟨element, inline, remaining, written⟩ :: below)
  | handOver {draft parent : Draft} {others : List Draft} (finished : draft.remaining = []) :
      Advances factory (draft :: parent :: others)
        ({ parent with written := parent.written.push (draft.finish factory) } :: others)

/-- The stacks of drafts that writing an element comes through. -/
def Reaches (factory : Text) : List Draft → List Draft → Prop :=
  Relation.ReflTransGen (Advances factory)

/-- Whether each draft of a stack, innermost first, holds the calls of its tasks up to the one that
is being written above it. -/
def Consistent (factory : Text) : (current : List (Element × Bool)) → List Draft → Prop
  | _, [] => True
  | current, draft :: below =>
      draft.Holds factory current ∧ Consistent factory [(draft.element, draft.inline)] below

variable {before after : List Draft}

theorem Draft.Holds.handOver {task : Element × Bool} (holds : draft.Holds factory [task]) :
    ({ draft with written := draft.written.push (task.1.call factory task.2) } : Draft).Holds
      factory [] := by
  rcases holds with ⟨done, split, written⟩
  refine ⟨done ++ [task], by simpa using split, ?_⟩
  simp [written, calls]

theorem Advances.consistent (advances : Advances factory before after)
    (consistent : Consistent factory [] before) : Consistent factory [] after := by
  cases advances with
  | start =>
      rcases consistent with ⟨⟨done, split, written⟩, below⟩
      exact ⟨Draft.holds_start _ _, ⟨done, by simpa [Draft.start] using split, written⟩, below⟩
  | handOver finished =>
      rcases consistent with ⟨holds, parentHolds, others⟩
      rw [Draft.finish_of_holds holds finished]
      exact ⟨parentHolds.handOver, others⟩

theorem Reaches.consistent (reaches : Reaches factory before after)
    (consistent : Consistent factory [] before) : Consistent factory [] after := by
  induction reaches with
  | refl => exact consistent
  | tail _ advances induction => exact advances.consistent induction

/-- The program takes the steps of writing, until only the outermost draft is left and is
finished. -/
theorem writeDrafts_of_advances (advances : Advances factory before after) :
    writeDrafts factory before = writeDrafts factory after := by
  cases advances with
  | start => rw [writeDrafts]
  | @handOver draft parent others finished =>
      rcases draft with ⟨element, inline, remaining, written⟩
      cases finished
      rw [writeDrafts]

/-- A consistent stack becomes the call of its outermost element. -/
theorem writeDrafts_of_consistent {drafts : List Draft} {element : Element} {inline : Bool}
    (consistent : Consistent factory [] drafts)
    (outermost : drafts.getLast?.map (fun draft => (draft.element, draft.inline)) =
      some (element, inline)) :
    writeDrafts factory drafts = element.call factory inline := by
  fun_induction writeDrafts factory drafts with
  | case1 => simp at outermost
  | case2 owner ownerInline next nextInline remaining written below induction =>
      refine induction (Advances.start.consistent consistent) ?_
      cases below with
      | nil => simpa using outermost
      | cons parent others => simpa using outermost
  | case3 owner ownerInline written call =>
      simp only [List.getLast?_singleton, Option.map_some, Option.some.injEq,
        Prod.mk.injEq] at outermost
      rcases outermost with ⟨rfl, rfl⟩
      exact Draft.finish_of_holds consistent.1 rfl
  | case4 owner ownerInline written call parent others induction =>
      have advances : Advances factory (⟨owner, ownerInline, [], written⟩ :: parent :: others)
          ({ parent with written := parent.written.push call } :: others) := .handOver rfl
      refine induction (advances.consistent consistent) ?_
      cases others with
      | nil => simpa using outermost
      | cons grandparent others => simpa using outermost

/-- The stack of drafts writes what the recursive definition says, from every stack that it comes
through. Whenever a draft on top is finished, each call that was handed to it stands in the place of
its own element; the calls in place are the calls handed over, so none is missing and none made up,
and none is left over. -/
theorem writeElement_eq_call (factory : Text) (element : Element) (inline : Bool) :
    writeElement factory element inline = element.call factory inline ∧
      (∀ drafts, Reaches factory [.start element inline] drafts →
        writeDrafts factory drafts = writeElement factory element inline) ∧
      ∀ draft below, Reaches factory [.start element inline] (draft :: below) →
        draft.remaining = [] →
          draft.filled =
            ((draft.element.properties.map (Property.map (·.call factory true)),
              draft.element.children.map (Child.withCalls factory)), []) ∧
          draft.placed = draft.written.toList := by
  have initial : Consistent factory [] [.start element inline] :=
    ⟨Draft.holds_start element inline, trivial⟩
  refine ⟨writeDrafts_of_consistent initial rfl, ?_, ?_⟩
  · intro drafts reaches
    induction reaches with
    | refl => rfl
    | tail _ advances induction => rw [← writeDrafts_of_advances advances, induction]
  · intro draft below reaches finished
    have holds := (reaches.consistent initial).1
    exact ⟨Draft.filled_of_holds holds finished, Draft.placed_of_holds holds finished⟩

/-- An element `a` with an element `b` as the value of a property and an element `c` as a child. -/
def nestedSample : Element :=
  let inner (name : Text) : Element :=
    { name, isComponent := false, properties := [], children := [], depth := 1, offset := 0 }
  { name := "a".toList
    isComponent := false
    properties := [{ name := "p".toList, value := some (.element (inner "b".toList)) }]
    children := [.text "t".toList, .element (inner "c".toList)]
    depth := 0
    offset := 0 }

/-- The last draft of the sample puts the call of `b` into the property and that of `c` among the
children. -/
theorem writeElement_eq_call_sample :
    let b := " h(\"b\", null)".toList
    let c := "\n            h(\"c\", null)".toList
    writeElement "h".toList nestedSample false =
        "h(\"a\", \x7bp:  h(\"b\", null)\x7d, \"t\", \n            h(\"c\", null))".toList ∧
      Reaches "h".toList [.start nestedSample false] [⟨nestedSample, false, [], #[b, c]⟩] ∧
      (⟨nestedSample, false, [], #[b, c]⟩ : Draft).placed = [b, c] := by
  intro b c
  have reaches : Reaches "h".toList [.start nestedSample false]
      [⟨nestedSample, false, [], #[b, c]⟩] := by
    refine .tail (.tail (.tail (.tail .refl .start) (.handOver rfl)) .start) (.handOver rfl)
  have results := writeElement_eq_call "h".toList nestedSample false
  exact ⟨results.1.trans (by rfl), reaches, (results.2.2 _ _ reaches rfl).2⟩

end Call

end ElementScript
