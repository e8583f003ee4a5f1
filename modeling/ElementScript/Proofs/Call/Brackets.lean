import ElementScript.Proofs.Call.Drafts
import ElementScript.Proofs.Text.Brackets
import ElementScript.Proofs.Tree.Braces

/-! # The brackets of a call

Writing an element never unbalances brackets. The names, the literals and the code of an element may
be copied, quoted, trimmed and broken into lines, a spread loses its braces, and the calls of the
nested elements stand among all of it; if the brackets of what is copied match, those of the call
do (`Call.writeElement_isBracketed`).

A region is the case that needs the reader itself. The pieces of its code are not bracketed one by
one, only their concatenation is, and the calls of its elements are put between the pieces. Such a
call leaves a reader in code as it was, whatever brackets are open there.
-/

namespace ElementScript

/-! ## Elements with matching brackets -/

/-- Whether the brackets of some code match and it holds no literal. -/
def Text.IsBracketedCode (text : Text) : Prop :=
  text.IsBracketed ∧ '"' ∉ text

instance (text : Text) : Decidable text.IsBracketedCode :=
  inferInstanceAs (Decidable (_ ∧ _))

/-- The property name that spreads an expression. -/
def PropertyName.spread (inner : Text) : Text :=
  '{' :: ("...".toList ++ inner ++ ['}'])

/-- Whether a property name has neither a bracket nor a quote, or spreads an expression whose
brackets match. -/
def PropertyName.IsBracketed (name : Text) : Prop :=
  name.IsPlain ∨
    ∃ inner : Text, name = spread inner ∧ inner ≠ [] ∧ inner.IsBracketedCode ∧ '\\' ∉ inner

section Values

variable {ε : Type}

/-- Whether the brackets of the code of a value match. In a region, that is all its code, without
the elements. -/
def PropertyValue.IsBracketed : PropertyValue ε → Prop
  | .code piece => piece.text.IsBracketedCode
  | .element _ => True
  | .fragment parts => (regionText parts).IsBracketedCode

def Child.IsBracketed : Child ε → Prop
  | .text _ | .whitespace _ | .element _ => True
  | .code content => content.IsBracketedCode
  | .expression parts => (regionText parts).IsBracketedCode

end Values

/-- Whether the brackets of an element match, apart from the elements in it. -/
structure Element.IsBracketed (element : Element) : Prop where
  name : element.name.IsPlain
  propertyNames : ∀ property ∈ element.properties, PropertyName.IsBracketed property.name
  values : ∀ property ∈ element.properties, ∀ value ∈ property.value, value.IsBracketed
  children : ∀ child ∈ element.children, child.IsBracketed

/-! The elements of a value or a child do not matter. -/

theorem regionText_map {α β : Type} (f : α → β) (parts : List (Part α)) :
    regionText (parts.map (Part.map f)) = regionText parts := by
  rw [regionText, regionText, List.flatMap_map]
  congr 1
  funext part
  cases part <;> rfl

theorem PropertyValue.IsBracketed.map {α β : Type} {value : PropertyValue α}
    (bracketed : value.IsBracketed) (f : α → β) : (value.map f).IsBracketed := by
  cases value with
  | code piece => exact bracketed
  | element inner => trivial
  | fragment parts =>
      change (regionText _).IsBracketedCode
      rw [regionText_map]
      exact bracketed

theorem Child.IsBracketed.withCalls {child : Child Element} (bracketed : child.IsBracketed)
    (factory : Text) : (child.withCalls factory).IsBracketed := by
  cases child with
  | text content => trivial
  | code content => exact bracketed
  | whitespace content => trivial
  | element inner => trivial
  | expression parts =>
      change (regionText _).IsBracketedCode
      rw [regionText_map]
      exact bracketed

namespace Call

open Brackets (code)

/-! ## Regions -/

section Regions

variable {part : Part Text} {parts : List (Part Text)} {awaited : List Char} {reached : Brackets}

/-- A call among the code of a region leaves a reader as it was, and code is what it reads. -/
theorem read_partText (calls : ∀ call ∈ part.elements, Text.IsBracketed call)
    (read : (code awaited).read part.text = some reached) :
    (code awaited).read (partText part) = some reached := by
  cases part with
  | code piece => exact read
  | element call =>
      cases read
      exact (calls call (List.mem_singleton_self call)).read awaited

/-- The reader of a region's code comes to the end of a part, and is in code there. -/
theorem read_regionText_cons (unquoted : '"' ∉ regionText (part :: parts))
    (read : (code awaited).read (regionText (part :: parts)) = some reached) :
    ∃ others, (code awaited).read part.text = some (code others) ∧
      '"' ∉ regionText parts ∧ (code others).read (regionText parts) = some reached := by
  rw [regionText, List.flatMap_cons, ← regionText] at unquoted read
  rw [List.mem_append, not_or] at unquoted
  rcases Brackets.read_append_eq_some_iff.mp read with ⟨middle, first, rest⟩
  rcases Brackets.exists_code_of_read unquoted.1 first with ⟨others, rfl⟩
  exact ⟨others, first, unquoted.2, rest⟩

theorem calls_cons (calls : ∀ call ∈ (part :: parts).flatMap Part.elements, Text.IsBracketed call) :
    (∀ call ∈ part.elements, Text.IsBracketed call) ∧
      ∀ call ∈ parts.flatMap Part.elements, Text.IsBracketed call := by
  rw [List.flatMap_cons] at calls
  exact List.forall_mem_append.mp calls

theorem read_parts (calls : ∀ call ∈ parts.flatMap Part.elements, Text.IsBracketed call)
    (unquoted : '"' ∉ regionText parts)
    (read : (code awaited).read (regionText parts) = some reached) :
    (code awaited).read (parts.flatMap partText) = some reached := by
  induction parts generalizing awaited with
  | nil => exact read
  | cons part parts induction =>
      rcases read_regionText_cons unquoted read with ⟨others, first, unquotedRest, rest⟩
      rw [List.flatMap_cons]
      have own := read_partText (calls_cons calls).1 first
      exact Brackets.read_append_eq_some_iff.mpr
        ⟨_, own, induction (calls_cons calls).2 unquotedRest rest⟩

/-- What stands before a call is trimmed while the expression is put together, so the induction is
over all that may be written before the parts. -/
theorem read_expression {written : Text} {reader : Brackets}
    (calls : ∀ call ∈ parts.flatMap Part.elements, Text.IsBracketed call)
    (unquoted : '"' ∉ regionText parts)
    (before : reader.read written = some (code awaited))
    (read : (code awaited).read (regionText parts) = some reached) :
    reader.read (parts.foldl (fun written part =>
      match part with
      | .code piece => written ++ piece.text
      | .element call => written.trimEnd ++ call) written) = some reached := by
  induction parts generalizing awaited written with
  | nil =>
      cases read
      exact before
  | cons part parts induction =>
      rcases read_regionText_cons unquoted read with ⟨others, first, unquotedRest, rest⟩
      have own := read_partText (calls_cons calls).1 first
      refine induction (calls_cons calls).2 unquotedRest ?_ rest
      cases part with
      | code piece => exact Brackets.read_append_eq_some_iff.mpr ⟨_, before, own⟩
      | element call =>
          exact Brackets.read_append_eq_some_iff.mpr ⟨_, Brackets.read_trimEnd before, own⟩

theorem expression_isBracketed (calls : ∀ call ∈ parts.flatMap Part.elements, Text.IsBracketed call)
    (bracketed : (regionText parts).IsBracketedCode) : (expression parts).IsBracketed := by
  have joined := read_expression calls bracketed.2 (Brackets.read_nil (code [])) bracketed.1
  exact Text.IsBracketed.trim joined

end Regions

/-! ## Properties -/

theorem spaces_isBracketed (count : Nat) : (spaces count).IsBracketed := by
  apply Text.IsPlain.isBracketed
  intro character member
  rw [List.eq_of_mem_replicate member]
  rfl

theorem valueText_isBracketed {value : Option (PropertyValue Text)}
    (bracketed : ∀ own ∈ value, own.IsBracketed)
    (calls : ∀ own ∈ value, ∀ call ∈ own.elements, Text.IsBracketed call) :
    (valueText value).IsBracketed := by
  rcases value with _ | value
  · decide
  have own := bracketed value rfl
  have ownCalls := calls value rfl
  cases value with
  | code piece => exact own.1
  | element call => exact ownCalls call (List.mem_singleton_self call)
  | fragment parts => exact read_parts ownCalls own.2 own.1

/-- A spread has no whitespace at its ends. -/
theorem trim_spread (inner : Text) :
    (PropertyName.spread inner).trim = PropertyName.spread inner :=
  Text.trim_enclosed (by decide) (by decide) _

theorem mem_of_mem_trim {text : Text} {character : Char} (member : character ∈ text.trim) :
    character ∈ text := by
  rcases text.exists_trim with ⟨before, after, split, -, -⟩
  rw [split]
  simp [member]

/-- A trimmed property name is bracketed code, also without its first and its last character. -/
theorem trim_propertyName {name : Text} (bracketed : PropertyName.IsBracketed name) :
    name.trim.IsBracketedCode ∧ Text.IsBracketed (name.trim.drop 1).dropLast := by
  rcases bracketed with plain | ⟨inner, rfl, -, ⟨matching, unquoted⟩, -⟩
  · have trimmed : name.trim.IsPlain := fun character member =>
      plain character (mem_of_mem_trim member)
    have shortened : Text.IsPlain (name.trim.drop 1).dropLast := fun character member =>
      trimmed character (List.mem_of_mem_drop (List.dropLast_subset _ member))
    exact ⟨⟨trimmed.isBracketed, trimmed.not_mem_quote⟩, shortened.isBracketed⟩
  · have dots : Text.IsBracketed "...".toList := by decide
    have spread : Text.IsBracketed ("...".toList ++ inner) := dots.append matching
    rw [trim_spread]
    refine ⟨⟨spread.enclose rfl rfl, ?_⟩, ?_⟩
    · simp [PropertyName.spread, unquoted]
    · rw [PropertyName.spread, List.drop_one, List.tail_cons, List.dropLast_concat]
      exact spread

/-- A name with a hyphen is quoted before a spread loses its braces. Then it loses the quotes
instead, and its escapes stand in code. -/
theorem key_isBracketed {name : Text} (bracketed : PropertyName.IsBracketed name) :
    (key name).IsBracketed ∧ Text.IsBracketed ((key name).drop 1).dropLast := by
  have trimmed := trim_propertyName bracketed
  unfold key
  simp only
  split
  · refine ⟨Text.isBracketed_quote _, ?_⟩
    rw [Text.quote, List.cons_append, List.drop_one, List.tail_cons, List.dropLast_concat]
    exact Brackets.read_escapes_in_code trimmed.1.2 trimmed.1.1
  · exact ⟨trimmed.1.1, trimmed.2⟩

theorem entry_isBracketed {property : Property Text}
    (name : PropertyName.IsBracketed property.name)
    (value : (valueText property.value).IsBracketed) : (entry property).IsBracketed := by
  have keys := key_isBracketed name
  have colon : Text.IsBracketed ": ".toList := by decide
  unfold entry
  simp only
  split
  · exact keys.2
  · exact (keys.1.append colon).append value

theorem separated_isBracketed {texts : List Text} (bracketed : ∀ text ∈ texts, text.IsBracketed) :
    ∀ text ∈ separated texts, text.IsBracketed := by
  have comma : Text.IsBracketed ", ".toList := by decide
  fun_induction separated texts with
  | case1 => exact bracketed
  | case2 last => exact bracketed
  | case3 first second rest induction =>
      have parts := List.forall_mem_cons.mp bracketed
      exact List.forall_mem_cons.mpr ⟨parts.1.append comma, induction parts.2⟩

theorem intercalate_isBracketed {separator : Text} {texts : List Text}
    (separates : separator.IsBracketed) (bracketed : ∀ text ∈ texts, text.IsBracketed) :
    Text.IsBracketed (separator.intercalate texts) := by
  induction texts with
  | nil => exact Text.isBracketed_nil
  | cons text texts induction =>
      have parts := List.forall_mem_cons.mp bracketed
      cases texts with
      | nil => simpa using parts.1
      | cons second rest =>
          rw [List.intercalate_cons_cons]
          exact (parts.1.append separates).append (induction parts.2)

theorem object_isBracketed (depth : Nat) (inline : Bool) {properties : List (Property Text)}
    (entries : ∀ property ∈ properties, (entry property).IsBracketed) :
    (object depth inline properties).IsBracketed := by
  have all : ∀ text ∈ separated (properties.map entry), text.IsBracketed := by
    refine separated_isBracketed fun text member => ?_
    rcases List.mem_map.mp member with ⟨property, listed, rfl⟩
    exact entries property listed
  unfold object
  split
  · decide
  simp only
  split
  · have indentation : Text.IsBracketed (if inline then [] else spaces (12 + 4 * depth)) := by
      split
      · exact Text.isBracketed_nil
      · exact spaces_isBracketed _
    have lineBreak := indentation.cons (show Brackets.isPlain '\n' from rfl)
    exact (lineBreak.append (intercalate_isBracketed lineBreak all)).enclose rfl rfl
  · exact (Text.IsBracketed.flatten all).enclose rfl rfl

/-! ## Children -/

theorem argument_isBracketed {hasContent : Bool} {count index : Nat} {child : Child Text}
    {argument : Text} (bracketed : child.IsBracketed)
    (calls : ∀ call ∈ child.elements, Text.IsBracketed call)
    (written : argument? hasContent count index child = some argument) :
    argument.IsBracketed := by
  cases child with
  | text content =>
      cases written
      exact Text.isBracketed_quote _
  | code content =>
      cases written
      exact bracketed.1
  | whitespace content =>
      simp only [argument?] at written
      split at written
      · cases written
        exact Text.isBracketed_quote _
      · cases written
  | element call =>
      cases written
      exact calls _ (List.mem_singleton_self _)
  | expression parts =>
      cases written
      exact expression_isBracketed calls bracketed

theorem arguments_isBracketed {children : List (Child Text)}
    (bracketed : ∀ child ∈ children, child.IsBracketed)
    (calls : ∀ child ∈ children, ∀ call ∈ child.elements, Text.IsBracketed call) :
    ∀ argument ∈ arguments children, argument.IsBracketed := by
  intro argument member
  rcases List.mem_filterMap.mp member with ⟨⟨child, index⟩, inside, written⟩
  have child := List.fst_mem_of_mem_zipIdx inside
  exact argument_isBracketed (bracketed _ child) (calls _ child) written

/-! ## Calls -/

theorem lead_isBracketed (depth : Nat) (inline : Bool) : (lead depth inline).IsBracketed := by
  unfold lead
  split
  · exact Text.isBracketed_nil
  split
  · decide
  · exact (spaces_isBracketed _).cons rfl

theorem tag_isBracketed {element : Element} (plain : element.name.IsPlain) :
    (tag element).IsBracketed := by
  unfold tag
  split
  · exact plain.isBracketed
  · exact Text.isBracketed_quote _

theorem ending_eq (arguments : List Text) :
    ending arguments = arguments.flatMap (", ".toList ++ ·) ++ [')'] := by
  induction arguments with
  | nil => rfl
  | cons argument rest induction => simp [ending, induction]

theorem compose_isBracketed {factory : Text} {element : Element} {inline : Bool}
    {properties : List (Property Text)} {children : List (Child Text)} (plain : factory.IsPlain)
    (name : element.name.IsPlain) (entries : ∀ property ∈ properties, (entry property).IsBracketed)
    (written : ∀ argument ∈ arguments children, argument.IsBracketed) :
    (compose factory element inline properties children).IsBracketed := by
  have comma : Text.IsBracketed ", ".toList := by decide
  have rest : Text.IsBracketed ((arguments children).flatMap (", ".toList ++ ·)) := by
    refine Text.IsBracketed.flatten fun text member => ?_
    rcases List.mem_map.mp member with ⟨argument, listed, rfl⟩
    exact comma.append (written argument listed)
  have inside := (((tag_isBracketed name).append comma).append
    (object_isBracketed element.depth inline entries)).append rest
  have front := (lead_isBracketed element.depth inline).append plain.isBracketed
  have opens : Brackets.closing? '(' = some ')' := rfl
  have whole := front.append (inside.enclose opens rfl)
  simpa [compose, ending_eq] using whole

end Call

/-! ## Whole trees -/

namespace Call

variable {factory : Text} {element : Element}

theorem entries_isBracketed (own : element.IsBracketed)
    (nested : ∀ inner ∈ element.nested, (inner.call factory true).IsBracketed) :
    ∀ property ∈ element.properties.map (Property.map (·.call factory true)),
      (entry property).IsBracketed := by
  intro filled member
  rcases List.mem_map.mp member with ⟨property, listed, rfl⟩
  refine entry_isBracketed (own.propertyNames property listed) (valueText_isBracketed ?_ ?_)
  · intro value written
    rcases Option.map_eq_some_iff.mp written with ⟨original, present, rfl⟩
    exact (own.values property listed original present).map _
  · intro value written call placed
    have inside : call ∈ (property.map (·.call factory true)).elements := by
      rw [Property.elements, written, Option.map_some, Option.getD_some]
      exact placed
    rw [Property.elements_map] at inside
    rcases List.mem_map.mp inside with ⟨inner, member, rfl⟩
    exact nested inner (Element.mem_nested_of_property listed member)

theorem calls_isBracketed
    (nested : ∀ inner ∈ element.nested, ∀ inline, (inner.call factory inline).IsBracketed) :
    ∀ child ∈ element.children.map (Child.withCalls factory),
      ∀ call ∈ child.elements, Text.IsBracketed call := by
  intro filled member call placed
  rcases List.mem_map.mp member with ⟨child, listed, rfl⟩
  rw [elements_withCalls] at placed
  rcases List.mem_map.mp placed with ⟨task, planned, rfl⟩
  have inside : task.1 ∈ child.elements := by
    rw [← map_fst_childTasks]
    exact List.mem_map_of_mem planned
  exact nested task.1 (Element.mem_nested_of_child listed inside) task.2

/-- The induction goes from the elements inside an element to the element. -/
theorem call_isBracketed (plain : factory.IsPlain) {element : Element}
    (bracketed : ∀ inner ∈ element.subtree, inner.IsBracketed) (inline : Bool) :
    (element.call factory inline).IsBracketed := by
  have own := bracketed element element.mem_subtree_self
  have nested : ∀ inner ∈ element.nested, ∀ inline, (inner.call factory inline).IsBracketed := by
    intro inner member inline
    have lighter := Element.weight_lt_of_mem_nested member
    exact call_isBracketed plain
      (fun deeper below => bracketed deeper (Element.mem_subtree_of_nested member below)) inline
  have children : ∀ child ∈ element.children.map (Child.withCalls factory),
      child.IsBracketed := by
    intro filled member
    rcases List.mem_map.mp member with ⟨child, listed, rfl⟩
    exact (own.children child listed).withCalls factory
  rw [Element.call_eq]
  exact compose_isBracketed plain own.name
    (entries_isBracketed own fun inner member => nested inner member true)
    (arguments_isBracketed children (calls_isBracketed nested))
termination_by element.weight

theorem writeElement_eq (factory : Text) (element : Element) (inline : Bool) :
    writeElement factory element inline = element.call factory inline :=
  writeDrafts_of_consistent ⟨Draft.holds_start element inline, trivial⟩ rfl

/-- Writing an element gives a text whose brackets match, if those of the element and of all
elements in it do. Its texts and its whitespace may be any. -/
theorem writeElement_isBracketed (factory : Text) (element : Element) (inline : Bool)
    (plain : factory.IsPlain) (bracketed : ∀ inner ∈ element.subtree, inner.IsBracketed) :
    (writeElement factory element inline).IsBracketed := by
  rw [writeElement_eq]
  exact call_isBracketed plain bracketed inline

/-- An element with a spread that is quoted, a region whose code is cut by an element, and a text
with a bracket and a quote. -/
def bracketedSample : Element :=
  let inner : Element :=
    { name := "b".toList, isComponent := false, properties := [], children := [], depth := 1,
      offset := 0 }
  let piece (text : String) : Part Element := .code { text := text.toList, offset := 0, depth := 0 }
  { name := "a".toList
    isComponent := false
    properties := [{ name := "\x7b...f(x-1)\x7d".toList, value := none }]
    children := [.text "(\"".toList, .expression [piece "g(", .element inner, piece ")"]]
    depth := 0
    offset := 0 }

/-- The quoted spread has lost its quotes instead of its braces. -/
theorem writeElement_isBracketed_sample :
    let call : Text := "h(\"a\", \x7b\x7b...f(x-1)\x7d\x7d, \"(\\\"\", g( h(\"b\", null)))".toList
    writeElement "h".toList bracketedSample false = call ∧ call.IsBracketed := by
  intro call
  have written : writeElement "h".toList bracketedSample false = call :=
    (writeElement_eq _ _ _).trans (by rfl)
  have bracketed : ∀ inner ∈ bracketedSample.subtree, inner.IsBracketed := by
    have region : Text.IsBracketedCode "g()".toList := by decide
    refine List.forall_mem_cons.mpr ⟨⟨by decide, ?_, ?_, ?_⟩,
      List.forall_mem_singleton.mpr ⟨by decide, nofun, nofun, nofun⟩⟩
    · exact List.forall_mem_singleton.mpr
        (Or.inr ⟨"f(x-1)".toList, rfl, by decide, by decide, by decide⟩)
    · exact List.forall_mem_singleton.mpr nofun
    · exact List.forall_mem_cons.mpr ⟨trivial, List.forall_mem_singleton.mpr region⟩
  exact ⟨written, written ▸ writeElement_isBracketed _ _ _ (by decide) bracketed⟩

end Call

end ElementScript
