import ElementScript.Proofs.Call.Brackets
import ElementScript.Proofs.Directive
import ElementScript.Proofs.Markup.RoundTrip
import ElementScript.Proofs.Text.Quoted

/-! # Quoted values of properties

A value in quotes is cut as a literal when it is scanned, and that literal is what the call of the
element has for the property. A literal stands for the text that it was written for, so whatever the
value is, the script has the same characters (`quote_faithful`). The literals that calls have for
names and for texts are written in the same way.
-/

namespace ElementScript

/-! ## The source and its tree -/

/-- An element without children whose only property is a quoted value. -/
def quotedSource (value : Text) : Text :=
  "<a x=\"".toList ++ (value ++ "\"/>".toList)

def quotedProperty (value : Text) : Property Element :=
  { name := ['x'], value := some (.code { text := value.quote, offset := 6, depth := 0 }) }

def quotedElement (value : Text) : Element :=
  { name := ['a']
    isComponent := false
    properties := [quotedProperty value]
    children := []
    depth := 0
    offset := 0 }

theorem parse_quotedSource {options : Options} {value : Text} (room : 1 ≤ options.ceiling)
    (unquoted : '"' ∉ value) (uncommented : (quotedSource value).opensNoComment) :
    options.parse (quotedSource value) = .ok { body := [.element (quotedElement value)] } := by
  let script : Markup .script :=
    .markup (.selfClosing ['a'] (.quoted ['x'] value .noProperties)) .noScript
  have source : script.render = quotedSource value := by
    simp only [script, Markup.render, List.append_assoc, List.cons_append, List.nil_append]
    rfl
  have formed : script.wellFormed := by
    have tag : Markup.isTagName ['a'] := by decide
    have name : Markup.isPropertyName ['x'] := by decide
    simp [script, tag, name, unquoted]
  have parsed := Markup.parse_of_reaches (Markup.scans script formed)
    (by rw [source]; exact uncommented) (Nat.le_trans (by simp [script]) room) fun input ceiling =>
      @Markup.builds _ script formed input #[] 0 0 (by simpa [script, ceiling] using room)
  rw [source] at parsed
  exact parsed

namespace Call

/-! ## Its call -/

/-- The object of a single property is written on a line of its own if it is long. -/
theorem exists_object_single (inline : Bool) (property : Property Text) :
    ∃ gap : Text, (gap = [] ∨ gap = '\n' :: (if inline then [] else spaces 12)) ∧
      object 0 inline [property] = '{' :: (gap ++ (entry property ++ ['}'])) := by
  by_cases long : propertyWidth < (entry property).length
  · refine ⟨_, Or.inr rfl, ?_⟩
    simp [object, separated, long, List.intercalate]
  · refine ⟨[], Or.inl rfl, ?_⟩
    simp [object, separated, long]

theorem entry_quotedProperty (value : Text) (write : Element → Text) :
    entry ((quotedProperty value).map write) = "x: ".toList ++ value.quote := by
  have name : key ['x'] = ['x'] := by decide
  have plain : PropertyName.isSpread ['x'] = false := by decide
  simp [entry, quotedProperty, Property.map, PropertyValue.map, valueText, name, plain]

theorem exists_writeElement_quoted (factory value : Text) :
    ∃ gap : Text, (gap = [] ∨ gap = '\n' :: spaces 12) ∧
      writeElement factory (quotedElement value) false =
        factory ++ ("(\"a\", \x7b".toList ++ (gap ++ ("x: ".toList ++
          (value.quote ++ "\x7d)".toList)))) := by
  obtain ⟨gap, shape, object⟩ := exists_object_single false
    ((quotedProperty value).map (·.call factory true))
  refine ⟨gap, shape, ?_⟩
  rw [entry_quotedProperty] at object
  have tag : tag (quotedElement value) = "\"a\"".toList := rfl
  rw [writeElement_eq, Element.call_eq, compose]
  simp only [quotedElement, List.map_cons, List.map_nil] at tag ⊢
  simp [object, tag, lead, arguments, ending]

end Call

/-! ## Literals -/

namespace Options

variable {options : Options} {value : Text}

/-- The value of the property is written as its literal, whatever else the options ask for. -/
theorem exists_compile_quotedSource (direct : options.skipCompiled = false)
    (room : 1 ≤ options.ceiling) (unquoted : '"' ∉ value)
    (uncommented : (quotedSource value).opensNoComment) :
    ∃ directive gap : Text, (directive = [] ∨ directive = strictDirective) ∧
      (gap = [] ∨ gap = '\n' :: Call.spaces 12) ∧
      options.compile (quotedSource value) =
        .ok (directive ++ (options.factory ++ ("(\"a\", \x7b".toList ++ (gap ++ ("x: ".toList ++
          (value.quote ++ "\x7d)".toList)))))) := by
  obtain ⟨gap, shape, written⟩ := Call.exists_writeElement_quoted options.factory value
  have compiled : options.compile (quotedSource value) =
      .ok (Program.write { factory := options.factory, strict := options.strict }
        { body := [.element (quotedElement value)] }) := by
    rw [compile, direct, parse_quotedSource room unquoted uncommented,
      factoryFor_of_opensNoComment uncommented]
    rfl
  have script : [Node.element (quotedElement value)].flatMap (Node.write options.factory) =
      Call.writeElement options.factory (quotedElement value) false := by
    rw [List.flatMap_singleton]
    rfl
  rw [compiled, Program.write, script, written]
  simp only
  split
  · exact ⟨strictDirective, gap, Or.inr rfl, shape, rfl⟩
  · exact ⟨[], gap, Or.inl rfl, shape, rfl⟩

end Options

/-- The scanner cuts a quoted value as the same literal that a call has for a name or a text. The
literal is in quotes and holds no control character and no quote without a backslash of its own, and
it is read back as the text it was written for. So every value without a quote comes out of a
compilation as a literal that is read as the value: in a source with nothing that opens a comment,
compilation succeeds, and the call has that literal for the property. -/
theorem quote_faithful (text : Text) :
    (∀ (scan : Scan) (element : Element) named mark, scan.text = text → element.name = text →
        element.isComponent = false →
        ((scan.quotedStep named mark mark).tokens.back?.map Token.text) = some text.quote ∧
          Call.tag element = text.quote) ∧
      (∃ inside : Text, text.quote = '"' :: (inside ++ ['"']) ∧
        (∀ written ∈ inside, 0x20 ≤ written.toNat) ∧ Text.hasBareQuote false inside = false) ∧
      Text.unquote? text.quote = some text ∧
      ∀ options : Options, options.skipCompiled = false → 1 ≤ options.ceiling → '"' ∉ text →
        Text.holds ['/', '/'] (quotedSource text) = false →
        Text.holds ['/', '*'] (quotedSource text) = false →
        ∃ directive gap literal : Text, (directive = [] ∨ directive = strictDirective) ∧
          (gap = [] ∨ gap = '\n' :: Call.spaces 12) ∧
          options.compile (quotedSource text) =
            .ok (directive ++ (options.factory ++ ("(\"a\", \x7b".toList ++ (gap ++
              ("x: ".toList ++ (literal ++ "\x7d)".toList)))))) ∧
          Text.unquote? literal = some text := by
  refine ⟨?_, ⟨text.flatMap Text.escape, rfl, ?_, Text.hasBareQuote_escapes text⟩,
    Text.unquote?_quote text, ?_⟩
  · rintro scan element named mark rfl name plain
    constructor
    · simp [Scan.quotedStep, Scan.emit, Scan.clear]
    · simp [Call.tag, plain, name]
  · intro written member
    simpa [Text.isLiteralCharacter] using Text.isLiteralCharacter_escapes text written member
  · intro options direct room unquoted noLine noBlock
    have uncommented : (quotedSource text).opensNoComment := by
      simp [Text.opensNoComment, noLine, noBlock]
    obtain ⟨directive, gap, strict, shape, compiled⟩ :=
      options.exists_compile_quotedSource direct room unquoted uncommented
    exact ⟨directive, gap, _, strict, shape, compiled, Text.unquote?_quote text⟩

/-- A value with everything that a literal escapes but the quote, and with characters that are
markup elsewhere. -/
theorem quote_faithful_sample :
    let value : Text := "\\ \t\x1f\n<b>\x7bc\x7d' é".toList
    let options : Options := { skipCompiled := false }
    '"' ∉ value ∧ Text.holds ['/', '/'] (quotedSource value) = false ∧
      Text.holds ['/', '*'] (quotedSource value) = false ∧
      Text.unquote? value.quote = some value ∧
      ∃ directive gap literal : Text, (directive = [] ∨ directive = strictDirective) ∧
        (gap = [] ∨ gap = '\n' :: Call.spaces 12) ∧
        options.compile (quotedSource value) =
          .ok (directive ++ (options.factory ++ ("(\"a\", \x7b".toList ++ (gap ++
            ("x: ".toList ++ (literal ++ "\x7d)".toList)))))) ∧
        Text.unquote? literal = some value := by
  intro value options
  obtain ⟨-, -, read, compiled⟩ := quote_faithful value
  have unquoted : '"' ∉ value := by decide
  have noLine : Text.holds ['/', '/'] (quotedSource value) = false := by decide
  have noBlock : Text.holds ['/', '*'] (quotedSource value) = false := by decide
  exact ⟨unquoted, noLine, noBlock, read,
    compiled options rfl (by decide) unquoted noLine noBlock⟩

end ElementScript
