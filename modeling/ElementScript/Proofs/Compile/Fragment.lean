import ElementScript.Proofs.Call.Brackets
import ElementScript.Proofs.Compile.PassThrough
import ElementScript.Proofs.Directive
import ElementScript.Proofs.Scan.Reading
import ElementScript.Proofs.Tree.Stage

/-! # Fragments around a text

The look ahead for a comparison starts at the second character after a `<`. The `>` of `<>` is the
first, so what decides on a fragment is its text. If the text ends an operand before it shows
markup, then the fragment is taken for a comparison and passes through as code. Otherwise it becomes
the call of the fragment identifier with the text as its only child (`Options.compile_fragment`).
-/

namespace ElementScript

/-- A fragment around a text. -/
def fragmentAround (content : Text) : Text :=
  '<' :: '>' :: (content ++ ['<', '/', '>'])

namespace Lookahead

/-- The end of a fragment decides nothing that its text has left open. -/
theorem compares_before_fragment_end (seenSpace : Bool) (content : Text) :
    compares seenSpace (content ++ ['<', '/', '>']) = compares seenSpace content := by
  induction content generalizing seenSpace with
  | nil => cases seenSpace <;> rfl
  | cons character content induction => simp only [List.cons_append, compares, induction]

theorem opensElement_fragment (content : Text) :
    opensElement ('>' :: (content ++ ['<', '/', '>'])) = !compares false content := by
  rw [opensElement, compares_before_fragment_end]
  rfl

end Lookahead

/-- Text without `<` in front of a text opens nothing. -/
theorem Text.opensNoElement_append {first second : Text} (absent : '<' ∉ first)
    (plain : second.OpensNoElement) : OpensNoElement (first ++ second) := by
  induction first with
  | nil => exact plain
  | cons character first induction =>
      have parts := List.ne_and_not_mem_of_not_mem_cons absent
      exact opensNoElement_cons.mpr
        ⟨fun bracket => absurd bracket.symm parts.1, induction parts.2⟩

section Tokens

variable {content : Text}

/-- The tokens of a fragment around a text. -/
def fragmentTokens (content : Text) : List Token :=
  [{ kind := .elementStart, text := ['<', '>'], offset := 0 },
    { kind := .childText, text := content, offset := 2 },
    { kind := .elementEnd, text := ['<', '/', '>'], offset := 2 + content.length }]

theorem run_fragment {input : ScanInput} (solid : content.isAllWhitespace = false)
    (plain : ∀ character ∈ content, character ≠ '<' ∧ character ≠ '{')
    (opens : Lookahead.compares false content = false) (room : 1 ≤ input.ceiling) :
    (Scan.run input {} (fragmentAround content)).map Scan.finish =
      .ok (fragmentTokens content) := by
  have markup : Lookahead.opensElement ('>' :: (content ++ ['<', '/', '>'])) := by
    rw [Lookahead.opensElement_fragment, opens]
    rfl
  have closes : Lookahead.opensTag ['/', '>'] := by decide
  have pushes : ∀ character ∈ content, Scan.Pushes (.children .text) character := by
    intro character member
    have differs := plain character member
    exact Scan.pushes_text differs.2 differs.1
  have nonempty : content ≠ [] := by
    rintro rfl
    cases solid
  rw [fragmentAround, Scan.run_first_tag markup room]
  have opened := @Scan.run_tag_bracket input [] 0 1 [] (content ++ ['<', '/', '>']) ['<']
  rw [List.length_singleton] at opened
  rw [opened, Scan.run_pushes_ready pushes,
    Scan.run_holding_text nonempty ⟨_, Or.inr ⟨rfl, closes⟩⟩, Scan.run_text_tag closes]
  have closed := @Scan.run_closing_tag input [] (2 + content.length) 1
    [{ kind := .elementStart, text := ['<', '>'], offset := 0 },
      { kind := .childText, text := content, offset := 2 }] [] .text [] [] nofun nofun
  rw [if_neg (by simp [solid])]
  refine (congrArg (Except.map Scan.finish) closed).trans ?_
  rfl

theorem ofTokens_fragment {input : TreeInput} (solid : content.isAllWhitespace = false)
    (room : 1 ≤ input.ceiling) :
    Program.ofTokens input (fragmentTokens content) = .ok
      { body := [.element
          { name := input.fragment
            isComponent := isComponentName input.fragment
            properties := []
            children := [.text content]
            depth := 0
            offset := 0 }] } := by
  have child : Token.child? { kind := .childText, text := content, offset := 2 } =
      some (.text content) := by
    simp [Token.child?, solid]
  exact Program.ofTokens_single room rfl rfl child ⟨rfl, Or.inl rfl⟩

end Tokens

/-- The call of an element whose only child is a text. -/
theorem Call.writeElement_of_text {factory : Text} {element : Element} {content : Text}
    (outermost : element.depth = 0) (bare : element.properties = [])
    (single : element.children = [.text content]) :
    writeElement factory element false =
      factory ++ '(' :: (tag element ++ ", null, ".toList ++
        ((Text.Reference.decode content).trim.quote ++ [')'])) := by
  rw [writeElement_eq, Element.call_eq, bare, single]
  simp [compose, lead, object, ending, arguments, argument?, trimmedAt, decoded_eq, outermost,
    Child.withCalls]

namespace Options

/-- The call of the fragment identifier with a text as its only child. -/
def fragmentCall (options : Options) (content : Text) : Text :=
  options.factory ++ '(' :: (options.fragment ++ ", null, ".toList ++
    ((Text.Reference.decode content).trim.quote ++ [')']))

variable {options : Options} {content : Text}

theorem compile_fragment_markup (direct : options.skipCompiled = false)
    (loose : options.strict = false) (room : 1 ≤ options.ceiling)
    (component : isComponentName options.fragment) (solid : content.isAllWhitespace = false)
    (plain : ∀ character ∈ content, character ≠ '<' ∧ character ≠ '{')
    (uncommented : (fragmentAround content).opensNoComment)
    (opens : Lookahead.compares false content = false) :
    options.compile (fragmentAround content) = .ok (options.fragmentCall content) := by
  have tokenized : tokenize (fragmentAround content) options.ceiling =
      .ok (fragmentTokens content) := by
    rw [tokenize_of_opensNoComment uncommented, run_fragment solid plain opens room]
  refine (compile_eq_ok_iff direct tokenized).mpr ⟨_, ofTokens_fragment solid room, ?_⟩
  rw [fragmentFor_of_opensNoComment uncommented, factoryFor_of_opensNoComment uncommented, loose]
  change List.flatMap (Node.write options.factory) [_] = _
  rw [List.flatMap_singleton, Node.write, Call.writeElement_of_text rfl rfl rfl, Call.tag,
    if_pos component]
  rfl

/-- A fragment that is taken for a comparison holds no other `<` that could open an element. -/
theorem opensNoElement_fragment (plain : '<' ∉ content)
    (compared : Lookahead.compares false content) : (fragmentAround content).OpensNoElement := by
  have first : Lookahead.opensElement ('>' :: (content ++ ['<', '/', '>'])) = false := by
    rw [Lookahead.opensElement_fragment, compared]
    rfl
  have others : Text.OpensNoElement (('>' :: content) ++ ['<', '/', '>']) :=
    Text.opensNoElement_append (by simpa using plain) (by decide)
  exact Text.opensNoElement_cons.mpr ⟨fun _ => first, others⟩

theorem compile_fragment_script (direct : options.skipCompiled = false)
    (loose : options.strict = false) (room : 1 ≤ options.ceiling) (plain : '<' ∉ content)
    (uncommented : (fragmentAround content).opensNoComment)
    (compared : Lookahead.compares false content) :
    options.compile (fragmentAround content) = .ok (fragmentAround content) := by
  have stripped := Comment.strip_of_opensNoComment uncommented
  have script := opensNoElement_fragment plain compared
  rw [← stripped] at script
  rw [compile_script direct loose room script, stripped]

/-- A fragment around a text becomes the call of the fragment identifier, with the decoded and
trimmed text as its only child, exactly if the text ends no operand before it shows markup.
Otherwise the fragment passes through as if it were code. -/
theorem compile_fragment (direct : options.skipCompiled = false)
    (loose : options.strict = false) (room : 1 ≤ options.ceiling)
    (component : isComponentName options.fragment) (solid : content.isAllWhitespace = false)
    (plain : ∀ character ∈ content, character ≠ '<' ∧ character ≠ '{')
    (noLine : Text.holds ['/', '/'] (fragmentAround content) = false)
    (noBlock : Text.holds ['/', '*'] (fragmentAround content) = false) :
    options.compile (fragmentAround content) =
      .ok (if Lookahead.compares false content then fragmentAround content
        else options.fragmentCall content) := by
  have uncommented : (fragmentAround content).opensNoComment := by
    simp [Text.opensNoComment, noLine, noBlock]
  have noBracket : '<' ∉ content := fun member => (plain _ member).1 rfl
  split
  · rename_i compared
    exact compile_fragment_script direct loose room noBracket uncommented compared
  · rename_i opens
    exact compile_fragment_markup direct loose room component solid plain uncommented
      (by simpa using opens)

/-- In `<>a)</>` the round bracket comes before anything that shows markup. In `<> a &#60; b) </>` a
word behind a space comes first. -/
theorem compile_fragment_samples :
    let options : Options := { skipCompiled := false }
    options.compile "<>a)</>".toList = .ok "<>a)</>".toList ∧
      options.compile "<> a &#60; b) </>".toList =
        .ok "React.createElement(React.Fragment, null, \"a < b)\")".toList := by
  intro options
  have component : isComponentName options.fragment := by decide
  have call : "React.createElement(React.Fragment, null, \"a < b)\")".toList =
      options.fragmentCall " a &#60; b) ".toList := by decide
  constructor
  · exact @compile_fragment options "a)".toList rfl rfl (by decide) component (by decide)
      (by simp) (by decide) (by decide)
  · rw [call]
    exact @compile_fragment options " a &#60; b) ".toList rfl rfl (by decide) component (by decide)
      (by simp) (by decide) (by decide)

end Options

end ElementScript
