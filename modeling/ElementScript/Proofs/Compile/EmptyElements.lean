import ElementScript.Proofs.Compile.ErrorKind
import ElementScript.Proofs.Markup.Building
import ElementScript.Proofs.Scan.Properties

/-! # Empty elements

An element without children can be written as a tag that closes itself or as two tags. Whatever
stands among its properties, both ways compile to the same script or fail with the same kind of
error (`Options.compile_emptyElement`). A scan reads the properties alike, and the two ways part at
the end of the tag. There the tag is refused, or it is closed by one token in both ways, or a quote
or a brace is still open and takes in the end of the tag (`Corresponds`).
-/

namespace ElementScript

open Markup (isTagName)

variable {name : Text}

/-- A tag that closes itself. -/
def selfClosed (name properties : Text) : Text :=
  '<' :: (name ++ (properties ++ ['/', '>']))

/-- A tag and its closing tag, with nothing between them. -/
def closedApart (name properties : Text) : Text :=
  '<' :: (name ++ (properties ++ '>' :: '<' :: '/' :: (name ++ ['>'])))

/-! ## Look ahead -/

namespace Lookahead

/-- The look ahead goes no further than a `>`, with or without a slash before it. -/
theorem compares_before_end (seenSpace : Bool) (text first second : Text) :
    compares seenSpace (text ++ '/' :: '>' :: first) =
      compares seenSpace (text ++ '>' :: second) := by
  induction text generalizing seenSpace with
  | nil => cases seenSpace <;> rfl
  | cons character text induction => simp only [List.cons_append, compares, induction]

theorem opensElement_before_end {text : Text} (nonempty : text ≠ []) (first second : Text) :
    opensElement (text ++ '/' :: '>' :: first) = opensElement (text ++ '>' :: second) := by
  cases text with
  | nil => exact absurd rfl nonempty
  | cons character text =>
      simp only [List.cons_append, opensElement, compares_before_end false text first second]

end Lookahead

/-! ## Comments -/

namespace Text

theorem opensNoComment_append {before after : Text} (absent : '/' ∉ before) :
    opensNoComment (before ++ after) = opensNoComment after := by
  induction before with
  | nil => rfl
  | cons first before induction =>
      have parts := List.ne_and_not_mem_of_not_mem_cons absent
      rw [← induction parts.2]
      simp [opensNoComment, holds, after?, parts.1]

theorem opensNoComment_slash {next : Char} {rest : Text} (plain : next ≠ '/' ∧ next ≠ '*')
    (absent : '/' ∉ rest) : opensNoComment ('/' :: next :: rest) := by
  have others : opensNoComment (next :: rest) := by
    rw [← List.append_nil (next :: rest), opensNoComment_append]
    · rfl
    · simpa [Ne.symm plain.1] using absent
  simpa [opensNoComment, holds, after?, Ne.symm plain.1, Ne.symm plain.2] using others

end Text

section Sources

variable {properties : Text}

theorem opensNoComment_selfClosed (named : isTagName name) (plain : '/' ∉ properties) :
    (selfClosed name properties).opensNoComment := by
  have absent : '/' ∉ '<' :: (name ++ properties) := by
    simpa [plain] using Markup.not_mem_tagName named (by decide)
  rw [selfClosed, ← List.append_assoc, ← List.cons_append, Text.opensNoComment_append absent]
  rfl

theorem opensNoComment_closedApart (named : isTagName name) (plain : '/' ∉ properties) :
    (closedApart name properties).opensNoComment := by
  have slash : '/' ∉ name := Markup.not_mem_tagName named (by decide)
  have star : '*' ∉ name := Markup.not_mem_tagName named (by decide)
  have absent : '/' ∉ '<' :: (name ++ (properties ++ ['>', '<'])) := by simp [plain, slash]
  have source : closedApart name properties =
      '<' :: (name ++ (properties ++ ['>', '<'])) ++ '/' :: (name ++ ['>']) := by
    simp [closedApart]
  rw [source, Text.opensNoComment_append absent]
  cases name with
  | nil => cases named
  | cons first others =>
      have slashes := List.ne_and_not_mem_of_not_mem_cons slash
      refine Text.opensNoComment_slash ⟨Ne.symm slashes.1, ?_⟩ (by simpa using slashes.2)
      exact Ne.symm (List.ne_of_not_mem_cons star)

end Sources

/-! ## Scanning -/

/-- How the tokens of an element correspond that is written in two ways, if there are any. -/
inductive Corresponds (name : Text) :
    Except ScanError (List Token) → Except ScanError (List Token) → Prop where
  | refused {first second : ScanError} (kind : first.kind = second.kind) :
      Corresponds name (.error first) (.error second)
  /-- The end of the tag belongs to a value that is not closed. -/
  | unclosed (tokens : List Token) : Corresponds name (.ok tokens) (.ok tokens)
  | closed {start other stop last : Token} {added : List Token}
      (starts : start.kind = .elementStart ∧ other.kind = .elementStart)
      (tags : tagName start.text = name ∧ tagName other.text = name)
      (offset : start.offset = other.offset) (properties : ∀ token ∈ added, token.kind.isProperty)
      (ends : stop.Ends name ∧ last.Ends name) :
      Corresponds name (.ok (start :: (added ++ [stop]))) (.ok (other :: (added ++ [last])))

namespace Scan

variable {start : Token} {scan final : Scan} {named : Bool} {text : Text}

theorem eq_holding (ready : scan.skip = 0) :
    scan = (Scan.ready scan.activity scan.levels scan.position scan.tokens.toList
      scan.calls).holding scan.buffer.toList := by
  rcases scan with ⟨position, skip, buffer, tokens, calls, activity, levels⟩
  cases ready
  simp [Scan.ready, holding]

/-- The text before the end of a tag is refused, or what is left of it is cut. -/
theorem finishProperties_cases (inside : scan.InProperties start) (ready : scan.skip = 0)
    (named : Bool) :
    (∃ value, ∀ input, ∃ location,
        scan.finishProperties input named = .error (.unhandledProperty value location)) ∨
      ∃ tokens, start.BeginsTag tokens ∧ ∀ input, scan.finishProperties input named =
        .ok (Scan.ready scan.activity [] scan.position tokens scan.calls) := by
  rcases scan with ⟨position, skip, buffer, tokens, calls, activity, levels⟩
  cases ready
  cases inside.levels
  unfold finishProperties
  simp only
  split
  · exact Or.inr ⟨tokens.toList, inside.begins, fun _ => rfl⟩
  · split
    · let cut : Token :=
        { kind := propertyKind named
          text := Text.trim buffer.toList
          offset := position - buffer.size }
      have property : cut.kind.isProperty := isProperty_propertyKind named
      refine Or.inr ⟨(tokens.push cut).toList, ?_, fun _ => rfl⟩
      rw [Array.toList_push]
      exact inside.begins.concat property
    · exact Or.inl ⟨_, fun _ => ⟨_, rfl⟩⟩

/-- Property text that is buffered to the end leaves no token. -/
theorem finish_of_pushes {state : Properties} {levels : List Level} {position calls : Nat}
    {tokens : List Token} {held : Text}
    (pushes : ∀ character ∈ text, Pushes (.properties state) character) (input : ScanInput) :
    (((Scan.ready (.properties state) levels position tokens calls).holding held).run input
        text).map finish = .ok tokens := by
  have ran := @run_pushes input levels position calls tokens [] (.properties state) text pushes held
  rw [List.append_nil] at ran
  rw [ran]
  rfl

/-- A closing tag in the braces of a value opens no element. -/
theorem run_braced_closing {depth : Nat} {levels : List Level} {position calls : Nat}
    {tokens : List Token} {held rest : Text} (input : ScanInput) :
    ((Scan.ready (.properties (.braced depth .codeOnly)) levels position tokens calls).holding
        held).run input ('<' :: '/' :: rest) =
      ((Scan.ready (.properties (.braced depth .codeOnly)) levels (position + 1) tokens
        calls).holding (held ++ ['<'])).run input ('/' :: rest) := by
  have stepped : ((Scan.ready (.properties (.braced depth .codeOnly)) levels position tokens
      calls).holding held).step input '<' ('/' :: rest) = .ok (push _ '<') := rfl
  rw [run_cons_of_step stepped]
  simp [Scan.ready, holding, push, advance]

/-- The text after a tag's properties, if it closes itself. -/
theorem finish_closeSelf {activity : Activity} {position calls : Nat} {tokens : List Token}
    (input : ScanInput) :
    ((Scan.ready activity [] position tokens calls).closeSelf.advance.run input ['>']).map finish =
      .ok (tokens ++ [{ kind := .elementEnd, text := ['/', '>'], offset := position }]) := by
  rw [run_closeSelf]
  rfl

/-- The text after a tag's properties, if it is closed by another tag. -/
theorem finish_closingTag (named : isTagName name) {position calls : Nat} {tokens : List Token}
    (input : ScanInput) :
    ((Scan.ready (.children .text) [] position tokens calls).run input
        ('<' :: '/' :: (name ++ ['>']))).map finish =
      .ok (tokens ++ [{ kind := .elementEnd, text := '<' :: '/' :: (name ++ ['>'])
                        offset := position }]) := by
  have opens : Lookahead.opensTag ('/' :: (name ++ ['>'])) :=
    @Markup.opensTag_closing name [] [] named nofun
  have closed := @run_closing_tag input [] position calls tokens [] .text name []
    (Markup.pushes_tagName named) nofun
  rw [run_text_tag opens]
  exact congrArg (Except.map finish) closed

section Ends

variable (first second : ScanInput)

/-- Outside of quotes and braces, the tag is refused or closed. -/
theorem corresponds_outside (inside : scan.InProperties start) (ready : scan.skip = 0)
    (activity : scan.activity = .properties (.outside named)) (isName : isTagName name)
    (starts : start.kind = .elementStart) (tag : tagName start.text = name) :
    Corresponds name ((scan.run first ['/', '>']).map finish)
      ((scan.run second ('>' :: '<' :: '/' :: (name ++ ['>']))).map finish) := by
  have slash : scan.step first '/' ['>'] = _ := step_outside_slash ready activity
  have bracket : scan.step second '>' ('<' :: '/' :: (name ++ ['>'])) = _ :=
    step_outside_bracket ready activity
  rcases finishProperties_cases inside ready named with ⟨value, refused⟩ | ⟨tokens, begins, cut⟩
  · rcases refused first with ⟨here, refusedFirst⟩
    rcases refused second with ⟨there, refusedSecond⟩
    rw [refusedFirst] at slash
    rw [refusedSecond] at bracket
    rw [run, run, slash, bracket]
    exact .refused rfl
  · rw [cut first] at slash
    rw [cut second] at bracket
    rw [run_cons_of_step slash, run_cons_of_step bracket, finish_closeSelf]
    have closed := @finish_closingTag name isName (scan.position + 1) scan.calls tokens second
    refine (congrArg (Corresponds name _) closed).mpr ?_
    rcases begins with ⟨added, rfl, properties⟩
    exact .closed ⟨starts, starts⟩ ⟨tag, tag⟩ rfl properties
      ⟨⟨rfl, Or.inl rfl⟩, rfl, Or.inr (Markup.tagName_end isName)⟩

/-- Inside of quotes, both ends of the tag belong to the value. -/
theorem corresponds_quoted {mark : Char} (ready : scan.skip = 0)
    (activity : scan.activity = .properties (.quoted named mark))
    (quote : mark = '"' ∨ mark = '\'') (isName : isTagName name) :
    Corresponds name ((scan.run first ['/', '>']).map finish)
      ((scan.run second ('>' :: '<' :: '/' :: (name ++ ['>']))).map finish) := by
  have outside : mark ∉ '>' :: '<' :: '/' :: (name ++ ['>']) := by
    have absent : mark ∉ name := by
      rcases quote with rfl | rfl <;> exact Markup.not_mem_tagName isName (by decide)
    rcases quote with rfl | rfl <;> simpa using absent
  have pushes : ∀ character ∈ '>' :: '<' :: '/' :: (name ++ ['>']),
      Pushes (.properties (.quoted named mark)) character := by
    intro character member
    apply pushes_quoted
    rintro rfl
    exact outside member
  have among : ['/', '>'] ⊆ '>' :: '<' :: '/' :: (name ++ ['>']) := by simp
  rw [eq_holding ready, activity, finish_of_pushes fun _ member => pushes _ (among member),
    finish_of_pushes pushes]
  exact .unclosed _

/-- Inside of braces, both ends of the tag belong to the value: a closing tag opens no element. -/
theorem corresponds_braced {depth : Nat} (ready : scan.skip = 0)
    (activity : scan.activity = .properties (.braced depth .codeOnly)) (isName : isTagName name) :
    Corresponds name ((scan.run first ['/', '>']).map finish)
      ((scan.run second ('>' :: '<' :: '/' :: (name ++ ['>']))).map finish) := by
  have absent : '}' ∉ name ∧ '{' ∉ name ∧ '<' ∉ name :=
    ⟨Markup.not_mem_tagName isName (by decide), Markup.not_mem_tagName isName (by decide),
      Markup.not_mem_tagName isName (by decide)⟩
  have pushes : ∀ character ∈ '/' :: (name ++ ['>']),
      Pushes (.properties (.braced depth .codeOnly)) character := by
    intro character member
    apply pushes_braced <;> rintro rfl <;> simp [absent] at member
  have bracket : ['>'] ⊆ '/' :: (name ++ ['>']) := by simp
  have slash : ['/', '>'] ⊆ '/' :: (name ++ ['>']) := by simp
  rw [eq_holding ready, activity, finish_of_pushes fun _ member => pushes _ (slash member),
    ← List.singleton_append, run_pushes fun _ member => pushes _ (bracket member),
    run_braced_closing, finish_of_pushes pushes]
  exact .unclosed _

/-- Wherever the scan is among the properties, both ends of the tag correspond. -/
theorem corresponds_at_end (inside : scan.InProperties start) (ready : scan.skip = 0)
    (isName : isTagName name) (starts : start.kind = .elementStart)
    (tag : tagName start.text = name) :
    Corresponds name ((scan.run first ['/', '>']).map finish)
      ((scan.run second ('>' :: '<' :: '/' :: (name ++ ['>']))).map finish) := by
  rcases inside.activity with ⟨_ | _ | ⟨depth, content⟩, activity, flat⟩
  · exact corresponds_outside first second inside ready activity isName starts tag
  · exact corresponds_quoted first second ready activity flat isName
  · cases flat
    exact corresponds_braced first second ready activity isName

end Ends

/-- The name of a tag and its properties are read in the same way whatever ends the tag. -/
theorem exists_run_tag {blank : Char} (isName : isTagName name) (separates : Text.isBlank blank)
    (plain : ∀ character ∈ text, character ≠ '/' ∧ character ≠ '<' ∧ character ≠ '>') :
    ∃ final : Scan,
      final.InProperties { kind := .elementStart, text := '<' :: name, offset := 0 } ∧
      final.skip = 0 ∧
      ∀ input rest, EndsProperties rest → 0 < input.ceiling →
        Lookahead.opensElement (name ++ blank :: (text ++ rest)) →
        run input {} ('<' :: (name ++ blank :: (text ++ rest))) = final.run input rest := by
  let start : Token := { kind := .elementStart, text := '<' :: name, offset := 0 }
  let opened := Scan.ready (.properties (.outside false)) [] (name.length + 2) [start] 1
  have inside : opened.InProperties start := ⟨⟨_, rfl, trivial⟩, rfl, [], rfl, nofun⟩
  rcases exists_run_properties inside (Nat.zero_le _) plain with ⟨final, finalInside, ready, ran⟩
  refine ⟨final, finalInside, ready, fun input rest ends room opens => ?_⟩
  have space : Text.isBlank ' ' := by decide
  have length : 1 + name.length = 0 + ('<' :: name).length := by simp [Nat.add_comm]
  have nonempty : '<' :: name ≠ ['<'] := by
    rintro ⟨⟩
    cases isName
  rw [← ran input rest ends, run_first_tag opens room,
    run_pushes (Markup.pushes_tagName isName), run_tag_blank rfl rfl separates space, length,
    List.singleton_append, run_holding_tag nonempty ⟨_, Or.inl rfl⟩, run_outside_space]
  congr 2
  simp

end Scan

section Tokens

variable {properties : Text} {ceiling : Nat}

/-- If the `<` opens an element, then it does so in both ways of writing it. -/
theorem opensElement_both (isName : isTagName name)
    (opens : Lookahead.opensElement (name ++ (properties ++ ['>']))) :
    Lookahead.opensElement (name ++ (properties ++ ['/', '>'])) ∧
      Lookahead.opensElement (name ++ (properties ++ '>' :: '<' :: '/' :: (name ++ ['>']))) := by
  have nonempty : name ++ properties ≠ [] := by
    intro empty
    rw [(List.append_eq_nil_iff.mp empty).1] at isName
    cases isName
  have ended := Lookahead.opensElement_before_end nonempty []
  simp only [List.append_assoc] at ended
  exact ⟨(ended []).trans opens, (ended _).symm.trans ((ended []).trans opens)⟩

theorem corresponds_full (isName : isTagName name) (noSlash : '/' ∉ properties)
    (opens : Lookahead.opensElement (name ++ (properties ++ ['>']))) :
    Corresponds name (tokenize (selfClosed name properties) 0)
      (tokenize (closedApart name properties) 0) := by
  have both := opensElement_both isName opens
  have full : ∀ source rest, Lookahead.opensElement rest →
      Scan.run { source, ceiling := 0 } {} ('<' :: rest) = .error (.limitExceeded 0) := by
    intro source rest opensRest
    have stepped : Scan.step { source, ceiling := 0 } {} '<' rest = _ :=
      Scan.step_script_tag rfl rfl opensRest
    rw [Scan.run, stepped]
    rfl
  rw [tokenize_of_opensNoComment (opensNoComment_selfClosed isName noSlash),
    tokenize_of_opensNoComment (opensNoComment_closedApart isName noSlash), selfClosed,
    closedApart, full _ _ both.1, full _ _ both.2]
  exact .refused rfl

theorem corresponds_bare (isName : isTagName name) (room : 1 ≤ ceiling) :
    Corresponds name (tokenize (selfClosed name []) ceiling)
      (tokenize (closedApart name []) ceiling) := by
  let closing : Markup .script := .markup (.selfClosing name .noProperties) .noScript
  let apart : Markup .script := .markup (.paired name .noProperties .noChildren []) .noScript
  have first : selfClosed name [] = closing.render := by simp [selfClosed, closing]
  have second : closedApart name [] = apart.render := by simp [closedApart, apart]
  have noComment := @opensNoComment_selfClosed name [] isName (by simp)
  have noCommentApart := @opensNoComment_closedApart name [] isName (by simp)
  rw [first] at noComment ⊢
  rw [second] at noCommentApart ⊢
  rw [Markup.tokenize_render (Markup.scans closing (by simp [closing, isName])) noComment
      (by simpa [closing] using room),
    Markup.tokenize_render (Markup.scans apart (by simp [apart, isName])) noCommentApart
      (by simpa [apart] using room)]
  exact @Corresponds.closed name { kind := .elementStart, text := '<' :: name, offset := 0 }
    { kind := .elementStart, text := '<' :: (name ++ ['>']), offset := 0 }
    { kind := .elementEnd, text := ['/', '>'], offset := 0 + 1 + name.length + 0 }
    { kind := .elementEnd
      text := '<' :: '/' :: (name ++ ['>'])
      offset := 0 + 1 + name.length + 0 + 1 + 0 + 0 }
    [] ⟨rfl, rfl⟩ ⟨Markup.tagName_start isName, Markup.tagName_bracket isName⟩ rfl nofun
    ⟨⟨rfl, Or.inl rfl⟩, rfl, Or.inr (Markup.tagName_end isName)⟩

/-- The tokens of an empty element correspond in both ways of writing it. -/
theorem corresponds_tokenize (isName : isTagName name)
    (separated : ∀ first ∈ properties.head?, Text.isBlank first)
    (plain : ∀ character ∈ properties, character ≠ '/' ∧ character ≠ '<' ∧ character ≠ '>')
    (opens : Lookahead.opensElement (name ++ (properties ++ ['>']))) (ceiling : Nat) :
    Corresponds name (tokenize (selfClosed name properties) ceiling)
      (tokenize (closedApart name properties) ceiling) := by
  have noSlash : '/' ∉ properties := fun member => (plain _ member).1 rfl
  have both := opensElement_both isName opens
  cases ceiling with
  | zero => exact corresponds_full isName noSlash opens
  | succ ceiling =>
      cases properties with
      | nil => exact corresponds_bare isName (Nat.succ_pos ceiling)
      | cons blank text =>
          have parts := List.forall_mem_cons.mp plain
          rcases Scan.exists_run_tag isName (separated blank rfl) parts.2 with
            ⟨final, inside, ready, ran⟩
          rw [tokenize_of_opensNoComment (opensNoComment_selfClosed isName noSlash),
            tokenize_of_opensNoComment (opensNoComment_closedApart isName noSlash), selfClosed,
            closedApart]
          simp only [List.cons_append] at both ⊢
          rw [ran _ _ ⟨_, Or.inl rfl⟩ (Nat.succ_pos ceiling) both.1,
            ran _ _ ⟨_, Or.inr rfl⟩ (Nat.succ_pos ceiling) both.2]
          exact Scan.corresponds_at_end _ _ inside ready isName rfl (Markup.tagName_start isName)

end Tokens

/-! ## Building the tree -/

namespace TreeBuilder

variable {input : TreeInput} {builder next : TreeBuilder} {element : OpenElement} {token : Token}

/-- A name or a value of a property neither renames the only open element nor opens a region in
it. -/
theorem Reads.of_property (reads : Reads input builder token next)
    (property : token.kind.isProperty) (stack : builder.stack = [element])
    (outside : element.region = none) :
    ∃ changed : OpenElement, next.stack = [changed] ∧ changed.region = none ∧
      changed.name = element.name := by
  cases reads with
  | code _ kind room => simp [kind, Token.Kind.isProperty] at property
  | start kind room => simp [kind, Token.Kind.isProperty] at property
  | region _ _ kind room => simp [kind, Token.Kind.isProperty] at property
  | close _ _ ends => simp [ends.1, Token.Kind.isProperty] at property
  | take top taken =>
      rw [stack] at top
      cases top
      cases taken with
      | name _ kind => exact ⟨_, rfl, by simp [outside], by simp⟩
      | value _ waiting kind => exact ⟨_, rfl, outside, rfl⟩
      | child _ kind =>
          cases shape : token.kind <;> simp_all [Token.Kind.isChild, Token.Kind.isProperty]
      | part inside kind => simp [outside] at inside
      | regionEnd inside kind => simp [outside] at inside

/-- After properties, every token that may end the element ends it in the same way. -/
theorem run_closed {added : List Token} {stop last : Token}
    (properties : ∀ token ∈ added, token.kind.isProperty) (stack : builder.stack = [element])
    (outside : element.region = none) (ends : stop.Ends element.name ∧ last.Ends element.name) :
    builder.run input (added ++ [stop]) = builder.run input (added ++ [last]) := by
  induction added generalizing builder element with
  | nil =>
      have first := @step_of_reads input _ _ _ (.close stack outside ends.1)
      have second := @step_of_reads input _ _ _ (.close stack outside ends.2)
      rw [List.nil_append, List.nil_append, run, run, first, second]
  | cons token added induction =>
      have parts := List.forall_mem_cons.mp properties
      rw [List.cons_append, List.cons_append, run, run]
      cases stepped : builder.step input token with
      | error error => rfl
      | ok next =>
          rcases (step_eq_ok_iff.mp stepped).of_property parts.1 stack outside with
            ⟨changed, nextStack, nextOutside, sameName⟩
          rw [← sameName] at ends
          exact @induction next.advance changed parts.2 nextStack nextOutside ends

end TreeBuilder

/-- The tokens of an empty element form the same tree in both ways of writing it. -/
theorem Program.ofTokens_closed {input : TreeInput} {start other stop last : Token}
    {added : List Token} (nonempty : name ≠ [])
    (starts : start.kind = .elementStart ∧ other.kind = .elementStart)
    (tags : tagName start.text = name ∧ tagName other.text = name)
    (offset : start.offset = other.offset) (properties : ∀ token ∈ added, token.kind.isProperty)
    (ends : stop.Ends name ∧ last.Ends name) :
    ofTokens input (start :: (added ++ [stop])) = ofTokens input (other :: (added ++ [last])) := by
  have opened : ({} : TreeBuilder).step input start = ({} : TreeBuilder).step input other := by
    rw [TreeBuilder.step_start starts.1, TreeBuilder.step_start starts.2]
    simp only [TreeBuilder.openElement, tags, offset]
  have ran : ({} : TreeBuilder).run input (start :: (added ++ [stop])) =
      ({} : TreeBuilder).run input (other :: (added ++ [last])) := by
    rw [TreeBuilder.run, TreeBuilder.run, ← opened]
    by_cases room : 0 < input.ceiling
    · have named : elementName input.fragment start = name := by
        simp [elementName, tags.1, nonempty]
      have reads := @TreeBuilder.Reads.start input {} start starts.1 room
      rw [TreeBuilder.step_of_reads reads, named]
      exact TreeBuilder.run_closed properties rfl rfl ends
    · have full := @TreeBuilder.Rejects.full input {} start (Or.inl starts.1) (Nat.not_lt.mp room)
      rw [TreeBuilder.step_of_rejects full]
  rw [ofTokens, ofTokens, ran]

/-! ## Compiling -/

namespace Options

/-- An empty element compiles to the same script in both ways of writing it, or fails with the same
kind of error, whatever stands among its properties. The properties are anything that does not end
the tag or start another one and that does not hide from the look ahead that the `<` is one of an
element. -/
theorem compile_emptyElement {options : Options} {properties : Text}
    (direct : options.skipCompiled = false) (isName : isTagName name)
    (separated : ∀ first ∈ properties.head?, Text.isBlank first)
    (plain : ∀ character ∈ properties, character ≠ '/' ∧ character ≠ '<' ∧ character ≠ '>')
    (opens : Lookahead.opensElement (name ++ (properties ++ ['>']))) :
    (options.compile (selfClosed name properties)).mapError CompileError.kind =
      (options.compile (closedApart name properties)).mapError CompileError.kind := by
  have noSlash : '/' ∉ properties := fun member => (plain _ member).1 rfl
  have nonempty : name ≠ [] := by
    rintro rfl
    cases isName
  have uncommented := opensNoComment_selfClosed isName noSlash
  have uncommentedApart := opensNoComment_closedApart isName noSlash
  have corresponds := corresponds_tokenize isName separated plain opens options.ceiling
  generalize first : tokenize (selfClosed name properties) options.ceiling = one at corresponds
  generalize second : tokenize (closedApart name properties) options.ceiling = two at corresponds
  cases corresponds with
  | refused kind =>
      rw [compile_of_scanError direct first, compile_of_scanError direct second]
      exact congrArg (fun kind => Except.error (CompileError.Kind.scan kind)) kind
  | unclosed tokens =>
      rw [compile_of_tokens direct uncommented first,
        compile_of_tokens direct uncommentedApart second]
  | closed starts tags offset added ends =>
      rw [compile_of_tokens direct uncommented first,
        compile_of_tokens direct uncommentedApart second, outcome, outcome,
        Program.ofTokens_closed nonempty starts tags offset added ends]

/-- Properties that are as they should be, a number that is not a name, and a brace that is not
closed. -/
theorem compile_emptyElement_samples :
    let options : Options := { skipCompiled := false }
    let outcomes (properties : Text) :=
      ((options.compile (selfClosed "a".toList properties)).mapError CompileError.kind,
        (options.compile (closedApart "a".toList properties)).mapError CompileError.kind)
    (outcomes " b=\"1\" c".toList).1 = (outcomes " b=\"1\" c".toList).2 ∧
      outcomes "\t2$".toList =
        (.error (.scan .unhandledProperty), .error (.scan .unhandledProperty)) ∧
      outcomes " b = \x7b c".toList =
        (.error (.tree .unbalancedElements), .error (.tree .unbalancedElements)) := by
  intro options outcomes
  have refused : (outcomes "\t2$".toList).2 = .error (.scan .unhandledProperty) := by rfl
  have unclosed : (outcomes " b = \x7b c".toList).2 = .error (.tree .unbalancedElements) := by rfl
  have same (properties : Text) (separated : ∀ first ∈ properties.head?, Text.isBlank first)
      (plain : ∀ character ∈ properties, character ≠ '/' ∧ character ≠ '<' ∧ character ≠ '>')
      (opens : Lookahead.opensElement ("a".toList ++ (properties ++ ['>']))) :
      (outcomes properties).1 = (outcomes properties).2 :=
    compile_emptyElement rfl (by decide) separated plain opens
  refine ⟨same _ (by simp [Text.isBlank]) (by simp) (by decide), Prod.ext ?_ refused,
    Prod.ext ?_ unclosed⟩
  · exact (same _ (by simp [Text.isBlank]) (by simp) (by decide)).trans refused
  · exact (same _ (by simp [Text.isBlank]) (by simp) (by decide)).trans unclosed

end Options

end ElementScript
