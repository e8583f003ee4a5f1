import ElementScript.Proofs.Markup.Names
import ElementScript.Proofs.Comment

/-! # Scanning markup

`Markup.tokens` are the tokens of a piece of markup at an offset. A scan that meets the text of the
piece, in any state in which it may stand, cuts exactly these tokens and goes on after it
(`Markup.scans`). What a scan does with one kind of piece is a statement of its own, from what it
does with the pieces inside, and the whole is an induction over the markup.
-/

namespace ElementScript.Markup

open Scan (ready resumed EndsProperty EndsText)

variable {role : Role}

/-- The text of a tag as a scan cuts it before its properties: the end of the tag belongs to it if
there are none. -/
def openTag (name : Text) : Markup .properties → Text
  | .noProperties => '<' :: (name ++ ['>'])
  | _ => '<' :: name

/-- Code between two elements of a region is a token if there is any. -/
def codeTokens (offset : Nat) (code : Text) : List Token :=
  if code.isEmpty then [] else [{ kind := .childCode, text := code, offset }]

/-- The token of a text between tags. -/
def textToken (offset : Nat) (content : Text) : Token :=
  { kind := if content.isAllWhitespace then .childWhitespace else .childText
    text := content
    offset }

/-- The tokens of a piece of markup at an offset. -/
@[simp] def tokens : {role : Role} → (offset : Nat) → Markup role → List Token
  | _, offset, .selfClosing name properties =>
      let inside := offset + 1 + name.length
      { kind := .elementStart, text := '<' :: name, offset } ::
        (properties.tokens inside ++
          [{ kind := .elementEnd, text := ['/', '>'], offset := inside + properties.length }])
  | _, offset, .paired name properties children blanks =>
      let inside := offset + 1 + name.length
      let between := inside + properties.length + 1
      { kind := .elementStart, text := openTag name properties, offset } ::
        (properties.tokens inside ++ (children.tokens between ++
          [{ kind := .elementEnd
             text := '<' :: '/' :: (name ++ ['>'])
             offset := between + children.length + blanks.length }]))
  | _, _, .noProperties => []
  | _, offset, .bare name others =>
      { kind := .propertyName, text := name, offset := offset + 1 } ::
        others.tokens (offset + 1 + name.length)
  | _, offset, .quoted name value others =>
      let start := offset + 1 + name.length + 2
      { kind := .propertyName, text := name, offset := offset + 1 } ::
        { kind := .propertyValue, text := value.quote, offset := start } ::
        others.tokens (start + value.length + 1)
  | _, offset, .braced name code others =>
      let start := offset + 1 + name.length + 2
      { kind := .propertyName, text := name, offset := offset + 1 } ::
        { kind := .propertyValue, text := code, offset := start } ::
        others.tokens (start + code.length + 1)
  | _, offset, .nested name value others =>
      let start := offset + 1 + name.length + 2
      { kind := .propertyName, text := name, offset := offset + 1 } ::
        (value.tokens start ++ others.tokens (start + value.length + 1))
  | _, _, .noChildren => []
  | _, offset, .text content others =>
      textToken offset content :: others.tokens (offset + content.length)
  | _, offset, .bracedCode code others =>
      { kind := .childCode, text := code, offset := offset + 1 } ::
        others.tokens (offset + 1 + code.length + 1)
  | _, offset, .child element others =>
      element.tokens offset ++ others.tokens (offset + element.length)
  | _, offset, .region first parts others =>
      let start := offset + 1
      { kind := .fragmentStart, text := first, offset := start } ::
        (parts.tokens (start + first.length) ++
          others.tokens (start + first.length + parts.length))
  | _, offset, .lastPart element code =>
      element.tokens offset ++
        [{ kind := .fragmentEnd, text := code, offset := offset + element.length }]
  | _, offset, .part element code others =>
      let start := offset + element.length
      element.tokens offset ++ (codeTokens start code ++ others.tokens (start + code.length))
  | _, _, .noScript => []
  | _, offset, .plain code others =>
      { kind := .code, text := code, offset } :: others.tokens (offset + code.length)
  | _, offset, .markup element others =>
      element.tokens offset ++ others.tokens (offset + element.length)

/-- The number of elements that are scanned on their own: those of the script and those that are
values. -/
@[simp] def entries : {role : Role} → Markup role → Nat
  | _, .selfClosing _ properties => properties.entries
  | _, .paired _ properties children _ => properties.entries + children.entries
  | _, .noProperties => 0
  | _, .bare _ others => others.entries
  | _, .quoted _ _ others => others.entries
  | _, .braced _ _ others => others.entries
  | _, .nested _ value others => 1 + value.entries + others.entries
  | _, .noChildren => 0
  | _, .text _ others => others.entries
  | _, .bracedCode _ others => others.entries
  | _, .child element others => element.entries + others.entries
  | _, .region _ parts others => parts.entries + others.entries
  | _, .lastPart element _ => element.entries
  | _, .part element _ others => element.entries + others.entries
  | _, .noScript => 0
  | _, .plain _ others => others.entries
  | _, .markup element others => 1 + element.entries + others.entries

/-- The text of an element after its first `<`. -/
@[simp] def body : Markup .element → Text
  | .selfClosing name properties => name ++ (properties.render ++ ['/', '>'])
  | .paired name properties children blanks =>
      name ++ (properties.render ++
        '>' :: (children.render ++ '<' :: '/' :: (name ++ (blanks ++ ['>']))))

theorem render_eq_cons_body : (element : Markup .element) → element.render = '<' :: element.body
  | .selfClosing name properties => by simp [render, body]
  | .paired name properties children blanks => by simp [render, body]

/-- Whether a text begins with the end of an open tag. -/
def EndsTag (rest : Text) : Prop :=
  ∃ others, rest = '/' :: '>' :: others ∨ rest = '>' :: others

/-- Whether a text begins with a tag. -/
def StartsTag (rest : Text) : Prop :=
  ∃ others, rest = '<' :: others ∧ Lookahead.opensTag others

/-- What it is for a scan to read a piece of markup wherever it may stand. -/
def Scans : {role : Role} → Markup role → Prop
  | .element, element => ∀ ⦃input levels start tokens calls rest⦄,
      calls + element.entries ≤ input.ceiling →
      ((ready (.tag false) levels (start + 1) tokens calls).holding ['<']).run input
          (element.body ++ rest) =
        (resumed levels (start + element.length) (tokens ++ element.tokens start)
          (calls + element.entries)).run input rest
  | .properties, properties => ∀ ⦃input levels start tokens calls rest⦄,
      calls + properties.entries ≤ input.ceiling → EndsTag rest →
      (ready (.properties (.outside false)) levels start tokens calls).run input
          (properties.render ++ rest) =
        (ready (.properties (.outside false)) levels (start + properties.length)
          (tokens ++ properties.tokens start) (calls + properties.entries)).run input rest
  | .children, children => ∀ ⦃input levels start tokens calls rest⦄,
      calls + children.entries ≤ input.ceiling → StartsTag rest →
      (ready (.children .text) levels start tokens calls).run input (children.render ++ rest) =
        (ready (.children .text) levels (start + children.length)
          (tokens ++ children.tokens start) (calls + children.entries)).run input rest
  | .parts, parts => ∀ ⦃input levels start tokens calls rest⦄,
      calls + parts.entries ≤ input.ceiling →
      (ready (.children (.code 0 true)) levels start tokens calls).run input
          (parts.render ++ rest) =
        (ready (.children .text) levels (start + parts.length) (tokens ++ parts.tokens start)
          (calls + parts.entries)).run input rest
  | .script, script => ∀ ⦃input start tokens calls⦄,
      calls + script.entries ≤ input.ceiling →
      ((ready (.code none) [] start tokens calls).run input script.render).map Scan.finish =
        .ok (tokens ++ script.tokens start)

section Congruence

variable {input : ScanInput} {levels : List Scan.Level}
  {position otherPosition calls otherCalls : Nat} {tokens otherTokens : List Token} {rest : Text}

theorem run_ready_congr {activity : Scan.Activity} (samePosition : position = otherPosition)
    (sameTokens : tokens = otherTokens) (sameCalls : calls = otherCalls) :
    (ready activity levels position tokens calls).run input rest =
      (ready activity levels otherPosition otherTokens otherCalls).run input rest := by
  rw [samePosition, sameTokens, sameCalls]

theorem run_resumed_congr (samePosition : position = otherPosition)
    (sameTokens : tokens = otherTokens) (sameCalls : calls = otherCalls) :
    (resumed levels position tokens calls).run input rest =
      (resumed levels otherPosition otherTokens otherCalls).run input rest := by
  rw [samePosition, sameTokens, sameCalls]

end Congruence

/-! ## Properties -/

section Code

variable {code : Text}

theorem pushes_braced_of_isCode (inside : isCode code) :
    ∀ character ∈ code, Scan.Pushes (.properties (.braced 0 .codeOnly)) character := by
  simp only [isCode, List.all_eq_true, Bool.and_eq_true, decide_eq_true_eq] at inside
  intro character member
  have differs := inside character member
  exact Scan.pushes_braced differs.2 differs.1.2 differs.1.1

theorem pushes_code_of_isCode {holdsElements : Bool} (inside : isCode code) :
    ∀ character ∈ code, Scan.Pushes (.children (.code 0 holdsElements)) character := by
  simp only [isCode, List.all_eq_true, Bool.and_eq_true, decide_eq_true_eq] at inside
  intro character member
  have differs := inside character member
  exact Scan.pushes_code differs.2 differs.1.2 differs.1.1

end Code

section Properties

variable {name : Text} {others : Markup .properties} {rest : Text}

/-- Whatever comes after a property, a space or the end of the tag comes first. -/
theorem endsProperty_render (ends : EndsTag rest) (properties : Markup .properties) :
    EndsProperty (properties.render ++ rest) := by
  cases properties with
  | noProperties =>
      rcases ends with ⟨others, equal⟩
      exact ⟨others, Or.inr equal⟩
  | bare name others => exact ⟨_, Or.inl rfl⟩
  | quoted name value others => exact ⟨_, Or.inl rfl⟩
  | braced name code others => exact ⟨_, Or.inl rfl⟩
  | nested name value others => exact ⟨_, Or.inl rfl⟩

theorem scans_noProperties : Scans .noProperties := by
  intro input levels start tokens calls rest room ends
  simp [render, length, Markup.tokens, entries]

theorem scans_bare (word : IsWord name) (read : others.Scans) : Scans (.bare name others) := by
  intro input levels start tokens calls rest room ends
  have solid := isAllWhitespace_eq_false word.nonempty word.solid
  have trimmed := trim_eq_self word.solid
  simp only [render, List.cons_append, List.append_assoc]
  rw [Scan.run_outside_space, Scan.run_pushes_ready word.pushes,
    Scan.run_holding_outside word.standalone trimmed solid (endsProperty_render ends others),
    read room ends]
  apply run_ready_congr
  · simp [length, render]
    omega
  · simp [Markup.tokens]
  · rfl

theorem scans_quoted {value : Text} (word : IsWord name) (plain : '"' ∉ value)
    (read : others.Scans) : Scans (.quoted name value others) := by
  intro input levels start tokens calls rest room ends
  have solid := isAllWhitespace_eq_false word.nonempty word.solid
  have pushes : ∀ character ∈ value,
      Scan.Pushes (.properties (.quoted true '"')) character := by
    intro character member
    apply Scan.pushes_quoted
    rintro rfl
    exact plain member
  simp only [render, List.cons_append, List.append_assoc]
  rw [Scan.run_outside_space, Scan.run_pushes_ready word.pushes, Scan.run_equals_quote solid,
    Scan.run_pushes_ready pushes, Scan.run_quoted_end, read room ends]
  apply run_ready_congr
  · simp [length, render]
    omega
  · simp [Markup.tokens]
  · rfl

theorem scans_braced {code : Text} (word : IsWord name) (inside : isCode code)
    (solid : code.isAllWhitespace = false) (read : others.Scans) :
    Scans (.braced name code others) := by
  intro input levels start tokens calls rest room ends
  have named := isAllWhitespace_eq_false word.nonempty word.solid
  simp only [render, List.cons_append, List.append_assoc]
  rw [Scan.run_outside_space, Scan.run_pushes_ready word.pushes, Scan.run_equals_brace named,
    Scan.run_pushes_ready (pushes_braced_of_isCode inside), Scan.run_braced_end solid,
    read room ends]
  apply run_ready_congr
  · simp [length, render]
    omega
  · simp [Markup.tokens]
  · rfl

theorem scans_nested {value : Markup .element} (word : IsWord name)
    (opens : ∀ rest, Lookahead.opensElement (value.body ++ rest)) (readValue : value.Scans)
    (read : others.Scans) : Scans (.nested name value others) := by
  intro input levels start tokens calls rest room ends
  have named := isAllWhitespace_eq_false word.nonempty word.solid
  rw [entries] at room
  simp only [render, render_eq_cons_body, List.cons_append, List.append_assoc]
  rw [Scan.run_outside_space, Scan.run_pushes_ready word.pushes, Scan.run_equals_brace named,
    Scan.run_braced_tag (opens _) (by omega), readValue (by omega), Scan.resumed_value,
    Scan.run_braced_element_end, read (by omega) ends]
  apply run_ready_congr
  · simp [length, render]
    omega
  · simp [Markup.tokens]
  · rw [entries]
    omega

end Properties

/-! ## Elements -/

section Elements

variable {name : Text} {properties : Markup .properties} {children : Markup .children}
  {blanks : Text}

theorem opensElement_selfClosing (named : isTagName name) (formed : properties.wellFormed)
    (rest : Text) : Lookahead.opensElement ((selfClosing name properties).body ++ rest) := by
  simp only [body, List.append_assoc]
  exact opensElement_tagName named (compares_properties compares_slash_bracket properties formed)

theorem opensElement_paired (named : isTagName name) (formed : properties.wellFormed)
    (rest : Text) :
    Lookahead.opensElement ((paired name properties children blanks).body ++ rest) := by
  simp only [body, List.append_assoc]
  exact opensElement_tagName named (compares_properties compares_bracket properties formed)

/-- The `<` of a well-formed element never looks like a comparison. -/
theorem opensElement_body : (element : Markup .element) → element.wellFormed → (rest : Text) →
    Lookahead.opensElement (element.body ++ rest)
  | .selfClosing name properties, formed, rest => by
      simp only [wellFormed, Bool.and_eq_true] at formed
      exact opensElement_selfClosing formed.1 formed.2 rest
  | .paired name properties children blanks, formed, rest => by
      simp only [wellFormed, Bool.and_eq_true] at formed
      exact opensElement_paired formed.1.1.1.1 formed.1.1.1.2 rest

private theorem length_tag (start : Nat) (name : Text) :
    start + ('<' :: name).length = start + 1 + name.length := by
  rw [List.length_cons, Nat.add_comm name.length, Nat.add_assoc]

private theorem tag_ne (named : isTagName name) : '<' :: name ≠ ['<'] := by
  intro equal
  cases equal
  cases named

theorem scans_selfClosing (named : isTagName name) (read : properties.Scans) :
    Scans (.selfClosing name properties) := by
  intro input levels start tokens calls rest room
  have ends : ∃ others, properties.render ++ '/' :: '>' :: rest = ' ' :: others ∨
      properties.render ++ '/' :: '>' :: rest = '/' :: '>' :: others := by
    cases properties <;> simp [render]
  simp only [body, List.append_assoc, List.cons_append, List.nil_append]
  rw [Scan.run_pushes (pushes_tagName named), ← length_tag, List.singleton_append,
    Scan.run_holding_tag (tag_ne named) ends, length_tag, read room ⟨rest, Or.inl rfl⟩,
    Scan.run_outside_slash]
  apply run_resumed_congr
  · simp [length, render]
    omega
  · simp [Markup.tokens]
  · rfl

/-- A tag with its properties, up to the `>` after which the children come. -/
theorem run_openTag (named : isTagName name) (read : properties.Scans) {input : ScanInput}
    {levels : List Scan.Level} {start calls : Nat} {tokens : List Token} {rest : Text}
    (room : calls + properties.entries ≤ input.ceiling) :
    ((ready (.tag false) levels (start + 1) tokens calls).holding ['<']).run input
        (name ++ (properties.render ++ '>' :: rest)) =
      (ready (.children .text) levels (start + 1 + name.length + properties.length + 1)
        (tokens ++ { kind := .elementStart, text := openTag name properties, offset := start } ::
          properties.tokens (start + 1 + name.length))
        (calls + properties.entries)).run input rest := by
  rw [Scan.run_pushes (pushes_tagName named), ← length_tag, List.singleton_append]
  by_cases plain : properties = .noProperties
  · subst plain
    exact Scan.run_tag_bracket
  · have tag : openTag name properties = '<' :: name := by
      cases properties with
      | noProperties => exact absurd rfl plain
      | _ => rfl
    have ends : ∃ others, properties.render ++ '>' :: rest = ' ' :: others ∨
        properties.render ++ '>' :: rest = '/' :: '>' :: others := by
      cases properties with
      | noProperties => exact absurd rfl plain
      | _ => exact ⟨_, Or.inl rfl⟩
    rw [Scan.run_holding_tag (tag_ne named) ends, length_tag, read room ⟨rest, Or.inr rfl⟩,
      Scan.run_outside_bracket, tag, List.append_assoc, List.singleton_append]

theorem scans_paired (named : isTagName name) (readProperties : properties.Scans)
    (readChildren : children.Scans) (blank : ∀ character ∈ blanks, Text.isBlank character) :
    Scans (.paired name properties children blanks) := by
  intro input levels start tokens calls rest room
  rw [entries] at room
  have opens : Lookahead.opensTag ('/' :: (name ++ (blanks ++ '>' :: rest))) :=
    opensTag_closing named blank
  simp only [body, List.append_assoc, List.cons_append, List.nil_append]
  rw [run_openTag named readProperties (by omega),
    readChildren (by omega) ⟨_, rfl, opens⟩, Scan.run_text_tag opens,
    Scan.run_closing_tag (pushes_tagName named) blank]
  apply run_resumed_congr
  · simp [length, render]
    omega
  · simp [Markup.tokens]
  · rw [entries]
    omega

end Elements

/-! ## Children -/

section Children

variable {others : Markup .children}

/-- Whatever comes after a text, a brace or a tag comes first. -/
theorem endsText_render {rest : Text} (closes : StartsTag rest) (formed : others.wellFormed)
    (apart : others.startsWithText = false) : EndsText (others.render ++ rest) := by
  cases others with
  | noChildren =>
      rcases closes with ⟨closing, equal⟩
      exact ⟨closing, Or.inr equal⟩
  | text content others => cases apart
  | bracedCode code others => exact ⟨_, Or.inl rfl⟩
  | region first parts others => exact ⟨_, Or.inl rfl⟩
  | child element others =>
      simp only [wellFormed, Bool.and_eq_true] at formed
      refine ⟨element.body ++ (others.render ++ rest), Or.inr ⟨?_, ?_⟩⟩
      · simp [render, render_eq_cons_body]
      · exact Lookahead.opensTag_of_opensElement (opensElement_body element formed.1 _)

theorem scans_noChildren : Scans .noChildren := by
  intro input levels start tokens calls rest room closes
  simp [render, length, Markup.tokens, entries]

theorem scans_text {content : Text} (inside : isContent content) (formed : others.wellFormed)
    (apart : others.startsWithText = false) (read : others.Scans) :
    Scans (.text content others) := by
  intro input levels start tokens calls rest room closes
  simp only [isContent, Bool.and_eq_true, Bool.not_eq_true', List.isEmpty_eq_false_iff,
    List.all_eq_true, decide_eq_true_eq] at inside
  have pushes : ∀ character ∈ content, Scan.Pushes (.children .text) character := by
    intro character member
    have differs := inside.2 character member
    exact Scan.pushes_text differs.2 differs.1
  rw [render, List.append_assoc, Scan.run_pushes_ready pushes,
    Scan.run_holding_text inside.1 (endsText_render closes formed apart), read room closes]
  apply run_ready_congr
  · simp [length, render]
    omega
  · simp [Markup.tokens, textToken]
  · rfl

theorem scans_bracedCode {code : Text} (inside : isCode code)
    (solid : code.isAllWhitespace = false) (read : others.Scans) :
    Scans (.bracedCode code others) := by
  intro input levels start tokens calls rest room closes
  simp only [render, List.cons_append, List.append_assoc]
  rw [Scan.run_text_brace, Scan.run_pushes_ready (pushes_code_of_isCode inside),
    Scan.run_code_end solid, read room closes]
  apply run_ready_congr
  · simp [length, render]
    omega
  · simp [Markup.tokens]
  · rfl

theorem scans_child {element : Markup .element}
    (opens : ∀ rest, Lookahead.opensElement (element.body ++ rest)) (readElement : element.Scans)
    (read : others.Scans) : Scans (.child element others) := by
  intro input levels start tokens calls rest room closes
  rw [entries] at room
  simp only [render, render_eq_cons_body, List.cons_append, List.append_assoc]
  rw [Scan.run_text_tag (Lookahead.opensTag_of_opensElement (opens _)), readElement (by omega),
    Scan.resumed_children, read (by omega) closes]
  apply run_ready_congr
  · simp [length, render]
    omega
  · simp [Markup.tokens]
  · rw [entries]
    omega

end Children

/-! ## Regions -/

section Regions

theorem startsTag_element {element : Markup .element} (formed : element.wellFormed)
    (rest : Text) : StartsTag (element.render ++ rest) := by
  rw [render_eq_cons_body]
  exact ⟨_, rfl, Lookahead.opensTag_of_opensElement (opensElement_body element formed rest)⟩

theorem startsTag_parts (rest : Text) :
    (parts : Markup .parts) → parts.wellFormed → StartsTag (parts.render ++ rest)
  | .lastPart element code, formed => by
      simp only [wellFormed, Bool.and_eq_true] at formed
      simp only [render, List.append_assoc]
      exact startsTag_element formed.1 _
  | .part element code others, formed => by
      simp only [wellFormed, Bool.and_eq_true] at formed
      simp only [render, List.append_assoc]
      exact startsTag_element formed.1.1 _

variable {input : ScanInput} {levels : List Scan.Level} {start calls : Nat}
  {tokens : List Token} {rest code : Text}

theorem run_regionElement {element : Markup .element} (formed : element.wellFormed)
    (read : element.Scans) (room : calls + element.entries ≤ input.ceiling) :
    (ready (.children (.code 0 true)) levels start tokens calls).run input
        (element.render ++ rest) =
      (ready (.children (.code 0 true)) levels (start + element.length)
        (tokens ++ element.tokens start) (calls + element.entries)).run input rest := by
  have opens := opensElement_body element formed rest
  rw [render_eq_cons_body, List.cons_append,
    Scan.run_code_tag (Lookahead.opensTag_of_opensElement opens), read room,
    Scan.resumed_children]

/-- Between two elements of a region, code is cut and nothing is left out. -/
theorem run_regionCode (inside : isCode code) (starts : StartsTag rest) :
    (ready (.children (.code 0 true)) levels start tokens calls).run input (code ++ rest) =
      (ready (.children (.code 0 true)) levels (start + code.length)
        (tokens ++ codeTokens start code) calls).run input rest := by
  cases empty : code.isEmpty with
  | true =>
      rw [List.isEmpty_iff.mp empty]
      simp [codeTokens]
  | false =>
      rcases starts with ⟨others, rfl, opens⟩
      rw [Scan.run_pushes_ready (pushes_code_of_isCode inside),
        Scan.run_holding_part opens (List.isEmpty_eq_false_iff.mp empty), codeTokens, empty]
      rfl

theorem scans_lastPart {element : Markup .element} (formed : element.wellFormed)
    (read : element.Scans) (inside : isCode code) : Scans (.lastPart element code) := by
  intro input levels start tokens calls rest room
  simp only [render, List.append_assoc, List.cons_append, List.nil_append]
  rw [run_regionElement formed read room,
    Scan.run_pushes_ready (pushes_code_of_isCode inside), Scan.run_region_end]
  apply run_ready_congr
  · simp [length, render]
    omega
  · simp [Markup.tokens]
  · rfl

theorem scans_part {element : Markup .element} {others : Markup .parts}
    (formed : element.wellFormed) (readElement : element.Scans) (inside : isCode code)
    (formedOthers : others.wellFormed) (read : others.Scans) :
    Scans (.part element code others) := by
  intro input levels start tokens calls rest room
  rw [entries] at room
  simp only [render, List.append_assoc]
  rw [run_regionElement formed readElement (by omega),
    run_regionCode inside (startsTag_parts rest others formedOthers), read (by omega)]
  apply run_ready_congr
  · simp [length, render]
    omega
  · simp [Markup.tokens]
  · rw [entries]
    omega

theorem scans_region {parts : Markup .parts} {others : Markup .children}
    (inside : isCode code) (formed : parts.wellFormed) (readParts : parts.Scans)
    (read : others.Scans) : Scans (.region code parts others) := by
  intro input levels start tokens calls rest room closes
  rw [entries] at room
  rcases startsTag_parts (others.render ++ rest) parts formed with ⟨after, starts, opens⟩
  have opened := @Scan.run_holding_first input levels (start + 1) calls tokens after code opens
  rw [← starts] at opened
  simp only [render, List.cons_append, List.append_assoc]
  rw [Scan.run_text_brace, Scan.run_pushes_ready (pushes_code_of_isCode inside), opened,
    readParts (by omega), read (by omega) closes]
  apply run_ready_congr
  · simp [length, render]
    omega
  · simp [Markup.tokens]
  · rw [entries]
    omega

end Regions

/-! ## Scripts -/

section Scripts

variable {others : Markup .script}

theorem scans_noScript : Scans .noScript := by
  intro input start tokens calls room
  change Except.ok (Scan.finish (ready (.code none) [] start tokens calls)) = _
  rw [Scan.finish_ready]
  simp [Markup.tokens]

theorem scans_markup {element : Markup .element}
    (opens : ∀ rest, Lookahead.opensElement (element.body ++ rest)) (readElement : element.Scans)
    (read : others.Scans) : Scans (.markup element others) := by
  intro input start tokens calls room
  rw [entries] at room
  simp only [render, render_eq_cons_body, List.cons_append]
  rw [Scan.run_script_tag (opens _) (by omega), readElement (by omega), Scan.resumed_script,
    read (by omega)]
  simp [Markup.tokens]

theorem scans_plain {code : Text} (inside : isPlainCode code) (formed : others.wellFormed)
    (apart : others.startsWithPlain = false) (read : others.Scans) :
    Scans (.plain code others) := by
  intro input start tokens calls room
  simp only [isPlainCode, Bool.and_eq_true, Bool.not_eq_true', List.isEmpty_eq_false_iff,
    List.all_eq_true, decide_eq_true_eq] at inside
  have pushes : ∀ character ∈ code, Scan.Pushes (.code none) character := by
    intro character member
    have differs := inside.2 character member
    exact Scan.pushes_script differs.1 differs.2
  rw [render, Scan.run_pushes_ready pushes]
  cases others with
  | plain code others => cases apart
  | noScript =>
      change Except.ok (Scan.finish _) = _
      rw [Scan.finish_holding inside.1]
      rfl
  | markup element others =>
      simp only [wellFormed, Bool.and_eq_true] at formed
      have opens := opensElement_body element formed.1 others.render
      have cut := @Scan.run_holding_script input start calls tokens
        (element.body ++ others.render) code inside.1 opens
      rw [← List.cons_append, ← render_eq_cons_body] at cut
      change Except.map _ (Scan.run input _ (element.render ++ others.render)) = _
      rw [cut]
      apply (read room).trans
      simp [Markup.tokens]

end Scripts

/-- A scan reads every well-formed piece of markup, wherever the piece may stand. -/
theorem scans (markup : Markup role) (formed : markup.wellFormed) : markup.Scans := by
  induction markup with
  | selfClosing name properties induction =>
      simp only [wellFormed, Bool.and_eq_true] at formed
      exact scans_selfClosing formed.1 (induction formed.2)
  | paired name properties children blanks inProperties inChildren =>
      simp only [wellFormed, Bool.and_eq_true, List.all_eq_true] at formed
      exact scans_paired formed.1.1.1.1 (inProperties formed.1.1.1.2)
        (inChildren formed.1.2) formed.2
  | noProperties => exact scans_noProperties
  | bare name others induction =>
      simp only [wellFormed, Bool.and_eq_true, Bool.or_eq_true] at formed
      exact scans_bare (isWord formed.1) (induction formed.2)
  | quoted name value others induction =>
      simp only [wellFormed, Bool.and_eq_true, Bool.not_eq_true'] at formed
      have unquoted : '"' ∉ value := by
        simpa only [List.contains_eq_mem, decide_eq_false_iff_not] using formed.1.2
      exact scans_quoted (isWord_of_isPropertyName formed.1.1) unquoted (induction formed.2)
  | braced name code others induction =>
      simp only [wellFormed, Bool.and_eq_true, Bool.not_eq_true'] at formed
      exact scans_braced (isWord_of_isPropertyName formed.1.1.1) formed.1.1.2 formed.1.2
        (induction formed.2)
  | nested name value others inValue induction =>
      simp only [wellFormed, Bool.and_eq_true] at formed
      exact scans_nested (isWord_of_isPropertyName formed.1.1)
        (opensElement_body value formed.1.2) (inValue formed.1.2) (induction formed.2)
  | noChildren => exact scans_noChildren
  | text content others induction =>
      simp only [wellFormed, Bool.and_eq_true, Bool.not_eq_true'] at formed
      exact scans_text formed.1.1 formed.2 formed.1.2 (induction formed.2)
  | bracedCode code others induction =>
      simp only [wellFormed, Bool.and_eq_true, Bool.not_eq_true'] at formed
      exact scans_bracedCode formed.1.1 formed.1.2 (induction formed.2)
  | child element others inElement induction =>
      simp only [wellFormed, Bool.and_eq_true] at formed
      exact scans_child (opensElement_body element formed.1) (inElement formed.1)
        (induction formed.2)
  | region first parts others inParts induction =>
      simp only [wellFormed, Bool.and_eq_true] at formed
      exact scans_region formed.1.1 formed.1.2 (inParts formed.1.2) (induction formed.2)
  | lastPart element code induction =>
      simp only [wellFormed, Bool.and_eq_true] at formed
      exact scans_lastPart formed.1 (induction formed.1) formed.2
  | part element code others inElement induction =>
      simp only [wellFormed, Bool.and_eq_true] at formed
      exact scans_part formed.1.1 (inElement formed.1.1) formed.1.2 formed.2
        (induction formed.2)
  | noScript => exact scans_noScript
  | plain code others induction =>
      simp only [wellFormed, Bool.and_eq_true, Bool.not_eq_true'] at formed
      exact scans_plain formed.1.1 formed.2 formed.1.2 (induction formed.2)
  | markup element others inElement induction =>
      simp only [wellFormed, Bool.and_eq_true] at formed
      exact scans_markup (opensElement_body element formed.1) (inElement formed.1)
        (induction formed.2)

/-! ## Whole sources -/

theorem entries_le_pieces (markup : Markup role) :
    markup.entries ≤ markup.pieces ∧ (role = .element → markup.entries < markup.pieces) := by
  induction markup with
  | _ => simp [entries, pieces] at * <;> omega

/-- A script that scans as it is has the tokens of its markup. -/
theorem tokenize_render {script : Markup .script} (read : script.Scans)
    (uncommented : script.render.opensNoComment) {ceiling : Nat}
    (room : script.entries ≤ ceiling) :
    tokenize script.render ceiling = .ok (script.tokens 0) := by
  let input : ScanInput := { source := script.render, ceiling }
  have ran : (Scan.run input (ready (.code none) [] 0 [] 0) script.render).map Scan.finish =
      .ok (script.tokens 0) := read (by simpa using room)
  have start : ({} : Scan) = ready (.code none) [] 0 [] 0 := rfl
  rw [tokenize, Comment.strip_of_opensNoComment uncommented, start]
  split
  · rename_i failed
    rw [failed] at ran
    cases ran
  · rename_i succeeded
    rw [succeeded] at ran
    exact ran

end ElementScript.Markup
