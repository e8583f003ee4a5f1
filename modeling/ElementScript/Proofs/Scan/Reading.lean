import ElementScript.Scan.Run

/-! # How a scan reads runs of characters

A scan that reads a name, a text or a piece of code buffers one character after the other until the
character that ends it. `run_pushes` reads such a run at once. What is buffered is cut at the
character after the run; the scan might as well have cut it before, and `run_holding_outside` and
the statements beside it say so for each place where a text can be buffered.
-/

namespace ElementScript.Scan

variable {input : ScanInput} {levels : List Level} {position start calls : Nat}
  {tokens : List Token} {rest : Text}

/-- A scan that holds nothing back: no character is buffered, and none is to be skipped. -/
def ready (activity : Activity) (levels : List Level) (position : Nat) (tokens : List Token)
    (calls : Nat) : Scan :=
  { position, tokens := tokens.toArray, calls, activity, levels }

/-- The scan with a buffered text. -/
def holding (scan : Scan) (held : Text) : Scan :=
  { scan with buffer := held.toArray }

theorem run_cons_of_step {scan next : Scan} {character : Char}
    (stepped : scan.step input character rest = .ok next) :
    scan.run input (character :: rest) = next.advance.run input rest := by
  rw [run, stepped]

theorem run_skip {scan : Scan} {character : Char} (skip : scan.skip = 1) :
    scan.run input (character :: rest) =
      ({ scan with skip := 0, position := scan.position + 1 } : Scan).run input rest := by
  rw [run, step, skip]
  rfl

/-- Two scans that read one character alike read a text that begins with it alike. -/
theorem run_congr {scan other : Scan} {character : Char}
    (same : scan.step input character rest = other.step input character rest) :
    scan.run input (character :: rest) = other.run input (character :: rest) := by
  rw [run, run, same]

/-! ## Runs of buffered characters -/

/-- Whether a character is buffered wherever this activity meets it. -/
def Pushes (activity : Activity) (character : Char) : Prop :=
  ∀ (input : ScanInput) (scan : Scan) (following : Text), scan.skip = 0 →
    scan.activity = activity → scan.step input character following = .ok (scan.push character)

theorem run_pushes {activity : Activity} {text : Text}
    (pushes : ∀ character ∈ text, Pushes activity character) (held : Text) :
    ((ready activity levels position tokens calls).holding held).run input (text ++ rest) =
      ((ready activity levels (position + text.length) tokens calls).holding
        (held ++ text)).run input rest := by
  induction text generalizing position held with
  | nil => simp
  | cons character text induction =>
      have parts := List.forall_mem_cons.mp pushes
      have stepped := parts.1 input ((ready activity levels position tokens calls).holding held)
        (text ++ rest) rfl rfl
      have pushed : (((ready activity levels position tokens calls).holding held).push
          character).advance =
          (ready activity levels (position + 1) tokens calls).holding (held ++ [character]) := by
        simp [ready, holding, push, advance]
      rw [List.cons_append, run_cons_of_step stepped, pushed, induction parts.2]
      rw [List.append_assoc, List.singleton_append, List.length_cons, Nat.add_assoc,
        Nat.add_comm 1]

theorem run_pushes_ready {activity : Activity} {text : Text}
    (pushes : ∀ character ∈ text, Pushes activity character) :
    (ready activity levels position tokens calls).run input (text ++ rest) =
      ((ready activity levels (position + text.length) tokens calls).holding text).run
        input rest :=
  run_pushes pushes []

section Pushing

variable {character : Char}

theorem pushes_script (plain : character ≠ '<') (unquoted : Literal.isMark character = false) :
    Pushes (.code none) character := by
  intro input scan following skip activity
  simp [step, skip, activity, codeStep, plain, unquoted]

theorem pushes_tag {closing : Bool} (slash : character ≠ '/') (bracket : character ≠ '>')
    (blank : Text.isBlank character = false) : Pushes (.tag closing) character := by
  intro input scan following skip activity
  simp [step, skip, activity, tagStep, slash, bracket, blank]

theorem pushes_outside {named : Bool} (equals : character ≠ '=')
    (blank : Text.isBlank character = false) (slash : character ≠ '/')
    (bracket : character ≠ '>') : Pushes (.properties (.outside named)) character := by
  intro input scan following skip activity
  simp [step, skip, activity, outsideStep, equals, blank, slash, bracket]

theorem pushes_quoted {named : Bool} {mark : Char} (inside : character ≠ mark) :
    Pushes (.properties (.quoted named mark)) character := by
  intro input scan following skip activity
  simp [step, skip, activity, quotedStep, inside]

theorem pushes_braced {depth : Nat} {content : Content} (closing : character ≠ '}')
    (opening : character ≠ '{') (tag : character ≠ '<') :
    Pushes (.properties (.braced depth content)) character := by
  intro input scan following skip activity
  simp [step, skip, activity, bracedStep, closing, opening, tag]

theorem pushes_text (opening : character ≠ '{') (tag : character ≠ '<') :
    Pushes (.children .text) character := by
  intro input scan following skip activity
  simp [step, skip, activity, childTextStep, opening, tag]

theorem pushes_code {depth : Nat} {holdsElements : Bool} (closing : character ≠ '}')
    (opening : character ≠ '{') (tag : character ≠ '<') :
    Pushes (.children (.code depth holdsElements)) character := by
  intro input scan following skip activity
  simp [step, skip, activity, childCodeStep, closing, opening, tag]

end Pushing

/-! ## Cutting what is buffered -/

section Cutting

variable {activity : Activity} {kind : Token.Kind} {held : Text}

theorem flush_holding :
    ((ready activity levels position tokens calls).holding held).flush kind
        (start + held.length) =
      ready activity levels position (tokens ++ [{ kind, text := held, offset := start }])
        calls := by
  simp [ready, holding, flush, emit, clear, text, offset]

theorem flushSolid_holding (solid : held.isAllWhitespace = false) :
    ((ready activity levels (start + held.length) tokens calls).holding held).flushSolid kind
        (start + held.length) =
      ready activity levels (start + held.length)
        (tokens ++ [{ kind, text := held, offset := start }]) calls := by
  rw [← flush_holding, flushSolid, if_neg]
  simpa [text, holding] using solid

theorem flushSome_ready (stop : Nat) :
    (ready activity levels position tokens calls).flushSome kind stop =
      ready activity levels position tokens calls := rfl

theorem flushSome_holding (nonempty : held ≠ []) :
    ((ready activity levels (start + held.length) tokens calls).holding held).flushSome kind
        (start + held.length) =
      ready activity levels (start + held.length)
        (tokens ++ [{ kind, text := held, offset := start }]) calls := by
  rw [← flush_holding, flushSome, if_neg]
  simpa [holding] using nonempty

theorem flushChild_ready (stop : Nat) :
    (ready activity levels position tokens calls).flushChild kind stop =
      ready activity levels position tokens calls := rfl

theorem flushChild_holding (nonempty : held ≠ []) :
    ((ready activity levels (start + held.length) tokens calls).holding held).flushChild kind
        (start + held.length) =
      ready activity levels (start + held.length)
        (tokens ++ [{ kind := if held.isAllWhitespace then .childWhitespace else kind
                      text := held, offset := start }]) calls := by
  rw [← flushSome_holding nonempty]
  rfl

theorem finishProperties_ready {named : Bool} :
    (ready activity levels position tokens calls).finishProperties input named =
      .ok (ready activity levels position tokens calls) := rfl

theorem finishProperties_holding (standalone : PropertyName.isStandalone held)
    (trimmed : held.trim = held) (nonempty : held ≠ []) :
    ((ready activity levels (start + held.length) tokens calls).holding held).finishProperties
        input false =
      .ok (ready activity levels (start + held.length)
        (tokens ++ [{ kind := .propertyName, text := held, offset := start }]) calls) := by
  simp [finishProperties, ready, holding, text, offset, emit, clear, propertyKind, trimmed,
    nonempty, standalone]

end Cutting

/-! ## Where a buffered text ends -/

/-- Whether a text begins with what may follow a property: a space or the end of the tag. -/
def EndsProperty (rest : Text) : Prop :=
  ∃ others, rest = ' ' :: others ∨ rest = '/' :: '>' :: others ∨ rest = '>' :: others

section Outside

variable {scan : Scan} {named : Bool}

theorem step_outside_space (skip : scan.skip = 0)
    (activity : scan.activity = .properties (.outside named)) :
    scan.step input ' ' rest = .ok { scan.flushSolid (propertyKind named) scan.position with
      activity := .properties (.outside (named && scan.text.isAllWhitespace)) } := by
  simp [step, skip, activity, outsideStep, Text.isBlank]

theorem step_outside_slash (skip : scan.skip = 0)
    (activity : scan.activity = .properties (.outside named)) :
    scan.step input '/' ('>' :: rest) = (scan.finishProperties input named).map closeSelf := by
  simp [step, skip, activity, outsideStep, Text.isBlank]
  rfl

theorem step_outside_bracket (skip : scan.skip = 0)
    (activity : scan.activity = .properties (.outside named)) :
    scan.step input '>' rest = (scan.finishProperties input named).map fun finished =>
      { finished with activity := .children .text } := by
  simp [step, skip, activity, outsideStep, Text.isBlank]
  rfl

end Outside

theorem run_holding_outside {name : Text} (standalone : PropertyName.isStandalone name)
    (trimmed : name.trim = name) (solid : name.isAllWhitespace = false)
    (ends : EndsProperty rest) :
    ((ready (.properties (.outside false)) levels (start + name.length) tokens calls).holding
        name).run input rest =
      (ready (.properties (.outside false)) levels (start + name.length)
        (tokens ++ [{ kind := .propertyName, text := name, offset := start }]) calls).run
        input rest := by
  have nonempty : name ≠ [] := by
    rintro rfl
    cases solid
  rcases ends with ⟨others, rfl | rfl | rfl⟩
  · apply run_congr
    rw [step_outside_space rfl rfl, step_outside_space rfl rfl]
    congr 1
    change ({ flushSolid _ _ (start + name.length) with activity := _ } : Scan) = _
    rw [flushSolid_holding solid]
    rfl
  · apply run_congr
    rw [step_outside_slash rfl rfl, step_outside_slash rfl rfl, finishProperties_ready,
      finishProperties_holding standalone trimmed nonempty]
  · apply run_congr
    rw [step_outside_bracket rfl rfl, step_outside_bracket rfl rfl, finishProperties_ready,
      finishProperties_holding standalone trimmed nonempty]

/-! ## Tags -/

/-- The scan after the end of an element: it goes on with what is around the element. -/
def resumed (levels : List Level) (position : Nat) (tokens : List Token) (calls : Nat) : Scan :=
  (ready (.code none) levels position tokens calls).resume levels

theorem resumed_script :
    resumed [] position tokens calls = ready (.code none) [] position tokens calls := rfl

theorem resumed_children {region : Region} :
    resumed (.children region :: levels) position tokens calls =
      ready (.children region) levels position tokens calls := rfl

theorem resumed_value {depth : Nat} {content : Content} :
    resumed (.value depth content :: levels) position tokens calls =
      ready (.properties (.braced depth content)) levels position tokens calls := rfl

theorem run_closeSelf {activity : Activity} :
    (ready activity levels position tokens calls).closeSelf.advance.run input ('>' :: rest) =
      (resumed levels (position + 2)
        (tokens ++ [{ kind := .elementEnd, text := ['/', '>'], offset := position }]) calls).run
        input rest := by
  rw [run_skip rfl]
  congr 1
  simp only [closeSelf, ready, resumed, emit, advance]
  rcases levels with _ | ⟨_ | _, levels⟩ <;> simp [resume]

/-- A tag that closes itself ends after its properties. -/
theorem run_outside_slash :
    (ready (.properties (.outside false)) levels position tokens calls).run input
        ('/' :: '>' :: rest) =
      (resumed levels (position + 2)
        (tokens ++ [{ kind := .elementEnd, text := ['/', '>'], offset := position }]) calls).run
        input rest := by
  have stepped : (ready (.properties (.outside false)) levels position tokens calls).step input
      '/' ('>' :: rest) = _ := step_outside_slash rfl rfl
  rw [finishProperties_ready] at stepped
  rw [run_cons_of_step stepped, run_closeSelf]

theorem run_outside_bracket :
    (ready (.properties (.outside false)) levels position tokens calls).run input
        ('>' :: rest) =
      (ready (.children .text) levels (position + 1) tokens calls).run input rest := rfl

theorem run_outside_space :
    (ready (.properties (.outside false)) levels position tokens calls).run input
        (' ' :: rest) =
      (ready (.properties (.outside false)) levels (position + 1) tokens calls).run
        input rest := rfl

/-- Every blank ends the name of a tag. -/
theorem run_tag_blank {scan : Scan} {first second : Char} (skip : scan.skip = 0)
    (activity : scan.activity = .tag false) (blankFirst : Text.isBlank first)
    (blankSecond : Text.isBlank second) :
    scan.run input (first :: rest) = scan.run input (second :: rest) := by
  have stepped : ∀ blank, Text.isBlank blank → scan.step input blank rest =
      .ok { scan.flush .elementStart scan.position with
        activity := .properties (.outside false) } := by
    intro blank isBlank
    have slash : blank ≠ '/' := by
      rintro rfl
      cases isBlank
    have bracket : blank ≠ '>' := by
      rintro rfl
      cases isBlank
    simp [step, skip, activity, tagStep, slash, bracket, isBlank]
  rw [run_cons_of_step (stepped first blankFirst), run_cons_of_step (stepped second blankSecond)]

/-- Before a space or the end of a tag that closes itself, the tag's name might as well have been
cut. -/
theorem run_holding_tag {tag : Text} (named : tag ≠ ['<'])
    (ends : ∃ others, rest = ' ' :: others ∨ rest = '/' :: '>' :: others) :
    ((ready (.tag false) levels (start + tag.length) tokens calls).holding tag).run input rest =
      (ready (.properties (.outside false)) levels (start + tag.length)
        (tokens ++ [{ kind := .elementStart, text := tag, offset := start }]) calls).run
        input rest := by
  rcases ends with ⟨others, rfl | rfl⟩
  · have stepped : ((ready (.tag false) levels (start + tag.length) tokens calls).holding tag).step
        input ' ' others = .ok { flush _ .elementStart (start + tag.length) with
          activity := .properties (.outside false) } := rfl
    rw [flush_holding] at stepped
    rw [run_cons_of_step stepped]
    rfl
  · have long : ((ready (.tag false) levels (start + tag.length) tokens calls).holding
        tag).buffer ≠ #['<'] := by
      simpa [holding] using named
    have stepped : ((ready (.tag false) levels (start + tag.length) tokens calls).holding tag).step
        input '/' ('>' :: others) = .ok (closeSelf (flush _ .elementStart (start + tag.length))) :=
      (if_neg long).trans (if_pos ⟨rfl, rfl⟩)
    rw [flush_holding] at stepped
    rw [run_cons_of_step stepped, run_closeSelf, run_outside_slash]

/-- Right before the `>` of an open tag, the `>` belongs to the name. -/
theorem run_tag_bracket {tag : Text} :
    ((ready (.tag false) levels (start + tag.length) tokens calls).holding tag).run input
        ('>' :: rest) =
      (ready (.children .text) levels (start + tag.length + 1)
        (tokens ++ [{ kind := .elementStart, text := tag ++ ['>'], offset := start }]) calls).run
        input rest := by
  have pushed : ((ready (.tag false) levels (start + tag.length) tokens calls).holding tag).push
      '>' = (ready (.tag false) levels (start + tag.length) tokens calls).holding
        (tag ++ ['>']) := by
    simp [push, holding, ready]
  have stepped : ((ready (.tag false) levels (start + tag.length) tokens calls).holding tag).step
      input '>' rest = .ok { flush (push _ '>') .elementStart (start + tag.length + 1) with
        activity := .children .text } := rfl
  have stop : start + tag.length + 1 = start + (tag ++ ['>']).length := by simp [Nat.add_assoc]
  rw [pushed, stop, flush_holding] at stepped
  rw [run_cons_of_step stepped]
  rfl

theorem run_closing_blanks {held blanks : Text}
    (blank : ∀ character ∈ blanks, Text.isBlank character) :
    ((ready (.tag true) levels position tokens calls).holding held).run input (blanks ++ rest) =
      ((ready (.tag true) levels (position + blanks.length) tokens calls).holding held).run
        input rest := by
  induction blanks generalizing position with
  | nil => rfl
  | cons character blanks induction =>
      have parts := List.forall_mem_cons.mp blank
      have stepped : ((ready (.tag true) levels position tokens calls).holding held).step input
          character (blanks ++ rest) =
          .ok ((ready (.tag true) levels position tokens calls).holding held) := by
        have slash : character ≠ '/' := by
          rintro rfl
          exact absurd parts.1 (by decide)
        have bracket : character ≠ '>' := by
          rintro rfl
          exact absurd parts.1 (by decide)
        simp [step, ready, holding, tagStep, slash, bracket, parts.1]
      rw [List.cons_append, run_cons_of_step stepped, List.length_cons, Nat.add_comm _ 1,
        ← Nat.add_assoc, ← induction parts.2]
      rfl

/-- A closing tag ends the element whose children are being read. Blanks in it are not buffered, so
its offset counts from its end. -/
theorem run_closing_tag {region : Region} {name blanks : Text}
    (pushes : ∀ character ∈ name, Pushes (.tag true) character)
    (blank : ∀ character ∈ blanks, Text.isBlank character) :
    ((ready (.tag false) (.children region :: levels) (start + 1) tokens calls).holding
        ['<']).run input ('/' :: (name ++ (blanks ++ '>' :: rest))) =
      (resumed levels (start + 2 + name.length + blanks.length + 1)
        (tokens ++ [{ kind := .elementEnd, text := '<' :: '/' :: (name ++ ['>']),
                      offset := start + blanks.length }]) calls).run input rest := by
  let closing := ready (.tag true) (.children region :: levels)
    (start + 2 + name.length + blanks.length) tokens calls
  have opened : ((ready (.tag false) (.children region :: levels) (start + 1) tokens
      calls).holding ['<']).run input ('/' :: (name ++ (blanks ++ '>' :: rest))) =
      ((ready (.tag true) (.children region :: levels) (start + 2) tokens calls).holding
        ['<', '/']).run input (name ++ (blanks ++ '>' :: rest)) := rfl
  have pushed : (closing.holding ('<' :: '/' :: name)).push '>' =
      closing.holding ('<' :: '/' :: (name ++ ['>'])) := by
    simp [closing, push, holding, ready]
  have stepped : (closing.holding ('<' :: '/' :: name)).step input '>' rest =
      .ok ((flush (push _ '>') .elementEnd
        (start + 2 + name.length + blanks.length + 1)).resume levels) := rfl
  have stop : start + 2 + name.length + blanks.length + 1 =
      start + blanks.length + ('<' :: '/' :: (name ++ ['>'])).length := by
    simp
    omega
  rw [pushed, stop, flush_holding] at stepped
  rw [opened, run_pushes pushes, run_closing_blanks blank]
  change (closing.holding ('<' :: '/' :: name)).run input ('>' :: rest) = _
  rw [run_cons_of_step stepped]
  congr 1
  rcases levels with _ | ⟨_ | _, levels⟩ <;> rfl

/-! ## Properties -/

theorem run_equals_quote {name : Text} (solid : name.isAllWhitespace = false) :
    ((ready (.properties (.outside false)) levels (start + name.length) tokens calls).holding
        name).run input ('=' :: '"' :: rest) =
      (ready (.properties (.quoted true '"')) levels (start + name.length + 2)
        (tokens ++ [{ kind := .propertyName, text := name, offset := start }]) calls).run
        input rest := by
  have stepped : ((ready (.properties (.outside false)) levels (start + name.length) tokens
      calls).holding name).step input '=' ('"' :: rest) =
      .ok { flushSolid _ .propertyName (start + name.length) with
        skip := 1
        activity := .properties (.quoted (if Text.isAllWhitespace name then _ else true) '"') } :=
    rfl
  rw [flushSolid_holding solid, if_neg (by simp [solid])] at stepped
  rw [run_cons_of_step stepped]
  rfl

theorem run_equals_brace {name : Text} (solid : name.isAllWhitespace = false) :
    ((ready (.properties (.outside false)) levels (start + name.length) tokens calls).holding
        name).run input ('=' :: '{' :: rest) =
      (ready (.properties (.braced 0 .codeOnly)) levels (start + name.length + 2)
        (tokens ++ [{ kind := .propertyName, text := name, offset := start }]) calls).run
        input rest := by
  have stepped : ((ready (.properties (.outside false)) levels (start + name.length) tokens
      calls).holding name).step input '=' ('{' :: rest) =
      .ok { flushSolid _ .propertyName (start + name.length) with
        skip := 1
        activity := .properties (.braced 0 .codeOnly) } := rfl
  rw [flushSolid_holding solid] at stepped
  rw [run_cons_of_step stepped]
  rfl

theorem run_quoted_end {value : Text} :
    ((ready (.properties (.quoted true '"')) levels (start + value.length) tokens calls).holding
        value).run input ('"' :: rest) =
      (ready (.properties (.outside false)) levels (start + value.length + 1)
        (tokens ++ [{ kind := .propertyValue, text := value.quote, offset := start }]) calls).run
        input rest := by
  have cut : (((ready (.properties (.quoted true '"')) levels (start + value.length) tokens
      calls).holding value).emit .propertyValue value.quote
        (offset ((ready (.properties (.quoted true '"')) levels (start + value.length) tokens
          calls).holding value) (start + value.length))).clear =
      ready (.properties (.quoted true '"')) levels (start + value.length)
        (tokens ++ [{ kind := .propertyValue, text := value.quote, offset := start }]) calls := by
    simp [ready, holding, emit, clear, offset]
  have stepped : ((ready (.properties (.quoted true '"')) levels (start + value.length) tokens
      calls).holding value).step input '"' rest =
      .ok { (((ready (.properties (.quoted true '"')) levels (start + value.length) tokens
          calls).holding value).emit .propertyValue value.quote
            (offset _ (start + value.length))).clear with
        activity := .properties (.outside false) } := rfl
  rw [cut] at stepped
  rw [run_cons_of_step stepped]
  rfl

theorem run_braced_end {code : Text} (solid : code.isAllWhitespace = false) :
    ((ready (.properties (.braced 0 .codeOnly)) levels (start + code.length) tokens calls).holding
        code).run input ('}' :: rest) =
      (ready (.properties (.outside false)) levels (start + code.length + 1)
        (tokens ++ [{ kind := .propertyValue, text := code, offset := start }]) calls).run
        input rest := by
  have stepped : ((ready (.properties (.braced 0 .codeOnly)) levels (start + code.length) tokens
      calls).holding code).step input '}' rest =
      .ok { flushSolid _ .propertyValue (start + code.length) with
        activity := .properties (.outside false) } := rfl
  rw [flushSolid_holding solid] at stepped
  rw [run_cons_of_step stepped]
  rfl

/-- An element in the braces of a value is scanned on its own. -/
theorem run_braced_tag (opens : Lookahead.opensElement rest) (room : calls < input.ceiling) :
    (ready (.properties (.braced 0 .codeOnly)) levels position tokens calls).run input
        ('<' :: rest) =
      ((ready (.tag false) (.value 0 (.elementsFirst tokens.length) :: levels) (position + 1)
        tokens (calls + 1)).holding ['<']).run input rest := by
  have full : ¬ input.ceiling < calls + 1 := by omega
  have entered : (ready (.properties (.braced 0 .codeOnly)) levels position tokens calls).enter
      input = .ok (ready (.properties (.braced 0 .codeOnly)) levels position tokens (calls + 1)) :=
    if_neg full
  have stepped : (ready (.properties (.braced 0 .codeOnly)) levels position tokens calls).step
      input '<' rest =
      ((ready (.properties (.braced 0 .codeOnly)) levels position tokens calls).enter input).map
        fun scan => { scan.startTag with
          levels := .value 0 (.elementsFirst tokens.length) :: levels } := by
    change (if _ ∧ Lookahead.opensElement rest = true then _ else _) = _
    rw [if_pos ⟨rfl, opens⟩]
    rfl
  rw [entered] at stepped
  exact run_cons_of_step stepped

theorem run_braced_element_end {mark : Nat} :
    (ready (.properties (.braced 0 (.elementsFirst mark))) levels position tokens calls).run input
        ('}' :: rest) =
      (ready (.properties (.outside false)) levels (position + 1) tokens calls).run
        input rest := rfl

/-! ## Children -/

/-- Whether a text begins with what may follow a text among children: a brace or a tag. -/
def EndsText (rest : Text) : Prop :=
  ∃ others, rest = '{' :: others ∨ rest = '<' :: others ∧ Lookahead.opensTag others

theorem step_text_tag {scan : Scan} (skip : scan.skip = 0)
    (activity : scan.activity = .children .text) (opens : Lookahead.opensTag rest) :
    scan.step input '<' rest =
      .ok ((scan.flushChild .childText scan.position).startChildTag .text) := by
  simp [step, skip, activity, childTextStep, opens]

theorem run_holding_text {content : Text} (nonempty : content ≠ []) (ends : EndsText rest) :
    ((ready (.children .text) levels (start + content.length) tokens calls).holding
        content).run input rest =
      (ready (.children .text) levels (start + content.length)
        (tokens ++ [{ kind := if content.isAllWhitespace then .childWhitespace else .childText
                      text := content, offset := start }]) calls).run input rest := by
  rcases ends with ⟨others, rfl | ⟨rfl, opens⟩⟩
  · have stepped : ((ready (.children .text) levels (start + content.length) tokens
        calls).holding content).step input '{' others =
        .ok { flushChild _ .childText (start + content.length) with
          activity := .children (.code 0 false) } := rfl
    rw [flushChild_holding nonempty] at stepped
    rw [run_cons_of_step stepped]
    rfl
  · apply run_congr
    rw [step_text_tag rfl rfl opens, step_text_tag rfl rfl opens, flushChild_ready]
    congr 2
    exact flushChild_holding nonempty

theorem run_text_tag (opens : Lookahead.opensTag rest) :
    (ready (.children .text) levels position tokens calls).run input ('<' :: rest) =
      ((ready (.tag false) (.children .text :: levels) (position + 1) tokens calls).holding
        ['<']).run input rest :=
  run_cons_of_step (step_text_tag rfl rfl opens)

theorem run_text_brace :
    (ready (.children .text) levels position tokens calls).run input ('{' :: rest) =
      (ready (.children (.code 0 false)) levels (position + 1) tokens calls).run input rest := rfl

theorem run_code_end {code : Text} (solid : code.isAllWhitespace = false) :
    ((ready (.children (.code 0 false)) levels (start + code.length) tokens calls).holding
        code).run input ('}' :: rest) =
      (ready (.children .text) levels (start + code.length + 1)
        (tokens ++ [{ kind := .childCode, text := code, offset := start }]) calls).run
        input rest := by
  have nonempty : code ≠ [] := by
    rintro rfl
    cases solid
  have stepped : ((ready (.children (.code 0 false)) levels (start + code.length) tokens
      calls).holding code).step input '}' rest =
      .ok { flushChild _ .childCode (start + code.length) with activity := .children .text } := rfl
  rw [flushChild_holding nonempty, solid] at stepped
  rw [run_cons_of_step stepped]
  rfl

theorem step_code_tag {scan : Scan} {depth : Nat} {holdsElements : Bool} (skip : scan.skip = 0)
    (activity : scan.activity = .children (.code depth holdsElements))
    (opens : Lookahead.opensTag rest) :
    scan.step input '<' rest =
      .ok ((if holdsElements then scan.flushSome .childCode scan.position
        else scan.flush .fragmentStart scan.position).startChildTag (.code depth true)) := by
  simp [step, skip, activity, childCodeStep, opens]

/-- Before its first element, a region might as well have been opened. -/
theorem run_holding_first {code : Text} (opens : Lookahead.opensTag rest) :
    ((ready (.children (.code 0 false)) levels (start + code.length) tokens calls).holding
        code).run input ('<' :: rest) =
      (ready (.children (.code 0 true)) levels (start + code.length)
        (tokens ++ [{ kind := .fragmentStart, text := code, offset := start }]) calls).run
        input ('<' :: rest) := by
  apply run_congr
  rw [step_code_tag rfl rfl opens, step_code_tag rfl rfl opens]
  change Except.ok (startChildTag (flush _ _ (start + code.length)) _) = _
  rw [flush_holding]
  rfl

theorem run_code_tag (opens : Lookahead.opensTag rest) :
    (ready (.children (.code 0 true)) levels position tokens calls).run input ('<' :: rest) =
      ((ready (.tag false) (.children (.code 0 true) :: levels) (position + 1) tokens
        calls).holding ['<']).run input rest := by
  have stepped : (ready (.children (.code 0 true)) levels position tokens calls).step input '<'
      rest = _ := step_code_tag rfl rfl opens
  exact run_cons_of_step stepped

theorem run_holding_part {code : Text} (opens : Lookahead.opensTag rest) (nonempty : code ≠ []) :
    ((ready (.children (.code 0 true)) levels (start + code.length) tokens calls).holding
        code).run input ('<' :: rest) =
      (ready (.children (.code 0 true)) levels (start + code.length)
        (tokens ++ [{ kind := .childCode, text := code, offset := start }]) calls).run
        input ('<' :: rest) := by
  apply run_congr
  rw [step_code_tag rfl rfl opens, step_code_tag rfl rfl opens]
  congr 2
  exact flushSome_holding nonempty

theorem run_region_end {code : Text} :
    ((ready (.children (.code 0 true)) levels (start + code.length) tokens calls).holding
        code).run input ('}' :: rest) =
      (ready (.children .text) levels (start + code.length + 1)
        (tokens ++ [{ kind := .fragmentEnd, text := code, offset := start }]) calls).run
        input rest := by
  have stepped : ((ready (.children (.code 0 true)) levels (start + code.length) tokens
      calls).holding code).step input '}' rest =
      .ok { flush _ .fragmentEnd (start + code.length) with activity := .children .text } := rfl
  rw [flush_holding] at stepped
  rw [run_cons_of_step stepped]
  rfl

/-! ## Scripts -/

theorem step_script_tag {scan : Scan} (skip : scan.skip = 0)
    (activity : scan.activity = .code none) (opens : Lookahead.opensElement rest) :
    scan.step input '<' rest =
      ((scan.flushSome .code scan.position).enter input).map startTag := by
  simp [step, skip, activity, codeStep, Literal.isMark, opens]
  rfl

theorem run_script_tag (opens : Lookahead.opensElement rest) (room : calls < input.ceiling) :
    (ready (.code none) [] position tokens calls).run input ('<' :: rest) =
      ((ready (.tag false) [] (position + 1) tokens (calls + 1)).holding ['<']).run
        input rest := by
  have full : ¬ input.ceiling < calls + 1 := by omega
  have entered : (ready (.code none) [] position tokens calls).enter input =
      .ok (ready (.code none) [] position tokens (calls + 1)) := if_neg full
  have stepped : (ready (.code none) [] position tokens calls).step input '<' rest = _ :=
    step_script_tag rfl rfl opens
  rw [flushSome_ready, entered] at stepped
  exact run_cons_of_step stepped

/-- A tag that a source begins with. -/
theorem run_first_tag (opens : Lookahead.opensElement rest) (room : 0 < input.ceiling) :
    run input {} ('<' :: rest) =
      ((ready (.tag false) [] 1 [] 1).holding ['<']).run input rest :=
  @run_script_tag input 0 0 [] rest opens room

theorem run_holding_script {code : Text} (nonempty : code ≠ [])
    (opens : Lookahead.opensElement rest) :
    ((ready (.code none) [] (start + code.length) tokens calls).holding code).run input
        ('<' :: rest) =
      (ready (.code none) [] (start + code.length)
        (tokens ++ [{ kind := .code, text := code, offset := start }]) calls).run input
        ('<' :: rest) := by
  apply run_congr
  rw [step_script_tag rfl rfl opens, step_script_tag rfl rfl opens, flushSome_ready]
  congr 2
  exact flushSome_holding nonempty

theorem finish_holding {mark : Option Char} {code : Text} (nonempty : code ≠ []) :
    ((ready (.code mark) [] (start + code.length) tokens calls).holding code).finish =
      tokens ++ [{ kind := .code, text := code, offset := start }] := by
  change (flushSome _ .code (start + code.length)).tokens.toList = _
  rw [flushSome_holding nonempty]
  rfl

theorem finish_ready : (ready (.code none) [] position tokens calls).finish = tokens := rfl

end ElementScript.Scan
