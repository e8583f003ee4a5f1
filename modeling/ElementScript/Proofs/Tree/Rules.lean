import ElementScript.Tree.Build

/-! # The rules of tree building

`TreeBuilder.step` dispatches on where a token stands and on its kind. `TreeBuilder.Reads` lists
what such a step can do when it succeeds, one rule for each way in which a token is taken up, and
`TreeBuilder.step_eq_ok_iff` says that these are all. Statements about whole sequences of tokens
are proved from the rules, without the dispatch.
-/

namespace ElementScript

/-- The name of the element that a token starts. -/
def elementName (fragment : Text) (start : Token) : Text :=
  if (tagName start.text).isEmpty then fragment else tagName start.text

/-- Whether a token may end an element of a given name. -/
def Token.Ends (token : Token) (name : Text) : Prop :=
  token.kind = .elementEnd ∧ (tagName token.text = [] ∨ tagName token.text = name)

namespace Token.Kind

/-- The kinds of a text, a piece of code or a run of whitespace among the children. -/
def isChild : Kind → Bool
  | .childText | .childCode | .childWhitespace => true
  | _ => false

/-- The kinds of code between the elements of a braced region. -/
def isPart : Kind → Bool
  | .propertyValue | .childCode => true
  | _ => false

/-- The kinds that complete a waiting property. -/
def isValue : Kind → Bool
  | .propertyValue | .code => true
  | _ => false

end Token.Kind

/-- The child that a token stands for, if it leaves anything. -/
def Token.child? (token : Token) : Option (Child Element) :=
  match token.kind with
  | .childCode =>
      let code := stripBraces token.text.trim
      if code.isEmpty then none else some (.code code)
  | .childText => if token.text.isAllWhitespace then none else some (.text token.text)
  | .childWhitespace => some (.whitespace token.text)
  | _ => none

namespace OpenElement

/-- The element with the child that a token stands for. -/
def addChild? (element : OpenElement) (token : Token) : OpenElement :=
  match token.child? with
  | some child => element.addChild child
  | none => element

/-- The element with the region that a token opens: the value of the waiting property, or a child if
none waits. -/
def openRegion (element : OpenElement) (token : Token) : OpenElement :=
  let depth := if element.pending.isSome then element.depth + 1 else element.depth
  { element with
    pending := none
    region := some
      { property := element.pending
        parts := #[.code (token.toCode depth)]
        depth
        offset := token.offset } }

@[simp] theorem settle_region (element : OpenElement) :
    element.settle.region = element.region := by
  unfold settle
  split <;> rfl

@[simp] theorem settle_pending (element : OpenElement) : element.settle.pending = none := by
  unfold settle
  split
  · rfl
  · assumption

@[simp] theorem settle_name (element : OpenElement) : element.settle.name = element.name := by
  unfold settle
  split <;> rfl

@[simp] theorem settle_depth (element : OpenElement) : element.settle.depth = element.depth := by
  unfold settle
  split <;> rfl

theorem settle_of_pending_eq_none {element : OpenElement} (idle : element.pending = none) :
    element.settle = element := by
  rw [settle, idle]

@[simp] theorem region_addChild? (element : OpenElement) (token : Token) :
    (element.addChild? token).region = element.region := by
  unfold addChild?
  split <;> rfl

@[simp] theorem region_attachRegion (element : OpenElement) (region : OpenRegion) :
    (element.attachRegion region).region = none := by
  unfold attachRegion
  split <;> rfl

/-- A nested element leaves its parent's region open or closed. -/
@[simp] theorem isSome_region_attach (element : OpenElement) (inner : Element) :
    (element.attach inner).region.isSome = element.region.isSome := by
  unfold attach
  split
  · rename_i region inside
    simp [inside]
  · split <;> rfl

/-- What a token can do to the innermost open element and to nothing else. -/
inductive Takes (token : Token) : OpenElement → OpenElement → Prop where
  | name {element : OpenElement} (outside : element.region = none)
      (kind : token.kind = .propertyName) :
      Takes token element { element.settle with pending := some token.text }
  | value {element : OpenElement} {name : Text} (outside : element.region = none)
      (waiting : element.pending = some name) (kind : token.kind.isValue) :
      Takes token element
        (element.addProperty name (some (.code (token.toCode element.depth))))
  | child {element : OpenElement} (outside : element.region = none) (kind : token.kind.isChild) :
      Takes token element (element.settle.addChild? token)
  | part {element : OpenElement} {region : OpenRegion} (inside : element.region = some region)
      (kind : token.kind.isPart) :
      Takes token element { element with region := some { region with
        parts := region.parts.push (.code (token.toCode region.depth)) } }
  | regionEnd {element : OpenElement} {region : OpenRegion}
      (inside : element.region = some region) (kind : token.kind = .fragmentEnd) :
      Takes token element (element.attachRegion { region with
        parts := region.parts.push (.code (token.toCode region.depth)) })

end OpenElement

namespace OpenElement

variable {token : Token} {element changed : OpenElement}

theorem pending_attachRegion (idle : element.pending = none) (region : OpenRegion) :
    (element.attachRegion region).pending = none := by
  unfold attachRegion
  split
  · rfl
  · exact idle

theorem pending_attach (inner : Element)
    (settled : element.region ≠ none → element.pending = none) :
    (element.attach inner).pending = none := by
  cases region : element.region with
  | some region => simpa [attach, region] using settled
  | none =>
      cases pending : element.pending <;>
        simp [attach, region, pending, addProperty, addChild]

/-- A token leaves no property waiting beside an open region. -/
theorem Takes.settled (taken : element.Takes token changed)
    (settled : element.region ≠ none → element.pending = none) :
    changed.region ≠ none → changed.pending = none := by
  cases taken with
  | name outside kind => simp [outside]
  | value outside waiting kind => simp [addProperty]
  | child outside kind =>
      unfold addChild?
      split <;> simp [addChild]
  | part inside kind => exact fun _ => settled (by simp [inside])
  | regionEnd inside kind => exact fun _ => pending_attachRegion (settled (by simp [inside])) _

end OpenElement

namespace TreeBuilder

/-- The depth of an element that starts inside of these open elements. -/
def innerDepth : List OpenElement → Nat
  | [] => 0
  | element :: _ =>
      match element.region with
      | some region => region.depth + 1
      | none => element.depth + 1

/-- The builder after the end of its innermost element. -/
def closeInnermost (builder : TreeBuilder) (element : OpenElement) (outer : List OpenElement) :
    TreeBuilder :=
  match outer with
  | [] =>
      { builder with
        ends := builder.ends + 1
        body := builder.body.push (.element element.settle.close)
        stack := [] }
  | parent :: above =>
      { builder with
        ends := builder.ends + 1
        stack := parent.attach element.settle.close :: above }

/-- How a builder takes up a token. -/
inductive Reads (input : TreeInput) (builder : TreeBuilder) (token : Token) :
    TreeBuilder → Prop where
  | code (outside : builder.stack = []) (kind : token.kind = .code)
      (room : builder.calls < input.ceiling) :
      Reads input builder token
        { builder with
          calls := builder.calls + 1
          body := builder.body.push (.code (token.toCode 0)) }
  | start (kind : token.kind = .elementStart) (room : builder.calls < input.ceiling) :
      Reads input builder token
        { builder with
          calls := builder.calls + 1
          starts := builder.starts + 1
          stack :=
            { name := elementName input.fragment token
              depth := innerDepth builder.stack
              offset := token.offset } :: builder.stack }
  | take {element next : OpenElement} {outer : List OpenElement}
      (stack : builder.stack = element :: outer) (taken : element.Takes token next) :
      Reads input builder token { builder with stack := next :: outer }
  | region {element : OpenElement} {outer : List OpenElement}
      (stack : builder.stack = element :: outer) (outside : element.region = none)
      (kind : token.kind = .fragmentStart) (room : builder.calls < input.ceiling) :
      Reads input builder token
        { builder with
          calls := builder.calls + 1
          stack := element.openRegion token :: outer }
  | close {element : OpenElement} {outer : List OpenElement}
      (stack : builder.stack = element :: outer) (outside : element.region = none)
      (ends : token.Ends element.name) :
      Reads input builder token (builder.closeInnermost element outer)

/-- Whether a token in this place is a piece that counts against the ceiling. -/
def Counts (builder : TreeBuilder) (token : Token) : Prop :=
  token.kind = .elementStart ∨ (builder.stack = [] ∧ token.kind = .code) ∨
    ∃ element outer, builder.stack = element :: outer ∧ element.region = none ∧
      token.kind = .fragmentStart

/-- Why a builder cannot take up a token. -/
inductive Rejects (input : TreeInput) (builder : TreeBuilder) (token : Token) :
    TreeError → Prop where
  | full (counts : builder.Counts token) (full : input.ceiling ≤ builder.calls) :
      Rejects input builder token (.limitExceeded input.ceiling)
  | outside (outside : builder.stack = [])
      (kind : token.kind ≠ .code ∧ token.kind ≠ .elementStart) :
      Rejects input builder token
        (.unexpectedToken token.kind builder.index (locate input token))
  | element {element : OpenElement} {outer : List OpenElement}
      (stack : builder.stack = element :: outer) (outside : element.region = none)
      (kind : token.kind = .fragmentEnd ∨ element.pending = none ∧ token.kind.isValue) :
      Rejects input builder token
        (.unexpectedToken token.kind builder.index (locate input token))
  | region {element : OpenElement} {outer : List OpenElement} {region : OpenRegion}
      (stack : builder.stack = element :: outer) (inside : element.region = some region)
      (kind : token.kind ≠ .elementStart ∧ token.kind ≠ .fragmentEnd ∧
        token.kind.isPart = false) :
      Rejects input builder token
        (.unexpectedRegionToken token.kind builder.index (locate input token))
  | mismatch {element : OpenElement} {outer : List OpenElement}
      (stack : builder.stack = element :: outer) (outside : element.region = none)
      (kind : token.kind = .elementEnd)
      (differs : tagName token.text ≠ [] ∧ tagName token.text ≠ element.name) :
      Rejects input builder token
        (.mismatchedClosingTag element.name (tagName token.text) builder.index
          (locate input token))

/-! ## The rules hold of every step -/

variable {input : TreeInput} {builder next : TreeBuilder} {token : Token} {error : TreeError}
  {element : OpenElement} {outer : List OpenElement}

theorem enter_of_lt (room : builder.calls < input.ceiling) :
    builder.enter input = .ok { builder with calls := builder.calls + 1 } := by
  rw [enter, if_neg (by omega)]

theorem enter_of_le (full : input.ceiling ≤ builder.calls) :
    builder.enter input = .error (.limitExceeded input.ceiling) := by
  rw [enter, if_pos (by omega)]

theorem closeElement_of_ends (ends : token.Ends element.name) :
    builder.closeElement input token element.settle outer =
      .ok (builder.closeInnermost element outer) := by
  have agrees : ¬ ((tagName token.text).isEmpty = false ∧
      tagName token.text ≠ element.settle.name) := by
    rcases ends.2 with empty | equal
    · simp [empty]
    · simp [equal]
  cases outer with
  | nil => exact if_neg agrees
  | cons parent above => exact if_neg agrees

theorem closeElement_of_differs
    (differs : tagName token.text ≠ [] ∧ tagName token.text ≠ element.name) :
    builder.closeElement input token element.settle outer =
      .error (.mismatchedClosingTag element.name (tagName token.text) builder.index
        (locate input token)) := by
  have disagrees : (tagName token.text).isEmpty = false ∧
      tagName token.text ≠ element.settle.name := by
    simpa using differs
  rw [← element.settle_name]
  cases outer with
  | nil => exact if_pos disagrees
  | cons parent above => exact if_pos disagrees

/-- A start opens an element wherever it stands. -/
theorem step_start (kind : token.kind = .elementStart) :
    builder.step input token = builder.openElement input token (innerDepth builder.stack) := by
  rcases builder with ⟨index, calls, starts, ends, body, stack⟩
  cases stack with
  | nil => simp [step, outsideStep, kind, innerDepth]
  | cons element outer =>
      rcases element with ⟨name, depth, offset, properties, children, pending, region⟩
      cases region with
      | some region => simp [step, regionStep, kind, innerDepth]
      | none =>
          cases pending with
          | some name => simp [step, pendingStep, kind, innerDepth]
          | none => simp [step, elementStep, kind, innerDepth]

/-- A token that neither starts anything nor completes a property finds the waiting property
settled. -/
theorem step_settled (stack : builder.stack = element :: outer) (outside : element.region = none)
    (kind : token.kind ≠ .elementStart ∧ token.kind ≠ .fragmentStart ∧
      token.kind.isValue = false) :
    builder.step input token = builder.elementStep input token element.settle outer := by
  cases pending : element.pending with
  | none => simp only [step, stack, outside, pending, OpenElement.settle]
  | some name =>
      simp only [step, stack, outside, pending]
      cases shape : token.kind <;> simp_all [pendingStep, Token.Kind.isValue]

theorem step_region (stack : builder.stack = element :: outer) (outside : element.region = none)
    (kind : token.kind = .fragmentStart) :
    builder.step input token = builder.openRegion input token element.pending
      (if element.pending.isSome then element.depth + 1 else element.depth) element outer := by
  cases pending : element.pending <;>
    simp [step, stack, outside, pending, pendingStep, elementStep, kind]

theorem step_of_takes {changed : OpenElement} (stack : builder.stack = element :: outer)
    (taken : element.Takes token changed) :
    builder.step input token = .ok { builder with stack := changed :: outer } := by
  cases taken with
  | name outside kind =>
      rw [step_settled stack outside (by simp [kind, Token.Kind.isValue])]
      simp [elementStep, kind]
  | value outside waiting kind =>
      cases shape : token.kind <;>
        simp_all [step, pendingStep, Token.Kind.isValue]
  | child outside kind =>
      rw [step_settled stack outside (by
        cases shape : token.kind <;> simp_all [Token.Kind.isChild, Token.Kind.isValue])]
      cases shape : token.kind <;> simp_all [Token.Kind.isChild, elementStep,
        OpenElement.addChild?, Token.child?] <;> split <;> simp_all
  | part inside kind =>
      cases shape : token.kind <;> simp_all [step, regionStep, Token.Kind.isPart]
  | regionEnd inside kind => simp [step, stack, inside, regionStep, kind]

theorem step_of_reads (reads : Reads input builder token next) :
    builder.step input token = .ok next := by
  cases reads with
  | code outside kind room =>
      simp only [step, outside, outsideStep, kind, enter_of_lt room]
      rfl
  | start kind room =>
      rw [step_start kind, openElement, enter_of_lt room]
      rfl
  | take stack taken => exact step_of_takes stack taken
  | region stack outside kind room =>
      rw [step_region stack outside kind, openRegion, enter_of_lt room]
      rfl
  | close stack outside ends =>
      rw [step_settled stack outside (by simp [ends.1, Token.Kind.isValue]), elementStep, ends.1]
      exact closeElement_of_ends ends

theorem step_of_rejects (rejects : Rejects input builder token error) :
    builder.step input token = .error error := by
  cases rejects with
  | full counts full =>
      rcases counts with kind | ⟨outside, kind⟩ | ⟨element, outer, stack, outside, kind⟩
      · rw [step_start kind, openElement, enter_of_le full]
        rfl
      · simp only [step, outside, outsideStep, kind, enter_of_le full]
        rfl
      · rw [step_region stack outside kind, openRegion, enter_of_le full]
        rfl
  | outside outside kind =>
      cases shape : token.kind <;> simp_all [step, outsideStep]
  | element stack outside kind =>
      rcases kind with kind | ⟨idle, kind⟩
      · rw [step_settled stack outside (by simp [kind, Token.Kind.isValue])]
        simp [elementStep, kind]
      · cases shape : token.kind <;> simp_all [step, elementStep, Token.Kind.isValue]
  | region stack inside kind =>
      cases shape : token.kind <;> simp_all [step, regionStep, Token.Kind.isPart]
  | mismatch stack outside kind differs =>
      rw [step_settled stack outside (by simp [kind, Token.Kind.isValue]), elementStep, kind]
      exact closeElement_of_differs differs

private theorem inRegion {region : OpenRegion} (stack : builder.stack = element :: outer)
    (inside : element.region = some region) (notStart : token.kind ≠ .elementStart) :
    (∃ next, Reads input builder token next) ∨ ∃ error, Rejects input builder token error := by
  by_cases part : token.kind.isPart
  · exact Or.inl ⟨_, .take stack (.part inside part)⟩
  · by_cases last : token.kind = .fragmentEnd
    · exact Or.inl ⟨_, .take stack (.regionEnd inside last)⟩
    · exact Or.inr ⟨_, .region stack inside ⟨notStart, last, by simpa using part⟩⟩

private theorem inElement (stack : builder.stack = element :: outer)
    (outside : element.region = none) (notStart : token.kind ≠ .elementStart)
    (notRegion : token.kind ≠ .fragmentStart) :
    (∃ next, Reads input builder token next) ∨ ∃ error, Rejects input builder token error := by
  by_cases value : token.kind.isValue
  · cases pending : element.pending with
    | some name => exact Or.inl ⟨_, .take stack (.value outside pending value)⟩
    | none => exact Or.inr ⟨_, .element stack outside (Or.inr ⟨pending, value⟩)⟩
  · cases kind : token.kind with
    | elementStart => exact absurd kind notStart
    | fragmentStart => exact absurd kind notRegion
    | code | propertyValue => simp [kind, Token.Kind.isValue] at value
    | propertyName => exact Or.inl ⟨_, .take stack (.name outside kind)⟩
    | childText | childCode | childWhitespace =>
        exact Or.inl ⟨_, .take stack (.child outside (by simp [kind, Token.Kind.isChild]))⟩
    | fragmentEnd => exact Or.inr ⟨_, .element stack outside (Or.inl kind)⟩
    | elementEnd =>
        by_cases ends : token.Ends element.name
        · exact Or.inl ⟨_, .close stack outside ends⟩
        · have differs : tagName token.text ≠ [] ∧ tagName token.text ≠ element.name := by
            simpa [Token.Ends, kind, not_or] using ends
          exact Or.inr ⟨_, .mismatch stack outside kind differs⟩

/-- The rules leave no token out. -/
theorem reads_or_rejects (input : TreeInput) (builder : TreeBuilder) (token : Token) :
    (∃ next, Reads input builder token next) ∨ ∃ error, Rejects input builder token error := by
  by_cases counts : builder.Counts token
  · rcases Nat.lt_or_ge builder.calls input.ceiling with room | full
    · left
      rcases counts with kind | ⟨outside, kind⟩ | ⟨element, outer, stack, outside, kind⟩
      · exact ⟨_, .start kind room⟩
      · exact ⟨_, .code outside kind room⟩
      · exact ⟨_, .region stack outside kind room⟩
    · exact Or.inr ⟨_, .full counts full⟩
  · have notStart : token.kind ≠ .elementStart := fun kind => counts (Or.inl kind)
    cases stack : builder.stack with
    | nil =>
        have notCode : token.kind ≠ .code := fun kind => counts (Or.inr (Or.inl ⟨stack, kind⟩))
        exact Or.inr ⟨_, .outside stack ⟨notCode, notStart⟩⟩
    | cons element outer =>
        cases place : element.region with
        | some region => exact inRegion stack place notStart
        | none =>
            have notRegion : token.kind ≠ .fragmentStart := fun kind =>
              counts (Or.inr (Or.inr ⟨element, outer, stack, place, kind⟩))
            exact inElement stack place notStart notRegion

/-- Tree building follows the rules. -/
theorem step_eq_ok_iff : builder.step input token = .ok next ↔ Reads input builder token next := by
  constructor
  · intro stepped
    rcases reads_or_rejects input builder token with ⟨other, reads⟩ | ⟨error, rejects⟩
    · have equal := step_of_reads reads
      rw [stepped] at equal
      cases equal
      exact reads
    · have failed := step_of_rejects rejects
      rw [stepped] at failed
      cases failed
  · exact step_of_reads

theorem step_eq_error_iff :
    builder.step input token = .error error ↔ Rejects input builder token error := by
  constructor
  · intro stepped
    rcases reads_or_rejects input builder token with ⟨next, reads⟩ | ⟨other, rejects⟩
    · have succeeded := step_of_reads reads
      rw [stepped] at succeeded
      cases succeeded
    · have equal := step_of_rejects rejects
      rw [stepped] at equal
      cases equal
      exact rejects
  · exact step_of_rejects

/-! ## What every step preserves -/

/-- What holds of every builder that has read tokens from the start on. -/
structure Coherent (builder : TreeBuilder) : Prop where
  /-- Every element that was started and not ended is on the stack. -/
  balanced : builder.starts = builder.ends + builder.stack.length
  /-- A property that a region is the value of waits no longer. -/
  settled : ∀ element ∈ builder.stack, element.region ≠ none → element.pending = none

theorem coherent_initial : ({} : TreeBuilder).Coherent :=
  ⟨rfl, nofun⟩

theorem Reads.coherent (reads : Reads input builder token next) (coherent : builder.Coherent) :
    next.Coherent := by
  have balanced := coherent.balanced
  have settled := coherent.settled
  cases reads with
  | code outside kind room => exact ⟨balanced, settled⟩
  | start kind room =>
      refine ⟨?_, List.forall_mem_cons.mpr ⟨fun _ => rfl, settled⟩⟩
      simp only [List.length_cons]
      omega
  | take stack taken =>
      rw [stack] at balanced settled
      have parts := List.forall_mem_cons.mp settled
      exact ⟨balanced, List.forall_mem_cons.mpr ⟨taken.settled parts.1, parts.2⟩⟩
  | region stack outside kind room =>
      rw [stack] at balanced settled
      have parts := List.forall_mem_cons.mp settled
      exact ⟨balanced, List.forall_mem_cons.mpr ⟨fun _ => rfl, parts.2⟩⟩
  | @close element outer stack outside ends =>
      rw [stack] at balanced settled
      rw [List.length_cons] at balanced
      have parts := List.forall_mem_cons.mp settled
      cases outer with
      | nil =>
          refine ⟨?_, nofun⟩
          simp only [closeInnermost, List.length_nil] at *
          omega
      | cons parent above =>
          have outerParts := List.forall_mem_cons.mp parts.2
          refine ⟨?_, List.forall_mem_cons.mpr
            ⟨fun _ => OpenElement.pending_attach _ outerParts.1, outerParts.2⟩⟩
          simp only [closeInnermost, List.length_cons] at *
          omega

theorem Coherent.advance (coherent : builder.Coherent) : builder.advance.Coherent :=
  ⟨coherent.balanced, coherent.settled⟩

theorem Reads.calls_le (reads : Reads input builder token next)
    (within : builder.calls ≤ input.ceiling) : next.calls ≤ input.ceiling := by
  cases reads with
  | code outside kind room => exact room
  | start kind room => exact room
  | take stack taken => exact within
  | region stack outside kind room => exact room
  | @close element outer stack outside ends => cases outer <;> exact within

theorem run_coherent {tokens : List Token} (coherent : builder.Coherent)
    (ran : builder.run input tokens = .ok next) : next.Coherent := by
  induction tokens generalizing builder with
  | nil =>
      cases ran
      exact coherent
  | cons token tokens induction =>
      rw [run] at ran
      split at ran
      · cases ran
      · rename_i reached stepped
        exact induction ((step_eq_ok_iff.mp stepped).coherent coherent).advance ran

end TreeBuilder

end ElementScript
