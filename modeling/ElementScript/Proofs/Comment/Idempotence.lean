import ElementScript.Proofs.Scan.KeptText

/-! # Removing comments twice

In a script without markup a second removal of comments finds none. The two readers go through the
script in step: the second one is in a literal exactly where the first one is, and in code where the
first one is in code or in a comment (`Follows`). A slash that the first reader has kept opens no
comment for the second one, because the character after it is kept too or has become a blank.
-/

namespace ElementScript.Comment

variable {state other : State} {character : Char} {following : Text}

/-- Every character is kept or becomes a blank. -/
theorem step_eq_or_isBlank (state : State) (character : Char) (following : Text) :
    (step state character following).1 = character ∨
      Text.isBlank (step state character following).1 := by
  by_cases shown : Text.isBlank (step state character following).1 = false
  · exact Or.inl (step_of_shown shown).1
  · exact Or.inr (by simpa using shown)

/-- What does not stand first does not come to stand first, unless it is a blank. -/
theorem head?_stripFrom_ne {source : Text} (absent : source.head? ≠ some character)
    (visible : Text.isBlank character = false) :
    (stripFrom state source).head? ≠ some character := by
  cases source with
  | nil => exact absent
  | cons first rest =>
      simp only [stripFrom, List.head?_cons, ne_eq, Option.some.injEq] at absent ⊢
      rcases step_eq_or_isBlank state first rest with kept | blank
      · rwa [kept]
      · rintro rfl
        rw [blank] at visible
        cases visible

/-- Removing comments brings in no characters but blanks. -/
theorem mem_stripFrom {source : Text} (member : character ∈ stripFrom state source) :
    character ∈ source ∨ Text.isBlank character := by
  induction source generalizing state with
  | nil => exact Or.inl member
  | cons first rest induction =>
      rw [stripFrom] at member
      rcases List.mem_cons.mp member with rfl | member
      · rcases step_eq_or_isBlank state first rest with kept | blank
        · rw [kept]
          exact Or.inl List.mem_cons_self
        · exact Or.inr blank
      · exact (induction member).imp_left (List.mem_cons_of_mem first)

theorem not_mem_strip {source : Text} (absent : character ∉ source)
    (visible : Text.isBlank character = false) : character ∉ strip source := by
  intro member
  rcases mem_stripFrom member with kept | blank
  · exact absent kept
  · rw [visible] at blank
    cases blank

/-! ## One character -/

/-- The mode after a character of a script that opens no comment. -/
def modeAfter (mode : Mode) (character : Char) : Mode :=
  if Literal.isMark character then .literal character else mode

theorem isMark_of_isBlank (blank : Text.isBlank character) : Literal.isMark character = false := by
  simp only [Text.isBlank, Bool.or_eq_true, decide_eq_true_eq] at blank
  rcases blank with ((rfl | rfl) | rfl) | rfl <;> rfl

theorem ne_of_isBlank {mark : Char} (blank : Text.isBlank character)
    (visible : Text.isBlank mark = false) : character ≠ mark := by
  rintro rfl
  rw [blank] at visible
  cases visible

/-- Outside of elements only a literal changes what code is read as. -/
theorem step_script (outside : state.elements = 0) (mode : state.mode = .code)
    (ready : state.skip = 0) (noTag : character ≠ '<')
    (noComment : character = '/' → following.head? ≠ some '/' ∧ following.head? ≠ some '*') :
    step state character following =
      (character, { state with mode := modeAfter state.mode character }) := by
  rcases state with ⟨_, _, _, braces, previous, beforePrevious⟩
  cases outside
  cases mode
  cases ready
  by_cases slash : character = '/'
  · have heads := noComment slash
    simp [step, codeStep, modeAfter, State.inCode, slash, heads, Literal.isMark]
  · by_cases mark : Literal.isMark character
    · simp [step, codeStep, modeAfter, State.inCode, slash, mark]
    · simp [step, codeStep, modeAfter, slash, mark, noTag]

/-- Inside of a comment no literal is opened. -/
theorem step_covered (covered : state.skip ≠ 0 ∨ state.mode.isOutside = false)
    (unquoted : ∀ mark, state.mode ≠ .literal mark) :
    (step state character following).2.elements = state.elements ∧
      ∀ mark, (step state character following).2.mode ≠ .literal mark := by
  unfold step
  split
  · exact ⟨rfl, unquoted⟩
  · rename_i ready
    cases mode : state.mode with
    | code => simp [ready, mode, Mode.isOutside] at covered
    | literal mark => exact absurd mode (unquoted mark)
    | markupComment | lineComment | blockComment =>
        simp only
        split <;> simp [mode]

/-- Where a comment is opened, no literal is. -/
theorem step_opening (opens : state.opensComment character following) :
    (step state character following).2.elements = state.elements ∧
      ∀ mark, (step state character following).2.mode ≠ .literal mark := by
  simp only [State.opensComment, Bool.and_eq_true, Bool.or_eq_true, decide_eq_true_eq] at opens
  rcases opens with ⟨⟨mode, skip⟩, ⟨⟨rfl, inCode⟩, heads⟩ | ⟨⟨rfl, elements⟩, mark⟩⟩
  · rcases heads with head | head <;> simp [step, codeStep, mode, skip, inCode, head]
  · simp [step, codeStep, mode, skip, elements, mark]

/-! ## Two readers in step -/

/-- How a reader of a stripped script stands to the reader of the script itself. -/
inductive Follows (state other : State) : Prop where
  | code (outside : state.elements = 0 ∧ other.elements = 0)
      (unquoted : ∀ mark, state.mode ≠ .literal mark) (mode : other.mode = .code)
      (ready : other.skip = 0) : Follows state other
  | literal {mark : Char} (outside : state.elements = 0 ∧ other.elements = 0)
      (mode : state.mode = .literal mark ∧ other.mode = .literal mark)
      (ready : state.skip = 0 ∧ other.skip = 0) (previous : other.previous = state.previous) :
      Follows state other

/-- A character that opens a comment for neither reader opens a literal for both or for none. -/
theorem follows_of_kept {rest stripped : Text}
    (outside : state.elements = 0 ∧ other.elements = 0)
    (mode : state.mode = .code ∧ other.mode = .code) (ready : state.skip = 0 ∧ other.skip = 0)
    (noTag : character ≠ '<')
    (heads : character = '/' → rest.head? ≠ some '/' ∧ rest.head? ≠ some '*')
    (strippedHeads : character = '/' →
      stripped.head? ≠ some '/' ∧ stripped.head? ≠ some '*') :
    (step other character stripped).1 = character ∧
      Follows ((step state character rest).2.remember character)
        ((step other character stripped).2.remember character) := by
  rw [step_script outside.1 mode.1 ready.1 noTag heads,
    step_script outside.2 mode.2 ready.2 noTag strippedHeads]
  refine ⟨rfl, ?_⟩
  by_cases quoted : Literal.isMark character
  · have literal : modeAfter state.mode character = .literal character ∧
        modeAfter other.mode character = .literal character := by
      simp [modeAfter, quoted]
    exact .literal outside literal ready rfl
  · exact .code outside (by simp [State.remember, modeAfter, quoted, mode])
      (by simp [State.remember, modeAfter, quoted, mode]) ready.2

/-- A reader in code goes on over a blank. -/
theorem step_isBlank (outside : other.elements = 0) (mode : other.mode = .code)
    (ready : other.skip = 0) (blank : Text.isBlank character) :
    step other character following = (character, other) := by
  rw [step_script outside mode ready (ne_of_isBlank blank rfl)
    fun slash => absurd slash (ne_of_isBlank blank rfl), modeAfter, isMark_of_isBlank blank]
  rfl

/-- Where a comment covers a character, the second reader stays in code. -/
theorem follows_of_blanked {next : State} {blanked : Char} (outside : other.elements = 0)
    (mode : other.mode = .code) (ready : other.skip = 0) (blank : Text.isBlank blanked)
    (covered : next.elements = 0 ∧ ∀ mark, next.mode ≠ .literal mark) :
    (step other blanked following).1 = blanked ∧
      Follows (next.remember character) ((step other blanked following).2.remember blanked) := by
  rw [step_isBlank outside mode ready blank]
  exact ⟨rfl, .code ⟨covered.1, outside⟩ covered.2 mode ready⟩

theorem step_literal {mark : Char} (mode : state.mode = .literal mark) (ready : state.skip = 0) :
    step state character following =
      (character,
        if Literal.closes mark state.previous character then { state with mode := .code }
        else state) := by
  simp only [step, ready, mode]
  split <;> rfl

/-- The second reader keeps what the first one has left, and stays in step. -/
theorem Follows.step (follows : Follows state other) (noTag : character ≠ '<') (rest : Text) :
    let result := step state character rest
    let next := Comment.step other result.1 (stripFrom (result.2.remember character) rest)
    next.1 = result.1 ∧ Follows (result.2.remember character) (next.2.remember result.1) := by
  intro result next
  cases follows with
  | @literal mark outside mode ready previous =>
      have first : result = _ := step_literal mode.1 ready.1
      have second : next = _ := step_literal mode.2 ready.2
      rw [second, first, previous]
      refine ⟨rfl, ?_⟩
      by_cases closes : Literal.closes mark state.previous character
      · simp only [closes, if_true]
        exact .code outside nofun rfl ready.2
      · simp only [closes, Bool.false_eq_true, if_false]
        exact .literal outside mode ready rfl
  | code outside unquoted mode ready =>
      by_cases covered : state.skip ≠ 0 ∨ state.mode.isOutside = false
      · have frame : result.2.elements = 0 ∧ _ :=
          (step_covered covered unquoted).imp_left (·.trans outside.1)
        exact follows_of_blanked outside.2 mode ready (isBlank_step covered) frame
      · have uncovered : state.mode = .code ∧ state.skip = 0 := by
          cases shape : state.mode <;> simp_all [Mode.isOutside]
        by_cases opens : state.opensComment character rest
        · have frame : result.2.elements = 0 ∧ _ :=
            (step_opening opens).imp_left (·.trans outside.1)
          have blank : Text.isBlank result.1 := by
            rw [(step_of_opensComment opens).1]
            rfl
          exact follows_of_blanked outside.2 mode ready blank frame
        · -- The character is kept, and the one after it is kept or blank.
          have heads : character = '/' → rest.head? ≠ some '/' ∧ rest.head? ≠ some '*' := by
            rintro rfl
            simpa [State.opensComment, uncovered, State.inCode, outside.1] using opens
          have kept : result.1 = character :=
            congrArg Prod.fst (step_script outside.1 uncovered.1 uncovered.2 noTag heads)
          simp only [next, kept]
          exact follows_of_kept outside ⟨uncovered.1, mode⟩ ⟨uncovered.2, ready⟩ noTag heads
            fun slash => ⟨head?_stripFrom_ne (heads slash).1 rfl,
              head?_stripFrom_ne (heads slash).2 rfl⟩

/-! ## Whole scripts -/

theorem stripFrom_stripFrom {source : Text} (follows : Follows state other)
    (noTag : '<' ∉ source) :
    stripFrom other (stripFrom state source) = stripFrom state source := by
  induction source generalizing state other with
  | nil => rfl
  | cons character rest induction =>
      have parts := List.ne_and_not_mem_of_not_mem_cons noTag
      have stepped := follows.step (Ne.symm parts.1) rest
      rw [stripFrom, stripFrom, stepped.1, induction stepped.2 parts.2]

/-- A script without markup has no comments left when they have been removed. -/
theorem strip_strip {source : Text} (noTag : '<' ∉ source) :
    strip (strip source) = strip source :=
  stripFrom_stripFrom (.code ⟨rfl, rfl⟩ nofun rfl rfl) noTag

end ElementScript.Comment
