import ElementScript.Comment

/-! # Removing comments where there are none

A character outside of comments is kept unless the reader takes it for the start of a comment
(`State.opensComment`). A comment is opened by two slashes, or by a slash and a star. A text that
holds neither is its own stripped text, wherever the reader takes it to be in code or in markup.
-/

namespace ElementScript

namespace Text

theorem holds_cons_eq_false_iff {pattern text : Text} {character : Char} :
    holds pattern (character :: text) = false ↔
      after? pattern (character :: text) = none ∧ holds pattern text = false := by
  simp [holds]

/-- Whether a text opens no comment anywhere. -/
def opensNoComment (text : Text) : Bool :=
  !holds ['/', '/'] text && !holds ['/', '*'] text

theorem opensNoComment_tail {character : Char} {text : Text}
    (none : opensNoComment (character :: text)) : opensNoComment text := by
  simp only [opensNoComment, Bool.and_eq_true, Bool.not_eq_true', holds_cons_eq_false_iff] at *
  exact ⟨none.1.2, none.2.2⟩

/-- After a slash there is neither a slash nor a star. -/
theorem head_of_opensNoComment {text : Text} (none : opensNoComment ('/' :: text)) :
    text.head? ≠ some '/' ∧ text.head? ≠ some '*' := by
  cases text with
  | nil => simp
  | cons first others =>
      simp only [opensNoComment, Bool.and_eq_true, Bool.not_eq_true', holds_cons_eq_false_iff]
        at none
      have slash := none.1.1
      have star := none.2.1
      constructor
      · rintro ⟨⟩
        simp [after?] at slash
      · rintro ⟨⟩
        simp [after?] at star

end Text

namespace Comment

/-- Whether the reader is outside of comments. -/
def Mode.isOutside : Mode → Bool
  | .code | .literal _ => true
  | .markupComment | .lineComment | .blockComment => false

/-- Whether the reader takes a character for the start of a comment. A comment of a child starts with
its brace. -/
def State.opensComment (state : State) (character : Char) (following : Text) : Bool :=
  state.mode = .code && state.skip = 0 &&
    (character = '/' && state.inCode &&
        (following.head? = some '/' || following.head? = some '*') ||
      character = '{' && 0 < state.elements && following.take 2 = ['/', '*'])

theorem opensComment_eq_false_of_opensNoComment {state : State} {character : Char}
    {following : Text} (none : Text.opensNoComment (character :: following)) :
    state.opensComment character following = false := by
  have slash : ¬ (character = '/' ∧
      (following.head? = some '/' ∨ following.head? = some '*')) := by
    rintro ⟨rfl, opened⟩
    have heads := Text.head_of_opensNoComment none
    exact opened.elim heads.1 heads.2
  have brace : following.take 2 ≠ ['/', '*'] := by
    have rest := Text.opensNoComment_tail none
    rcases following with _ | ⟨first, _ | ⟨second, others⟩⟩
    · simp
    · simp
    · intro opened
      simp only [List.take_succ_cons, List.take_zero, List.cons.injEq, and_true] at opened
      rw [opened.1, opened.2] at rest
      exact (Text.head_of_opensNoComment rest).2 rfl
  rw [← Bool.not_eq_true]
  intro opens
  simp only [State.opensComment, Bool.and_eq_true, Bool.or_eq_true, decide_eq_true_eq] at opens
  rcases opens.2 with ⟨⟨isSlash, -⟩, opened⟩ | ⟨-, opened⟩
  · exact slash ⟨isSlash, opened⟩
  · exact brace opened

theorem codeStep_of_not_opensComment {state : State} {character : Char} {following : Text}
    (mode : state.mode = .code) (skip : state.skip = 0)
    (none : state.opensComment character following = false) :
    (codeStep state character following).1 = character ∧
      (codeStep state character following).2.mode.isOutside ∧
      (codeStep state character following).2.skip = 0 := by
  have outside : state.mode.isOutside := by simp [mode, Mode.isOutside]
  simp only [State.opensComment, mode, skip, decide_true, Bool.and_true, Bool.true_and,
    Bool.or_eq_false_iff, Bool.and_eq_false_iff, decide_eq_false_iff_not] at none
  unfold codeStep
  split
  · rename_i brace
    have noStar : following.take 2 ≠ ['/', '*'] := by
      rcases none.2 with (other | empty) | noStar
      · exact absurd brace.1 other
      · exact absurd brace.2 empty
      · exact noStar
    rw [if_neg noStar]
    exact ⟨rfl, outside, skip⟩
  · split
    · exact ⟨rfl, outside, skip⟩
    · split
      · rename_i slash
        have heads : following.head? ≠ some '/' ∧ following.head? ≠ some '*' := by
          rcases none.1 with (other | text) | heads
          · exact absurd slash.1 other
          · simp [text] at slash
          · exact heads
        rw [if_neg heads.1, if_neg heads.2]
        exact ⟨rfl, outside, skip⟩
      · split
        · exact ⟨rfl, rfl, skip⟩
        · split
          · split
            · exact ⟨rfl, outside, skip⟩
            · split
              · exact ⟨rfl, outside, skip⟩
              · exact ⟨rfl, outside, skip⟩
          · split
            · exact ⟨rfl, outside, skip⟩
            · exact ⟨rfl, outside, skip⟩

/-- A character that is outside of comments and opens none is kept. -/
theorem step_of_not_opensComment {state : State} {character : Char} {following : Text}
    (outside : state.mode.isOutside) (skip : state.skip = 0)
    (none : state.opensComment character following = false) :
    (step state character following).1 = character ∧
      (step state character following).2.mode.isOutside ∧
      (step state character following).2.skip = 0 := by
  simp only [step, skip]
  cases mode : state.mode with
  | code => exact codeStep_of_not_opensComment mode skip none
  | literal mark =>
      simp only
      split
      · exact ⟨rfl, rfl, rfl⟩
      · exact ⟨rfl, outside, skip⟩
  | markupComment | lineComment | blockComment => simp [mode, Mode.isOutside] at outside

theorem stripFrom_of_opensNoComment {state : State} {source : Text}
    (outside : state.mode.isOutside) (skip : state.skip = 0) (none : source.opensNoComment) :
    stripFrom state source = source := by
  induction source generalizing state with
  | nil => rfl
  | cons character rest induction =>
      have stepped := step_of_not_opensComment outside skip
        (opensComment_eq_false_of_opensNoComment none)
      have others : stripFrom ((step state character rest).2.remember character) rest = rest :=
        induction stepped.2.1 stepped.2.2 (Text.opensNoComment_tail none)
      rw [stripFrom, stepped.1, others]

/-- A text in which no comment is opened is its own stripped text. -/
theorem strip_of_opensNoComment {source : Text} (none : source.opensNoComment) :
    strip source = source :=
  stripFrom_of_opensNoComment rfl rfl none

end Comment

end ElementScript
