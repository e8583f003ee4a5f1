import Mathlib.Data.List.Forall2
import ElementScript.Location
import ElementScript.Proofs.Scan.KeptText

/-! # Positions in a text without comments

A comment leaves as many characters behind as it had, and its line ends stay where they are. So an
offset of the text without comments is one of the source, and it is on the same line and in the same
column of both (`strip_keeps_positions`): line and column depend on nothing but where the line ends
stand (`Location.line_column_eq`).
-/

namespace ElementScript

/-! ## Lines and columns -/

namespace Location

variable {first second : Text}

/-- Whether two texts have their line ends in the same places. -/
def SameLines (first second : Text) : Prop :=
  List.Forall₂ (fun one other => one = '\n' ↔ other = '\n') first second

theorem count_lineEnd_eq (same : SameLines first second) :
    first.count '\n' = second.count '\n' := by
  induction same with
  | nil => rfl
  | @cons one other first second ends rest induction =>
      by_cases lineEnd : one = '\n'
      · rw [lineEnd, ends.mp lineEnd, List.count_cons_self, List.count_cons_self, induction]
      · have otherEnd : other ≠ '\n' := fun equal => lineEnd (ends.mpr equal)
        rw [List.count_cons_of_ne lineEnd, List.count_cons_of_ne otherEnd, induction]

theorem length_line_eq (same : SameLines first second) :
    (first.takeWhile (· ≠ '\n')).length = (second.takeWhile (· ≠ '\n')).length := by
  induction same with
  | nil => rfl
  | @cons one other first second ends rest induction =>
      by_cases lineEnd : one = '\n'
      · simp [lineEnd, ends.mp lineEnd]
      · have otherEnd : other ≠ '\n' := fun equal => lineEnd (ends.mpr equal)
        simpa [lineEnd, otherEnd] using induction

theorem length_lastLine_eq (same : SameLines first second) :
    (lastLine first).length = (lastLine second).length := by
  have reversed : SameLines first.reverse second.reverse := List.rel_reverse same
  rw [lastLine, lastLine, List.length_reverse, List.length_reverse]
  exact length_line_eq reversed

/-- The line and the column of an offset depend on the line ends alone. -/
theorem line_column_eq (same : SameLines first second) (offset : Nat) :
    (locate first offset).line = (locate second offset).line ∧
      (locate first offset).column = (locate second offset).column := by
  have before : SameLines (first.take offset) (second.take offset) :=
    List.forall₂_take offset same
  constructor
  · exact congrArg (· + 1) (count_lineEnd_eq before)
  · exact congrArg (· + 1) (length_lastLine_eq before)

end Location

namespace Comment

/-! ## Characters -/

/-- What may become of a character: it is kept, or it becomes a space, unless it ends a line. -/
def Shows (original shown : Char) : Prop :=
  shown = original ∨ shown = ' ' ∧ original ≠ '\n'

theorem Shows.lineEnd_iff {original shown : Char} (shows : Shows original shown) :
    shown = '\n' ↔ original = '\n' := by
  rcases shows with rfl | ⟨rfl, visible⟩
  · rfl
  · simp [visible]

theorem shows_blank (character : Char) : Shows character (blank character) := by
  unfold blank
  split
  · exact Or.inl rfl
  · rename_i visible
    exact Or.inr ⟨rfl, visible⟩

variable {state : State} {character : Char} {following : Text}

/-- Inside of a comment all but line ends are blanked. -/
theorem shows_of_covered (covered : state.skip ≠ 0 ∨ state.mode.isOutside = false) :
    Shows character (step state character following).1 := by
  unfold step
  split
  · exact shows_blank character
  · rename_i ready
    cases mode : state.mode with
    | code | literal mark => simp [ready, mode, Mode.isOutside] at covered
    | markupComment | blockComment =>
        simp only
        split
        · rename_i ends
          exact Or.inr ⟨rfl, by simp [ends.1]⟩
        · exact shows_blank character
    | lineComment =>
        simp only
        split
        · exact Or.inl rfl
        · rename_i visible
          exact Or.inr ⟨rfl, visible⟩

/-- No line end opens a comment. -/
theorem ne_lineEnd_of_opensComment (opens : state.opensComment character following) :
    character ≠ '\n' := by
  rintro rfl
  simp [State.opensComment] at opens

theorem shows_step (state : State) (character : Char) (following : Text) :
    Shows character (step state character following).1 := by
  by_cases covered : state.skip ≠ 0 ∨ state.mode.isOutside = false
  · exact shows_of_covered covered
  · cases opens : state.opensComment character following with
    | true =>
        have visible := ne_lineEnd_of_opensComment opens
        exact Or.inr ⟨(step_of_opensComment opens).1, visible⟩
    | false =>
        simp only [not_or, not_not, Bool.not_eq_false] at covered
        exact Or.inl (step_of_not_opensComment covered.2 covered.1 opens).1

/-! ## Whole texts -/

theorem shows_stripFrom (state : State) (source : Text) :
    List.Forall₂ Shows source (stripFrom state source) := by
  induction source generalizing state with
  | nil => exact .nil
  | cons character rest induction => exact .cons (shows_step state character rest) (induction _)

theorem sameLines_strip (source : Text) : Location.SameLines (strip source) source :=
  (shows_stripFrom {} source).flip.imp fun _ _ => Shows.lineEnd_iff

/-- Removing comments keeps the number of characters and every character that it does not replace by
a space, and it replaces no line end. So every offset has the line and the column that it has in the
source. -/
theorem strip_keeps_positions (source : Text) :
    (strip source).length = source.length ∧
      List.Forall₂ Shows source (strip source) ∧
      ∀ offset,
        (Location.locate (strip source) offset).line = (Location.locate source offset).line ∧
          (Location.locate (strip source) offset).column =
            (Location.locate source offset).column :=
  ⟨length_strip source, shows_stripFrom {} source,
    Location.line_column_eq (sameLines_strip source)⟩

/-- The slash of `/*/` does not end the comment that it opens. -/
example : strip "/*/\n/* é".toList = "   \n    ".toList := by decide

end Comment

end ElementScript
