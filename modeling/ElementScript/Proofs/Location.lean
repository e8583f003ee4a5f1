import Mathlib.Data.List.TakeWhile
import Mathlib.Data.Prod.Lex
import Mathlib.Order.Interval.Set.Basic
import ElementScript.Location

/-! # Lines and columns

A position is resolved to a line, a column and the text of the line. The line counts the line ends
before the position, and the column counts the characters behind the last one of them. So a position
is given back by its line and column: they grow together with it, in lexicographic order, up to the
end of the source (`Location.locate_determines`). Past the end nothing changes any more.
-/

namespace ElementScript.Location

/-! ## The line that a position is on -/

/-- Whether an index is the start of the line that is reached when some characters of a source are
read: it is behind a line end among them or at the start of the source, and no other line end among
them comes after it. -/
structure StartsLine (source : Text) (read start : Nat) : Prop where
  le_read : start ≤ read
  behind : start = 0 ∨ ∃ lineEnd, start = lineEnd + 1 ∧ source[lineEnd]? = some '\n'
  unbroken : ∀ index, start ≤ index → index < read → source[index]? ≠ some '\n'

/-- Whether nothing stands behind the last line end of a text. -/
def IsWholeLines (text : Text) : Prop :=
  text = [] ∨ ∃ others, text = others ++ ['\n']

variable {earlier line rest : Text}

/-- A text is some whole lines and its last line. -/
theorem exists_lastLine (text : Text) :
    ∃ earlier, text = earlier ++ lastLine text ∧ IsWholeLines earlier ∧ '\n' ∉ lastLine text := by
  refine ⟨(text.reverse.dropWhile (· ≠ '\n')).reverse, ?_, ?_, ?_⟩
  · rw [lastLine, ← List.reverse_append, List.takeWhile_append_dropWhile, List.reverse_reverse]
  · cases ends : text.reverse.dropWhile (· ≠ '\n') with
    | nil => exact Or.inl rfl
    | cons first others =>
        have lineEnd := List.head?_dropWhile_not (· ≠ '\n') text.reverse
        simp only [ends, List.head?_cons] at lineEnd
        have first_eq : first = '\n' := by simpa using lineEnd
        exact Or.inr ⟨others.reverse, by rw [List.reverse_cons, first_eq]⟩
  · intro member
    have inside : '\n' ∈ text.reverse.takeWhile (· ≠ '\n') := List.mem_reverse.mp member
    simpa using List.mem_takeWhile_imp inside

theorem ne_lineEnd_of_not_mem (plain : '\n' ∉ line) :
    ∀ character ∈ line, decide (character ≠ '\n') = true := by
  intro character member
  have different : character ≠ '\n' := fun lineEnd => plain (lineEnd ▸ member)
  simpa using different

/-- Characters without a line end make the last line longer. -/
theorem lastLine_append_of_not_mem {text : Text} (plain : '\n' ∉ line) :
    lastLine (text ++ line) = lastLine text ++ line := by
  have reversed := @ne_lineEnd_of_not_mem line.reverse (by simpa using plain)
  rw [lastLine, List.reverse_append, List.takeWhile_append_of_pos reversed, List.reverse_append,
    List.reverse_reverse, lastLine]

theorem startsLine_of_isWholeLines (whole : IsWholeLines earlier) (plain : '\n' ∉ line)
    (rest : Text) :
    StartsLine (earlier ++ (line ++ rest)) (earlier.length + line.length) earlier.length := by
  refine ⟨Nat.le_add_right _ _, ?_, ?_⟩
  · rcases whole with rfl | ⟨others, rfl⟩
    · exact Or.inl rfl
    · exact Or.inr ⟨others.length, by simp, by simp⟩
  · intro index from_start before_read lineEnd
    have within : index - earlier.length < line.length := by omega
    rw [List.getElem?_append_right from_start, List.getElem?_append_left within] at lineEnd
    exact plain (List.mem_of_getElem? lineEnd)

/-- What is read up to a position is some whole lines and a part of the next one. -/
theorem exists_wholeLines (source : Text) (offset : Nat) :
    ∃ earlier, IsWholeLines earlier ∧ '\n' ∉ lastLine (source.take offset) ∧
      earlier ++ (lastLine (source.take offset) ++ source.drop offset) = source ∧
      min offset source.length = earlier.length + (lastLine (source.take offset)).length ∧
      (source.take (min offset source.length)).count '\n' = earlier.count '\n' := by
  obtain ⟨earlier, split, whole, plain⟩ := exists_lastLine (source.take offset)
  refine ⟨earlier, whole, plain, ?_, ?_, ?_⟩
  · rw [← List.append_assoc, ← split, List.take_append_drop]
  · rw [← List.length_take, ← List.length_append, ← split]
  · rw [← List.take_eq_take_min, split, List.count_append, List.count_eq_zero.mpr plain,
      Nat.add_zero]

/-! ## Lines in order -/

/-- The first line of a text ends before its first line end. -/
theorem head?_lines (text : Text) :
    (text.splitOn '\n').head? = some (text.takeWhile (· ≠ '\n')) := by
  induction text with
  | nil => rfl
  | cons character text induction =>
      rw [List.splitOn_cons_eq_if_modifyHead]
      by_cases lineEnd : character = '\n'
      · simp [lineEnd]
      · simp [lineEnd, List.head?_modifyHead, induction]

theorem length_lines (text : Text) : (text.splitOn '\n').length = text.count '\n' + 1 := by
  induction text with
  | nil => rfl
  | cons character text induction =>
      rw [List.splitOn_cons_eq_if_modifyHead]
      by_cases lineEnd : character = '\n'
      · simp [lineEnd, induction]
      · simp [lineEnd, induction]

/-- Whole lines are as many as their line ends, and the line behind them is the next one. -/
theorem getElem?_lines (whole : IsWholeLines earlier) (rest : Text) :
    ((earlier ++ rest).splitOn '\n')[earlier.count '\n']? =
      some (rest.takeWhile (· ≠ '\n')) := by
  rcases whole with rfl | ⟨others, rfl⟩
  · rw [List.nil_append, List.count_nil, ← List.head?_eq_getElem?]
    exact head?_lines rest
  · have split : (others ++ ['\n'] ++ rest).splitOn '\n' =
        others.splitOn '\n' ++ rest.splitOn '\n' := by
      rw [List.append_assoc, List.singleton_append, List.splitOn_append_cons_self]
    have count : (others ++ ['\n']).count '\n' = (others.splitOn '\n').length := by
      rw [length_lines, List.count_append, List.count_singleton_self]
    rw [split, count, List.getElem?_append_right (Nat.le_refl _), Nat.sub_self,
      ← List.head?_eq_getElem?]
    exact head?_lines rest

/-! ## Positions in order -/

/-- A later position is on a later line, or further right on the same line. -/
theorem line_column_lt {source : Text} {offset other : Nat} (later : offset < other)
    (within : other ≤ source.length) :
    (locate source offset).line < (locate source other).line ∨
      (locate source offset).line = (locate source other).line ∧
        (locate source offset).column < (locate source other).column := by
  obtain ⟨between, split⟩ : ∃ between, source.take other = source.take offset ++ between := by
    obtain ⟨between, split⟩ := List.take_prefix_take_left (l := source) (Nat.le_of_lt later)
    exact ⟨between, split.symm⟩
  have lengths := congrArg List.length split
  rw [List.length_append, List.length_take, List.length_take] at lengths
  simp only [locate, split, List.count_append]
  by_cases broken : '\n' ∈ between
  · left
    have positive : 0 < between.count '\n' := List.count_pos_iff.mpr broken
    omega
  · right
    rw [List.count_eq_zero.mpr broken, lastLine_append_of_not_mem broken, List.length_append]
    constructor
    · rfl
    · omega

/-- The line of a position counts the line ends before it, the column counts the characters from the
start of its line, and the text is the whole of that line, trimmed. Up to the end of the source line
and column grow with the position, and so they determine it. -/
theorem locate_determines (source : Text) :
    (∀ offset, ∃ (start : Nat) (line : Text),
      let read := min offset source.length
      StartsLine source read start ∧
        line = (source.drop start).takeWhile (· ≠ '\n') ∧
        read ≤ start + line.length ∧
        (source.splitOn '\n')[(source.take read).count '\n']? = some line ∧
        locate source offset =
          { offset
            line := 1 + (source.take read).count '\n'
            column := 1 + read - start
            text := line.trim }) ∧
      StrictMonoOn
        (fun offset => toLex ((locate source offset).line, (locate source offset).column))
        (Set.Iic source.length) ∧
      Set.InjOn (fun offset => ((locate source offset).line, (locate source offset).column))
        (Set.Iic source.length) := by
  have increasing : StrictMonoOn
      (fun offset => toLex ((locate source offset).line, (locate source offset).column))
      (Set.Iic source.length) := by
    intro offset _ other within later
    exact Prod.Lex.toLex_lt_toLex.mpr (line_column_lt later within)
  refine ⟨?_, increasing, ?_⟩
  · intro offset
    obtain ⟨earlier, whole, plain, parts, length, count⟩ := exists_wholeLines source offset
    have full : (lastLine (source.take offset) ++ source.drop offset).takeWhile (· ≠ '\n') =
        lastLine (source.take offset) ++ (source.drop offset).takeWhile (· ≠ '\n') :=
      List.takeWhile_append_of_pos (ne_lineEnd_of_not_mem plain)
    have starts := startsLine_of_isWholeLines whole plain (source.drop offset)
    have listed := getElem?_lines whole (lastLine (source.take offset) ++ source.drop offset)
    have dropped : source.drop earlier.length =
        lastLine (source.take offset) ++ source.drop offset := by
      conv_lhs => rw [← parts, List.drop_left]
    rw [parts, ← length] at starts
    rw [parts, full] at listed
    refine ⟨earlier.length, _, starts, by rw [dropped, full], ?_, by rw [count]; exact listed, ?_⟩
    · rw [length, List.length_append]
      omega
    · rw [locate, Location.mk.injEq]
      refine ⟨rfl, ?_, ?_, rfl⟩
      · rw [List.take_eq_take_min, Nat.add_comm]
      · omega
  · intro offset inside other otherInside same
    exact increasing.injOn inside otherInside (congrArg toLex same)

/-- A position on a line end, and one past the end of a source whose last line is empty. -/
example : (locate "a b \nc\n".toList 4, locate "a b \nc\n".toList 9) =
    ({ offset := 4, line := 1, column := 5, text := "a b".toList },
      { offset := 9, line := 3, column := 1, text := [] }) := by decide

end ElementScript.Location
