import ElementScript.Tree.Build

/-! # Balanced braces

A text is balanced if it closes as many braces as it opens and no part of it from the start on
closes more. `Text.nesting` counts the braces that a text leaves open, character by character, and
fails where one is closed that is not open. A text is balanced if it fails nowhere and leaves none
open (`Text.isBalanced_iff`), so that balance is decided by one pass, and the nesting of a text is
that of its parts one after the other (`Text.nesting_append`).

Whitespace holds no braces. Removing a brace at the start of a balanced text and one at its end
leaves it balanced only if the two belong together (`Text.isBalanced_stripBraces_iff`).
-/

namespace ElementScript.Text

variable {text first second : Text} {depth reached : Nat}

/-- Whether every brace of a text is closed in it, and none is closed that is not open. -/
def IsBalanced (text : Text) : Prop :=
  (∀ before, before <+: text → before.count '}' ≤ before.count '{') ∧
    text.count '}' = text.count '{'

/-! ## Counting open braces -/

/-- The number of open braces after a character. -/
def nestingAfter (depth : Nat) (character : Char) : Option Nat :=
  if character = '{' then some (depth + 1)
  else if character = '}' then
    match depth with
    | 0 => none
    | outer + 1 => some outer
  else some depth

/-- The number of open braces after a text, if it stands where some are open. -/
def nesting (text : Text) (depth : Nat) : Option Nat :=
  text.foldlM nestingAfter depth

@[simp] theorem nesting_nil (depth : Nat) : nesting [] depth = some depth := rfl

theorem nesting_cons (character : Char) (text : Text) (depth : Nat) :
    nesting (character :: text) depth = (nestingAfter depth character).bind text.nesting :=
  List.foldlM_cons

theorem nesting_append (first second : Text) (depth : Nat) :
    nesting (first ++ second) depth = (first.nesting depth).bind second.nesting :=
  List.foldlM_append

theorem nesting_append_of_eq_some (counted : first.nesting depth = some reached) :
    nesting (first ++ second) depth = second.nesting reached := by
  rw [nesting_append, counted, Option.bind_some]

theorem nesting_singleton (character : Char) (depth : Nat) :
    nesting [character] depth = nestingAfter depth character := by
  rw [nesting_cons]
  cases nestingAfter depth character <;> rfl

theorem nestingAfter_eq_some_iff {character : Char} :
    nestingAfter depth character = some reached ↔
      [character].count '}' ≤ depth + [character].count '{' ∧
        depth + [character].count '{' = reached + [character].count '}' := by
  unfold nestingAfter
  by_cases opening : character = '{'
  · simp [opening]
  · by_cases closing : character = '}'
    · cases depth <;> simp [closing]
    · simp [opening, closing]

/-- Only a closing brace where none is open cannot be counted. -/
theorem nestingAfter_eq_none_iff {character : Char} :
    nestingAfter depth character = none ↔ character = '}' ∧ depth = 0 := by
  unfold nestingAfter
  by_cases opening : character = '{'
  · simp [opening]
  · by_cases closing : character = '}'
    · cases depth <;> simp [closing]
    · simp [opening, closing]

theorem count_cons_eq (character brace : Char) (text : Text) :
    (character :: text).count brace = [character].count brace + text.count brace := by
  rw [← List.count_append, List.singleton_append]

/-- A text can be read where some braces are open if no part of it from the start on closes more
than these and its own. -/
theorem nesting_eq_some_iff :
    text.nesting depth = some reached ↔
      (∀ before, before <+: text → before.count '}' ≤ depth + before.count '{') ∧
        depth + text.count '{' = reached + text.count '}' := by
  induction text generalizing depth with
  | nil => simp
  | cons character text induction =>
      rw [nesting_cons, Option.bind_eq_some_iff]
      simp only [count_cons_eq character _ text, nestingAfter_eq_some_iff, induction]
      constructor
      · rintro ⟨middle, stepped, prefixes, total⟩
        refine ⟨fun before within => ?_, by omega⟩
        rcases List.prefix_cons_iff.mp within with rfl | ⟨rest, rfl, inner⟩
        · simp
        · have inside := prefixes rest inner
          rw [count_cons_eq, count_cons_eq character '{']
          omega
      · rintro ⟨prefixes, total⟩
        have first := prefixes [character] (List.prefix_append [character] text)
        refine ⟨depth + [character].count '{' - [character].count '}', by omega, ?_, by omega⟩
        intro rest within
        have inside := prefixes (character :: rest) (List.cons_prefix_cons.mpr ⟨rfl, within⟩)
        rw [count_cons_eq, count_cons_eq character '{'] at inside
        omega

theorem isBalanced_iff : text.IsBalanced ↔ text.nesting 0 = some 0 := by
  rw [nesting_eq_some_iff]
  simp only [IsBalanced, Nat.zero_add, eq_comm]

instance (text : Text) : Decidable text.IsBalanced :=
  decidable_of_iff _ isBalanced_iff.symm

/-! ## Whitespace -/

theorem nestingAfter_of_isWhitespace {character : Char} (white : isWhitespace character)
    (depth : Nat) : nestingAfter depth character = some depth := by
  have noOpening : character ≠ '{' := by
    rintro rfl
    revert white
    decide
  have noClosing : character ≠ '}' := by
    rintro rfl
    revert white
    decide
  simp [nestingAfter, noOpening, noClosing]

theorem nesting_of_forall_isWhitespace (white : ∀ character ∈ text, isWhitespace character)
    (depth : Nat) : text.nesting depth = some depth := by
  induction text with
  | nil => rfl
  | cons character text induction =>
      have parts := List.forall_mem_cons.mp white
      rw [nesting_cons, nestingAfter_of_isWhitespace parts.1, Option.bind_some,
        induction parts.2]

theorem nesting_of_isAllWhitespace (white : text.isAllWhitespace) (depth : Nat) :
    text.nesting depth = some depth :=
  nesting_of_forall_isWhitespace (List.all_eq_true.mp white) depth

/-- A text is its trimmed part between two runs of whitespace. -/
theorem exists_trim (text : Text) :
    ∃ before after, text = before ++ (text.trim ++ after) ∧ before.isAllWhitespace ∧
      after.isAllWhitespace := by
  obtain ⟨before, start, white⟩ := text.exists_trimStart
  obtain ⟨after, finish, whiteAfter⟩ := text.trimStart.exists_trimEnd
  refine ⟨before, after, ?_, List.all_eq_true.mpr white, List.all_eq_true.mpr whiteAfter⟩
  rw [trim, ← finish]
  exact start

theorem isBalanced_trim (balanced : text.IsBalanced) : text.trim.IsBalanced := by
  rcases text.exists_trim with ⟨before, after, split, white, whiteAfter⟩
  rw [isBalanced_iff, split, nesting_append_of_eq_some (nesting_of_isAllWhitespace white 0),
    nesting_append, Option.bind_eq_some_iff] at balanced
  rcases balanced with ⟨reached, counted, rest⟩
  rw [nesting_of_isAllWhitespace whiteAfter] at rest
  rw [isBalanced_iff, counted, rest]

/-! ## Removing a brace at each end -/

/-- Without a brace at the start and one at the end, a balanced text is balanced only if there are
none or if the two belong together. -/
theorem isBalanced_stripBraces_iff (balanced : text.IsBalanced) :
    (stripBraces text).IsBalanced ↔
      (text.head? ≠ some '{' ∧ text.getLast? ≠ some '}') ∨
        ∃ inner : Text, inner.IsBalanced ∧ text = '{' :: (inner ++ ['}']) := by
  by_cases opens : text.head? = some '{'
  · rcases List.head?_eq_some_iff.mp opens with ⟨rest, rfl⟩
    by_cases closes : rest.getLast? = some '}'
    · rcases List.getLast?_eq_some_iff.mp closes with ⟨inner, rfl⟩
      simp [stripBraces]
    · have kept : stripBraces ('{' :: rest) = rest := by simp [stripBraces, closes]
      have excess : rest.count '}' = rest.count '{' + 1 := by simpa using balanced.2
      have unbalanced : ¬ IsBalanced rest := fun inside => by
        rw [inside.2] at excess
        omega
      have unpaired : ∀ inner, rest ≠ inner ++ ['}'] := fun inner split => by
        simp [split] at closes
      simp [kept, unbalanced, unpaired]
  · by_cases closes : text.getLast? = some '}'
    · rcases List.getLast?_eq_some_iff.mp closes with ⟨rest, rfl⟩
      have kept : stripBraces (rest ++ ['}']) = rest := by
        rw [stripBraces, if_neg opens]
        simp
      have excess : rest.count '{' = rest.count '}' + 1 := by simpa using balanced.2.symm
      have unbalanced : ¬ IsBalanced rest := fun inside => by
        rw [inside.2] at excess
        omega
      have unpaired : ∀ inner, rest ++ ['}'] ≠ '{' :: (inner ++ ['}']) := fun inner split => by
        simp [split] at opens
      simp [kept, unbalanced, unpaired]
    · have kept : stripBraces text = text := by simp [stripBraces, opens, closes]
      simp [kept, balanced, opens, closes]

end ElementScript.Text
