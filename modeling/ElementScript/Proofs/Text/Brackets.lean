import ElementScript.Text.Quoted

/-! # Matching brackets

A text is *bracketed* if its round, square and curly brackets match as a stack, read from the left to
the right. Double-quoted literals are skipped, and a backslash in one of them takes the next
character with it. `Brackets` is the reader; where it stands in code, a bracketed text leaves it as
it was, whatever brackets are open around the text (`Text.IsBracketed.read`). So bracketed texts can
be put one after the other, into brackets, and anywhere into code.
-/

namespace ElementScript

/-- What a reader of brackets knows: the closing brackets it awaits, innermost first, and whether it
is in a literal or right after a backslash there. -/
inductive Brackets where
  | code (awaited : List Char)
  | literal (awaited : List Char)
  | escape (awaited : List Char)
deriving DecidableEq, Repr

namespace Brackets

/-- The bracket that closes an opening one. -/
def closing? (character : Char) : Option Char :=
  if character = '(' then some ')'
  else if character = '[' then some ']'
  else if character = '{' then some '}'
  else none

def isClosing (character : Char) : Bool :=
  character = ')' || character = ']' || character = '}'

/-- Whether a character is neither a bracket nor a quote. -/
def isPlain (character : Char) : Bool :=
  character ≠ '"' && (closing? character).isNone && !isClosing character

/-- The reader after a character, unless that closes a bracket that is not awaited. -/
def next : Brackets → Char → Option Brackets
  | .code awaited, character =>
      if character = '"' then some (.literal awaited)
      else
        match closing? character with
        | some closing => some (.code (closing :: awaited))
        | none =>
            if isClosing character then
              match awaited with
              | [] => none
              | expected :: outer => if character = expected then some (.code outer) else none
            else some (.code awaited)
  | .literal awaited, character =>
      if character = '\\' then some (.escape awaited)
      else if character = '"' then some (.code awaited)
      else some (.literal awaited)
  | .escape awaited, _ => some (.literal awaited)

/-- What a character can do to a reader. -/
inductive Moves (character : Char) : Brackets → Brackets → Prop where
  | opening {awaited : List Char} {closing : Char} (opens : closing? character = some closing) :
      Moves character (.code awaited) (.code (closing :: awaited))
  | closing {outer : List Char} (closes : isClosing character) :
      Moves character (.code (character :: outer)) (.code outer)
  | plain {awaited : List Char} (plain : isPlain character) :
      Moves character (.code awaited) (.code awaited)
  | quote {awaited : List Char} (quote : character = '"') :
      Moves character (.code awaited) (.literal awaited)
  | quoteEnd {awaited : List Char} (quote : character = '"') :
      Moves character (.literal awaited) (.code awaited)
  | backslash {awaited : List Char} (backslash : character = '\\') :
      Moves character (.literal awaited) (.escape awaited)
  | quoted {awaited : List Char} (inside : character ≠ '"' ∧ character ≠ '\\') :
      Moves character (.literal awaited) (.literal awaited)
  | escaped {awaited : List Char} : Moves character (.escape awaited) (.literal awaited)

section Moves

variable {reader reached : Brackets} {character : Char}

theorem next_of_moves (moves : Moves character reader reached) :
    reader.next character = some reached := by
  cases moves with
  | opening opens =>
      have unquoted : character ≠ '"' := by
        rintro rfl
        cases opens
      simp [next, unquoted, opens]
  | closing closes =>
      simp only [isClosing, Bool.or_eq_true, decide_eq_true_eq] at closes
      rcases closes with (rfl | rfl) | rfl <;> rfl
  | plain plain =>
      simp only [isPlain, ne_eq, Bool.and_eq_true, decide_eq_true_eq, Bool.not_eq_true',
        Option.isNone_iff_eq_none] at plain
      simp [next, plain]
  | quote quote => simp [next, quote]
  | quoteEnd quote => simp [next, quote]
  | backslash backslash => simp [next, backslash]
  | quoted inside => simp [next, inside]
  | escaped => rfl

theorem moves_of_next (moved : reader.next character = some reached) :
    Moves character reader reached := by
  cases reader with
  | escape awaited =>
      cases moved
      exact .escaped
  | literal awaited =>
      simp only [next] at moved
      split at moved
      · cases moved
        exact .backslash (by assumption)
      · rename_i noBackslash
        split at moved
        · cases moved
          exact .quoteEnd (by assumption)
        · rename_i noQuote
          cases moved
          exact .quoted ⟨noQuote, noBackslash⟩
  | code awaited =>
      simp only [next] at moved
      split at moved
      · cases moved
        exact .quote (by assumption)
      · rename_i noQuote
        split at moved
        · cases moved
          exact .opening (by assumption)
        · rename_i noOpening
          split at moved
          · rename_i closes
            split at moved
            · cases moved
            · split at moved
              · rename_i expected
                subst expected
                cases moved
                exact .closing closes
              · cases moved
          · rename_i noClosing
            cases moved
            exact .plain (by simp [isPlain, noQuote, noOpening, noClosing])

theorem next_eq_some_iff : reader.next character = some reached ↔ Moves character reader reached :=
  ⟨moves_of_next, next_of_moves⟩

end Moves

/-- The reader after a text. -/
def read (reader : Brackets) (text : Text) : Option Brackets :=
  text.foldlM next reader

variable {reader reached : Brackets} {character : Char} {text first second : Text}
  {awaited : List Char}

@[simp] theorem read_nil (reader : Brackets) : reader.read [] = some reader := rfl

theorem read_cons_eq_some_iff :
    reader.read (character :: text) = some reached ↔
      ∃ middle, Moves character reader middle ∧ middle.read text = some reached := by
  simp only [read, List.foldlM_cons, Option.bind_eq_bind, Option.bind_eq_some_iff,
    next_eq_some_iff]

theorem read_append_eq_some_iff :
    reader.read (first ++ second) = some reached ↔
      ∃ middle, reader.read first = some middle ∧ middle.read second = some reached := by
  simp only [read, List.foldlM_append, Option.bind_eq_bind, Option.bind_eq_some_iff]

/-! ## Brackets further out -/

/-- The reader with more brackets open around it. -/
def inside (outer : List Char) : Brackets → Brackets
  | .code awaited => .code (awaited ++ outer)
  | .literal awaited => .literal (awaited ++ outer)
  | .escape awaited => .escape (awaited ++ outer)

theorem Moves.inside (moves : Moves character reader reached) (outer : List Char) :
    Moves character (reader.inside outer) (reached.inside outer) := by
  cases moves with
  | opening opens => exact .opening opens
  | closing closes => exact .closing closes
  | plain plain => exact .plain plain
  | quote quote => exact .quote quote
  | quoteEnd quote => exact .quoteEnd quote
  | backslash backslash => exact .backslash backslash
  | quoted inside => exact .quoted inside
  | escaped => exact .escaped

theorem read_inside (outer : List Char) (read : reader.read text = some reached) :
    (reader.inside outer).read text = some (reached.inside outer) := by
  induction text generalizing reader with
  | nil =>
      cases read
      rfl
  | cons character text induction =>
      rcases read_cons_eq_some_iff.mp read with ⟨middle, moves, read⟩
      exact read_cons_eq_some_iff.mpr ⟨middle.inside outer, moves.inside outer, induction read⟩

/-! ## Plain characters and code -/

theorem read_of_isPlain (plain : ∀ character ∈ text, isPlain character) (awaited : List Char) :
    (code awaited).read text = some (.code awaited) := by
  induction text with
  | nil => rfl
  | cons character text induction =>
      have parts := List.forall_mem_cons.mp plain
      exact read_cons_eq_some_iff.mpr ⟨.code awaited, .plain parts.1, induction parts.2⟩

/-- Without a quote no literal is entered. -/
theorem exists_code_of_read (unquoted : '"' ∉ text)
    (read : (code awaited).read text = some reached) : ∃ others, reached = .code others := by
  induction text generalizing awaited with
  | nil =>
      cases read
      exact ⟨awaited, rfl⟩
  | cons character text induction =>
      have parts := List.ne_and_not_mem_of_not_mem_cons unquoted
      rcases read_cons_eq_some_iff.mp read with ⟨middle, moves, read⟩
      cases moves with
      | quote quote => exact absurd quote.symm parts.1
      | _ => exact induction parts.2 read

/-! ## Whitespace -/

/-- What brackets and quotes are not, only plain characters are. -/
theorem isPlain_of_accepts (accepts : Char → Bool)
    (rejects : ['"', '(', '[', '{', ')', ']', '}'].all (!accepts ·))
    (accepted : accepts character) : isPlain character := by
  have different : ∀ special ∈ ['"', '(', '[', '{', ')', ']', '}'], character ≠ special := by
    rintro special member rfl
    have rejected := List.all_eq_true.mp rejects _ member
    rw [accepted] at rejected
    cases rejected
  simp only [List.forall_mem_cons] at different
  simp [isPlain, isClosing, closing?, different]

theorem isPlain_of_isWhitespace (white : Text.isWhitespace character) : isPlain character :=
  isPlain_of_accepts Text.isWhitespace (by decide) white

/-- Whitespace does not bring a reader back into code. -/
theorem eq_code_of_read_whitespace (white : ∀ character ∈ text, Text.isWhitespace character)
    (read : reader.read text = some (.code awaited)) : reader = .code awaited := by
  induction text generalizing reader with
  | nil =>
      cases read
      rfl
  | cons character text induction =>
      have parts := List.forall_mem_cons.mp white
      rcases read_cons_eq_some_iff.mp read with ⟨middle, moves, read⟩
      cases induction parts.2 read
      have plain := isPlain_of_isWhitespace parts.1
      cases moves with
      | plain _ => rfl
      | quoteEnd quote => simp [quote, isPlain] at plain
      | opening opens => simp [opens, isPlain] at plain
      | closing closes => simp [closes, isPlain] at plain

theorem read_trimEnd (read : reader.read text = some (.code awaited)) :
    reader.read text.trimEnd = some (.code awaited) := by
  obtain ⟨after, split, white⟩ := text.exists_trimEnd
  rw [split] at read
  rcases read_append_eq_some_iff.mp read with ⟨middle, read, rest⟩
  rw [read, eq_code_of_read_whitespace white rest]

theorem read_trimStart (read : (code awaited).read text = some reached) :
    (code awaited).read text.trimStart = some reached := by
  obtain ⟨before, split, white⟩ := text.exists_trimStart
  rw [split] at read
  rcases read_append_eq_some_iff.mp read with ⟨middle, first, read⟩
  rw [read_of_isPlain fun character member => isPlain_of_isWhitespace (white character member)]
    at first
  cases first
  exact read

/-! ## Literals -/

theorem read_of_quoted
    (quoted : ∀ character ∈ text, character ≠ '"' ∧ character ≠ '\\') (awaited : List Char) :
    (literal awaited).read text = some (.literal awaited) := by
  induction text with
  | nil => rfl
  | cons character text induction =>
      have parts := List.forall_mem_cons.mp quoted
      exact read_cons_eq_some_iff.mpr ⟨.literal awaited, .quoted parts.1, induction parts.2⟩

theorem isPlain_of_lt (control : character.toNat < 0x20) : isPlain character :=
  isPlain_of_accepts (·.toNat < 0x20) (by decide) (by simpa using control)

theorem isPlain_hexDigit {value : Nat} (small : value < 16) :
    isPlain (Text.hexDigit value) ∧ Text.hexDigit value ≠ '\\' := by
  decide +revert

/-- A character of a literal stands for itself or is written as a backslash and what it takes with
it. -/
theorem escape_cases (character : Char) :
    (Text.escape character = [character] ∧ character ≠ '"' ∧ character ≠ '\\') ∨
      ∃ first digits, Text.escape character = '\\' :: first :: digits ∧
        (∀ digit ∈ digits, isPlain digit ∧ digit ≠ '\\') ∧
        (character ≠ '"' → isPlain character ∧ isPlain first) := by
  by_cases quote : character = '"'
  · exact Or.inr ⟨'"', [], by rw [quote]; rfl, by simp, fun noQuote => absurd quote noQuote⟩
  by_cases backslash : character = '\\'
  · exact Or.inr ⟨'\\', [], by rw [backslash]; rfl, by simp, fun _ => by rw [backslash]; decide⟩
  by_cases control : character.toNat < 0x20
  · right
    have plain := isPlain_of_lt control
    have high := isPlain_hexDigit (show character.toNat / 16 < 16 by omega)
    have low := isPlain_hexDigit (show character.toNat % 16 < 16 by omega)
    simp only [Text.escape, quote, backslash, control, if_false, if_true]
    split
    · exact ⟨_, [], rfl, by simp, fun _ => ⟨plain, rfl⟩⟩
    split
    · exact ⟨_, [], rfl, by simp, fun _ => ⟨plain, rfl⟩⟩
    split
    · exact ⟨_, [], rfl, by simp, fun _ => ⟨plain, rfl⟩⟩
    split
    · exact ⟨_, [], rfl, by simp, fun _ => ⟨plain, rfl⟩⟩
    split
    · exact ⟨_, [], rfl, by simp, fun _ => ⟨plain, rfl⟩⟩
    · refine ⟨_, _, rfl, ?_, fun _ => ⟨plain, rfl⟩⟩
      have zero : isPlain '0' ∧ '0' ≠ '\\' := by decide
      simp only [List.forall_mem_cons]
      exact ⟨zero, zero, high, low, by simp⟩
  · left
    have different : ∀ other : Char, other.toNat < 0x20 → character ≠ other := by
      rintro other small rfl
      exact control small
    refine ⟨?_, quote, backslash⟩
    simp [Text.escape, quote, backslash, control, different '\x08' (by decide),
      different '\x0c' (by decide), different '\n' (by decide), different '\r' (by decide),
      different '\t' (by decide)]

/-- A character of a literal is read as a whole. -/
theorem read_escape (character : Char) (awaited : List Char) :
    (literal awaited).read (Text.escape character) = some (.literal awaited) := by
  rcases escape_cases character with ⟨itself, different⟩ | ⟨first, digits, escaped, plain, -⟩
  · rw [itself]
    exact read_of_quoted (by simpa using different) awaited
  · rw [escaped]
    have quoted : ∀ digit ∈ digits, digit ≠ '"' ∧ digit ≠ '\\' := by
      intro digit member
      refine ⟨?_, (plain digit member).2⟩
      rintro rfl
      cases (plain _ member).1
    exact read_cons_eq_some_iff.mpr ⟨_, .backslash rfl,
      read_cons_eq_some_iff.mpr ⟨_, .escaped, read_of_quoted quoted awaited⟩⟩

theorem read_escapes (text : Text) (awaited : List Char) :
    (literal awaited).read (text.flatMap Text.escape) = some (.literal awaited) := by
  induction text with
  | nil => rfl
  | cons character text induction =>
      rw [List.flatMap_cons]
      exact read_append_eq_some_iff.mpr ⟨_, read_escape character awaited, induction⟩

/-- Outside of a literal the escapes of other characters than quotes are read like these
characters. -/
theorem read_escapes_in_code (unquoted : '"' ∉ text)
    (read : (code awaited).read text = some reached) :
    (code awaited).read (text.flatMap Text.escape) = some reached := by
  induction text generalizing awaited with
  | nil => exact read
  | cons character text induction =>
      have parts := List.ne_and_not_mem_of_not_mem_cons unquoted
      rw [← List.singleton_append, read_append_eq_some_iff] at read
      rcases read with ⟨middle, first, rest⟩
      have single : '"' ∉ [character] := by simpa using parts.1
      rcases exists_code_of_read single first with ⟨others, rfl⟩
      rw [List.flatMap_cons]
      refine read_append_eq_some_iff.mpr ⟨_, ?_, induction parts.2 rest⟩
      rcases escape_cases character with ⟨itself, -⟩ | ⟨letter, digits, escaped, plain, both⟩
      · rwa [itself]
      · have plainBoth := both (Ne.symm parts.1)
        rw [read_of_isPlain (by simpa using plainBoth.1)] at first
        rw [escaped, ← first]
        apply read_of_isPlain
        simp only [List.forall_mem_cons]
        exact ⟨rfl, plainBoth.2, fun digit member => (plain digit member).1⟩

end Brackets

/-! ## Bracketed texts -/

namespace Text

variable {text first second : Text}

/-- Whether the brackets of a text match. -/
def IsBracketed (text : Text) : Prop :=
  Brackets.read (.code []) text = some (.code [])

instance (text : Text) : Decidable text.IsBracketed :=
  inferInstanceAs (Decidable (_ = _))

/-- A bracketed text may stand in code, whatever brackets are open. -/
theorem IsBracketed.read (bracketed : text.IsBracketed) (awaited : List Char) :
    Brackets.read (.code awaited) text = some (.code awaited) :=
  Brackets.read_inside awaited bracketed

theorem isBracketed_nil : IsBracketed [] := rfl

/-- Whether a text has neither a bracket nor a quote. -/
def IsPlain (text : Text) : Prop :=
  ∀ character ∈ text, Brackets.isPlain character

instance (text : Text) : Decidable text.IsPlain :=
  List.decidableBAll _ text

theorem IsPlain.isBracketed (plain : text.IsPlain) : text.IsBracketed :=
  Brackets.read_of_isPlain plain []

theorem IsPlain.not_mem_quote (plain : text.IsPlain) : '"' ∉ text := by
  intro member
  cases plain _ member

theorem IsBracketed.append (before : first.IsBracketed) (after : second.IsBracketed) :
    (first ++ second).IsBracketed :=
  Brackets.read_append_eq_some_iff.mpr ⟨_, before, after⟩

theorem IsBracketed.cons {character : Char} (bracketed : text.IsBracketed)
    (plain : Brackets.isPlain character) : IsBracketed (character :: text) :=
  Brackets.read_cons_eq_some_iff.mpr ⟨_, .plain plain, bracketed⟩

theorem IsBracketed.flatten {texts : List Text} (bracketed : ∀ text ∈ texts, text.IsBracketed) :
    IsBracketed texts.flatten := by
  induction texts with
  | nil => exact isBracketed_nil
  | cons text texts induction =>
      have parts := List.forall_mem_cons.mp bracketed
      exact parts.1.append (induction parts.2)

/-- A bracketed text in a pair of brackets is bracketed. -/
theorem IsBracketed.enclose {opening closing : Char} (bracketed : text.IsBracketed)
    (opens : Brackets.closing? opening = some closing) (closes : Brackets.isClosing closing) :
    IsBracketed (opening :: (text ++ [closing])) :=
  Brackets.read_cons_eq_some_iff.mpr ⟨_, .opening opens,
    Brackets.read_append_eq_some_iff.mpr ⟨_, bracketed.read _,
      Brackets.read_cons_eq_some_iff.mpr ⟨_, .closing closes, rfl⟩⟩⟩

theorem IsBracketed.trim (bracketed : text.IsBracketed) : text.trim.IsBracketed :=
  Brackets.read_trimEnd (Brackets.read_trimStart bracketed)

/-- A literal is bracketed, whatever it holds. -/
theorem isBracketed_quote (text : Text) : text.quote.IsBracketed :=
  Brackets.read_cons_eq_some_iff.mpr ⟨_, .quote rfl,
    Brackets.read_append_eq_some_iff.mpr ⟨_, Brackets.read_escapes text [],
      Brackets.read_cons_eq_some_iff.mpr ⟨_, .quoteEnd rfl, rfl⟩⟩⟩

example : IsBracketed "f([\"(\\\"\"], \x7ba: b()\x7d)".toList := by decide
example : ¬ IsBracketed "f([)]".toList := by decide

end Text

end ElementScript
