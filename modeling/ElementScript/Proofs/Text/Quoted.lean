import Mathlib.Tactic.SplitIfs
import ElementScript.Proofs.Text.Brackets
import ElementScript.Text.Reference

/-! # Reading literals back

A reader of literals takes a character as it is, unless it is a backslash. A backslash stands for a
character together with the letter behind it, or with four hexadecimal digits behind the letter `u`.
Those give a unit of sixteen bits, and two units may be needed for one character.

The reader gives back every text from its literal (`Text.unquote?_quote`), and so no two texts have
the same literal. A literal holds no control characters, and the quotes around it are the only ones
without a backslash of their own (`Text.isLiteralCharacter_escapes`, `Text.hasBareQuote_escapes`).
-/

namespace ElementScript.Text

open Reference (isHexDigit number)

/-! ## The reader -/

/-- The letters behind a backslash and the characters they stand for. -/
def escapeLetters : List (Char × Char) :=
  [('"', '"'), ('\\', '\\'), ('/', '/'), ('b', '\x08'), ('f', '\x0c'), ('n', '\n'), ('r', '\r'),
    ('t', '\t')]

/-- The unit that hexadecimal digits denote. -/
def unit? (digits : Text) : Option Nat :=
  if digits.all isHexDigit then some (number 16 digits) else none

/-- The character whose backslash stands right before a text, and the number of characters that it
takes after the backslash. A unit of a pair denotes nothing without the other one. -/
def readEscape? : Text → Option (Char × Nat)
  | 'u' :: a :: b :: c :: d :: rest => do
      let unit ← unit? [a, b, c, d]
      if 0xD800 ≤ unit ∧ unit < 0xDC00 then
        match rest with
        | '\\' :: 'u' :: e :: f :: g :: h :: _ => do
            let second ← unit? [e, f, g, h]
            if 0xDC00 ≤ second ∧ second < 0xE000 then
              return (Char.ofNat (0x10000 + 0x400 * (unit - 0xD800) + (second - 0xDC00)), 11)
            else none
        | _ => none
      else if 0xDC00 ≤ unit ∧ unit < 0xE000 then none
      else return (Char.ofNat unit, 5)
  | letter :: _ => do
      let denoted ← escapeLetters.lookup letter
      return (denoted, 1)
  | [] => none

/-- Reads what is left of a literal up to the quote at its end. The first `skip` characters belong
to an escape that was read before. -/
def readLiteral? (skip : Nat) : Text → Option Text
  | [] => none
  | character :: rest =>
      match skip with
      | skip + 1 => readLiteral? skip rest
      | 0 =>
          if character = '"' then
            if rest.isEmpty then some [] else none
          else if character = '\\' then
            match readEscape? rest with
            | some (denoted, length) => (readLiteral? length rest).map (denoted :: ·)
            | none => none
          else if character.toNat < 0x20 then none
          else (readLiteral? 0 rest).map (character :: ·)

/-- The text that a literal stands for. -/
def unquote? : Text → Option Text
  | '"' :: rest => readLiteral? 0 rest
  | _ => none

/-- A pair of units, and one of them alone. -/
example : unquote? "\"\\ud83d\\uDE00\\/\"".toList = some "😀/".toList ∧
    unquote? "\"\\ud83d\"".toList = none := by decide

/-! ## One character -/

variable {character : Char} {rest : Text}

/-- The digits of a control character are read as its number. -/
theorem unit?_control {value : Nat} (control : value < 0x20) :
    unit? ['0', '0', hexDigit (value / 16), hexDigit (value % 16)] = some value := by
  decide +revert

theorem readEscape?_control (control : character.toNat < 0x20) (rest : Text) :
    readEscape? ('u' :: '0' :: '0' :: hexDigit (character.toNat / 16) ::
      hexDigit (character.toNat % 16) :: rest) = some (character, 5) := by
  have first : ¬ (0xD800 ≤ character.toNat ∧ character.toNat < 0xDC00) := by omega
  have second : ¬ (0xDC00 ≤ character.toNat ∧ character.toNat < 0xE000) := by omega
  rw [readEscape?, unit?_control control]
  simp [first, second, Char.ofNat_toNat]

/-- What is written for a character is read as that character, whatever comes behind it. -/
theorem readLiteral?_escape (character : Char) (rest : Text) :
    readLiteral? 0 (escape character ++ rest) =
      (readLiteral? 0 rest).map (character :: ·) := by
  unfold escape
  split_ifs with quote backslash backspace formFeed lineFeed carriageReturn tab control
  · subst quote; rfl
  · subst backslash; rfl
  · subst backspace; rfl
  · subst formFeed; rfl
  · subst lineFeed; rfl
  · subst carriageReturn; rfl
  · subst tab; rfl
  · have read := readEscape?_control control rest
    simp only [List.cons_append, List.nil_append, readLiteral?, read]
    rfl
  · simp [readLiteral?, quote, backslash, control]

/-- Whether a character may be written in a literal: all but the control characters below U+0020. -/
def isLiteralCharacter (character : Char) : Bool :=
  0x20 ≤ character.toNat

theorem isLiteralCharacter_hexDigit {value : Nat} (small : value < 16) :
    isLiteralCharacter (hexDigit value) := by
  decide +revert

theorem isLiteralCharacter_escape (character : Char) :
    (escape character).all isLiteralCharacter := by
  unfold escape
  split_ifs with quote backslash backspace formFeed lineFeed carriageReturn tab control
  iterate 7 rfl
  · have high := isLiteralCharacter_hexDigit (show character.toNat / 16 < 16 by omega)
    have low := isLiteralCharacter_hexDigit (show character.toNat % 16 < 16 by omega)
    simp only [List.all_cons, high, low]
    rfl
  · simpa [isLiteralCharacter] using control

/-- Whether a text has a quote without a backslash of its own, given whether a backslash before the
text belongs to its first character. -/
def hasBareQuote : (escaped : Bool) → Text → Bool
  | _, [] => false
  | escaped, character :: rest =>
      (!escaped && character = '"') || hasBareQuote (!escaped && character = '\\') rest

theorem hasBareQuote_plain {front : Text}
    (plain : ∀ character ∈ front, character ≠ '"' ∧ character ≠ '\\') (rest : Text) :
    hasBareQuote false (front ++ rest) = hasBareQuote false rest := by
  induction front with
  | nil => rfl
  | cons character front induction =>
      have parts := List.forall_mem_cons.mp plain
      simp [hasBareQuote, parts.1, induction parts.2]

theorem hasBareQuote_escape (character : Char) (rest : Text) :
    hasBareQuote false (escape character ++ rest) = hasBareQuote false rest := by
  rcases Brackets.escape_cases character with
    ⟨itself, noQuote, noBackslash⟩ | ⟨letter, digits, escaped, plain, -⟩
  · rw [itself]
    exact hasBareQuote_plain (by simp [noQuote, noBackslash]) rest
  · have marks : ∀ digit ∈ digits, digit ≠ '"' ∧ digit ≠ '\\' := by
      intro digit member
      refine ⟨?_, (plain digit member).2⟩
      rintro rfl
      cases (plain _ member).1
    rw [escaped]
    simp only [List.cons_append, hasBareQuote]
    simpa using hasBareQuote_plain marks rest

/-! ## Whole texts -/

theorem readLiteral?_escapes (text : Text) :
    readLiteral? 0 (text.flatMap escape ++ ['"']) = some text := by
  induction text with
  | nil => rfl
  | cons character text induction =>
      rw [List.flatMap_cons, List.append_assoc, readLiteral?_escape, induction, Option.map_some]

/-- A literal stands for the text that it was written for. -/
theorem unquote?_quote (text : Text) : unquote? text.quote = some text :=
  readLiteral?_escapes text

theorem quote_injective {first second : Text} (same : first.quote = second.quote) :
    first = second := by
  have read := congrArg unquote? same
  rw [unquote?_quote, unquote?_quote] at read
  exact Option.some.inj read

theorem isLiteralCharacter_escapes (text : Text) :
    ∀ written ∈ text.flatMap escape, isLiteralCharacter written := by
  intro written member
  obtain ⟨character, -, inside⟩ := List.mem_flatMap.mp member
  exact List.all_eq_true.mp (isLiteralCharacter_escape character) written inside

theorem hasBareQuote_escapes (text : Text) : hasBareQuote false (text.flatMap escape) = false := by
  induction text with
  | nil => rfl
  | cons character text induction =>
      rw [List.flatMap_cons, hasBareQuote_escape, induction]

end ElementScript.Text
