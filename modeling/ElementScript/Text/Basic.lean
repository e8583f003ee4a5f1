/-!
Texts as sequences of Unicode scalar values, and the two kinds of white space.

Every offset in this library counts scalar values, and every reader consumes a text from its front,
so a text is a list of characters. The program converts from and to `String` only where it meets the
outside.

*Whitespace* is the Unicode property `White_Space`; it is what trimming removes. A *blank* is one of
the four characters that may separate the parts of a tag. Every blank is whitespace
(`isWhitespace_of_isBlank`), and not the other way round.
-/

namespace ElementScript

/-- The scalar values of a text in reading order. -/
abbrev Text := List Char

namespace Text

/-! ## White space -/

/-- The ranges of code points with the Unicode property `White_Space`, in increasing order, both
ends included. -/
def whitespaceRanges : List (Nat × Nat) :=
  [(0x9, 0xD), (0x20, 0x20), (0x85, 0x85), (0xA0, 0xA0), (0x1680, 0x1680), (0x2000, 0x200A),
    (0x2028, 0x2029), (0x202F, 0x202F), (0x205F, 0x205F), (0x3000, 0x3000)]

/-- Twenty-five code points are whitespace. -/
example : (whitespaceRanges.map fun range => range.2 + 1 - range.1).sum = 25 := rfl

/-- Whether a character has the Unicode property `White_Space`. -/
def isWhitespace (character : Char) : Bool :=
  whitespaceRanges.any fun range =>
    range.1 ≤ character.toNat && character.toNat ≤ range.2

/-- Whether a character separates the parts of a tag: a space, a tab or a line end. -/
def isBlank (character : Char) : Bool :=
  character = ' ' || character = '\t' || character = '\r' || character = '\n'

theorem isWhitespace_of_isBlank {character : Char} (blank : isBlank character) :
    isWhitespace character := by
  simp only [isBlank, Bool.or_eq_true, decide_eq_true_eq] at blank
  rcases blank with ((equal | equal) | equal) | equal <;> subst equal <;> decide

/-- A zero-width space and a byte order mark are not whitespace. -/
example : isWhitespace '\u200b' = false ∧ isWhitespace '\ufeff' = false := by decide

/-! ## Trimming -/

def trimStart (text : Text) : Text :=
  text.dropWhile isWhitespace

def trimEnd (text : Text) : Text :=
  (text.reverse.dropWhile isWhitespace).reverse

def trim (text : Text) : Text :=
  text.trimStart.trimEnd

/-- Whether a text has no character besides whitespace. -/
def isAllWhitespace (text : Text) : Bool :=
  text.all isWhitespace

/-- A text is some whitespace and what trimming its start leaves. -/
theorem exists_trimStart (text : Text) :
    ∃ before, text = before ++ text.trimStart ∧ ∀ character ∈ before, isWhitespace character :=
  ⟨text.takeWhile isWhitespace, List.takeWhile_append_dropWhile.symm,
    List.all_eq_true.mp List.all_takeWhile⟩

/-- A text is what trimming its end leaves and some whitespace. -/
theorem exists_trimEnd (text : Text) :
    ∃ after, text = text.trimEnd ++ after ∧ ∀ character ∈ after, isWhitespace character := by
  refine ⟨(text.reverse.takeWhile isWhitespace).reverse, ?_, ?_⟩
  · rw [trimEnd, ← List.reverse_append, List.takeWhile_append_dropWhile, List.reverse_reverse]
  · intro character member
    exact List.all_eq_true.mp List.all_takeWhile character (List.mem_reverse.mp member)

theorem trimStart_eq_nil_iff {text : Text} : text.trimStart = [] ↔ text.isAllWhitespace := by
  induction text with
  | nil => simp [trimStart, isAllWhitespace]
  | cons head tail induction =>
      cases space : isWhitespace head <;>
        simp_all [trimStart, isAllWhitespace]

theorem trimEnd_eq_nil_iff {text : Text} : text.trimEnd = [] ↔ text.isAllWhitespace := by
  have reversed := @trimStart_eq_nil_iff text.reverse
  rw [isAllWhitespace, List.all_reverse] at reversed
  rw [trimEnd, List.reverse_eq_nil_iff]
  exact reversed

/-- Trimming leaves nothing exactly when there was nothing but whitespace. -/
theorem trim_eq_nil_iff {text : Text} : text.trim = [] ↔ text.isAllWhitespace := by
  rw [trim, trimEnd_eq_nil_iff]
  constructor
  · intro rest
    obtain ⟨before, split, white⟩ := text.exists_trimStart
    rw [isAllWhitespace, split, List.all_append, Bool.and_eq_true]
    exact ⟨List.all_eq_true.mpr white, rest⟩
  · intro everywhere
    rw [trimStart_eq_nil_iff.mpr everywhere]
    rfl

theorem trimStart_eq_self_iff {text : Text} :
    text.trimStart = text ↔ ∀ first ∈ text.head?, isWhitespace first = false := by
  cases text with
  | nil => simp [trimStart]
  | cons first others =>
      rw [trimStart, List.dropWhile_cons]
      split
      · rename_i white
        have shorter : others.dropWhile isWhitespace ≠ first :: others := by
          intro same
          have length := (List.dropWhile_sublist isWhitespace (l := others)).length_le
          rw [same, List.length_cons] at length
          omega
        simp [shorter, white]
      · rename_i solid
        simpa using solid

theorem trimEnd_eq_self_iff {text : Text} :
    text.trimEnd = text ↔ ∀ last ∈ text.getLast?, isWhitespace last = false := by
  rw [trimEnd, List.reverse_eq_iff, ← List.head?_reverse]
  exact trimStart_eq_self_iff

/-- A text that neither begins nor ends with whitespace is its own trimmed text. -/
theorem trim_enclosed {first last : Char} (solidFirst : isWhitespace first = false)
    (solidLast : isWhitespace last = false) (inner : Text) :
    trim (first :: (inner ++ [last])) = first :: (inner ++ [last]) := by
  simp [trim, trimStart, trimEnd, solidFirst, solidLast]

/-! ## Searching -/

/-- What follows `pattern` at the start of a text, if the text starts with it. -/
def after? : (pattern text : Text) → Option Text
  | [], text => some text
  | _ :: _, [] => none
  | expected :: pattern, actual :: text =>
      if expected = actual then after? pattern text else none

theorem after?_eq_some_iff {pattern text rest : Text} :
    after? pattern text = some rest ↔ text = pattern ++ rest := by
  induction pattern generalizing text with
  | nil => simp [after?]
  | cons expected pattern induction =>
      cases text with
      | nil => simp [after?]
      | cons actual text =>
          by_cases equal : expected = actual
          · simp [after?, equal, induction]
          · simp [after?, equal, Ne.symm equal]

/-- What is taken from the start of a text ends before a character that is not taken. -/
theorem takeWhile_before {ending : Char} {others text : Text} {accepts : Char → Bool}
    (ends : accepts ending = false) :
    (text ++ ending :: others).takeWhile accepts = text.takeWhile accepts := by
  induction text with
  | nil => simp [ends]
  | cons character text induction => simp only [List.cons_append, List.takeWhile_cons, induction]

/-- Whether `pattern` stands somewhere in a text. -/
def holds (pattern : Text) : Text → Bool
  | [] => pattern.isEmpty
  | first :: rest => (after? pattern (first :: rest)).isSome || holds pattern rest

/-! ## Numbers -/

/-- The decimal digits of a number. -/
def decimal (number : Nat) : Text :=
  Nat.toDigits 10 number

end Text

end ElementScript
