import ElementScript.Text.Basic

/-!
Character references in element text.

A reference is an ampersand, a decimal number of one to seven digits (`&#39;`), a hexadecimal number
of one to six digits (`&#x27;`) or a name of the table (`&amp;`), and a semicolon. Decoding replaces
every reference by the character it denotes and leaves everything else as it is: unknown names,
numbers that are no scalar value, and ampersands that start no reference. Decoded text is not read
again.
-/

namespace ElementScript.Text.Reference

/-- The named references and the characters they denote. -/
def table : List (String × Char) :=
  [("amp", '&'), ("lt", '<'), ("gt", '>'), ("quot", '"'), ("apos", '\''), ("nbsp", '\u00a0'),
    ("copy", '©'), ("reg", '®'), ("trade", '™'), ("hellip", '…'), ("mdash", '—'), ("ndash", '–'),
    ("lsquo", '‘'), ("rsquo", '’'), ("sbquo", '‚'), ("ldquo", '“'), ("rdquo", '”'),
    ("bdquo", '„'), ("laquo", '«'), ("raquo", '»'), ("lsaquo", '‹'), ("rsaquo", '›'),
    ("middot", '·'), ("bull", '•'), ("deg", '°'), ("times", '×'), ("divide", '÷'),
    ("plusmn", '±'), ("minus", '−'), ("frac12", '½'), ("frac14", '¼'), ("frac34", '¾'),
    ("euro", '€'), ("pound", '£'), ("yen", '¥'), ("cent", '¢'), ("sect", '§'), ("para", '¶'),
    ("iexcl", '¡'), ("iquest", '¿'), ("larr", '←'), ("uarr", '↑'), ("rarr", '→'), ("darr", '↓'),
    ("harr", '↔'), ("hearts", '♥'), ("shy", '\u00ad'), ("ensp", '\u2002'), ("emsp", '\u2003'),
    ("thinsp", '\u2009'), ("zwnj", '\u200c'), ("zwj", '\u200d')]

example : table.length = 52 := rfl

/-- The character a name of the table denotes. -/
def named? (name : Text) : Option Char :=
  (table.find? fun entry => entry.1.toList = name).map (·.2)

/-- The character with a given number. Zero denotes the replacement character, and a number that is
no scalar value denotes nothing. -/
def numbered? (number : Nat) : Option Char :=
  if number = 0 then some '\ufffd'
  else if number.isValidChar then some (Char.ofNat number)
  else none

def isHexDigit (character : Char) : Bool :=
  character.isDigit || ('a' ≤ character && character ≤ 'f') || ('A' ≤ character && character ≤ 'F')

/-- The value of a hexadecimal digit. -/
def digitValue (character : Char) : Nat :=
  if character.isDigit then character.toNat - 48
  else if 'a' ≤ character then character.toNat - 87
  else character.toNat - 55

/-- The number that a sequence of digits denotes in a base. -/
def number (base : Nat) (digits : Text) : Nat :=
  digits.foldl (fun value digit => base * value + digitValue digit) 0

/-- A run of characters at the start of a text that is ended by a semicolon and whose length lies
between two bounds. -/
def terminatedRun? (accepts : Char → Bool) (least most : Nat) (text : Text) : Option Text :=
  let run := text.takeWhile accepts
  if least ≤ run.length ∧ run.length ≤ most ∧ (text.drop run.length).head? = some ';' then
    some run
  else
    none

/-- The reference whose ampersand stands right before a text: the character it denotes and the number
of characters it takes after the ampersand. -/
def read? : Text → Option (Char × Nat)
  | '#' :: marker :: rest =>
      if marker = 'x' ∨ marker = 'X' then do
        let digits ← terminatedRun? isHexDigit 1 6 rest
        let character ← numbered? (number 16 digits)
        return (character, digits.length + 3)
      else do
        let digits ← terminatedRun? Char.isDigit 1 7 (marker :: rest)
        let character ← numbered? (number 10 digits)
        return (character, digits.length + 2)
  | initial :: rest =>
      if initial.isAlpha then do
        let letters ← terminatedRun? Char.isAlphanum 1 31 rest
        let character ← named? (initial :: letters)
        return (character, letters.length + 2)
      else none
  | [] => none

/-- Decodes a text whose first `skip` characters belong to a reference that was decoded before. -/
def decodeFrom (skip : Nat) : Text → Text
  | [] => []
  | character :: rest =>
      match skip with
      | skip + 1 => decodeFrom skip rest
      | 0 =>
          if character = '&' then
            match read? rest with
            | some (denoted, length) => denoted :: decodeFrom length rest
            | none => character :: decodeFrom 0 rest
          else character :: decodeFrom 0 rest

/-- The text with every character reference replaced by the character it denotes. -/
def decode (text : Text) : Text :=
  decodeFrom 0 text

/-- A text without ampersands has nothing to decode. -/
theorem decode_of_not_mem {text : Text} (absent : '&' ∉ text) : decode text = text := by
  unfold decode
  induction text with
  | nil => rfl
  | cons character rest induction =>
      have parts := List.ne_and_not_mem_of_not_mem_cons absent
      rw [decodeFrom, if_neg (Ne.symm parts.1), induction parts.2]

example : decode "a &lt; b &#x26;amp; &nope; &".toList = "a < b &amp; &nope; &".toList := by
  decide

end ElementScript.Text.Reference
