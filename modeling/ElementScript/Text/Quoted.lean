import ElementScript.Text.Basic

/-!
Double-quoted string literals.

A literal escapes the quote, the backslash and the control characters below U+0020: five of those
have a letter of their own, the others are written with four hexadecimal digits. Every other
character stands for itself.
-/

namespace ElementScript.Text

/-- The lower-case hexadecimal digit of a number below sixteen. -/
def hexDigit (value : Nat) : Char :=
  if value < 10 then Char.ofNat (48 + value) else Char.ofNat (87 + value)

/-- How a character is written between the quotes of a literal. -/
def escape (character : Char) : Text :=
  if character = '"' then ['\\', '"']
  else if character = '\\' then ['\\', '\\']
  else if character = '\x08' then ['\\', 'b']
  else if character = '\x0c' then ['\\', 'f']
  else if character = '\n' then ['\\', 'n']
  else if character = '\r' then ['\\', 'r']
  else if character = '\t' then ['\\', 't']
  else if character.toNat < 0x20 then
    ['\\', 'u', '0', '0', hexDigit (character.toNat / 16), hexDigit (character.toNat % 16)]
  else [character]

/-- The double-quoted literal of a text. -/
def quote (text : Text) : Text :=
  '"' :: text.flatMap escape ++ ['"']

example : quote "a\"b\\\n\x1f/é".toList = "\"a\\\"b\\\\\\n\\u001f/é\"".toList := by decide

end ElementScript.Text
