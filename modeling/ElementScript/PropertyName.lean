import ElementScript.Text.Basic

/-!
The texts that may stand for a property without a value: plain names and spreads.
-/

namespace ElementScript.PropertyName

def isNameCharacter (character : Char) : Bool :=
  character.isAlphanum || character = '_' || character = '-'

/-- Whether a text is a plain name. -/
def isPlain (text : Text) : Bool :=
  text.all isNameCharacter

/-- Whether a text starts with a brace, three dots, at least one more character and a closing brace
on the same line. -/
def spreadAtFront (text : Text) : Bool :=
  match Text.after? ['{', '.', '.', '.'] text with
  | some rest => ((rest.takeWhile (· ≠ '\n')).drop 1).contains '}'
  | none => false

/-- Whether a text contains a spread such as `{...rest}`. -/
def isSpread : Text → Bool
  | [] => false
  | first :: rest => spreadAtFront (first :: rest) || isSpread rest

/-- Whether a text may stand alone as a property: a plain name or a spread. -/
def isStandalone (text : Text) : Bool :=
  isPlain text || isSpread text

example : isSpread "\x7b...rest\x7d".toList = true := by decide
example : isSpread "\x7b...\x7d".toList = false := by decide

end ElementScript.PropertyName
