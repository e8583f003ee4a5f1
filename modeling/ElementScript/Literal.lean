import ElementScript.Text.Basic

/-!
String literals of the script around the markup.

A literal is opened by one of three quote marks and closed by the next one of the same kind. A
backslash right before the mark keeps the literal open, except in a template literal.
-/

namespace ElementScript.Literal

/-- Whether a character opens a string literal. -/
def isMark (character : Char) : Bool :=
  character = '"' || character = '\'' || character = '`'

/-- Whether a character closes the literal that `mark` opened, given the character before it. -/
def closes (mark : Char) (previous : Option Char) (character : Char) : Bool :=
  character = mark && (mark = '`' || previous ≠ some '\\')

end ElementScript.Literal
