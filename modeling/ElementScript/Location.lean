import ElementScript.Text.Basic

/-!
Positions of a source text as a reader sees them: line, column and the line's own text.
-/

namespace ElementScript

/-- A position in a source text. -/
structure Location where
  /-- The number of characters before the position. -/
  offset : Nat
  /-- The line, counted from one. -/
  line : Nat
  /-- The column, counted from one. -/
  column : Nat
  /-- The line that contains the position, trimmed. -/
  text : Text
deriving DecidableEq, Repr

namespace Location

/-- The part of a text that follows its last line end. -/
def lastLine (text : Text) : Text :=
  (text.reverse.takeWhile (· ≠ '\n')).reverse

/-- Resolves an offset of `source`. An offset past the end is kept as it is and resolved to the
line and column of the end. -/
def locate (source : Text) (offset : Nat) : Location :=
  let before := source.take offset
  let onLine := lastLine before
  { offset
    line := before.count '\n' + 1
    column := onLine.length + 1
    text := (onLine ++ (source.drop offset).takeWhile (· ≠ '\n')).trim }

/-- The wording of a position: line and column, and the line's text if there is any. -/
def describe (location : Location) : String :=
  let line := location.line.repr
  let column := location.column.repr
  let position := s!"line {line}, column {column}"
  if location.text.isEmpty then position
  else
    let text := String.ofList location.text
    s!"{position} (`{text}`)"

end Location

end ElementScript
