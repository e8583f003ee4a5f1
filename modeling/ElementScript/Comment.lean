import ElementScript.Literal
import ElementScript.Lookahead

/-!
Removing comments.

Every character of a comment becomes a space and every line end stays, so the result has the length
of the source and an offset means the same position in both (`length_strip`). Readers of the result
need not know about comments.

A slash starts a comment in code only: outside of markup, or inside braces of an element. In element
text `http://example.com` is just text. The reader therefore counts the open elements and the open
braces, with the rule of `Lookahead` for what opens an element. A comment that fills the braces of
an element's child goes together with its braces.
-/

namespace ElementScript.Comment

/-- What the characters being read belong to. -/
inductive Mode where
  /-- Script code, tags and element text. -/
  | code
  /-- A comment that was opened together with a brace of an element. -/
  | markupComment
  | lineComment
  | blockComment
  /-- A string literal, with the mark that opened it. -/
  | literal (mark : Char)
deriving DecidableEq, Repr

/-- What the reader knows about the characters behind it. -/
structure State where
  mode : Mode := .code
  /-- How many further characters of a comment's mark are still to be blanked. -/
  skip : Nat := 0
  /-- How many elements are open. -/
  elements : Nat := 0
  /-- How many braces are open inside of elements. -/
  braces : Nat := 0
  previous : Option Char := none
  beforePrevious : Option Char := none
deriving DecidableEq, Repr

namespace State

/-- Whether the position is in code, where slashes start comments and quotes start literals. -/
def inCode (state : State) : Bool :=
  state.elements = 0 || 0 < state.braces

/-- The state with one more character behind the reader. -/
def remember (state : State) (character : Char) : State :=
  { state with previous := some character, beforePrevious := state.previous }

end State

/-- A character of a comment in the result. -/
def blank (character : Char) : Char :=
  if character = '\n' then character else ' '

/-- Reads a character outside of comments and literals. -/
def codeStep (state : State) (character : Char) (following : Text) : Char × State :=
  if character = '{' ∧ 0 < state.elements then
    if following.take 2 = ['/', '*'] then
      (' ', { state with mode := .markupComment, skip := 2 })
    else (character, { state with braces := state.braces + 1 })
  else if character = '}' ∧ 0 < state.elements then
    (character, { state with braces := state.braces - 1 })
  else if character = '/' ∧ state.inCode then
    if following.head? = some '/' then (' ', { state with mode := .lineComment, skip := 1 })
    else if following.head? = some '*' then (' ', { state with mode := .blockComment, skip := 1 })
    else (character, state)
  else if Literal.isMark character ∧ state.inCode then
    (character, { state with mode := .literal character })
  else if character = '<' then
    if Lookahead.opensElement following then
      (character, { state with elements := state.elements + 1 })
    else if following.head? = some '/' then
      (character, { state with elements := state.elements - 1 })
    else (character, state)
  else if character = '>' ∧ state.previous = some '/' ∧ state.beforePrevious ≠ some '<' then
    (character, { state with elements := state.elements - 1 })
  else (character, state)

/-- Reads one character: what becomes of it, and the state after it. -/
def step (state : State) (character : Char) (following : Text) : Char × State :=
  match state.skip with
  | skip + 1 => (blank character, { state with skip })
  | 0 =>
      match state.mode with
      | .code => codeStep state character following
      | .markupComment =>
          if character = '*' ∧ following.take 2 = ['/', '}'] then
            (' ', { state with mode := .code, skip := 2 })
          else (blank character, state)
      | .lineComment =>
          if character = '\n' then (character, { state with mode := .code })
          else (' ', state)
      | .blockComment =>
          if character = '*' ∧ following.head? = some '/' then
            (' ', { state with mode := .code, skip := 1 })
          else (blank character, state)
      | .literal mark =>
          if Literal.closes mark state.previous character then
            (character, { state with mode := .code })
          else (character, state)

/-- The rest of a text without its comments. -/
def stripFrom (state : State) : Text → Text
  | [] => []
  | character :: rest =>
      let result := step state character rest
      result.1 :: stripFrom (result.2.remember character) rest

/-- The text with every comment replaced by spaces. -/
def strip (source : Text) : Text :=
  stripFrom {} source

theorem length_stripFrom (state : State) (source : Text) :
    (stripFrom state source).length = source.length := by
  induction source generalizing state with
  | nil => rfl
  | cons character rest induction => simp [stripFrom, induction]

@[simp] theorem length_strip (source : Text) : (strip source).length = source.length :=
  length_stripFrom {} source

example : strip "a // b\nc".toList = "a     \nc".toList := by decide
example : strip "<a>x // y{/* z */}</a>".toList = "<a>x // y         </a>".toList := by decide

end ElementScript.Comment
