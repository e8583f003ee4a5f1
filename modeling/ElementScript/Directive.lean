import ElementScript.Text.Basic

/-!
Directive comments.

A comment may select the factory (`// @jsx h`) or the fragment identifier (`/** @jsxFrag Part */`)
for the source it stands in. A directive is a comment opener, whitespace, the directive's word,
whitespace and an identifier of letters and dots. Only the leftmost one of each kind counts, and it
is looked for in the whole source, before comments are removed.
-/

namespace ElementScript

/-- The identifiers that a source selects for itself. -/
structure Directives where
  factory : Option Text
  fragment : Option Text
deriving DecidableEq, Repr

namespace Directive

/-- What follows a comment opener at the start of a text. -/
def afterOpener? : Text → Option Text
  | '/' :: '/' :: rest => some rest
  | '/' :: '*' :: '*' :: rest => some rest
  | '/' :: '*' :: rest => some rest
  | _ => none

/-- What follows the whitespace at the start of a text, if there is any. -/
def afterWhitespace? : Text → Option Text
  | [] => none
  | first :: rest => if Text.isWhitespace first then some (Text.trimStart rest) else none

def isIdentifierCharacter (character : Char) : Bool :=
  character.isAlpha || character = '.'

/-- The identifier of the directive that starts right at the front of a text. -/
def atFront? (word text : Text) : Option Text := do
  let comment ← afterOpener? text
  let marked ← afterWhitespace? comment
  let named ← Text.after? word marked
  let value ← afterWhitespace? named
  let identifier := value.takeWhile isIdentifierCharacter
  if identifier.isEmpty then none else some identifier

/-- The identifier of the leftmost directive with a given word. -/
def leftmost? (word : Text) : Text → Option Text
  | [] => none
  | first :: rest => (atFront? word (first :: rest)).or (leftmost? word rest)

def factoryWord : Text := "@jsx".toList

def fragmentWord : Text := "@jsxFrag".toList

/-- The identifiers that the directives of a source select. -/
def scan (source : Text) : Directives where
  factory := leftmost? factoryWord source
  fragment := leftmost? fragmentWord source

example : scan "/** @jsxFrag Part */ // @jsx  h.e".toList =
    ⟨some "h.e".toList, some "Part".toList⟩ := by decide

end Directive

end ElementScript
