import ElementScript.Text.Basic

/-!
Telling markup from comparison.

A `<` in a script opens markup or compares two values, and nothing but the characters after it can
tell. The rule is a look ahead over character classes: the text from the second character after
the `<` is read up to the first character that decides. Comment removal and scanning both use this
rule, the one on a source and the other on what is left of it.
-/

namespace ElementScript.Lookahead

/-- The characters that tag names and paths are made of. -/
def isWordOrSlash (character : Char) : Bool :=
  character.isAlphanum || character = '_' || character = '/'

/-- The characters that only an expression has after a `<`. -/
def endsOperand (character : Char) : Bool :=
  character = ')' || character = '&' || character = '|' || character = '?' || character = ';'

/-- Whether a text ends an operand before it shows markup. Markup shows at a `>`, and at a word
character once a space has been seen. -/
def compares (seenSpace : Bool) : Text → Bool
  | [] => false
  | character :: rest =>
      if isWordOrSlash character then
        if seenSpace then false else compares seenSpace rest
      else if character = '>' then false
      else if character = ' ' then compares true rest
      else if endsOperand character then true
      else compares seenSpace rest

/-- Whether the `<` at a position looks like a comparison. -/
def isComparison (source : Text) (position : Nat) : Bool :=
  compares false (source.drop (position + 2))

/-- Whether a `<` followed by this text opens an element. -/
def opensElement : Text → Bool
  | [] => false
  | first :: rest => (first.isAlpha || first = '>') && !compares false rest

/-- Whether a `<` followed by this text opens or closes an element among the children of
another. -/
def opensTag : Text → Bool
  | [] => false
  | first :: rest => (first.isAlpha || first = '>' || first = '/') && !compares false rest

theorem opensTag_of_opensElement {following : Text} (opens : opensElement following) :
    opensTag following := by
  cases following with
  | nil => exact opens
  | cons first rest =>
      simp only [opensElement, opensTag, Bool.and_eq_true, Bool.or_eq_true] at opens ⊢
      exact ⟨Or.inl opens.1, opens.2⟩

example : opensElement "div className=\"x\">".toList = true := by decide
example : opensElement "b ? c : d".toList = false := by decide
example : opensTag "/div>".toList = true := by decide

end ElementScript.Lookahead
