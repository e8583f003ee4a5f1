import ElementScript.Proofs.Markup.Basic
import ElementScript.Proofs.Scan.Reading

/-! # Names and tags of markup

What a scan needs to know about the characters of a name: none of them ends the name, and none is
whitespace. And what it needs to know about an element before it reads it: that the text after its
`<` does not look like a comparison.
-/

namespace ElementScript.Markup

/-! ## Characters -/

section Characters

variable {character : Char}

/-- From `!` to `~` there is no whitespace. -/
theorem isWhitespace_eq_false_of_visible (low : 33 ≤ character.toNat)
    (high : character.toNat ≤ 126) : Text.isWhitespace character = false := by
  simp [Text.isWhitespace, Text.whitespaceRanges]
  omega

theorem isWhitespace_eq_false_of_isAlphanum (word : character.isAlphanum) :
    Text.isWhitespace character = false := by
  delta Char.isAlphanum Char.isAlpha Char.isUpper Char.isLower Char.isDigit at word
  simp only [Bool.or_eq_true, Bool.and_eq_true, decide_eq_true_eq, ge_iff_le,
    UInt32.le_iff_toNat_le] at word
  change ((65 ≤ character.toNat ∧ character.toNat ≤ 90) ∨
    (97 ≤ character.toNat ∧ character.toNat ≤ 122)) ∨
    (48 ≤ character.toNat ∧ character.toNat ≤ 57) at word
  exact isWhitespace_eq_false_of_visible (by omega) (by omega)

theorem isBlank_eq_false (solid : Text.isWhitespace character = false) :
    Text.isBlank character = false := by
  rw [Bool.eq_false_iff]
  intro blank
  rw [Text.isWhitespace_of_isBlank blank] at solid
  cases solid

theorem isWhitespace_eq_false_of_isTagCharacter (word : isTagCharacter character) :
    Text.isWhitespace character = false := by
  simp only [isTagCharacter, Bool.or_eq_true, decide_eq_true_eq] at word
  rcases word with ((word | rfl) | rfl) | rfl
  · exact isWhitespace_eq_false_of_isAlphanum word
  all_goals decide

theorem isTagCharacter_of_isNameCharacter (word : PropertyName.isNameCharacter character) :
    isTagCharacter character := by
  simp only [PropertyName.isNameCharacter, isTagCharacter, Bool.or_eq_true] at word ⊢
  rcases word with word | word
  · exact Or.inl (Or.inl word)
  · exact Or.inr word

theorem isWhitespace_eq_false_of_isIdentifierCharacter
    (word : isIdentifierCharacter character) : Text.isWhitespace character = false := by
  simp only [isIdentifierCharacter, Bool.or_eq_true, Bool.and_eq_true, decide_eq_true_eq,
    Bool.not_eq_true'] at word
  rcases word with ((word | rfl) | rfl) | word
  · exact isWhitespace_eq_false_of_isAlphanum word
  · decide
  · decide
  · exact word.2

/-- A character of a class differs from every character outside of the class. -/
theorem ne_of_class {holds : Char → Bool} {other : Char} (word : holds character)
    (excluded : holds other = false) : character ≠ other := by
  rintro rfl
  rw [word] at excluded
  cases excluded

theorem endsOperand_eq_false {holds : Char → Bool} (word : holds character)
    (excluded : [')', '&', '|', '?', ';'].all fun other => !holds other) :
    Lookahead.endsOperand character = false := by
  simp only [List.all_cons, List.all_nil, Bool.and_true, Bool.and_eq_true, Bool.not_eq_true']
    at excluded
  simp [Lookahead.endsOperand, ne_of_class word excluded.1, ne_of_class word excluded.2.1,
    ne_of_class word excluded.2.2.1, ne_of_class word excluded.2.2.2.1,
    ne_of_class word excluded.2.2.2.2]

end Characters

/-! ## Texts without whitespace -/

section Solid

variable {text : Text}

theorem isAllWhitespace_eq_false (nonempty : text ≠ [])
    (solid : ∀ character ∈ text, Text.isWhitespace character = false) :
    text.isAllWhitespace = false := by
  cases text with
  | nil => exact absurd rfl nonempty
  | cons first others => simp [Text.isAllWhitespace, solid first (List.mem_cons_self)]

theorem trim_eq_self (solid : ∀ character ∈ text, Text.isWhitespace character = false) :
    text.trim = text := by
  have start : text.trimStart = text := Text.trimStart_eq_self_iff.mpr fun first starts =>
    solid first (List.mem_of_mem_head? starts)
  have finish : text.trimEnd = text := Text.trimEnd_eq_self_iff.mpr fun last ends =>
    solid last (List.mem_of_mem_getLast? ends)
  rw [Text.trim, start, finish]

end Solid

/-! ## Names -/

section Names

variable {name : Text}

theorem isTagCharacter_of_isTagName (named : isTagName name) :
    ∀ character ∈ name, isTagCharacter character := by
  cases name with
  | nil => cases named
  | cons first others =>
      simp only [isTagName, Bool.and_eq_true, List.all_eq_true] at named
      refine List.forall_mem_cons.mpr ⟨?_, named.2⟩
      simp [isTagCharacter, Char.isAlphanum, named.1]

theorem pushes_tagName {closing : Bool} (named : isTagName name) :
    ∀ character ∈ name, Scan.Pushes (.tag closing) character := by
  intro character member
  have word := isTagCharacter_of_isTagName named character member
  exact Scan.pushes_tag (ne_of_class word (by decide)) (ne_of_class word (by decide))
    (isBlank_eq_false (isWhitespace_eq_false_of_isTagCharacter word))

/-- What a scan needs to know of a name or a spread among the properties of a tag. -/
structure IsWord (name : Text) : Prop where
  nonempty : name ≠ []
  solid : ∀ character ∈ name, Text.isWhitespace character = false
  inside : ∀ character ∈ name, character ≠ '=' ∧ character ≠ '/' ∧ character ≠ '>'
  standalone : PropertyName.isStandalone name

theorem IsWord.pushes (word : IsWord name) {named : Bool} :
    ∀ character ∈ name, Scan.Pushes (.properties (.outside named)) character := by
  intro character member
  have inside := word.inside character member
  exact Scan.pushes_outside inside.1 (isBlank_eq_false (word.solid character member))
    inside.2.1 inside.2.2

theorem isWord_of_isPropertyName (named : isPropertyName name) : IsWord name := by
  cases name with
  | nil => cases named
  | cons first others =>
      simp only [isPropertyName, Bool.and_eq_true, List.all_eq_true] at named
      have words : ∀ character ∈ first :: others, PropertyName.isNameCharacter character := by
        refine List.forall_mem_cons.mpr ⟨?_, named.2⟩
        simp [PropertyName.isNameCharacter, Char.isAlphanum, named.1]
      refine ⟨List.cons_ne_nil _ _, ?_, ?_, ?_⟩
      · intro character member
        exact isWhitespace_eq_false_of_isTagCharacter
          (isTagCharacter_of_isNameCharacter (words character member))
      · intro character member
        have word := words character member
        exact ⟨ne_of_class word (by decide), ne_of_class word (by decide),
          ne_of_class word (by decide)⟩
      · rw [PropertyName.isStandalone, PropertyName.isPlain, List.all_eq_true.mpr words]
        rfl

theorem isSpreadName_cases (spread : isSpreadName name) :
    ∃ identifier, name = ['{', '.', '.', '.'] ++ (identifier ++ ['}']) ∧ identifier ≠ [] ∧
      ∀ character ∈ identifier, isIdentifierCharacter character := by
  unfold isSpreadName at spread
  split at spread
  · rename_i rest after
    simp only [Bool.and_eq_true, decide_eq_true_eq, Bool.not_eq_true', List.all_eq_true,
      List.isEmpty_eq_false_iff] at spread
    rcases List.getLast?_eq_some_iff.mp spread.1.1 with ⟨identifier, rfl⟩
    rw [List.dropLast_concat] at spread
    exact ⟨identifier, Text.after?_eq_some_iff.mp after, spread.1.2, spread.2⟩
  · cases spread

/-- The characters of a spread. -/
def isSpreadCharacter (character : Char) : Bool :=
  isIdentifierCharacter character || character = '{' || character = '.' || character = '}'

theorem isSpreadCharacter_of_isSpreadName (spread : isSpreadName name) :
    ∀ character ∈ name, isSpreadCharacter character := by
  rcases isSpreadName_cases spread with ⟨identifier, rfl, -, words⟩
  intro character member
  simp only [List.mem_append, List.mem_cons, List.not_mem_nil, or_false] at member
  rcases member with (rfl | rfl | rfl | rfl) | member | rfl
  · decide
  · decide
  · decide
  · decide
  · simp [isSpreadCharacter, words character member]
  · decide

theorem isWhitespace_eq_false_of_isSpreadCharacter {character : Char}
    (word : isSpreadCharacter character) : Text.isWhitespace character = false := by
  simp only [isSpreadCharacter, Bool.or_eq_true, decide_eq_true_eq] at word
  rcases word with ((word | rfl) | rfl) | rfl
  · exact isWhitespace_eq_false_of_isIdentifierCharacter word
  all_goals decide

theorem isSpread_of_isSpreadName (spread : isSpreadName name) : PropertyName.isSpread name := by
  rcases isSpreadName_cases spread with ⟨identifier, rfl, nonempty, words⟩
  have line : (identifier ++ ['}']).takeWhile (· ≠ '\n') = identifier ++ ['}'] := by
    rw [List.takeWhile_append_of_pos]
    · rfl
    · intro character member
      exact decide_eq_true (ne_of_class (words character member) (by decide))
  have closed : '}' ∈ (identifier ++ ['}']).drop 1 := by
    cases identifier with
    | nil => exact absurd rfl nonempty
    | cons first others => simp
  have front : PropertyName.spreadAtFront (['{', '.', '.', '.'] ++ (identifier ++ ['}'])) := by
    rw [PropertyName.spreadAtFront, Text.after?_eq_some_iff.mpr rfl]
    simp only [line]
    exact List.contains_iff_mem.mpr closed
  rw [List.cons_append, PropertyName.isSpread, ← List.cons_append, front]
  rfl

theorem isWord_of_isSpreadName (spread : isSpreadName name) : IsWord name := by
  have words := isSpreadCharacter_of_isSpreadName spread
  refine ⟨?_, ?_, ?_, ?_⟩
  · rintro rfl
    cases spread
  · intro character member
    exact isWhitespace_eq_false_of_isSpreadCharacter (words character member)
  · intro character member
    have word := words character member
    exact ⟨ne_of_class word (by decide), ne_of_class word (by decide),
      ne_of_class word (by decide)⟩
  · rw [PropertyName.isStandalone, isSpread_of_isSpreadName spread, Bool.or_true]

/-- A property without a value is a name or a spread. -/
theorem isWord (named : isPropertyName name ∨ isSpreadName name) : IsWord name := by
  rcases named with named | spread
  · exact isWord_of_isPropertyName named
  · exact isWord_of_isSpreadName spread

end Names

/-! ## Markup and comparisons -/

section Lookahead

open Lookahead (compares opensElement opensTag endsOperand isWordOrSlash)

variable {name rest : Text}

/-- Characters that end no operand leave the decision to what follows. -/
theorem compares_append {text : Text}
    (inside : ∀ character ∈ text, endsOperand character = false)
    (after : ∀ seenSpace, compares seenSpace rest = false) (seenSpace : Bool) :
    compares seenSpace (text ++ rest) = false := by
  induction text generalizing seenSpace with
  | nil => exact after seenSpace
  | cons character text induction =>
      have parts := List.forall_mem_cons.mp inside
      have others := induction parts.2
      simp only [List.cons_append, compares, others, parts.1]
      split <;> simp

theorem compares_bracket (seenSpace : Bool) : compares seenSpace ('>' :: rest) = false := rfl

theorem compares_slash_bracket (seenSpace : Bool) :
    compares seenSpace ('/' :: '>' :: rest) = false := by
  cases seenSpace <;> rfl

theorem compares_property (named : isPropertyName name) (seenSpace : Bool) :
    compares seenSpace (' ' :: (name ++ rest)) = false := by
  cases name with
  | nil => cases named
  | cons first others =>
      simp only [isPropertyName, Bool.and_eq_true] at named
      have word : isWordOrSlash first := by
        simp [isWordOrSlash, Char.isAlphanum, named.1]
      change compares true (first :: (others ++ rest)) = false
      rw [compares, if_pos word]
      rfl

theorem compares_spread (spread : isSpreadName name)
    (after : ∀ seenSpace, compares seenSpace rest = false) (seenSpace : Bool) :
    compares seenSpace (' ' :: (name ++ rest)) = false := by
  refine compares_append (?_ : ∀ character ∈ ' ' :: name, _) after seenSpace
  refine List.forall_mem_cons.mpr ⟨rfl, fun character member => ?_⟩
  exact endsOperand_eq_false (isSpreadCharacter_of_isSpreadName spread character member)
    (by decide)

/-- The properties of a tag do not look like an operand. -/
theorem compares_properties (after : ∀ seenSpace, compares seenSpace rest = false) :
    (properties : Markup .properties) → properties.wellFormed → (seenSpace : Bool) →
      compares seenSpace (properties.render ++ rest) = false
  | .noProperties, _, seenSpace => after seenSpace
  | .bare name others, formed, seenSpace => by
      simp only [wellFormed, Bool.and_eq_true, Bool.or_eq_true] at formed
      have others := compares_properties after others formed.2
      rw [render, List.cons_append, List.cons_append, List.append_assoc]
      rcases formed.1 with named | spread
      · exact compares_property named seenSpace
      · exact compares_spread spread others seenSpace
  | .quoted name value others, formed, seenSpace => by
      simp only [wellFormed, Bool.and_eq_true] at formed
      simp only [render, List.cons_append, List.append_assoc]
      exact compares_property formed.1.1 seenSpace
  | .braced name code others, formed, seenSpace => by
      simp only [wellFormed, Bool.and_eq_true] at formed
      simp only [render, List.cons_append, List.append_assoc]
      exact compares_property formed.1.1.1 seenSpace
  | .nested name value others, formed, seenSpace => by
      simp only [wellFormed, Bool.and_eq_true] at formed
      simp only [render, List.cons_append, List.append_assoc]
      exact compares_property formed.1.1 seenSpace

theorem compares_tagName (named : isTagName name)
    (after : ∀ seenSpace, compares seenSpace rest = false) (seenSpace : Bool) :
    compares seenSpace (name ++ rest) = false := by
  refine compares_append ?_ after seenSpace
  intro character member
  exact endsOperand_eq_false (isTagCharacter_of_isTagName named character member) (by decide)

/-- After a `<`, the name of a tag opens an element. -/
theorem opensElement_tagName (named : isTagName name)
    (after : ∀ seenSpace, compares seenSpace rest = false) : opensElement (name ++ rest) := by
  have inside := isTagCharacter_of_isTagName named
  cases name with
  | nil => cases named
  | cons first others =>
      have compared : compares false (others ++ rest) = false := by
        refine compares_append ?_ after false
        intro character member
        exact endsOperand_eq_false (inside character (List.mem_cons_of_mem _ member)) (by decide)
      simp only [isTagName, Bool.and_eq_true] at named
      simp [opensElement, named.1, compared]

theorem opensTag_closing {blanks : Text} (named : isTagName name)
    (blank : ∀ character ∈ blanks, Text.isBlank character) :
    opensTag ('/' :: (name ++ (blanks ++ '>' :: rest))) := by
  have afterName : ∀ seenSpace, compares seenSpace (blanks ++ '>' :: rest) = false := by
    refine compares_append ?_ compares_bracket
    intro character member
    exact endsOperand_eq_false (blank character member) (by decide)
  simp [opensTag, compares_tagName named afterName]

end Lookahead

end ElementScript.Markup
