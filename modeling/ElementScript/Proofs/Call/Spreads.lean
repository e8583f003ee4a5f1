import ElementScript.Proofs.Call.Brackets

/-! # Spreads in a property object

A property without a value whose name is a spread, such as `{...rest}`, becomes an entry of the
property object that has lost the braces: `...rest`. The entry is written in three steps. The name
is quoted if it has a hyphen, the result is tested for a spread anywhere in it, and its first and
last character are dropped.

The first step gets in the way of the last one. A literal of a spread still holds the spread, so it
passes the test, and what is dropped then are the quotes. `Call.spread_item_iff` says for which
expressions the entry is the spread: exactly for those without a hyphen. All others keep their
braces, with the escapes of the literal in the expression.
-/

namespace ElementScript

namespace Text

theorem hexDigit_ne_lineEnd {value : Nat} (small : value < 16) : hexDigit value ≠ '\n' := by
  have digits : ∀ value < 16, hexDigit value ≠ '\n' := by decide
  exact digits value small

/-- A literal is written on one line. -/
theorem lineEnd_not_mem_escape (character : Char) : '\n' ∉ escape character := by
  by_cases lineEnd : character = '\n'
  · rw [lineEnd]
    decide
  by_cases control : character.toNat < 0x20
  · have high := hexDigit_ne_lineEnd (show character.toNat / 16 < 16 by omega)
    have low := hexDigit_ne_lineEnd (show character.toNat % 16 < 16 by omega)
    unfold escape
    split_ifs <;> simp [high.symm, low.symm]
  · unfold escape
    split_ifs <;> simp [Ne.symm lineEnd]

theorem lineEnd_not_mem_escapes (text : Text) : '\n' ∉ text.flatMap escape := by
  rw [List.mem_flatMap]
  rintro ⟨character, -, member⟩
  exact lineEnd_not_mem_escape character member

theorem escapes_ne_nil {text : Text} (solid : text ≠ []) : text.flatMap escape ≠ [] := by
  obtain ⟨first, others, rfl⟩ := List.exists_cons_of_ne_nil solid
  rcases Brackets.escape_cases first with ⟨itself, -, -⟩ | ⟨letter, digits, escaped, -, -⟩
  · simp [itself]
  · simp [escaped]

theorem takeWhile_line {text rest : Text} (line : '\n' ∉ text) :
    (text ++ rest).takeWhile (· ≠ '\n') = text ++ rest.takeWhile (· ≠ '\n') := by
  apply List.takeWhile_append_of_pos
  intro character member
  have different : character ≠ '\n' := by
    rintro rfl
    exact line member
  simpa using different

end Text

/-! ## What counts as a spread -/

namespace PropertyName

variable {inner rest : Text}

/-- A spread is found at the front of a text whatever stands behind it. -/
theorem spreadAtFront_spread (solid : inner ≠ []) (line : '\n' ∉ inner) :
    spreadAtFront (spread inner ++ rest) := by
  obtain ⟨first, others, rfl⟩ := List.exists_cons_of_ne_nil solid
  have shape : spread (first :: others) ++ rest =
      ['{', '.', '.', '.'] ++ ((first :: others ++ ['}']) ++ rest) := by
    simp [spread]
  have closed : '\n' ∉ first :: others ++ ['}'] := by
    rw [List.mem_append, not_or]
    exact ⟨line, by decide⟩
  have opened : Text.after? ['{', '.', '.', '.'] (spread (first :: others) ++ rest) =
      some ((first :: others ++ ['}']) ++ rest) :=
    Text.after?_eq_some_iff.mpr shape
  simp only [spreadAtFront, opened, Text.takeWhile_line closed]
  simp

theorem isSpread_of_spreadAtFront {text : Text} (front : spreadAtFront text) : isSpread text := by
  cases text with
  | nil => cases front
  | cons first others => rw [isSpread, front, Bool.true_or]

theorem isSpread_spread (solid : inner ≠ []) (line : '\n' ∉ inner) : isSpread (spread inner) := by
  have front := @spreadAtFront_spread inner [] solid line
  rw [List.append_nil] at front
  exact isSpread_of_spreadAtFront front

/-- The literal of a spread is a spread between two quotes. -/
theorem quote_spread (inner : Text) :
    (spread inner).quote = '"' :: (spread (inner.flatMap Text.escape) ++ ['"']) := by
  have brace : Text.escape '{' = ['{'] := by decide
  have dot : Text.escape '.' = ['.'] := by decide
  have closing : Text.escape '}' = ['}'] := by decide
  simp [Text.quote, spread, List.flatMap_cons, List.flatMap_append, brace, dot, closing]

theorem isSpread_quote_spread (solid : inner ≠ []) : isSpread (spread inner).quote := by
  have front := @spreadAtFront_spread (inner.flatMap Text.escape) ['"'] (Text.escapes_ne_nil solid)
    (Text.lineEnd_not_mem_escapes inner)
  rw [quote_spread, isSpread, isSpread_of_spreadAtFront front, Bool.or_true]

theorem drop_dropLast_enclosed (first last : Char) (middle : Text) :
    ((first :: (middle ++ [last])).drop 1).dropLast = middle := by
  rw [List.drop_one, List.tail_cons, List.dropLast_concat]

theorem mem_spread_iff {character : Char} (other : character ∉ "\x7b...\x7d".toList) :
    character ∈ spread inner ↔ character ∈ inner := by
  simp only [spread, List.mem_cons, List.mem_append]
  simp at other
  simp [other]

end PropertyName

namespace Call

open PropertyName (spread)

/-! ## One entry -/

variable {inner : Text}

/-- A spread is quoted like every name with a hyphen. -/
theorem key_spread (inner : Text) :
    key (spread inner) = if '-' ∈ inner then (spread inner).quote else spread inner := by
  have hyphen : '-' ∈ spread inner ↔ '-' ∈ inner := PropertyName.mem_spread_iff (by decide)
  simp [key, trim_spread, hyphen]

/-- The entry of a spread without a hyphen has lost its braces. -/
theorem entry_spread (solid : inner ≠ []) (line : '\n' ∉ inner) (plain : '-' ∉ inner) :
    entry { name := spread inner, value := none } = "...".toList ++ inner := by
  have own : key (spread inner) = spread inner := by rw [key_spread, if_neg plain]
  simp only [entry, valueText, own, PropertyName.isSpread_spread solid line, and_self, if_true]
  exact PropertyName.drop_dropLast_enclosed _ _ _

/-- The entry of a spread with a hyphen has lost the quotes of its literal and kept its braces. -/
theorem entry_spread_of_hyphen (solid : inner ≠ []) (hyphen : '-' ∈ inner) :
    entry { name := spread inner, value := none } = spread (inner.flatMap Text.escape) := by
  have own : key (spread inner) = (spread inner).quote := by rw [key_spread, if_pos hyphen]
  simp only [entry, valueText, own, PropertyName.isSpread_quote_spread solid, and_self, if_true]
  rw [PropertyName.quote_spread]
  exact PropertyName.drop_dropLast_enclosed _ _ _

theorem entry_spread_iff (solid : inner ≠ []) (line : '\n' ∉ inner) :
    entry { name := spread inner, value := none } = "...".toList ++ inner ↔ '-' ∉ inner := by
  constructor
  · intro written hyphen
    rw [entry_spread_of_hyphen solid hyphen] at written
    cases written
  · exact entry_spread solid line

/-! ## All entries -/

/-- Every text but the last has the separator behind it. -/
theorem getElem?_separated (texts : List Text) (index : Nat) :
    (separated texts)[index]? =
      texts[index]?.map (· ++ if index + 1 = texts.length then [] else ", ".toList) := by
  fun_induction separated texts generalizing index with
  | case1 => rfl
  | case2 last => cases index <;> simp
  | case3 first second rest induction =>
      cases index with
      | zero => simp
      | succ index => simpa using induction index

/-- A property without a value that spreads an expression is written as the spread of that
expression, with the separator behind it unless it is the last one, exactly if the expression has no
hyphen. Otherwise the braces stay, around the expression as it is escaped in literals. This is so in
every element and at every place among its properties, whatever is written for the nested
elements. -/
theorem spread_item_iff (element : Element) (write : Element → Text) {index : Nat}
    (solid : inner ≠ []) (line : '\n' ∉ inner)
    (listed : element.properties[index]? = some { name := spread inner, value := none }) :
    ∃ item : Text,
      (separated ((element.properties.map (Property.map write)).map entry))[index]? =
          some (item ++ if index + 1 = element.properties.length then [] else ", ".toList) ∧
        (item = "...".toList ++ inner ↔ '-' ∉ inner) ∧
        ('-' ∈ inner → item = spread (inner.flatMap Text.escape)) := by
  refine ⟨entry { name := spread inner, value := none }, ?_, entry_spread_iff solid line,
    entry_spread_of_hyphen solid⟩
  rw [getElem?_separated]
  simp [listed, Property.map]

/-- The first of these spreads has a hyphen and a quote, and the second has neither. -/
theorem spread_item_iff_samples :
    let first : Text := "p[\"x-y\"]".toList
    let second : Text := "rest".toList
    let element : Element :=
      { name := "a".toList
        isComponent := false
        properties :=
          [{ name := spread first, value := none }, { name := spread second, value := none }]
        children := []
        depth := 0
        offset := 0 }
    writeElement "h".toList element false =
        "h(\"a\", \x7b\x7b...p[\\\"x-y\\\"]\x7d, ...rest\x7d)".toList ∧
      (∃ item : Text,
        (separated ((element.properties.map (Property.map (·.call "h".toList true))).map
          entry))[0]? = some (item ++ ", ".toList) ∧ item ≠ "...".toList ++ first) ∧
      ∃ item : Text,
        (separated ((element.properties.map (Property.map (·.call "h".toList true))).map
          entry))[1]? = some (item ++ []) ∧ item = "...".toList ++ second := by
  intro first second element
  have written : writeElement "h".toList element false =
      "h(\"a\", \x7b\x7b...p[\\\"x-y\\\"]\x7d, ...rest\x7d)".toList :=
    (writeElement_eq _ _ _).trans (by decide +kernel)
  have hyphen := @spread_item_iff first element (·.call "h".toList true) 0 (by decide) (by decide)
    rfl
  have plain := @spread_item_iff second element (·.call "h".toList true) 1 (by decide) (by decide)
    rfl
  refine ⟨written, ?_, ?_⟩
  · rcases hyphen with ⟨item, placed, spreads, -⟩
    exact ⟨item, placed, fun same => spreads.mp same (by decide)⟩
  · rcases plain with ⟨item, placed, spreads, -⟩
    exact ⟨item, placed, spreads.mpr (by decide)⟩

end Call

end ElementScript
