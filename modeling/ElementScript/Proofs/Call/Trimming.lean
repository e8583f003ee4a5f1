import ElementScript.Proofs.Call.Brackets
import ElementScript.Proofs.Markup.Names
import ElementScript.Proofs.Text.Quoted
import ElementScript.Proofs.Text.Reference

/-! # Trimming the texts of an element

The text of a child is decoded first and then trimmed, at the ends where no other child stands
beside it. So a reference at such an end is trimmed like the whitespace around it if it denotes
whitespace, as `&nbsp;` does. `Call.trimmed_literal_iff` says for which texts that makes a
difference: exactly for those which still have a reference to whitespace at a trimmed end when they
are trimmed as they are written.
-/

namespace ElementScript

namespace Text

variable {before after text : Text}

/-! ## Whitespace at the ends -/

theorem trimStart_append (white : ∀ character ∈ before, isWhitespace character) (text : Text) :
    trimStart (before ++ text) = text.trimStart :=
  List.dropWhile_append_of_pos white

theorem trimEnd_append (white : ∀ character ∈ after, isWhitespace character) (text : Text) :
    trimEnd (text ++ after) = text.trimEnd := by
  have reversed : ∀ character ∈ after.reverse, isWhitespace character :=
    fun character member => white character (List.mem_reverse.mp member)
  rw [trimEnd, List.reverse_append, List.dropWhile_append_of_pos reversed, trimEnd]

theorem trim_append (whiteBefore : ∀ character ∈ before, isWhitespace character)
    (whiteAfter : ∀ character ∈ after, isWhitespace character) (text : Text) :
    trim (before ++ (text ++ after)) = text.trim := by
  rw [trim, trimStart_append whiteBefore, trim, trimStart, List.dropWhile_append]
  split
  · rename_i nothing
    have empty : text.trimStart = [] := List.isEmpty_iff.mp nothing
    have all : after.trimStart = [] := trimStart_eq_nil_iff.mpr (List.all_eq_true.mpr whiteAfter)
    rw [empty]
    exact congrArg trimEnd all
  · exact trimEnd_append whiteAfter _

/-- Whether a text neither starts nor ends with whitespace, as far as either end is asked for. -/
def IsTrimmed (start finish : Prop) (text : Text) : Prop :=
  (start → ∀ first ∈ text.head?, isWhitespace first = false) ∧
    (finish → ∀ last ∈ text.getLast?, isWhitespace last = false)

theorem trim_eq_self_iff : text.trim = text ↔ text.IsTrimmed True True := by
  have starts : text.trimStart.Sublist text := List.dropWhile_sublist isWhitespace
  rw [IsTrimmed, ← trimStart_eq_self_iff, ← trimEnd_eq_self_iff]
  constructor
  · intro same
    obtain ⟨after, split, -⟩ := exists_trimEnd text.trimStart
    have length := congrArg List.length split
    rw [← trim, same, List.length_append] at length
    have front : text.trimStart = text := starts.eq_of_length_le (by omega)
    rw [trim, front] at same
    exact ⟨fun _ => front, fun _ => same⟩
  · rintro ⟨start, finish⟩
    rw [trim, start trivial, finish trivial]

end Text

namespace Text.Reference

variable {before after text : Text}

/-! ## Decoding between whitespace -/

theorem isOutside_of_isWhitespace {character : Char} (white : isWhitespace character) :
    isOutside character := by
  have noWord : character.isAlphanum = false := by
    by_contra word
    have solid := Markup.isWhitespace_eq_false_of_isAlphanum (by simpa using word)
    rw [white] at solid
    cases solid
  have noNumber : character ≠ '#' := Markup.ne_of_class white (by decide)
  have noEnd : character ≠ ';' := Markup.ne_of_class white (by decide)
  simp [isOutside, noWord, noNumber, noEnd]

theorem not_mem_of_isWhitespace (white : ∀ character ∈ text, isWhitespace character) :
    '&' ∉ text := by
  intro member
  cases white _ member

/-- Whitespace stays where it is, and what stands between it is decoded as if it stood alone. -/
theorem decode_between (whiteBefore : ∀ character ∈ before, isWhitespace character)
    (whiteAfter : ∀ character ∈ after, isWhitespace character) (text : Text) :
    decode (before ++ (text ++ after)) = before ++ (decode text ++ after) := by
  induction before with
  | nil =>
      cases after with
      | nil => simp
      | cons character after =>
          have outside := isOutside_of_isWhitespace (whiteAfter _ List.mem_cons_self)
          rw [List.nil_append, decode_before outside,
            decode_of_not_mem (not_mem_of_isWhitespace whiteAfter), List.nil_append]
  | cons character before induction =>
      have parts := List.forall_mem_cons.mp whiteBefore
      rw [List.cons_append, decode_cons_of_ne (Markup.ne_of_class parts.1 (by decide)),
        induction parts.2, List.cons_append]

/-- Whether a text is a reference to a whitespace character. -/
def IsSpace (piece : Text) : Prop :=
  ∃ denoted reference, piece = '&' :: reference ∧ Spells denoted piece ∧ isWhitespace denoted

theorem isSpace_of_spells {denoted : Char} {piece : Text} (spelled : Spells denoted piece)
    (white : isWhitespace denoted) : piece = [denoted] ∨ IsSpace piece := by
  cases spelled with
  | verbatim => exact Or.inl rfl
  | decimal visible least most denotes =>
      exact Or.inr ⟨denoted, _, rfl, .decimal visible least most denotes, white⟩
  | hexadecimal visible marked least most denotes =>
      exact Or.inr ⟨denoted, _, rfl, .hexadecimal visible marked least most denotes, white⟩
  | named listed => exact Or.inr ⟨denoted, _, rfl, .named listed, white⟩

/-- A text that does not start with whitespace itself is decoded to one that does exactly if it
starts with a reference to whitespace. -/
theorem head?_decode_iff (solid : ∀ first ∈ text.head?, isWhitespace first = false) :
    (∀ first ∈ (decode text).head?, isWhitespace first = false) ↔
      ¬ ∃ piece, IsSpace piece ∧ piece <+: text := by
  constructor
  · rintro none ⟨piece, ⟨denoted, reference, rfl, spelled, white⟩, rest, rfl⟩
    rw [decode_spells spelled, List.head?_cons] at none
    rw [none denoted rfl] at white
    cases white
  · intro none first starts
    rw [Bool.eq_false_iff]
    intro white
    obtain ⟨others, decoded⟩ := List.head?_eq_some_iff.mp starts
    obtain ⟨piece, front, spelled⟩ := spells_of_decode_cons decoded
      (Markup.ne_of_class white (by decide)) (Markup.ne_of_class white (by decide))
    rcases isSpace_of_spells spelled white with rfl | space
    · obtain ⟨rest, rfl⟩ := front
      rw [solid first rfl] at white
      cases white
    · exact none ⟨piece, space, front⟩

/-- The same at the end of a text. -/
theorem getLast?_decode_iff (solid : ∀ last ∈ text.getLast?, isWhitespace last = false) :
    (∀ last ∈ (decode text).getLast?, isWhitespace last = false) ↔
      ¬ ∃ piece, IsSpace piece ∧ piece <:+ text := by
  constructor
  · rintro none ⟨piece, ⟨denoted, reference, rfl, spelled, white⟩, front, rfl⟩
    have last := decode_spells spelled []
    rw [List.append_nil] at last
    rw [decode_before rfl, last, List.getLast?_append] at none
    rw [none denoted rfl] at white
    cases white
  · intro none last ends
    rw [Bool.eq_false_iff]
    intro white
    obtain ⟨others, decoded⟩ := List.getLast?_eq_some_iff.mp ends
    obtain ⟨piece, back, spelled⟩ := spells_of_decode_concat decoded
      (Markup.ne_of_class white (by decide)) (Markup.ne_of_class white (by decide))
    rcases isSpace_of_spells spelled white with rfl | space
    · obtain ⟨front, rfl⟩ := back
      rw [solid last (by simp)] at white
      cases white
    · exact none ⟨piece, space, back⟩

end Text.Reference

namespace Call

open Text (isWhitespace)
open Text.Reference (decode IsSpace)

variable {index count : Nat} {text : Text}

/-! ## Trimming at a place -/

/-- Trimming at a place takes whitespace from the ends, and takes it again from any other text
between the same whitespace. -/
theorem exists_trimmedAt (index count : Nat) (text : Text) :
    ∃ before after, text = before ++ (trimmedAt index count text ++ after) ∧
      (∀ character ∈ before, isWhitespace character) ∧
      (∀ character ∈ after, isWhitespace character) ∧
      ∀ other, trimmedAt index count (before ++ (other ++ after)) =
        trimmedAt index count other := by
  have nothing : ∀ character ∈ ([] : Text), isWhitespace character := nofun
  by_cases single : count = 1
  · obtain ⟨before, after, split, white, whiteAfter⟩ := text.exists_trim
    simp only [trimmedAt, if_pos single]
    exact ⟨before, after, split, List.all_eq_true.mp white, List.all_eq_true.mp whiteAfter,
      Text.trim_append (List.all_eq_true.mp white) (List.all_eq_true.mp whiteAfter)⟩
  by_cases last : index + 1 = count
  · obtain ⟨after, split, white⟩ := text.exists_trimEnd
    simp only [trimmedAt, if_neg single, if_pos last]
    exact ⟨[], after, split, nothing, white, Text.trimEnd_append white⟩
  by_cases first : index = 0
  · obtain ⟨before, split, white⟩ := text.exists_trimStart
    simp only [trimmedAt, if_neg single, if_neg last, if_pos first]
    refine ⟨before, [], by rw [List.append_nil]; exact split, white, nothing, fun other => ?_⟩
    rw [List.append_nil, Text.trimStart_append white]
  · simp only [trimmedAt, if_neg single, if_neg last, if_neg first]
    exact ⟨[], [], by simp, nothing, nothing, by simp⟩

theorem trimmedAt_trimmedAt (index count : Nat) (text : Text) :
    trimmedAt index count (trimmedAt index count text) = trimmedAt index count text := by
  obtain ⟨before, after, split, -, -, again⟩ := exists_trimmedAt index count text
  rw [← again, ← split]

/-- A text that was trimmed before it is decoded is trimmed again afterwards to the same. -/
theorem trimmedAt_decode (index count : Nat) (text : Text) :
    trimmedAt index count (decode text) =
      trimmedAt index count (decode (trimmedAt index count text)) := by
  obtain ⟨before, after, split, white, whiteAfter, again⟩ := exists_trimmedAt index count text
  conv_lhs => rw [split, Text.Reference.decode_between white whiteAfter, again]

theorem trimmedAt_eq_self_iff (listed : index < count) :
    trimmedAt index count text = text ↔ text.IsTrimmed (index = 0) (index + 1 = count) := by
  by_cases single : count = 1
  · obtain rfl : index = 0 := by omega
    rw [trimmedAt, if_pos single, Text.trim_eq_self_iff]
    simp [Text.IsTrimmed, single]
  by_cases last : index + 1 = count
  · have notFirst : index ≠ 0 := by omega
    rw [trimmedAt, if_neg single, if_pos last, Text.trimEnd_eq_self_iff]
    simp [Text.IsTrimmed, last, notFirst]
  by_cases first : index = 0
  · rw [trimmedAt, if_neg single, if_neg last, if_pos first, Text.trimStart_eq_self_iff]
    simp [Text.IsTrimmed, Ne.symm single, first]
  · rw [trimmedAt, if_neg single, if_neg last, if_neg first]
    simp [Text.IsTrimmed, last, first]

/-- Trimming a text before it is decoded and trimming it afterwards is the same exactly if no
reference to whitespace is left at an end that is trimmed. -/
theorem trimmedAt_decode_eq_iff (listed : index < count) :
    trimmedAt index count (decode text) = decode (trimmedAt index count text) ↔
      ¬ ((index = 0 ∧ ∃ piece, IsSpace piece ∧ piece <+: trimmedAt index count text) ∨
        (index + 1 = count ∧ ∃ piece, IsSpace piece ∧ piece <:+ trimmedAt index count text)) := by
  have trimmed := (trimmedAt_eq_self_iff listed).mp (trimmedAt_trimmedAt index count text)
  rw [trimmedAt_decode, trimmedAt_eq_self_iff listed, Text.IsTrimmed, not_or, not_and, not_and]
  constructor
  · rintro ⟨start, finish⟩
    exact ⟨fun first => (Text.Reference.head?_decode_iff (trimmed.1 first)).mp (start first),
      fun last => (Text.Reference.getLast?_decode_iff (trimmed.2 last)).mp (finish last)⟩
  · rintro ⟨start, finish⟩
    exact ⟨fun first => (Text.Reference.head?_decode_iff (trimmed.1 first)).mpr (start first),
      fun last => (Text.Reference.getLast?_decode_iff (trimmed.2 last)).mpr (finish last)⟩

/-! ## The literal of a text -/

/-- The arguments of a call are those of the children before one of them, its own, and those of the
children after it. -/
theorem arguments_split {children : List (Child Text)} {child : Child Text} {argument : Text}
    (listed : children[index]? = some child)
    (written : argument? (children.any isContent) children.length index child = some argument) :
    let argumentOf : Child Text × Nat → Option Text := fun (other, place) =>
      argument? (children.any isContent) children.length place other
    arguments children = (children.take index).zipIdx.filterMap argumentOf ++
      argument :: ((children.drop (index + 1)).zipIdx (index + 1)).filterMap argumentOf := by
  intro argumentOf
  have split : children.zipIdx = (children.take index).zipIdx ++
      (child, index) :: (children.drop (index + 1)).zipIdx (index + 1) := by
    obtain ⟨within, same⟩ := List.getElem?_eq_some_iff.mp listed
    have parts : children.take index ++ child :: children.drop (index + 1) = children := by
      rw [← same, ← List.drop_eq_getElem_cons within, List.take_append_drop]
    have length : (children.take index).length = index := by
      rw [List.length_take, Nat.min_eq_left (Nat.le_of_lt within)]
    conv_lhs => rw [← parts, List.zipIdx_append, length, Nat.zero_add, List.zipIdx_cons]
  have own : argumentOf (child, index) = some argument := written
  change children.zipIdx.filterMap argumentOf = _
  rw [split, List.filterMap_append, List.filterMap_cons_some own]

theorem exists_ending (factory : Text) (element : Element) (inline : Bool) :
    ∃ front, writeElement factory element inline =
      front ++ ending (arguments (element.children.map (Child.withCalls factory))) := by
  rw [writeElement_eq, Element.call_eq]
  exact ⟨_, rfl⟩

/-- Every text among the children of an element becomes one argument of its call: the literal of the
decoded text, trimmed at the ends where no other child stands. It is the literal of what decoding
gives for the trimmed text exactly if the trimmed text has no reference to whitespace left at such
an end. Otherwise the characters that these references denote are lost. -/
theorem trimmed_literal_iff (factory : Text) (element : Element) (inline : Bool)
    (listed : element.children[index]? = some (.text text)) :
    let children := element.children.map (Child.withCalls factory)
    let argumentOf : Child Text × Nat → Option Text := fun (child, place) =>
      argument? (children.any isContent) children.length place child
    let trimmed := trimmedAt index element.children.length text
    ∃ (front literal : Text),
      writeElement factory element inline =
          front ++ ending ((children.take index).zipIdx.filterMap argumentOf ++
            literal :: ((children.drop (index + 1)).zipIdx (index + 1)).filterMap argumentOf) ∧
        literal = (trimmedAt index element.children.length (decode text)).quote ∧
        (literal = (decode trimmed).quote ↔
          ¬ ((index = 0 ∧ ∃ piece, IsSpace piece ∧ piece <+: trimmed) ∨
            (index + 1 = element.children.length ∧
              ∃ piece, IsSpace piece ∧ piece <:+ trimmed))) := by
  intro children argumentOf trimmed
  have within : index < element.children.length := (List.getElem?_eq_some_iff.mp listed).1
  have child : children[index]? = some (.text text) := by
    simp [children, listed, Child.withCalls]
  have length : children.length = element.children.length := List.length_map _
  have written : argument? (children.any isContent) children.length index (.text text) =
      some (trimmedAt index element.children.length (decode text)).quote := by
    rw [argument?, decoded_eq, length]
  obtain ⟨front, called⟩ := exists_ending factory element inline
  refine ⟨front, _, called.trans ?_, rfl, ?_⟩
  · exact congrArg (front ++ ending ·) (arguments_split child written)
  · rw [← trimmedAt_decode_eq_iff within]
    exact ⟨Text.quote_injective, congrArg Text.quote⟩

/-- The first text starts with a reference to a space, which is lost. The last one has such a
reference in it, which is kept. -/
theorem trimmed_literal_iff_samples :
    let element : Element :=
      { name := "a".toList
        isComponent := false
        properties := []
        children := [.text "&nbsp;a ".toList, .code "c".toList, .text "b&#32;c ".toList]
        depth := 0
        offset := 0 }
    (∃ front literal : Text,
      writeElement "h".toList element false =
          front ++ ending (literal :: ["c".toList, "\"b c\"".toList]) ∧
        literal = "\"a \"".toList ∧ literal ≠ (decode "&nbsp;a ".toList).quote) ∧
      ∃ front literal : Text,
        writeElement "h".toList element false =
            front ++ ending ["\"a \"".toList, "c".toList, literal] ∧
          literal = "\"b c\"".toList ∧ literal = (decode "b&#32;c".toList).quote := by
  intro element
  constructor
  · obtain ⟨front, literal, written, own, same⟩ :=
      @trimmed_literal_iff 0 "&nbsp;a ".toList "h".toList element false rfl
    have space : IsSpace "&nbsp;".toList :=
      ⟨'\u00a0', "nbsp;".toList, rfl, @Text.Reference.Spells.named "nbsp" _ (by decide), by decide⟩
    refine ⟨front, literal, written, own.trans (by decide), fun kept => ?_⟩
    exact same.mp kept (Or.inl ⟨rfl, _, space, "a ".toList, by decide⟩)
  · obtain ⟨front, literal, written, own, -⟩ :=
      @trimmed_literal_iff 2 "b&#32;c ".toList "h".toList element false rfl
    have quoted : literal = "\"b c\"".toList := own.trans (by decide)
    exact ⟨front, literal, written, quoted, quoted.trans (by decide)⟩

end Call

end ElementScript
