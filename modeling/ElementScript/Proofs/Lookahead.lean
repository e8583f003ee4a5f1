import ElementScript.Lookahead

/-! # What a look ahead finds

The look ahead behind a `<` is a loop with a flag: from the first space on, a word shows markup.
`ComparesAt` says without the flag what the loop is looking for: an index with the end of an operand
before which there is no `>` and no word behind a space. The loop finds such an index exactly if
there is one, and so it does not depend on what stands behind the first `>`
(`isComparison_determined`).
-/

namespace ElementScript.Lookahead

/-- Whether a comparison shows at the index `last` of a text that is read from `start` on. -/
structure ComparesAt (source : Text) (start last : Nat) : Prop where
  reached : start ≤ last
  operand : ∃ ending ∈ [')', '&', '|', '?', ';'], source[last]? = some ending
  noBracket : ∀ index, start ≤ index → index < last → source[index]? ≠ some '>'
  noWord : ∀ space index, start ≤ space → space < index → index < last →
    source[space]? = some ' ' → ∀ character, source[index]? = some character →
      ¬ (character.isAlphanum ∨ character = '_' ∨ character = '/')

/-- Whether two texts agree from `start` on up to the first `>` of the one, and at that `>`. -/
def AgreeToBracket (start : Nat) (one other : Text) : Prop :=
  ∀ index, start ≤ index →
    (∀ earlier, start ≤ earlier → earlier < index → one[earlier]? ≠ some '>') →
      one[index]? = other[index]?

/-! ## Classes of characters -/

variable {seenSpace : Bool} {character : Char} {source rest text : Text} {start last : Nat}

theorem endsOperand_iff : endsOperand character ↔ character ∈ [')', '&', '|', '?', ';'] := by
  simp [endsOperand, or_assoc]

theorem isWordOrSlash_iff :
    isWordOrSlash character ↔ character.isAlphanum ∨ character = '_' ∨ character = '/' := by
  simp [isWordOrSlash, or_assoc]

/-- What ends an operand neither shows markup nor is a space. -/
theorem plain_of_endsOperand (ends : endsOperand character) :
    isWordOrSlash character = false ∧ character ≠ '>' ∧ character ≠ ' ' := by
  have member := endsOperand_iff.mp ends
  simp only [List.mem_cons, List.not_mem_nil, or_false] at member
  rcases member with rfl | rfl | rfl | rfl | rfl <;> decide

/-- A word is neither a `>` nor a space. -/
theorem ne_of_isWordOrSlash (word : isWordOrSlash character) :
    character ≠ '>' ∧ character ≠ ' ' := by
  constructor <;> rintro rfl <;> cases word

/-! ## One character of the loop -/

/-- Whether no word stands before an index. -/
def WordFree (text : Text) (last : Nat) : Prop :=
  ∀ index < last, ∀ character, text[index]? = some character → isWordOrSlash character = false

theorem wordFree_cons :
    WordFree (character :: rest) (last + 1) ↔
      isWordOrSlash character = false ∧ WordFree rest last := by
  constructor
  · intro free
    refine ⟨free 0 (by omega) character rfl, fun index below => ?_⟩
    exact free (index + 1) (by omega)
  · rintro ⟨first, free⟩ (_ | index) below other found
    · cases found
      exact first
    · exact free index (by omega) other found

theorem comparesAt_zero : ComparesAt (character :: rest) 0 0 ↔ endsOperand character := by
  rw [endsOperand_iff]
  constructor
  · rintro ⟨-, ⟨ending, member, first⟩, -, -⟩
    cases first
    exact member
  · intro member
    exact ⟨Nat.le_refl 0, ⟨character, member, rfl⟩, by simp, by simp⟩

/-- A comparison shows behind a character that is no `>`. If it is a space, then no word may stand
between the two. -/
theorem comparesAt_succ :
    ComparesAt (character :: rest) 0 (last + 1) ↔
      character ≠ '>' ∧ (character = ' ' → WordFree rest last) ∧ ComparesAt rest 0 last := by
  constructor
  · intro compares
    refine ⟨?_, ?_, Nat.zero_le _, compares.operand, ?_, ?_⟩
    · simpa using compares.noBracket 0 (Nat.le_refl 0) (by omega)
    · rintro rfl index below other found
      have plain := compares.noWord 0 (index + 1) (Nat.le_refl 0) (by omega) (by omega) rfl other
        found
      simpa [← isWordOrSlash_iff] using plain
    · intro index _ below
      exact compares.noBracket (index + 1) (Nat.zero_le _) (by omega)
    · intro space index _ less below
      exact compares.noWord (space + 1) (index + 1) (Nat.zero_le _) (by omega) (by omega)
  · rintro ⟨noBracket, free, compares⟩
    refine ⟨Nat.zero_le _, compares.operand, ?_, ?_⟩
    · rintro (_ | index) - below
      · simpa using noBracket
      · exact compares.noBracket index (Nat.zero_le _) (by omega)
    · rintro (_ | space) (_ | index) - less below isSpace other found
      · omega
      · have plain := free (by simpa using isSpace) index (by omega) other found
        simpa [← isWordOrSlash_iff] using plain
      · omega
      · exact compares.noWord space index (Nat.zero_le _) (by omega) (by omega) isSpace other found

/-! ## The whole loop -/

/-- The flag stands for a space that was seen before: with it, no word may come at all. -/
theorem compares_iff :
    compares seenSpace text ↔
      ∃ last, ComparesAt text 0 last ∧ (seenSpace → WordFree text last) := by
  induction text generalizing seenSpace with
  | nil =>
      constructor
      · intro found
        cases found
      · rintro ⟨last, ⟨-, ⟨ending, -, none⟩, -, -⟩, -⟩
        cases none
  | cons character rest induction =>
      -- The loop ends at this character, or it goes on behind it with what it has seen.
      have split : (∃ last, ComparesAt (character :: rest) 0 last ∧
            (seenSpace → WordFree (character :: rest) last)) ↔
          endsOperand character ∨ character ≠ '>' ∧
            (seenSpace → isWordOrSlash character = false) ∧
              compares (seenSpace || character = ' ') rest := by
        rw [induction]
        constructor
        · rintro ⟨_ | last, found, free⟩
          · exact Or.inl (comparesAt_zero.mp found)
          · rcases comparesAt_succ.mp found with ⟨noBracket, behindSpace, later⟩
            refine Or.inr ⟨noBracket, fun seen => (wordFree_cons.mp (free seen)).1, last, later, ?_⟩
            intro either
            rcases Bool.or_eq_true_iff.mp either with seen | space
            · exact (wordFree_cons.mp (free seen)).2
            · exact behindSpace (of_decide_eq_true space)
        · rintro (ends | ⟨noBracket, noWord, last, later, free⟩)
          · exact ⟨0, comparesAt_zero.mpr ends, fun _ index below => absurd below (by omega)⟩
          · refine ⟨last + 1, comparesAt_succ.mpr ⟨noBracket, ?_, later⟩, fun seen => ?_⟩
            · intro space
              exact free (by simp [space])
            · exact wordFree_cons.mpr ⟨noWord seen, free (by simp [seen])⟩
      rw [split]
      by_cases ends : endsOperand character
      · have plain := plain_of_endsOperand ends
        simp [compares, ends, plain]
      · by_cases word : isWordOrSlash character
        · have other := ne_of_isWordOrSlash word
          cases seenSpace <;> simp [compares, ends, word, other]
        · by_cases space : character = ' '
          · simp [compares, space, isWordOrSlash, endsOperand]
          · simp [compares, ends, word, space]

/-- What is read from an index on is the rest of the text. -/
theorem comparesAt_drop :
    ComparesAt (source.drop start) 0 last ↔ ComparesAt source start (start + last) := by
  constructor
  · rintro ⟨-, operand, noBracket, noWord⟩
    simp only [List.getElem?_drop] at operand noBracket noWord
    refine ⟨Nat.le_add_right _ _, operand, ?_, ?_⟩
    · intro index le less
      obtain ⟨index, rfl⟩ := Nat.exists_eq_add_of_le le
      exact noBracket index (Nat.zero_le _) (by omega)
    · intro space index le between less
      obtain ⟨space, rfl⟩ := Nat.exists_eq_add_of_le le
      obtain ⟨index, rfl⟩ := Nat.exists_eq_add_of_le (Nat.le_trans le (Nat.le_of_lt between))
      exact noWord space index (Nat.zero_le _) (by omega) (by omega)
  · rintro ⟨-, operand, noBracket, noWord⟩
    refine ⟨Nat.zero_le _, ?_, ?_, ?_⟩ <;> simp only [List.getElem?_drop]
    · exact operand
    · intro index _ less
      exact noBracket (start + index) (Nat.le_add_right _ _) (by omega)
    · intro space index _ between less
      exact noWord (start + space) (start + index) (Nat.le_add_right _ _) (by omega) (by omega)

theorem isComparison_iff {position : Nat} :
    isComparison source position ↔ ∃ last, ComparesAt source (position + 2) last := by
  rw [isComparison, compares_iff]
  constructor
  · rintro ⟨last, compares, -⟩
    exact ⟨position + 2 + last, comparesAt_drop.mp compares⟩
  · rintro ⟨last, compares⟩
    obtain ⟨last, rfl⟩ := Nat.exists_eq_add_of_le compares.reached
    exact ⟨last, comparesAt_drop.mpr compares, by simp⟩

/-! ## Texts that agree -/

variable {one other : Text}

/-- The first `>` of the one text is that of the other. -/
theorem AgreeToBracket.symm (agree : AgreeToBracket start one other) :
    AgreeToBracket start other one := by
  intro index le clear
  -- By induction, the two texts have been the same so far.
  induction index using Nat.strongRecOn with
  | ind index induction =>
      refine (agree index le fun earlier from_start below => ?_).symm
      have same := induction earlier below from_start fun before le less =>
        clear before le (Nat.lt_trans less below)
      rw [← same]
      exact clear earlier from_start below

theorem ComparesAt.of_agree (compares : ComparesAt one start last)
    (agree : AgreeToBracket start one other) : ComparesAt other start last := by
  have same : ∀ index, start ≤ index → index ≤ last → one[index]? = other[index]? := by
    intro index le within
    exact agree index le fun earlier from_start below =>
      compares.noBracket earlier from_start (Nat.lt_of_lt_of_le below within)
  refine ⟨compares.reached, ?_, ?_, ?_⟩
  · rw [← same last compares.reached (Nat.le_refl last)]
    exact compares.operand
  · intro index le less
    rw [← same index le (Nat.le_of_lt less)]
    exact compares.noBracket index le less
  · intro space index le between less
    rw [← same space le (by omega), ← same index (by omega) (Nat.le_of_lt less)]
    exact compares.noWord space index le between less

/-- A `<` looks like a comparison exactly if the end of an operand stands at some index from the
second character behind it on, and no index before has a `>`, or a word behind a space. Another text
that is the same there, up to and with the first `>`, looks the same. -/
theorem isComparison_determined (source : Text) (position : Nat) :
    (isComparison source position ↔ ∃ last, ComparesAt source (position + 2) last) ∧
      ∀ other, AgreeToBracket (position + 2) source other →
        isComparison source position = isComparison other position := by
  refine ⟨isComparison_iff, fun other agree => ?_⟩
  rw [Bool.eq_iff_iff, isComparison_iff, isComparison_iff]
  constructor
  · rintro ⟨last, compares⟩
    exact ⟨last, compares.of_agree agree⟩
  · rintro ⟨last, compares⟩
    exact ⟨last, compares.of_agree agree.symm⟩

/-- The same `<`, once before a call and once at the end of a statement. -/
theorem isComparison_determined_sample :
    let call : Text := "f<a.b>(c)".toList
    let statement : Text := "f<a.b>;".toList
    AgreeToBracket 3 call statement ∧ isComparison call 1 = isComparison statement 1 ∧
      ∃ last, ComparesAt "f<a.b ? c>d : e".toList 3 last := by
  intro call statement
  have agree : AgreeToBracket 3 call statement := by
    intro index le clear
    have within : index ≤ 5 := by
      rcases Nat.lt_or_ge 5 index with behind | within
      · exact absurd rfl (clear 5 (by omega) behind)
      · exact within
    obtain rfl | rfl | rfl : index = 3 ∨ index = 4 ∨ index = 5 := by omega
    all_goals rfl
  exact ⟨agree, (isComparison_determined call 1).2 statement agree,
    (isComparison_determined _ 1).1.mp (by decide)⟩

end ElementScript.Lookahead
