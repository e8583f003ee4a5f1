import ElementScript.Directive
import ElementScript.Proofs.Markup.Names
import ElementScript.Proofs.Text.Pattern

/-! # The directive that is found

A directive is read in one go: what may open a comment, all of the whitespace, the word, all of the
whitespace, all of the identifier. Nothing is lost by that. It finds what a search for the pattern
of a directive finds, which tries every opener and every length of the whitespace
(`leftmost?_eq_captured?`), and that is the identifier of the leftmost directive, whole, if there is
a directive at all.

A directive can be read in one way only, and no other one starts inside of it: the word goes as far
as the next whitespace, and the only slashes are those of its opener. So directives with different
words never share a character (`scan_finds_leftmost`).
-/

namespace ElementScript.Directive

def openers : List Text := [['/', '/'], ['/', '*'], ['/', '*', '*']]

/-- Whether a text is one or more whitespace characters. -/
def IsGap (text : Text) : Prop :=
  text ≠ [] ∧ ∀ character ∈ text, Text.isWhitespace character

/-- Whether a text is one or more letters and dots. -/
def IsIdentifier (text : Text) : Prop :=
  text ≠ [] ∧ ∀ character ∈ text, character.isAlpha ∨ character = '.'

/-- What a directive is written with, besides its word. -/
structure Spelling where
  opener : Text
  before : Text
  behind : Text
  identifier : Text
  opens : opener ∈ openers
  gapBefore : IsGap before
  gapBehind : IsGap behind
  named : IsIdentifier identifier

namespace Spelling

/-- What follows the opener, up to the identifier. -/
def inner (spelling : Spelling) (word : Text) : Text :=
  spelling.before ++ (word ++ spelling.behind)

/-- The directive as it is written. -/
def text (spelling : Spelling) (word : Text) : Text :=
  spelling.opener ++ (spelling.inner word ++ spelling.identifier)

end Spelling

/-- Whether a directive with a word is written at a position of a source. -/
def StandsAt (word source : Text) (position : Nat) (spelling : Spelling) : Prop :=
  spelling.text word <+: source.drop position

/-- Whether the leftmost directive with a word stands at a position. Its identifier goes on up to a
character that is neither a letter nor a dot, or to the end of the source. -/
structure IsLeftmost (word source : Text) (position : Nat) (spelling : Spelling) : Prop where
  stands : StandsAt word source position spelling
  longest : ∀ next, source[position + (spelling.text word).length]? = some next →
    ¬ (next.isAlpha ∨ next = '.')
  least : ∀ earlier < position, ∀ other, ¬ StandsAt word source earlier other

/-- Whether a selection is the identifier of the leftmost directive with a word, or there is no such
directive and nothing is selected. -/
def Selects (word source : Text) : Option Text → Prop
  | some identifier =>
      ∃ position spelling, IsLeftmost word source position spelling ∧
        spelling.identifier = identifier
  | none => ∀ position spelling, ¬ StandsAt word source position spelling

/-- Whether a text can be the word of a directive: it is not empty, and it holds no whitespace and
no slash. -/
def IsWord (word : Text) : Prop :=
  word ≠ [] ∧ ∀ character ∈ word, Text.isWhitespace character = false ∧ character ≠ '/'

instance (text : Text) : Decidable (IsGap text) :=
  @instDecidableAnd _ _ inferInstance (List.decidableBAll _ text)

instance (text : Text) : Decidable (IsIdentifier text) :=
  @instDecidableAnd _ _ inferInstance (List.decidableBAll _ text)

instance (word : Text) : Decidable (IsWord word) :=
  @instDecidableAnd _ _ inferInstance (List.decidableBAll _ word)

instance (word source : Text) (position : Nat) (spelling : Spelling) :
    Decidable (StandsAt word source position spelling) :=
  inferInstanceAs (Decidable (spelling.text word <+: source.drop position))

theorem factoryWord_isWord : IsWord factoryWord := by decide

theorem fragmentWord_isWord : IsWord fragmentWord := by decide

/-! ## The pattern of a directive -/

def openingPattern : Pattern :=
  .either (.exactly ['/', '/']) (.either (.exactly ['/', '*']) (.exactly ['/', '*', '*']))

def gapPattern : Pattern := .run Text.isWhitespace

/-- The pattern of a directive up to its identifier. Every opener and every length of the two gaps
is tried. -/
def introduction (word : Text) : Pattern :=
  .sequence openingPattern (.sequence gapPattern (.sequence (.exactly word) gapPattern))

def identifierPattern : Pattern := .run isIdentifierCharacter

/-- The directives that a search for the two patterns finds. -/
def captured (source : Text) : Directives where
  factory := (introduction factoryWord).captured? identifierPattern source
  fragment := (introduction fragmentWord).captured? identifierPattern source

section Patterns

variable {word text : Text} {character : Char}

theorem isIdentifierCharacter_iff :
    isIdentifierCharacter character ↔ character.isAlpha ∨ character = '.' := by
  simp [isIdentifierCharacter]

theorem solid_of_letterOrDot (accepted : character.isAlpha ∨ character = '.') :
    Text.isWhitespace character = false ∧ character ≠ '/' := by
  rcases accepted with letter | rfl
  · have alphanumeric : character.isAlphanum := by simp [Char.isAlphanum, letter]
    refine ⟨Markup.isWhitespace_eq_false_of_isAlphanum alphanumeric, ?_⟩
    intro slash
    subst slash
    cases letter
  · decide

theorem mem_openers_iff :
    text ∈ openers ↔ text = ['/', '/'] ∨ text = ['/', '*'] ∨ text = ['/', '*', '*'] := by
  simp [openers]

theorem Spelling.accepted (spelling : Spelling) :
    ∀ character ∈ spelling.identifier, isIdentifierCharacter character := by
  intro character member
  exact isIdentifierCharacter_iff.mpr (spelling.named.2 character member)

/-- The pattern takes what a directive is written with. -/
theorem Spelling.takes (spelling : Spelling) (word : Text) :
    (introduction word).Takes (spelling.opener ++ spelling.inner word) ∧
      identifierPattern.Takes spelling.identifier := by
  constructor
  · exact ⟨_, _, rfl, mem_openers_iff.mp spelling.opens, _, _, rfl, spelling.gapBefore, _, _, rfl,
      rfl, spelling.gapBehind⟩
  · exact ⟨spelling.named.1, spelling.accepted⟩

/-- What the pattern takes is written like a directive. -/
theorem exists_spelling {first identifier : Text} (introduced : (introduction word).Takes first)
    (named : identifierPattern.Takes identifier) :
    ∃ spelling : Spelling, spelling.text word = first ++ identifier ∧
      spelling.identifier = identifier := by
  rcases introduced with
    ⟨opener, _, rfl, opens, before, _, rfl, gapBefore, _, behind, rfl, rfl, gapBehind⟩
  have letters : ∀ character ∈ identifier, character.isAlpha ∨ character = '.' :=
    fun character member => isIdentifierCharacter_iff.mp (named.2 character member)
  refine ⟨⟨opener, before, behind, identifier, mem_openers_iff.mpr opens, gapBefore, gapBehind,
    named.1, letters⟩, ?_, rfl⟩
  simp [Spelling.text, Spelling.inner]

end Patterns

/-! ## One way to read a directive -/

section Spellings

variable {word otherWord text oneRest otherRest : Text} {one other : Spelling}

/-- A star does not stand behind an opener, so the longest opener is the one that was written. -/
theorem afterOpener?_append {opener rest : Text} (opens : opener ∈ openers)
    (noStar : ∀ others, rest ≠ '*' :: others) : afterOpener? (opener ++ rest) = some rest := by
  rcases mem_openers_iff.mp opens with rfl | rfl | rfl
  · rfl
  · rw [List.cons_append, List.cons_append, List.nil_append, afterOpener?]
    exact fun others => noStar others
  · rfl

theorem IsGap.isWhitespace_head {first : Char} {rest others : Text} (isGap : IsGap text)
    (equal : text ++ rest = first :: others) : Text.isWhitespace first := by
  cases text with
  | nil => exact absurd rfl isGap.1
  | cons head more =>
      rcases List.cons.inj equal with ⟨rfl, -⟩
      exact isGap.2 _ List.mem_cons_self

theorem IsGap.ne_star (isGap : IsGap text) (rest others : Text) : text ++ rest ≠ '*' :: others := by
  intro equal
  cases isGap.isWhitespace_head equal

theorem IsWord.solid (isWord : IsWord word) :
    ∀ character ∈ word, !Text.isWhitespace character := by
  intro character member
  rw [(isWord.2 character member).1]
  rfl

/-- A gap goes up to its word, and a word up to its gap. -/
theorem IsWord.stops (isWord : IsWord word) (rest : Text) :
    Pattern.Stops Text.isWhitespace (word ++ rest) :=
  Pattern.stops_append isWord.1 (fun character member => (isWord.2 character member).1) rest

theorem IsGap.stops (isGap : IsGap text) (rest : Text) :
    Pattern.Stops (fun character => !Text.isWhitespace character) (text ++ rest) :=
  Pattern.stops_append isGap.1
    (fun character member => by simpa using isGap.2 character member) rest

theorem Spelling.stops_identifier (spelling : Spelling) (rest : Text) :
    Pattern.Stops Text.isWhitespace (spelling.identifier ++ rest) :=
  Pattern.stops_append spelling.named.1
    (fun character member => (solid_of_letterOrDot (spelling.named.2 character member)).1) rest

/-- Two directives at the same place have the same word, and go on alike behind it. -/
theorem Spelling.unique (isWord : IsWord word) (otherIsWord : IsWord otherWord)
    (equal : one.text word ++ oneRest = other.text otherWord ++ otherRest) :
    word = otherWord ∧ one.identifier ++ oneRest = other.identifier ++ otherRest := by
  simp only [text, inner, List.append_assoc] at equal
  have behindOpener := congrArg afterOpener? equal
  rw [afterOpener?_append one.opens (one.gapBefore.ne_star _),
    afterOpener?_append other.opens (other.gapBefore.ne_star _), Option.some.injEq] at behindOpener
  have behindGap := (Pattern.eq_of_append_eq one.gapBefore.2 (isWord.stops _) other.gapBefore.2
    (otherIsWord.stops _) behindOpener).2
  -- The word is what stands before the next whitespace.
  have words := Pattern.eq_of_append_eq isWord.solid (one.gapBehind.stops _) otherIsWord.solid
    (other.gapBehind.stops _) behindGap
  have identifiers := (Pattern.eq_of_append_eq one.gapBehind.2 (one.stops_identifier _)
    other.gapBehind.2 (other.stops_identifier _) words.2).2
  exact ⟨words.1, identifiers⟩

/-- Only the opener of a directive has slashes. -/
theorem Spelling.slash_not_mem (isWord : IsWord word) (spelling : Spelling) :
    '/' ∉ spelling.inner word ++ spelling.identifier := by
  have gapFree : ∀ {text : Text}, IsGap text → '/' ∉ text := by
    intro text isGap member
    cases isGap.2 _ member
  simp only [inner, List.mem_append]
  intro either
  rcases either with (member | member | member) | member
  · exact gapFree spelling.gapBefore member
  · exact (isWord.2 _ member).2 rfl
  · exact gapFree spelling.gapBehind member
  · exact (solid_of_letterOrDot (spelling.named.2 _ member)).2 rfl

/-- A directive starts with a slash, and with a slash or a star behind it. -/
theorem Spelling.exists_start (spelling : Spelling) (word : Text) :
    ∃ second others, spelling.text word = '/' :: second :: others ∧
      (second = '/' ∨ second = '*') := by
  rcases mem_openers_iff.mp spelling.opens with opener | opener | opener <;> rw [text, opener]
  · exact ⟨_, _, rfl, Or.inl rfl⟩
  · exact ⟨_, _, rfl, Or.inr rfl⟩
  · exact ⟨_, _, rfl, Or.inr rfl⟩

/-- A slash inside of a directive is the second one of its opener, with whitespace behind it. -/
theorem Spelling.isWhitespace_behind_slash (isWord : IsWord word) {offset : Nat}
    (positive : 0 < offset) (within : offset < (one.text word).length) {rest : Text} {next : Char}
    (slash : (one.text word ++ rest)[offset]? = some '/')
    (found : (one.text word ++ rest)[offset + 1]? = some next) : Text.isWhitespace next := by
  rw [text, List.append_assoc] at slash found
  rw [text, List.length_append] at within
  rcases Nat.lt_or_ge offset one.opener.length with inOpener | behindOpener
  · rcases mem_openers_iff.mp one.opens with opener | opener | opener <;>
      rw [opener] at slash found inOpener <;>
        simp only [List.length_cons, List.length_nil] at inOpener
    · have second : offset = 1 := by omega
      subst second
      have first : (one.inner word ++ one.identifier ++ rest).head? = some next := by
        rw [List.head?_eq_getElem?]
        exact found
      rcases List.head?_eq_some_iff.mp first with ⟨others, split⟩
      rw [inner, List.append_assoc, List.append_assoc] at split
      exact one.gapBefore.isWhitespace_head split
    · have second : offset = 1 := by omega
      subst second
      cases slash
    · have later : offset = 1 ∨ offset = 2 := by omega
      rcases later with rfl | rfl <;> cases slash
  · rw [List.getElem?_append_right behindOpener, List.getElem?_append_left (by omega)] at slash
    exact absurd (List.mem_of_getElem? slash) (one.slash_not_mem isWord)

/-- No directive starts inside of another one. -/
theorem Spelling.not_stands_inside (isWord : IsWord word) {offset : Nat} (positive : 0 < offset)
    (within : offset < (one.text word).length) (rest : Text) :
    ¬ other.text otherWord <+: (one.text word ++ rest).drop offset := by
  intro stands
  rcases stands with ⟨others, starts⟩
  rcases other.exists_start otherWord with ⟨second, more, start, slashOrStar⟩
  rw [start, List.cons_append, List.cons_append] at starts
  have slash : (one.text word ++ rest)[offset]? = some '/' := by
    rw [← Nat.add_zero offset, ← List.getElem?_drop, ← starts]
    rfl
  have next : (one.text word ++ rest)[offset + 1]? = some second := by
    rw [← List.getElem?_drop, ← starts]
    rfl
  have white := isWhitespace_behind_slash isWord positive within slash next
  rcases slashOrStar with rfl | rfl <;> cases white

section Positions

variable {source : Text} {position otherPosition : Nat}

/-- A directive ends before the next one starts. -/
theorem end_le_of_lt (isWord : IsWord word) (stands : StandsAt word source position one)
    (otherStands : StandsAt otherWord source otherPosition other)
    (below : position < otherPosition) : position + (one.text word).length ≤ otherPosition := by
  rcases Nat.exists_eq_add_of_lt below with ⟨offset, rfl⟩
  rcases stands with ⟨rest, split⟩
  apply Nat.le_of_not_lt
  intro within
  rw [StandsAt, Nat.add_assoc, ← List.drop_drop, ← split] at otherStands
  exact Spelling.not_stands_inside isWord (Nat.succ_pos offset) (by omega) rest otherStands

/-- Directives with different words stand apart. -/
theorem apart_of_ne (isWord : IsWord word) (otherIsWord : IsWord otherWord)
    (different : word ≠ otherWord) (stands : StandsAt word source position one)
    (otherStands : StandsAt otherWord source otherPosition other) :
    position + (one.text word).length ≤ otherPosition ∨
      otherPosition + (other.text otherWord).length ≤ position := by
  rcases Nat.lt_trichotomy position otherPosition with below | same | above
  · exact Or.inl (end_le_of_lt isWord stands otherStands below)
  · subst same
    rcases stands with ⟨rest, split⟩
    rcases otherStands with ⟨otherRest, otherSplit⟩
    exact absurd (Spelling.unique isWord otherIsWord (split.trans otherSplit.symm)).1 different
  · exact Or.inr (end_le_of_lt otherIsWord otherStands stands above)

end Positions

end Spellings

/-! ## What a search finds -/

/-- Whether a text starts with a directive whose identifier, read as far as it goes, is given. -/
def SelectsAtFront (word text identifier : Text) : Prop :=
  ∃ (spelling : Spelling) (rest : Text), spelling.text word ++ rest = text ∧
    Pattern.Stops isIdentifierCharacter rest ∧ spelling.identifier = identifier

section Search

variable {word source text identifier : Text}

theorem capturedAt?_eq_none_iff :
    (introduction word).capturedAt? identifierPattern text = none ↔
      ∀ spelling : Spelling, ¬ spelling.text word <+: text := by
  rw [Pattern.capturedAt?_eq_none_iff]
  constructor
  · intro none spelling written
    rcases written with ⟨rest, split⟩
    refine none _ spelling.identifier rest ?_ (spelling.takes word).1 (spelling.takes word).2
    rw [← split, Spelling.text]
    simp only [List.append_assoc]
  · intro none first identifier rest split introduced named
    rcases exists_spelling introduced named with ⟨spelling, written, -⟩
    exact none spelling ⟨rest, by rw [written, split, List.append_assoc]⟩

theorem selectsAtFront_of_capturedAt?
    (captured : (introduction word).capturedAt? identifierPattern text = some identifier) :
    SelectsAtFront word text identifier := by
  rcases Pattern.exists_of_capturedAt?_run captured with
    ⟨first, rest, rfl, introduced, named, stops⟩
  rcases exists_spelling introduced named with ⟨spelling, written, same⟩
  exact ⟨spelling, rest, by rw [written, List.append_assoc], stops, same⟩

theorem SelectsAtFront.unique {other : Text} (isWord : IsWord word)
    (selects : SelectsAtFront word text identifier)
    (selectsOther : SelectsAtFront word text other) : identifier = other := by
  rcases selects with ⟨one, oneRest, split, stops, rfl⟩
  rcases selectsOther with ⟨another, otherRest, otherSplit, otherStops, rfl⟩
  have identifiers := (Spelling.unique isWord isWord (split.trans otherSplit.symm)).2
  exact (Pattern.eq_of_append_eq one.accepted stops another.accepted otherStops identifiers).1

/-- What is captured at the front of a text is the identifier of the directive there, whole. -/
theorem capturedAt?_eq_some_iff (isWord : IsWord word) :
    (introduction word).capturedAt? identifierPattern text = some identifier ↔
      SelectsAtFront word text identifier := by
  refine ⟨selectsAtFront_of_capturedAt?, fun selects => ?_⟩
  cases captured : (introduction word).capturedAt? identifierPattern text with
  | none =>
      rcases selects with ⟨spelling, rest, split, -, -⟩
      exact absurd ⟨rest, split⟩ (capturedAt?_eq_none_iff.mp captured spelling)
  | some found =>
      rw [(selectsAtFront_of_capturedAt? captured).unique isWord selects]

/-- What stands behind a directive that is written at a position. -/
theorem getElem?_behind {written rest : Text} {position : Nat}
    (split : written ++ rest = source.drop position) :
    source[position + written.length]? = rest.head? := by
  rw [← List.getElem?_drop, ← split, List.getElem?_append_right (Nat.le_refl _), Nat.sub_self,
    List.head?_eq_getElem?]

/-- A search selects the identifier of the leftmost directive, or nothing where there is none. -/
theorem captured?_eq_iff (isWord : IsWord word) (selected : Option Text) :
    (introduction word).captured? identifierPattern source = selected ↔
      Selects word source selected := by
  cases selected with
  | none =>
      rw [Pattern.captured?, Pattern.findSome?_tails_eq_none_iff]
      exact forall_congr' fun position => capturedAt?_eq_none_iff
  | some identifier =>
      rw [Pattern.captured?, Pattern.findSome?_tails_eq_some_iff]
      refine exists_congr fun position => ?_
      rw [capturedAt?_eq_some_iff isWord]
      simp only [capturedAt?_eq_none_iff]
      constructor
      · intro found
        rcases found with ⟨⟨spelling, rest, split, stops, same⟩, least⟩
        refine ⟨spelling, ⟨⟨rest, split⟩, fun next found => ?_, least⟩, same⟩
        rw [getElem?_behind split] at found
        rw [← isIdentifierCharacter_iff, stops next found]
        exact Bool.false_ne_true
      · intro selects
        rcases selects with ⟨spelling, ⟨⟨rest, split⟩, longest, least⟩, same⟩
        refine ⟨⟨spelling, rest, split, fun next found => ?_, same⟩, least⟩
        rw [← Bool.not_eq_true, isIdentifierCharacter_iff]
        exact longest next ((getElem?_behind split).trans found)

end Search

/-! ## The scan as a search -/

section Scan

variable {word source : Text} {next : Text → List Pattern.Way}

theorem behind_opening (stuck : ∀ rest, next ('*' :: rest) = []) :
    openingPattern.behind next source = (afterOpener? source).toList.flatMap next := by
  simp only [openingPattern, Pattern.behind_either, Pattern.behind_exactly]
  unfold afterOpener?
  split <;> simp_all [Text.after?, Text.after?_eq_some_iff]

theorem behind_gap
    (stuck : ∀ {first}, Text.isWhitespace first → ∀ rest, next (first :: rest) = []) :
    gapPattern.behind next source = (afterWhitespace? source).toList.flatMap next := by
  rw [gapPattern, Pattern.behind_run stuck]
  cases source with
  | nil => rfl
  | cons first rest =>
      cases white : Text.isWhitespace first <;>
        simp [afterWhitespace?, Text.trimStart, white]

theorem ways_identifier_of_isWhitespace {first : Char} (white : Text.isWhitespace first)
    (rest : Text) : identifierPattern.ways (first :: rest) = [] := by
  have rejected : isIdentifierCharacter first = false := by
    rw [← Bool.not_eq_true]
    intro accepted
    rw [(solid_of_letterOrDot (isIdentifierCharacter_iff.mp accepted)).1] at white
    cases white
  simp [identifierPattern, Pattern.ways, Pattern.runs, rejected]

theorem after?_word_of_isWhitespace (isWord : IsWord word) {first : Char}
    (white : Text.isWhitespace first) (rest : Text) : Text.after? word (first :: rest) = none := by
  rw [Option.eq_none_iff_forall_ne_some]
  intro others found
  cases word with
  | nil => exact isWord.1 rfl
  | cons character word =>
      rcases List.cons.inj (Text.after?_eq_some_iff.mp found) with ⟨rfl, -⟩
      rw [(isWord.2 first List.mem_cons_self).1] at white
      cases white

/-- Reading a directive in one go finds what trying all the ways to read it finds. -/
theorem atFront?_eq_capturedAt? (isWord : IsWord word) (source : Text) :
    atFront? word source = (introduction word).capturedAt? identifierPattern source := by
  have behindWord : gapPattern.behind identifierPattern.ways =
      fun source => (afterWhitespace? source).toList.flatMap identifierPattern.ways :=
    funext fun _ => behind_gap ways_identifier_of_isWhitespace
  have behindGap : (Pattern.exactly word).behind (gapPattern.behind identifierPattern.ways) =
      fun source => (Text.after? word source).toList.flatMap fun named =>
        (afterWhitespace? named).toList.flatMap identifierPattern.ways := by
    rw [behindWord]
    exact funext fun _ => Pattern.behind_exactly word
  have behindOpener : gapPattern.behind
      ((Pattern.exactly word).behind (gapPattern.behind identifierPattern.ways)) =
        fun source => (afterWhitespace? source).toList.flatMap fun marked =>
          (Text.after? word marked).toList.flatMap fun named =>
            (afterWhitespace? named).toList.flatMap identifierPattern.ways := by
    rw [behindGap]
    refine funext fun _ => behind_gap fun white rest => ?_
    rw [after?_word_of_isWhitespace isWord white]
    rfl
  rw [Pattern.capturedAt?, introduction, Pattern.behind_sequence, Pattern.behind_sequence,
    Pattern.behind_sequence, behindOpener, behind_opening fun rest => rfl]
  simp only [Pattern.head?_flatMap_toList, Option.map_bind, Function.comp_def]
  unfold atFront?
  refine Option.bind_congr fun comment _ => Option.bind_congr fun marked _ =>
    Option.bind_congr fun named _ => Option.bind_congr fun value _ => ?_
  rw [identifierPattern, Pattern.ways, Pattern.head?_runs]
  by_cases empty : value.takeWhile isIdentifierCharacter = [] <;> simp [empty]

theorem leftmost?_eq_findSome? (word source : Text) :
    leftmost? word source = source.tails.findSome? (atFront? word) := by
  induction source with
  | nil => rfl
  | cons first rest induction =>
      rw [leftmost?, induction, List.tails_cons, List.findSome?_cons]
      cases atFront? word (first :: rest) <;> rfl

theorem leftmost?_eq_captured? (isWord : IsWord word) (source : Text) :
    leftmost? word source = (introduction word).captured? identifierPattern source := by
  rw [leftmost?_eq_findSome?, Pattern.captured?, funext (atFront?_eq_capturedAt? isWord)]

end Scan

/-- A scan finds the directives that a search for their patterns captures. Each of them is the
leftmost one with its word, with its whole identifier, and it is found exactly if there is one.
Directives of the factory and of the fragment have no character in common. -/
theorem scan_finds_leftmost (source : Text) :
    scan source = captured source ∧
      (∀ selected, (scan source).factory = selected ↔ Selects factoryWord source selected) ∧
      (∀ selected, (scan source).fragment = selected ↔ Selects fragmentWord source selected) ∧
      ∀ factoryAt fragmentAt factory fragment, StandsAt factoryWord source factoryAt factory →
        StandsAt fragmentWord source fragmentAt fragment →
          factoryAt + (factory.text factoryWord).length ≤ fragmentAt ∨
            fragmentAt + (fragment.text fragmentWord).length ≤ factoryAt := by
  have found : scan source = captured source := by
    rw [scan, captured, leftmost?_eq_captured? factoryWord_isWord,
      leftmost?_eq_captured? fragmentWord_isWord]
  refine ⟨found, ?_, ?_, ?_⟩
  · rw [found]
    exact captured?_eq_iff factoryWord_isWord
  · rw [found]
    exact captured?_eq_iff fragmentWord_isWord
  · intro factoryAt fragmentAt factory fragment
    exact apart_of_ne factoryWord_isWord fragmentWord_isWord (by decide)

/-- The first comment has no whitespace before the word, and of three slashes the last two open the
comment that selects the factory. -/
theorem scan_finds_leftmost_sample :
    let source : Text := "//@jsx a /** @jsxFrag P */ /// @jsx\n\n h.e2".toList
    let factory : Spelling :=
      ⟨['/', '/'], [' '], ['\n', '\n', ' '], ['h', '.', 'e'], by decide, by decide, by decide,
        by decide⟩
    let fragment : Spelling :=
      ⟨['/', '*', '*'], [' '], [' '], ['P'], by decide, by decide, by decide, by decide⟩
    StandsAt factoryWord source 28 factory ∧ StandsAt fragmentWord source 9 fragment ∧
      (28 + (factory.text factoryWord).length ≤ 9 ∨
        9 + (fragment.text fragmentWord).length ≤ 28) ∧
      Selects factoryWord source (some ['h', '.', 'e']) ∧
      Selects fragmentWord source (some ['P']) := by
  intro source factory fragment
  have factoryStands : StandsAt factoryWord source 28 factory := by decide
  have fragmentStands : StandsAt fragmentWord source 9 fragment := by decide
  rcases scan_finds_leftmost source with ⟨-, selectsFactory, selectsFragment, apart⟩
  exact ⟨factoryStands, fragmentStands, apart 28 9 factory fragment factoryStands fragmentStands,
    (selectsFactory _).mp (by decide), (selectsFragment _).mp (by decide)⟩

end ElementScript.Directive
