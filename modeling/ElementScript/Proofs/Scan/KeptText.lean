import ElementScript.Proofs.Comment
import ElementScript.Proofs.Scan.Tiling

/-! # Which text of elements is kept

Comments are removed before a source is scanned, by a reader with counters of its own, and the text
of an element is then cut from what is left. The reader has only one count of braces for all open
elements. So inside of a region it goes on to take slashes for comments in the text of the elements
there, and what the scan cuts as text is no longer what the source holds.

The text of a token is kept exactly when the reader is in code nowhere in it where slashes stand
(`tokenize_keeps_text_iff`). No comment reaches into the text from before it, because the text starts
after a character that is in no comment (`outside_of_shown`).
-/

namespace ElementScript

namespace Text

theorem holds_drop {pattern text : Text} (none : holds pattern text = false) (count : Nat) :
    holds pattern (text.drop count) = false := by
  induction text generalizing count with
  | nil => simpa using none
  | cons character rest induction =>
      cases count with
      | zero => exact none
      | succ count => exact induction (holds_cons_eq_false_iff.mp none).2 count

theorem take_ne_of_holds {following : Text}
    (none : holds ['{', '/', '*'] ('{' :: following) = false) :
    following.take 2 ≠ ['/', '*'] := by
  intro mark
  have split : '{' :: following = '{' :: ['/', '*'] ++ following.drop 2 := by
    rw [← mark, List.cons_append, List.take_append_drop]
  have found := after?_eq_some_iff.mpr split
  rw [(holds_cons_eq_false_iff.mp none).1] at found
  cases found

/-- Two characters that a text does not hold do not stand at its front. -/
theorem not_pair_of_holds {first second character : Char} {rest : Text} {count : Nat}
    (none : holds [first, second] ((character :: rest).take (count + 2)) = false) :
    ¬ (character = first ∧ rest.head? = some second) := by
  rintro ⟨rfl, head⟩
  cases rest with
  | nil => cases head
  | cons next others =>
      cases head
      simp [holds, after?] at none

end Text

namespace Comment

/-! ## The reader at a position -/

/-- The state of the reader after the first characters of a text. -/
def stateAfter (state : State) : Text → Nat → State
  | _, 0 => state
  | [], _ + 1 => state
  | character :: rest, count + 1 =>
      stateAfter ((step state character rest).2.remember character) rest count

@[simp] theorem stateAfter_zero (state : State) (source : Text) :
    stateAfter state source 0 = state := by
  cases source <;> rfl

@[simp] theorem stateAfter_nil (state : State) (count : Nat) : stateAfter state [] count = state := by
  cases count <;> rfl

theorem stateAfter_add (state : State) (source : Text) (first second : Nat) :
    stateAfter state source (first + second) =
      stateAfter (stateAfter state source first) (source.drop first) second := by
  induction source generalizing state first with
  | nil => simp
  | cons character rest induction =>
      cases first with
      | zero => simp
      | succ first =>
          rw [Nat.add_right_comm, stateAfter, stateAfter, List.drop_succ_cons]
          exact induction _ first

theorem drop_stripFrom (state : State) (source : Text) (count : Nat) :
    (stripFrom state source).drop count =
      stripFrom (stateAfter state source count) (source.drop count) := by
  induction source generalizing state count with
  | nil => simp [stripFrom]
  | cons character rest induction =>
      cases count with
      | zero => simp
      | succ count =>
          rw [stripFrom, stateAfter, List.drop_succ_cons, List.drop_succ_cons]
          exact induction _ count

/-- Whether the reader takes the character at a position of a text for the start of a comment. -/
def opensFrom (state : State) (source : Text) (position : Nat) : Bool :=
  match source.drop position with
  | [] => false
  | character :: following => (stateAfter state source position).opensComment character following

theorem opensFrom_add (state : State) (source : Text) (first second : Nat) :
    opensFrom state source (first + second) =
      opensFrom (stateAfter state source first) (source.drop first) second := by
  rw [opensFrom, opensFrom, stateAfter_add, List.drop_drop]

/-! ## One character -/

section Step

variable {state : State} {character : Char} {following : Text}

/-- What starts a comment is no longer there. -/
theorem step_of_opensComment (opens : state.opensComment character following) :
    (step state character following).1 = ' ' ∧ character ≠ ' ' := by
  simp only [State.opensComment, Bool.and_eq_true, Bool.or_eq_true, decide_eq_true_eq] at opens
  rcases opens with ⟨⟨mode, skip⟩, ⟨⟨rfl, inCode⟩, heads⟩ | ⟨⟨rfl, elements⟩, mark⟩⟩
  · rcases heads with head | head <;> simp [step, codeStep, mode, skip, inCode, head]
  · simp [step, codeStep, mode, skip, elements, mark]

theorem isBlank_blank (character : Char) : Text.isBlank (blank character) := by
  unfold blank
  split
  · rename_i lineEnd
    rw [lineEnd]
    rfl
  · rfl

/-- Every character of a comment becomes a blank. -/
theorem isBlank_step (covered : state.skip ≠ 0 ∨ state.mode.isOutside = false) :
    Text.isBlank (step state character following).1 := by
  unfold step
  split
  · exact isBlank_blank character
  · rename_i skip
    cases mode : state.mode with
    | code | literal mark => simp [skip, mode, Mode.isOutside] at covered
    | markupComment | blockComment =>
        simp only
        split
        · rfl
        · exact isBlank_blank character
    | lineComment =>
        simp only
        split
        · rename_i lineEnd
          rw [lineEnd]
          rfl
        · rfl

/-- A character that is shown is in no comment. -/
theorem outside_of_shown (shown : Text.isBlank (step state character following).1 = false) :
    state.mode.isOutside ∧ state.skip = 0 ∧ state.opensComment character following = false := by
  have uncovered : ¬ (state.skip ≠ 0 ∨ state.mode.isOutside = false) := by
    intro covered
    rw [isBlank_step covered] at shown
    cases shown
  have none : state.opensComment character following = false := by
    rw [← Bool.not_eq_true]
    intro opens
    rw [(step_of_opensComment opens).1] at shown
    cases shown
  simpa [none, and_comm] using uncovered

/-- A character that is shown is the one that was read, and no comment goes on after it. -/
theorem step_of_shown (shown : Text.isBlank (step state character following).1 = false) :
    (step state character following).1 = character ∧
      (step state character following).2.mode.isOutside ∧
      (step state character following).2.skip = 0 := by
  rcases outside_of_shown shown with ⟨outside, skip, none⟩
  exact step_of_not_opensComment outside skip none

end Step

/-! ## A part of a text -/

/-- From outside of comments, characters are kept up to where a comment starts. -/
theorem take_stripFrom_eq_iff {state : State} {source : Text} {count : Nat}
    (outside : state.mode.isOutside) (skip : state.skip = 0) :
    (stripFrom state source).take count = source.take count ↔
      ∀ position < count, opensFrom state source position = false := by
  induction source generalizing state count with
  | nil => simp [stripFrom, opensFrom]
  | cons character rest induction =>
      cases count with
      | zero => simp
      | succ count =>
          rw [stripFrom, List.take_succ_cons, List.take_succ_cons, List.cons.injEq]
          cases opens : state.opensComment character rest with
          | true =>
              have stepped := step_of_opensComment opens
              constructor
              · intro kept
                exact absurd (stepped.1.symm.trans kept.1).symm stepped.2
              · intro none
                have first : state.opensComment character rest = false := none 0 (by omega)
                rw [opens] at first
                cases first
          | false =>
              have stepped := step_of_not_opensComment outside skip opens
              let next := (step state character rest).2.remember character
              have others : (stripFrom next rest).take count = rest.take count ↔
                  ∀ position < count, opensFrom next rest position = false :=
                induction stepped.2.1 stepped.2.2
              rw [others]
              constructor
              · intro kept position below
                cases position with
                | zero => exact opens
                | succ position => exact kept.2 position (by omega)
              · intro none
                exact ⟨stepped.1, fun position below => none (position + 1) (by omega)⟩

/-- After a character that is shown the reader is outside of comments, and that character was read
last. -/
theorem stateAfter_of_shown {state : State} {source : Text} {last : Nat} {character : Char}
    (shown : (stripFrom state source)[last]? = some character)
    (visible : Text.isBlank character = false) :
    (stateAfter state source (last + 1)).mode.isOutside ∧
      (stateAfter state source (last + 1)).skip = 0 ∧
      (stateAfter state source (last + 1)).previous = some character := by
  induction source generalizing state last with
  | nil => simp [stripFrom] at shown
  | cons head rest induction =>
      cases last with
      | zero =>
          have same : (step state head rest).1 = character := by simpa [stripFrom] using shown
          rw [← same] at visible
          have stepped := step_of_shown visible
          have read : head = character := stepped.1.symm.trans same
          rw [stateAfter, stateAfter_zero]
          exact ⟨stepped.2.1, stepped.2.2, congrArg some read⟩
      | succ last => exact induction (by simpa [stripFrom] using shown)

/-! ## Slashes in text -/

/-- Whether slashes at a position start a comment. The reader is in code there if it counts no open
element or some open brace, in whichever element that brace is. -/
def SlashOpensAt (source : Text) (position : Nat) : Prop :=
  let state := stateAfter {} source position
  state.mode = .code ∧ state.skip = 0 ∧ (state.elements = 0 ∨ 0 < state.braces) ∧
    ∃ following, source.drop position = '/' :: following ∧
      (following.head? = some '/' ∨ following.head? = some '*')

theorem opensFrom_iff_slashOpensAt {source : Text}
    (uncommented : Text.holds ['{', '/', '*'] source = false) (position : Nat) :
    opensFrom {} source position ↔ SlashOpensAt source position := by
  unfold opensFrom SlashOpensAt
  split
  · rename_i ended
    simp [ended]
  · rename_i character following rest
    have noBrace : ¬ (character = '{' ∧ following.take 2 = ['/', '*']) := by
      rintro ⟨rfl, mark⟩
      have none := Text.holds_drop uncommented position
      rw [rest] at none
      exact Text.take_ne_of_holds none mark
    simp only [State.opensComment, State.inCode, rest, Bool.and_eq_true, Bool.or_eq_true,
      decide_eq_true_eq, List.cons.injEq]
    constructor
    · rintro ⟨⟨mode, skip⟩, ⟨⟨slash, inCode⟩, heads⟩ | ⟨⟨brace, -⟩, mark⟩⟩
      · exact ⟨mode, skip, inCode, following, ⟨slash, rfl⟩, heads⟩
      · exact absurd ⟨brace, mark⟩ noBrace
    · rintro ⟨mode, skip, inCode, _, ⟨slash, rfl⟩, heads⟩
      exact ⟨⟨mode, skip⟩, Or.inl ⟨⟨slash, inCode⟩, heads⟩⟩

/-- Whether the reader takes its position for text of an element, outside of all braces. The text to
come does not end a tag that closes itself. -/
structure State.InText (state : State) (rest : Text) : Prop where
  mode : state.mode = .code
  skip : state.skip = 0
  elements : 0 < state.elements
  braces : state.braces = 0
  noEnd : state.previous = some '/' → rest.head? ≠ some '>'

namespace State.InText

variable {state : State} {character : Char} {rest : Text}

theorem inCode_eq_false (inText : state.InText rest) : state.inCode = false := by
  have opened : state.elements ≠ 0 := Nat.pos_iff_ne_zero.mp inText.elements
  simp [inCode, inText.braces, opened]

theorem opensComment_eq_false (inText : state.InText (character :: rest))
    (brace : ¬ (character = '{' ∧ rest.take 2 = ['/', '*'])) :
    state.opensComment character rest = false := by
  simpa [opensComment, inText.inCode_eq_false, inText.mode, inText.skip, inText.elements]
    using brace

/-- Text goes on after every character but one that opens a brace or that belongs to a tag. -/
theorem step (inText : state.InText (character :: rest)) (brace : character ≠ '{')
    (noClosing : ¬ (character = '<' ∧ rest.head? = some '/'))
    (noEnd : ¬ (character = '/' ∧ rest.head? = some '>')) :
    ((Comment.step state character rest).2.remember character).InText rest := by
  have elements := inText.elements
  have goesOn : ∀ next : State, next.mode = .code → next.skip = 0 → 0 < next.elements →
      next.braces = 0 → (next.remember character).InText rest := by
    intro next mode skip elements braces
    refine ⟨mode, skip, elements, braces, ?_⟩
    intro slash bracket
    exact noEnd ⟨Option.some.inj slash, bracket⟩
  have stepped : Comment.step state character rest = codeStep state character rest := by
    simp only [Comment.step, inText.skip, inText.mode]
  rw [stepped]
  simp only [codeStep, brace, false_and, if_false, inText.inCode_eq_false, Bool.false_eq_true,
    and_false]
  split
  · exact goesOn _ inText.mode inText.skip elements (by simp [inText.braces])
  · split
    · rename_i bracket
      split
      · exact goesOn _ inText.mode inText.skip (Nat.succ_pos _) inText.braces
      · rw [if_neg (fun slash => noClosing ⟨bracket, slash⟩)]
        exact goesOn _ inText.mode inText.skip elements inText.braces
    · split
      · rename_i ends
        rw [ends.1] at inText
        exact absurd rfl (inText.noEnd ends.2.1)
      · exact goesOn _ inText.mode inText.skip elements inText.braces

theorem take_stripFrom {source : Text} {count : Nat} (inText : state.InText source)
    (uncommented : Text.holds ['{', '/', '*'] source = false)
    (unbraced : '{' ∉ (stripFrom state source).take count)
    (noClosing : Text.holds ['<', '/'] (source.take count) = false)
    (noEnd : Text.holds ['/', '>'] (source.take count) = false) :
    (stripFrom state source).take count = source.take count := by
  induction source generalizing state count with
  | nil => rfl
  | cons character rest induction =>
      cases count with
      | zero => rfl
      | succ count =>
          have none : state.opensComment character rest = false := by
            apply inText.opensComment_eq_false
            rintro ⟨rfl, mark⟩
            exact Text.take_ne_of_holds uncommented mark
          have outside : state.mode.isOutside := by simp [inText.mode, Mode.isOutside]
          have kept := (step_of_not_opensComment outside inText.skip none).1
          rw [stripFrom, kept, List.take_succ_cons] at unbraced ⊢
          rw [List.mem_cons, not_or] at unbraced
          rw [List.take_succ_cons]
          congr 1
          cases count with
          | zero => rfl
          | succ count =>
              have next := inText.step (Ne.symm unbraced.1)
                (Text.not_pair_of_holds noClosing) (Text.not_pair_of_holds noEnd)
              rw [List.take_succ_cons, Text.holds_cons_eq_false_iff] at noClosing noEnd
              rw [Text.holds_cons_eq_false_iff] at uncommented
              exact induction next uncommented.2 unbraced.2 noClosing.2 noEnd.2

end State.InText

end Comment

/-! ## Tokens of text -/

/-- After markup the reader is outside of comments. -/
theorem Comment.stateAfter_of_followsMarkup {source : Text} {offset : Nat}
    (follows : (strip source).FollowsMarkup offset) :
    (stateAfter {} source offset).mode.isOutside ∧ (stateAfter {} source offset).skip = 0 ∧
      (stateAfter {} source offset).previous ≠ some '/' := by
  rcases follows with ⟨last, rfl, bracket | brace⟩
  · rcases stateAfter_of_shown bracket rfl with ⟨outside, skip, previous⟩
    exact ⟨outside, skip, by simp [previous]⟩
  · rcases stateAfter_of_shown brace rfl with ⟨outside, skip, previous⟩
    exact ⟨outside, skip, by simp [previous]⟩

namespace Token.FitsIn

variable {source : Text} {token : Token}

theorem take_stripFrom_eq_text (fits : token.FitsIn (Comment.strip source))
    (slice : token.kind.isSlice) :
    (Comment.stripFrom (Comment.stateAfter {} source token.offset)
      (source.drop token.offset)).take token.text.length = token.text := by
  rw [← Comment.drop_stripFrom]
  exact (fits.slice slice).2

/-- A slice stands in the source if the reader has kept its characters. -/
theorem standsAt_iff (fits : token.FitsIn (Comment.strip source)) (slice : token.kind.isSlice) :
    source.StandsAt token.text token.offset ↔
      (Comment.stripFrom (Comment.stateAfter {} source token.offset)
          (source.drop token.offset)).take token.text.length =
        (source.drop token.offset).take token.text.length := by
  have bounded := (fits.slice slice).1
  rw [Comment.length_strip] at bounded
  rw [fits.take_stripFrom_eq_text slice]
  constructor
  · intro stands
    exact stands.2.symm
  · intro kept
    exact ⟨bounded, kept.symm⟩

theorem standsAt_iff_not_slashOpensAt (fits : token.FitsIn (Comment.strip source))
    (kind : token.kind = .childText) (uncommented : Text.holds ['{', '/', '*'] source = false) :
    source.StandsAt token.text token.offset ↔
      ∀ position, token.offset ≤ position → position < token.offset + token.text.length →
        ¬ Comment.SlashOpensAt source position := by
  rcases Comment.stateAfter_of_followsMarkup (fits.follows kind) with ⟨outside, skip, -⟩
  rw [fits.standsAt_iff (by rw [kind]; rfl), Comment.take_stripFrom_eq_iff outside skip]
  constructor
  · intro kept position least below opens
    have unopened := kept (position - token.offset) (by omega)
    rw [← Comment.opensFrom_add, Nat.add_sub_of_le least,
      (Comment.opensFrom_iff_slashOpensAt uncommented position).mpr opens] at unopened
    cases unopened
  · intro unopened position below
    rw [← Comment.opensFrom_add, ← Bool.not_eq_true,
      Comment.opensFrom_iff_slashOpensAt uncommented]
    exact unopened _ (by omega) (by omega)

theorem standsAt_of_inText (fits : token.FitsIn (Comment.strip source))
    (kind : token.kind = .childText) (uncommented : Text.holds ['{', '/', '*'] source = false)
    (mode : (Comment.stateAfter {} source token.offset).mode = .code)
    (elements : 0 < (Comment.stateAfter {} source token.offset).elements)
    (braces : (Comment.stateAfter {} source token.offset).braces = 0)
    (noClosing :
      Text.holds ['<', '/'] ((source.drop token.offset).take token.text.length) = false)
    (noEnd : Text.holds ['/', '>'] ((source.drop token.offset).take token.text.length) = false) :
    source.StandsAt token.text token.offset := by
  rcases Comment.stateAfter_of_followsMarkup (fits.follows kind) with ⟨-, skip, previous⟩
  have isSlice : token.kind.isSlice := by rw [kind]; rfl
  have inText : (Comment.stateAfter {} source token.offset).InText (source.drop token.offset) :=
    ⟨mode, skip, elements, braces, fun slash => absurd slash previous⟩
  have unbraced := fits.unbraced kind
  rw [← fits.take_stripFrom_eq_text isSlice] at unbraced
  rw [fits.standsAt_iff isSlice]
  exact inText.take_stripFrom (Text.holds_drop uncommented _) unbraced noClosing noEnd

end Token.FitsIn

/-- Where comments fill no braces, the text of an element's child stands in the source as it was
written exactly if the reader takes none of its slashes for the start of a comment. So it does if the
reader counts an open element and no open brace before it and no tag is closed in it. -/
theorem tokenize_keeps_text_iff {source : Text} {ceiling : Nat} {tokens : List Token}
    {token : Token} (uncommented : Text.holds ['{', '/', '*'] source = false)
    (tokenized : tokenize source ceiling = .ok tokens) (member : token ∈ tokens)
    (kind : token.kind = .childText) :
    (source.StandsAt token.text token.offset ↔
      ∀ position, token.offset ≤ position → position < token.offset + token.text.length →
        ¬ Comment.SlashOpensAt source position) ∧
    ((Comment.stateAfter {} source token.offset).mode = .code →
      0 < (Comment.stateAfter {} source token.offset).elements →
      (Comment.stateAfter {} source token.offset).braces = 0 →
      Text.holds ['<', '/'] ((source.drop token.offset).take token.text.length) = false →
      Text.holds ['/', '>'] ((source.drop token.offset).take token.text.length) = false →
      source.StandsAt token.text token.offset) := by
  rcases exists_of_tokenize tokenized with ⟨final, rfl, holds, fits, -⟩
  have fit := Scan.fits_finish holds fits token member
  exact ⟨fit.standsAt_iff_not_slashOpensAt kind uncommented,
    fit.standsAt_of_inText kind uncommented⟩

/-- In an element inside of a region the slashes of an address are taken for a comment. -/
theorem tokenize_keeps_text_iff_region :
    let source : Text := "<a>\x7b<b>http://x\n</b>\x7d</a>".toList
    let tokens : List Token :=
      [{ kind := .elementStart, text := "<a>".toList, offset := 0 },
        { kind := .fragmentStart, text := [], offset := 4 },
        { kind := .elementStart, text := "<b>".toList, offset := 4 },
        { kind := .childText, text := "http:   \n".toList, offset := 7 },
        { kind := .elementEnd, text := "</b>".toList, offset := 16 },
        { kind := .fragmentEnd, text := [], offset := 20 },
        { kind := .elementEnd, text := "</a>".toList, offset := 21 }]
    tokenize source 1 = .ok tokens ∧ ¬ source.StandsAt "http:   \n".toList 7 := by
  intro source tokens
  have tokenized : tokenize source 1 = .ok tokens := by rfl
  let token : Token := { kind := .childText, text := "http:   \n".toList, offset := 7 }
  have member : token ∈ tokens := by decide
  have kept := (tokenize_keeps_text_iff (by decide) tokenized member rfl).1
  refine ⟨tokenized, fun stands => ?_⟩
  have slash : Comment.SlashOpensAt source 12 :=
    ⟨rfl, rfl, Or.inr (by decide), "/x\n</b>\x7d</a>".toList, rfl, Or.inl rfl⟩
  exact kept.mp stands 12 (by decide) (by decide) slash

end ElementScript
