import Mathlib.Data.Nat.Find
import ElementScript.Proofs.Comment.Idempotence

/-! # Looking ahead into comments

Comment removal and scanning tell markup from comparison by the same rule, but not on the same text.
The reader that removes comments looks ahead into the source as it was written, and the scan looks
ahead into what is left, where a comment is a run of spaces. They agree on a `<` if something
decides before the first comment behind it (`Lookahead.compares_of_decided`). If the look ahead gets
to a comment undecided (`LooksInto`), then one of them goes on in the comment's text and the other
behind it, and all depends on what each of them finds there (`opensElement_strip_iff`).
-/

namespace ElementScript

/-! ## Look ahead -/

namespace Lookahead

variable {seenSpace reached : Bool} {text : Text}

/-- Whether a character may stand right behind the `<` of an element. -/
def beginsElement (character : Char) : Bool :=
  character.isAlpha || character = '>'

theorem opensElement_cons (first : Char) (rest : Text) :
    opensElement (first :: rest) = (beginsElement first && !compares false rest) := rfl

theorem beginsElement_of_isBlank {character : Char} (blank : Text.isBlank character) :
    beginsElement character = false := by
  simp only [Text.isBlank, Bool.or_eq_true, decide_eq_true_eq] at blank
  rcases blank with ((rfl | rfl) | rfl) | rfl <;> rfl

/-- Whether a space has been seen after a text in which nothing decides. There is no answer if
something decides. -/
def passes (seenSpace : Bool) : Text → Option Bool
  | [] => some seenSpace
  | character :: rest =>
      if isWordOrSlash character then
        if seenSpace then none else passes seenSpace rest
      else if character = '>' then none
      else if character = ' ' then passes true rest
      else if endsOperand character then none
      else passes seenSpace rest

/-- Where nothing decides, the text behind does. -/
theorem compares_of_passed (passed : passes seenSpace text = some reached) (rest : Text) :
    compares seenSpace (text ++ rest) = compares reached rest := by
  -- What decides is a word character behind a space, a `>` or the end of an operand.
  fun_induction passes seenSpace text with
  | case1 => rw [Option.some.inj passed, List.nil_append]
  | case2 | case4 | case6 => cases passed
  | case3 | case5 | case7 => simp_all [compares]

/-- Where something decides, the text behind does not matter. -/
theorem compares_of_decided (decided : passes seenSpace text = none) (rest : Text) :
    compares seenSpace (text ++ rest) = compares seenSpace text := by
  fun_induction passes seenSpace text with
  | case1 => cases decided
  | case2 | case3 | case4 | case5 | case6 | case7 => simp_all [compares]

end Lookahead

namespace Comment

open Lookahead (beginsElement compares passes opensElement)

variable {state : State} {source text : Text} {position : Nat}

/-- Behind a space the mark of a comment shows markup. -/
theorem compares_of_opensComment {character : Char} {following : Text}
    (opens : state.opensComment character following) (seenSpace : Bool) :
    compares seenSpace (character :: following) =
      (!seenSpace && compares false (character :: following)) := by
  cases seenSpace with
  | false => rfl
  | true =>
      simp only [State.opensComment, Bool.and_eq_true, Bool.or_eq_true, decide_eq_true_eq] at opens
      rcases opens.2 with ⟨⟨rfl, -⟩, -⟩ | ⟨⟨rfl, -⟩, mark⟩
      · rfl
      · rw [← List.take_append_drop 2 following, mark]
        rfl

theorem compares_of_opensFrom {count : Nat} (opens : opensFrom state text count)
    (seenSpace : Bool) :
    compares seenSpace (text.drop count) = (!seenSpace && compares false (text.drop count)) := by
  unfold opensFrom at opens
  split at opens
  · cases opens
  · rename_i character following rest
    rw [rest]
    exact compares_of_opensComment opens seenSpace

/-- From outside of comments, characters are kept up to the first comment. -/
theorem stripFrom_eq_append {count : Nat} (outside : state.mode.isOutside) (ready : state.skip = 0)
    (clear : ∀ earlier < count, opensFrom state text earlier = false) :
    stripFrom state text = text.take count ++ (stripFrom state text).drop count := by
  rw [← (take_stripFrom_eq_iff outside ready).mpr clear, List.take_append_drop]

/-- Undecided at the first comment, the two look aheads go on from there. -/
theorem compares_stripFrom_of_passed {seenSpace reached : Bool} {count : Nat}
    (outside : state.mode.isOutside) (ready : state.skip = 0)
    (clear : ∀ earlier < count, opensFrom state text earlier = false)
    (passed : passes seenSpace (text.take count) = some reached) :
    compares seenSpace (stripFrom state text) =
        compares reached ((stripFrom state text).drop count) ∧
      compares seenSpace text = compares reached (text.drop count) := by
  rw [← Lookahead.compares_of_passed passed, ← Lookahead.compares_of_passed passed,
    ← stripFrom_eq_append outside ready clear, List.take_append_drop]
  exact ⟨rfl, rfl⟩

/-- From outside of comments, the two look aheads agree unless they get to the first comment
undecided. Then they agree if they do from there on. -/
theorem compares_stripFrom_iff (outside : state.mode.isOutside) (ready : state.skip = 0)
    (seenSpace : Bool) :
    compares seenSpace (stripFrom state text) = compares seenSpace text ↔
      ∀ count reached, opensFrom state text count →
        (∀ earlier < count, opensFrom state text earlier = false) →
        passes seenSpace (text.take count) = some reached →
        compares reached ((stripFrom state text).drop count) =
          (!reached && compares false (text.drop count)) := by
  constructor
  · intro agree count reached opens clear passed
    rcases compares_stripFrom_of_passed outside ready clear passed with ⟨stripped, original⟩
    rw [← stripped, agree, original, compares_of_opensFrom opens]
  · intro agree
    by_cases commented : ∃ count, opensFrom state text count
    · let count := Nat.find commented
      have opens : opensFrom state text count := Nat.find_spec commented
      have clear : ∀ earlier < count, opensFrom state text earlier = false := by
        intro earlier below
        simpa using Nat.find_min commented below
      cases passed : passes seenSpace (text.take count) with
      | none =>
          have original := Lookahead.compares_of_decided passed (text.drop count)
          rw [List.take_append_drop] at original
          rw [stripFrom_eq_append outside ready clear, Lookahead.compares_of_decided passed,
            original]
      | some reached =>
          rcases compares_stripFrom_of_passed outside ready clear passed with ⟨stripped, original⟩
          rw [stripped, original, agree count reached opens clear passed]
          exact (compares_of_opensFrom opens reached).symm
    · -- Without any comment nothing is removed.
      have clear : ∀ earlier < text.length, opensFrom state text earlier = false := by
        intro earlier below
        simpa using not_exists.mp commented earlier
      have kept := (take_stripFrom_eq_iff outside ready).mpr clear
      rw [List.take_length, ← length_stripFrom state text, List.take_length] at kept
      rw [kept]

/-! ## Positions in a source -/

/-- Whether a look ahead from a position gets to a comment before anything decides, and whether it
has seen a space by then. -/
structure LooksInto (source : Text) (start comment : Nat) (seenSpace : Bool) : Prop where
  ahead : start ≤ comment
  opens : opensFrom {} source comment
  clear : ∀ earlier, start ≤ earlier → earlier < comment → opensFrom {} source earlier = false
  passed : passes false ((source.drop start).take (comment - start)) = some seenSpace

theorem compares_strip_iff {start : Nat} (outside : (stateAfter {} source start).mode.isOutside)
    (ready : (stateAfter {} source start).skip = 0) :
    compares false ((strip source).drop start) = compares false (source.drop start) ↔
      ∀ comment seenSpace, LooksInto source start comment seenSpace →
        compares seenSpace ((strip source).drop comment) =
          (!seenSpace && compares false (source.drop comment)) := by
  rw [strip, drop_stripFrom, compares_stripFrom_iff outside ready]
  simp only [← opensFrom_add, ← drop_stripFrom, List.drop_drop]
  constructor
  · intro agree comment seenSpace looks
    have found := agree (comment - start) seenSpace
    rw [Nat.add_sub_of_le looks.ahead] at found
    refine found looks.opens (fun earlier below => ?_) looks.passed
    exact looks.clear (start + earlier) (by omega) (by omega)
  · intro agree count reached opens clear passed
    refine agree (start + count) reached ⟨by omega, opens, fun earlier least below => ?_, ?_⟩
    · rw [← Nat.add_sub_of_le least]
      exact clear (earlier - start) (by omega)
    · rwa [Nat.add_sub_cancel_left]

/-! ## The character behind a `<` -/

section First

variable {first : Char} {following : Text}

/-- What begins an element is kept. -/
theorem step_of_beginsElement (outside : state.mode.isOutside) (ready : state.skip = 0)
    (begins : beginsElement first) :
    (step state first following).1 = first ∧
      (step state first following).2.mode.isOutside ∧
      (step state first following).2.skip = 0 := by
  have slash : first ≠ '/' := by
    rintro rfl
    cases begins
  have brace : first ≠ '{' := by
    rintro rfl
    cases begins
  have none : state.opensComment first following = false := by
    simp [State.opensComment, slash, brace]
  exact step_of_not_opensComment outside ready none

/-- What does not begin an element does not come to begin one. -/
theorem beginsElement_step (different : beginsElement first = false) :
    beginsElement (step state first following).1 = false := by
  rcases step_eq_or_isBlank state first following with kept | blanked
  · rw [kept, different]
  · exact Lookahead.beginsElement_of_isBlank blanked

/-- Only what follows the first character can make a difference. -/
theorem opensElement_stripFrom_iff (outside : state.mode.isOutside) (ready : state.skip = 0)
    (text : Text) :
    opensElement (stripFrom state text) = opensElement text ↔
      (text.head?.any beginsElement →
        compares false ((stripFrom state text).drop 1) = compares false (text.drop 1)) := by
  cases text with
  | nil => simp [stripFrom]
  | cons first following =>
      rw [stripFrom, Lookahead.opensElement_cons, Lookahead.opensElement_cons]
      cases begins : beginsElement first with
      | false => simp [beginsElement_step begins, begins]
      | true => simp [(step_of_beginsElement outside ready begins).1, begins]

theorem stateAfter_of_beginsElement (outside : state.mode.isOutside) (ready : state.skip = 0)
    (begins : text.head?.any beginsElement) :
    (stateAfter state text 1).mode.isOutside ∧ (stateAfter state text 1).skip = 0 := by
  cases text with
  | nil => cases begins
  | cons first following =>
      rw [stateAfter, stateAfter_zero]
      exact (step_of_beginsElement outside ready begins).2

end First

/-- Comment removal and scanning agree on a `<` exactly if the look ahead gets to no comment
undecided, or it comes to the same whether the comment is read or what is behind it. Behind a space
the comment itself counts as markup. -/
theorem opensElement_strip_iff (shown : (strip source)[position]? = some '<') :
    opensElement (source.drop (position + 1)) =
        opensElement ((strip source).drop (position + 1)) ↔
      ((source.drop (position + 1)).head?.any beginsElement →
        ∀ comment seenSpace, LooksInto source (position + 2) comment seenSpace →
          compares seenSpace ((strip source).drop comment) =
            (!seenSpace && compares false (source.drop comment))) := by
  rcases stateAfter_of_shown shown rfl with ⟨outside, ready, -⟩
  have second : ∀ text : Text, (text.drop (position + 1)).drop 1 = text.drop (position + 2) :=
    fun text => List.drop_drop
  rw [eq_comm, strip, drop_stripFrom, opensElement_stripFrom_iff outside ready, ← drop_stripFrom,
    second, second]
  refine imp_congr_right fun begins => ?_
  have next := stateAfter_of_beginsElement outside ready begins
  rw [← stateAfter_add] at next
  exact compares_strip_iff next.1 next.2

/-- With its comment, the first source compares `a` and `b`, and without it `b` is a tag. In the
second source a comment makes a tag of `c`. -/
theorem opensElement_strip_iff_samples :
    let tag : Text := "a<b/* ) */ c".toList
    let comparison : Text := "<a>\x7bb<c /* d */ ? e : f\x7d</a>".toList
    (opensElement (tag.drop 2) = false ∧
      opensElement (tag.drop 2) ≠ opensElement ((strip tag).drop 2)) ∧
    (opensElement (comparison.drop 6) = true ∧
      opensElement (comparison.drop 6) ≠ opensElement ((strip comparison).drop 6)) := by
  intro tag comparison
  have tagShown : (strip tag)[1]? = some '<' := by decide
  have comparisonShown : (strip comparison)[5]? = some '<' := by decide
  refine ⟨⟨by decide, fun agree => ?_⟩, ⟨by decide, fun agree => ?_⟩⟩
  · have looks : LooksInto tag 3 3 false :=
      ⟨by decide, by decide, fun earlier least below => by omega, rfl⟩
    have same := (opensElement_strip_iff tagShown).mp agree rfl 3 false looks
    exact absurd same (by decide)
  · have none : ∀ earlier, 7 ≤ earlier → earlier < 8 →
        opensFrom {} comparison earlier = false := by
      intro earlier least below
      obtain rfl : earlier = 7 := by omega
      decide
    have looks : LooksInto comparison 7 8 true := ⟨by decide, by decide, none, rfl⟩
    have same := (opensElement_strip_iff comparisonShown).mp agree rfl 8 true looks
    exact absurd same (by decide)

end Comment

end ElementScript
