import ElementScript.Proofs.Scan.Layout

/-! # The rules of scanning

`Scan.step` dispatches on what is being read and on the character. `Scan.Reads` lists what such a
step can do when it succeeds, one rule for each way in which a character is taken up, and
`Scan.reads_of_step` says that these are all. Most characters are buffered; `Scan.Buffers` says
where, and what is being read after them.

What a scan keeps between two characters is proved from the rules, without the dispatch.
-/

namespace ElementScript

/-- The mark of the literal that a script is in after a character. -/
def Literal.after (mark previous : Option Char) (character : Char) : Option Char :=
  match mark with
  | some opened => if closes opened previous character then none else mark
  | none => if isMark character then some character else none

namespace Scan

/-- How a character inside braces changes the number of further open braces, if it does not close
the region. -/
inductive Nests (character : Char) : Nat → Nat → Prop where
  | closing {depth : Nat} (brace : character = '}') : Nests character (depth + 1) depth
  | opening {depth : Nat} (brace : character = '{') : Nests character depth (depth + 1)
  | other {depth : Nat} (plain : character ≠ '}' ∧ character ≠ '{') : Nests character depth depth

/-- Whether a character is buffered, and what is being read after it. -/
inductive Buffers (scan : Scan) (character : Char) (following : Text) : Activity → Prop where
  | script {mark : Option Char} (activity : scan.activity = .code mark)
      (plain : mark = none → ¬ (character = '<' ∧ Lookahead.opensElement following)) :
      Buffers scan character following
        (.code (Literal.after mark scan.buffer.back? character))
  | slash {closing : Bool} (activity : scan.activity = .tag closing)
      (first : scan.buffer = #['<']) (slash : character = '/') :
      Buffers scan character following (.tag true)
  | name {closing : Bool} (activity : scan.activity = .tag closing)
      (plain : character ≠ '/' ∧ character ≠ '>' ∧ Text.isBlank character = false) :
      Buffers scan character following (.tag closing)
  | property {named : Bool} (activity : scan.activity = .properties (.outside named))
      (plain : character ≠ '=' ∧ character ≠ '>' ∧ Text.isBlank character = false)
      (slash : ¬ (character = '/' ∧ following.head? = some '>')) :
      Buffers scan character following (.properties (.outside named))
  | quoted {named : Bool} {mark : Char}
      (activity : scan.activity = .properties (.quoted named mark)) (inside : character ≠ mark) :
      Buffers scan character following (.properties (.quoted named mark))
  | value {depth after : Nat} {content : Content}
      (activity : scan.activity = .properties (.braced depth content))
      (nests : Nests character depth after)
      (plain : ¬ (character = '<' ∧ Lookahead.opensElement following)) :
      Buffers scan character following (.properties (.braced after content))
  | text (activity : scan.activity = .children .text) (plain : character ≠ '{')
      (noTag : ¬ (character = '<' ∧ Lookahead.opensTag following)) :
      Buffers scan character following (.children .text)
  | code {depth after : Nat} {holdsElements : Bool}
      (activity : scan.activity = .children (.code depth holdsElements))
      (nests : Nests character depth after)
      (plain : ¬ (character = '<' ∧ Lookahead.opensTag following)) :
      Buffers scan character following (.children (.code after holdsElements))

/-- How a scan takes up a character. -/
inductive Reads (input : ScanInput) (scan : Scan) (character : Char) (following : Text) :
    Scan → Prop where
  | skipped {skip : Nat} (skips : scan.skip = skip + 1) :
      Reads input scan character following { scan with skip }
  | buffered {activity : Activity} (ready : scan.skip = 0)
      (buffers : scan.Buffers character following activity) :
      Reads input scan character following { scan.push character with activity }
  /-- Blanks in a closing tag leave no trace. -/
  | closingBlank (ready : scan.skip = 0) (activity : scan.activity = .tag true)
      (blank : Text.isBlank character) : Reads input scan character following scan
  | scriptTag (ready : scan.skip = 0) (activity : scan.activity = .code none)
      (bracket : character = '<') (opens : Lookahead.opensElement following)
      (room : scan.calls < input.ceiling) :
      Reads input scan character following
        { (scan.flushSome .code scan.position).startTag with calls := scan.calls + 1 }
  | valueTag {depth : Nat} {content : Content} (ready : scan.skip = 0)
      (activity : scan.activity = .properties (.braced depth content))
      (bracket : character = '<') (opens : Lookahead.opensElement following)
      (room : scan.calls < input.ceiling) :
      Reads input scan character following
        { (scan.cutBeforeElement content).1.startTag with
          calls := scan.calls + 1
          levels := .value depth (scan.cutBeforeElement content).2 :: scan.levels }
  | textTag (ready : scan.skip = 0) (activity : scan.activity = .children .text)
      (bracket : character = '<') (opens : Lookahead.opensTag following) :
      Reads input scan character following
        ((scan.flushChild .childText scan.position).startChildTag .text)
  | firstTag {depth : Nat} (ready : scan.skip = 0)
      (activity : scan.activity = .children (.code depth false))
      (bracket : character = '<') (opens : Lookahead.opensTag following) :
      Reads input scan character following
        ((scan.flush .fragmentStart scan.position).startChildTag (.code depth true))
  | furtherTag {depth : Nat} (ready : scan.skip = 0)
      (activity : scan.activity = .children (.code depth true))
      (bracket : character = '<') (opens : Lookahead.opensTag following) :
      Reads input scan character following
        ((scan.flushSome .childCode scan.position).startChildTag (.code depth true))
  | tagBracket (ready : scan.skip = 0) (activity : scan.activity = .tag false)
      (bracket : character = '>') :
      Reads input scan character following
        { (scan.push character).flush .elementStart (scan.position + 1) with
          activity := .children .text }
  | tagBlank (ready : scan.skip = 0) (activity : scan.activity = .tag false)
      (blank : Text.isBlank character) :
      Reads input scan character following
        { scan.flush .elementStart scan.position with
          activity := .properties (.outside false) }
  | tagSlash (ready : scan.skip = 0) (activity : scan.activity = .tag false)
      (slash : character = '/') (bracket : following.head? = some '>') :
      Reads input scan character following (scan.flush .elementStart scan.position).closeSelf
  | closingBracket (ready : scan.skip = 0) (activity : scan.activity = .tag true)
      (bracket : character = '>') :
      Reads input scan character following
        (((scan.push character).flush .elementEnd (scan.position + 1)).resume
          (scan.levels.drop 1))
  | equals {named : Bool} (ready : scan.skip = 0)
      (activity : scan.activity = .properties (.outside named)) (equals : character = '=') :
      Reads input scan character following (scan.equalsStep named following)
  | propertyBlank {named : Bool} (ready : scan.skip = 0)
      (activity : scan.activity = .properties (.outside named))
      (blank : Text.isBlank character) :
      Reads input scan character following
        { scan.flushSolid (propertyKind named) scan.position with
          activity := .properties (.outside (named && scan.text.isAllWhitespace)) }
  | propertySlash {named : Bool} {finished : Scan} (ready : scan.skip = 0)
      (activity : scan.activity = .properties (.outside named)) (slash : character = '/')
      (bracket : following.head? = some '>')
      (finishes : scan.finishProperties input named = .ok finished) :
      Reads input scan character following finished.closeSelf
  | propertyBracket {named : Bool} {finished : Scan} (ready : scan.skip = 0)
      (activity : scan.activity = .properties (.outside named)) (bracket : character = '>')
      (finishes : scan.finishProperties input named = .ok finished) :
      Reads input scan character following { finished with activity := .children .text }
  | quotedEnd {named : Bool} {mark : Char} (ready : scan.skip = 0)
      (activity : scan.activity = .properties (.quoted named mark)) (quote : character = mark) :
      Reads input scan character following
        { (scan.emit (propertyKind named) scan.text.quote (scan.offset scan.position)).clear with
          activity := .properties (.outside false) }
  | valueEnd {content : Content} (ready : scan.skip = 0)
      (activity : scan.activity = .properties (.braced 0 content)) (brace : character = '}') :
      Reads input scan character following (scan.closeValue content)
  | codeStart (ready : scan.skip = 0) (activity : scan.activity = .children .text)
      (brace : character = '{') :
      Reads input scan character following
        { scan.flushChild .childText scan.position with
          activity := .children (.code 0 false) }
  | codeEnd (ready : scan.skip = 0) (activity : scan.activity = .children (.code 0 false))
      (brace : character = '}') :
      Reads input scan character following
        { scan.flushChild .childCode scan.position with activity := .children .text }
  | regionEnd (ready : scan.skip = 0) (activity : scan.activity = .children (.code 0 true))
      (brace : character = '}') :
      Reads input scan character following
        { scan.flush .fragmentEnd scan.position with activity := .children .text }

/-! ## The rules hold of every step -/

variable {input : ScanInput} {scan next : Scan} {character : Char} {following : Text}

theorem lt_of_enter {entered : Scan} (ok : scan.enter input = .ok entered) :
    scan.calls < input.ceiling := by
  unfold enter at ok
  split at ok
  · cases ok
  · omega

theorem calls_flushSome (kind : Token.Kind) (stop : Nat) :
    (scan.flushSome kind stop).calls = scan.calls := by
  unfold flushSome
  split <;> rfl

theorem calls_cutBeforeElement (content : Content) :
    (scan.cutBeforeElement content).1.calls = scan.calls := by
  unfold cutBeforeElement
  split <;> cases content <;> rfl

/-- A character that is buffered where the activity stays the same. -/
theorem Reads.pushed (ready : scan.skip = 0)
    (buffers : scan.Buffers character following scan.activity) :
    Reads input scan character following (scan.push character) :=
  .buffered ready buffers

theorem reads_of_codeStep {mark : Option Char} (ready : scan.skip = 0)
    (activity : scan.activity = .code mark)
    (stepped : scan.codeStep input mark character following = .ok next) :
    Reads input scan character following next := by
  cases mark with
  | some opened =>
      cases stepped
      exact .buffered ready (.script activity (by simp))
  | none =>
      simp only [codeStep] at stepped
      split at stepped
      · rename_i mark
        cases stepped
        have after : Literal.after none scan.buffer.back? character = some character :=
          if_pos mark
        rw [← after]
        refine .buffered ready (.script activity fun _ tag => ?_)
        rw [tag.1] at mark
        cases mark
      · rename_i unmarked
        split at stepped
        · rename_i opens
          rcases exists_of_bind stepped with ⟨entered, enters, rfl⟩
          have room := lt_of_enter enters
          cases eq_of_enter enters
          simp only [calls_flushSome] at room ⊢
          exact .scriptTag ready activity opens.1 opens.2 room
        · rename_i plain
          cases stepped
          refine .pushed ready ?_
          have after : Literal.after none scan.buffer.back? character = none := if_neg unmarked
          rw [activity, ← after]
          exact .script activity fun _ => plain

theorem reads_of_tagStep {closing : Bool} (ready : scan.skip = 0)
    (activity : scan.activity = .tag closing)
    (stepped : scan.tagStep input closing character following = .ok next) :
    Reads input scan character following next := by
  unfold tagStep at stepped
  split at stepped
  · rename_i slash
    split at stepped
    · rename_i first
      cases stepped
      exact .buffered ready (.slash activity first slash)
    · split at stepped
      · rename_i ends
        cases stepped
        rw [ends.1] at activity
        exact .tagSlash ready activity slash ends.2
      · cases stepped
  · rename_i noSlash
    split at stepped
    · rename_i bracket
      cases closing with
      | true =>
          cases stepped
          exact .closingBracket ready activity bracket
      | false =>
          cases stepped
          exact .tagBracket ready activity bracket
    · rename_i noBracket
      split at stepped
      · rename_i blank
        cases closing with
        | true =>
            cases stepped
            exact .closingBlank ready activity blank
        | false =>
            cases stepped
            exact .tagBlank ready activity blank
      · rename_i noBlank
        cases stepped
        refine .pushed ready ?_
        rw [activity]
        exact .name activity ⟨noSlash, noBracket, by simpa using noBlank⟩

theorem reads_of_outsideStep {named : Bool} (ready : scan.skip = 0)
    (activity : scan.activity = .properties (.outside named))
    (stepped : scan.outsideStep input named character following = .ok next) :
    Reads input scan character following next := by
  unfold outsideStep at stepped
  split at stepped
  · rename_i equals
    cases stepped
    exact .equals ready activity equals
  · rename_i noEquals
    split at stepped
    · rename_i blank
      cases stepped
      exact .propertyBlank ready activity blank
    · rename_i noBlank
      split at stepped
      · rename_i slash
        rcases exists_of_bind stepped with ⟨finished, finishes, rfl⟩
        exact .propertySlash ready activity slash.1 slash.2 finishes
      · rename_i noSlash
        split at stepped
        · rename_i bracket
          rcases exists_of_bind stepped with ⟨finished, finishes, rfl⟩
          exact .propertyBracket ready activity bracket finishes
        · rename_i noBracket
          cases stepped
          refine .pushed ready ?_
          rw [activity]
          exact .property activity ⟨noEquals, noBracket, by simpa using noBlank⟩ noSlash

theorem reads_of_quotedStep {named : Bool} {mark : Char} (ready : scan.skip = 0)
    (activity : scan.activity = .properties (.quoted named mark)) :
    Reads input scan character following (scan.quotedStep named mark character) := by
  unfold quotedStep
  split
  · rename_i quote
    exact .quotedEnd ready activity quote
  · rename_i inside
    refine .pushed ready ?_
    rw [activity]
    exact .quoted activity inside

theorem reads_of_bracedStep {depth : Nat} {content : Content} (ready : scan.skip = 0)
    (activity : scan.activity = .properties (.braced depth content))
    (stepped : scan.bracedStep input depth content character following = .ok next) :
    Reads input scan character following next := by
  unfold bracedStep at stepped
  split at stepped
  · rename_i brace
    have noTag : ¬ (character = '<' ∧ Lookahead.opensElement following) := by simp [brace]
    cases depth with
    | zero =>
        cases stepped
        exact .valueEnd ready activity brace
    | succ depth =>
        cases stepped
        exact .buffered ready (.value activity (.closing brace) noTag)
  · rename_i noClosing
    split at stepped
    · rename_i brace
      have noTag : ¬ (character = '<' ∧ Lookahead.opensElement following) := by simp [brace]
      cases stepped
      exact .buffered ready (.value activity (.opening brace) noTag)
    · rename_i noOpening
      split at stepped
      · rename_i opens
        change (do
          let entered ← (scan.cutBeforeElement content).1.enter input
          return { entered.startTag with
            levels := .value depth (scan.cutBeforeElement content).2 :: scan.levels }) =
          Except.ok next at stepped
        rcases exists_of_bind stepped with ⟨entered, enters, rfl⟩
        have room := lt_of_enter enters
        cases eq_of_enter enters
        simp only [calls_cutBeforeElement] at room ⊢
        exact .valueTag ready activity opens.1 opens.2 room
      · rename_i noTag
        cases stepped
        refine .pushed ready ?_
        rw [activity]
        exact .value activity (.other ⟨noClosing, noOpening⟩) noTag

theorem reads_of_childTextStep (ready : scan.skip = 0)
    (activity : scan.activity = .children .text) :
    Reads input scan character following (scan.childTextStep character following) := by
  unfold childTextStep
  split
  · rename_i brace
    exact .codeStart ready activity brace
  · rename_i noBrace
    split
    · rename_i opens
      exact .textTag ready activity opens.1 opens.2
    · rename_i noTag
      refine .pushed ready ?_
      rw [activity]
      exact .text activity noBrace noTag

theorem reads_of_childCodeStep {depth : Nat} {holdsElements : Bool} (ready : scan.skip = 0)
    (activity : scan.activity = .children (.code depth holdsElements)) :
    Reads input scan character following
      (scan.childCodeStep depth holdsElements character following) := by
  unfold childCodeStep
  split
  · rename_i brace
    have noTag : ¬ (character = '<' ∧ Lookahead.opensTag following) := by simp [brace]
    cases depth with
    | zero =>
        cases holdsElements with
        | true => exact .regionEnd ready activity brace
        | false => exact .codeEnd ready activity brace
    | succ depth => exact .buffered ready (.code activity (.closing brace) noTag)
  · rename_i noClosing
    split
    · rename_i brace
      have noTag : ¬ (character = '<' ∧ Lookahead.opensTag following) := by simp [brace]
      exact .buffered ready (.code activity (.opening brace) noTag)
    · rename_i noOpening
      split
      · rename_i opens
        cases holdsElements with
        | true => exact .furtherTag ready activity opens.1 opens.2
        | false => exact .firstTag ready activity opens.1 opens.2
      · rename_i noTag
        refine .pushed ready ?_
        rw [activity]
        exact .code activity (.other ⟨noClosing, noOpening⟩) noTag

/-- Scanning follows the rules. -/
theorem reads_of_step (stepped : scan.step input character following = .ok next) :
    Reads input scan character following next := by
  unfold step at stepped
  split at stepped
  · rename_i skip skips
    cases stepped
    exact .skipped skips
  · rename_i ready
    split at stepped
    · exact reads_of_codeStep ready (by assumption) stepped
    · exact reads_of_tagStep ready (by assumption) stepped
    · exact reads_of_outsideStep ready (by assumption) stepped
    · cases stepped
      exact reads_of_quotedStep ready (by assumption)
    · exact reads_of_bracedStep ready (by assumption) stepped
    · cases stepped
      exact reads_of_childTextStep ready (by assumption)
    · cases stepped
      exact reads_of_childCodeStep ready (by assumption)

end Scan

end ElementScript
