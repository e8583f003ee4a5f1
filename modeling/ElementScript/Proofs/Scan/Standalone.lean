import ElementScript.Proofs.Scan.Failure
import ElementScript.Proofs.Scan.Growth
import ElementScript.Proofs.Scan.Kinds
import ElementScript.Proofs.Scan.Progress

/-! # Properties without a value

The text of a property without a value ends at a blank or at the end of the tag, and only the end of
the tag looks at the text: there it has to be a plain name or a spread. A blank cuts whatever stands
before it, because an `=` may still follow.

`Scan.names` are the names that a scan has cut, and `Reads.names` says at which characters one is
added to them. So every name of a source is one of a few (`Token.IsNameIn`), and a text that stands
alone is reported exactly if it is neither a name nor a spread and no blank follows it
(`standalone_text_reported_iff`).
-/

namespace ElementScript

/-- Whether a text begins with the end of a tag. -/
def Text.ClosesTag (rest : Text) : Prop :=
  ∃ others, rest = '>' :: others ∨ rest = '/' :: '>' :: others

/-- Whether a text among the properties of a tag stands alone before what follows it: no `=` is in
it, and a blank or the end of the tag ends it. -/
structure Text.StandsAlone (text ending : Text) : Prop where
  plain : ∀ character ∈ text,
    character ≠ '=' ∧ character ≠ '>' ∧ Text.isBlank character = false
  slash : text.getLast? = some '/' → ending.head? ≠ some '>'
  ends : ending.ClosesTag ∨ ∃ blank others, ending = blank :: others ∧ Text.isBlank blank

/-- How the name of a property can have been cut from a text. -/
inductive Token.IsNameIn (source : Text) (token : Token) : Prop where
  | beforeEquals {before rest : Text} (split : source = before ++ token.text ++ '=' :: rest)
      (offset : token.offset = before.length) : IsNameIn source token
  | beforeBlank {before rest : Text} {blank : Char}
      (split : source = before ++ token.text ++ blank :: rest) (isBlank : Text.isBlank blank)
      (offset : token.offset = before.length) : IsNameIn source token
  | beforeEnd {before written rest : Text} (split : source = before ++ written ++ rest)
      (trimmed : token.text = written.trim) (ends : rest.ClosesTag)
      (offset : token.offset = before.length)
      (standalone : PropertyName.isStandalone token.text) : IsNameIn source token
  /-- A literal that no name waits for. -/
  | literal {before written rest : Text} (split : source = before ++ written ++ rest)
      (quoted : token.text = written.quote) (offset : token.offset = before.length) :
      IsNameIn source token

namespace Scan

/-! ## The names that are cut -/

/-- The names of properties among the tokens of a scan. -/
def names (scan : Scan) : List Token :=
  scan.tokens.toList.filter (·.kind = .propertyName)

/-- How a scan cuts the name of a property at a character. -/
inductive CutsName (scan : Scan) (character : Char) (following : Text) : Token → Prop where
  | equals (equals : character = '=') : CutsName scan character following
      { kind := .propertyName, text := scan.text, offset := scan.offset scan.position }
  | blank (blank : Text.isBlank character) : CutsName scan character following
      { kind := .propertyName, text := scan.text, offset := scan.offset scan.position }
  | ending (ends : Text.ClosesTag (character :: following))
      (standalone : PropertyName.isStandalone scan.text.trim) :
      CutsName scan character following
        { kind := .propertyName, text := scan.text.trim, offset := scan.offset scan.position }
  | quote : CutsName scan character following
      { kind := .propertyName, text := scan.text.quote, offset := scan.offset scan.position }

section Names

variable (scan : Scan) (stop : Nat)

/-- What is buffered is cut as a name if it is more than whitespace. -/
theorem names_flushSolid_name :
    (scan.flushSolid .propertyName stop).names = scan.names ∨
      (scan.flushSolid .propertyName stop).names = scan.names ++
        [{ kind := .propertyName, text := scan.text, offset := scan.offset stop }] := by
  unfold flushSolid
  split
  · exact Or.inl rfl
  · exact Or.inr (by simp [names])

theorem names_finishProperties {input : ScanInput} {scan finished : Scan} {named : Bool}
    (ok : scan.finishProperties input named = .ok finished) :
    finished.names = scan.names ∨
      finished.names = scan.names ++
          [{ kind := .propertyName, text := scan.text.trim
             offset := scan.offset scan.position }] ∧
        PropertyName.isStandalone scan.text.trim := by
  unfold finishProperties at ok
  simp only at ok
  split at ok
  · cases ok
    exact Or.inl rfl
  · split at ok
    · rename_i standalone
      cases ok
      cases named with
      | true => exact Or.inl (scan.ofKind_emit (by simp [propertyKind]) _ _)
      | false => exact Or.inr ⟨by simp [names, clear, propertyKind], standalone⟩
    · cases ok

end Names

variable {input : ScanInput} {scan next : Scan} {character : Char} {following : Text}

/-- A step cuts no name, or one of those that can be cut at its character. -/
theorem Reads.names (reads : Reads input scan character following next) :
    next.names = scan.names ∨
      ∃ state token, scan.activity = .properties state ∧ next.names = scan.names ++ [token] ∧
        scan.CutsName character following token := by
  cases reads with
  | skipped skips => exact Or.inl rfl
  | buffered ready buffers => exact Or.inl rfl
  | closingBlank ready activity blank => exact Or.inl rfl
  | scriptTag ready activity bracket opens room =>
      exact Or.inl (scan.ofKind_flushSome _ (by simp))
  | valueTag ready activity bracket opens room => exact Or.inl (scan.ofKind_cutBeforeElement rfl _)
  | textTag ready activity bracket opens => exact Or.inl (scan.ofKind_flushChild _ (by simp) (by simp))
  | firstTag ready activity bracket opens => exact Or.inl (scan.ofKind_flush _ (by simp))
  | furtherTag ready activity bracket opens => exact Or.inl (scan.ofKind_flushSome _ (by simp))
  | tagBracket ready activity bracket =>
      exact Or.inl ((scan.push character).ofKind_flush _ (by simp))
  | tagBlank ready activity blank => exact Or.inl (scan.ofKind_flush _ (by simp))
  | tagSlash ready activity slash bracket =>
      exact Or.inl ((ofKind_closeSelf _ (by simp)).trans (scan.ofKind_flush _ (by simp)))
  | closingBracket ready activity bracket =>
      left
      rw [Scan.names, tokens_resume]
      exact (scan.push character).ofKind_flush _ (by simp)
  | @equals named ready activity equals =>
      rcases scan.exists_equalsStep named following with ⟨skip, state, result, -⟩
      rw [result]
      rcases scan.names_flushSolid_name scan.position with same | longer
      · exact Or.inl same
      · exact Or.inr ⟨_, _, activity, longer, .equals equals⟩
  | @propertyBlank named ready activity blank =>
      cases named with
      | true => exact Or.inl (scan.ofKind_flushSolid _ (by simp [propertyKind]))
      | false =>
          rcases scan.names_flushSolid_name scan.position with same | longer
          · exact Or.inl same
          · exact Or.inr ⟨_, _, activity, longer, .blank blank⟩
  | @propertySlash named finished ready activity slash bracket finishes =>
      have ends : Text.ClosesTag (character :: following) := by
        rcases List.head?_eq_some_iff.mp bracket with ⟨others, rfl⟩
        exact ⟨others, Or.inr (by rw [slash])⟩
      have closed : finished.closeSelf.names = finished.names := finished.ofKind_closeSelf (by simp)
      rw [closed]
      rcases names_finishProperties finishes with same | ⟨longer, standalone⟩
      · exact Or.inl same
      · exact Or.inr ⟨_, _, activity, longer, .ending ends standalone⟩
  | @propertyBracket named finished ready activity bracket finishes =>
      have ends : Text.ClosesTag (character :: following) :=
        ⟨following, Or.inl (by rw [bracket])⟩
      rcases names_finishProperties finishes with same | ⟨longer, standalone⟩
      · exact Or.inl same
      · exact Or.inr ⟨_, _, activity, longer, .ending ends standalone⟩
  | @quotedEnd named mark ready activity quote =>
      cases named with
      | true => exact Or.inl (scan.ofKind_emit (by simp [propertyKind]) _ _)
      | false => exact Or.inr ⟨_, _, activity, by simp [Scan.names, clear, propertyKind], .quote⟩
  | valueEnd ready activity brace => exact Or.inl (scan.ofKind_closeValue rfl _)
  | codeStart ready activity brace => exact Or.inl (scan.ofKind_flushChild _ (by simp) (by simp))
  | codeEnd ready activity brace => exact Or.inl (scan.ofKind_flushChild _ (by simp) (by simp))
  | regionEnd ready activity brace => exact Or.inl (scan.ofKind_flush _ (by simp))

/-- A name that is cut stands in the text. -/
theorem CutsName.isNameIn {source read : Text} {token : Token}
    (cuts : scan.CutsName character following token)
    (holds : scan.Holds source read (character :: following))
    (opened : scan.activity ≠ .tag true) : token.IsNameIn source := by
  rcases holds.suffix opened with ⟨before, rfl⟩
  have split := holds.split
  have start : scan.offset scan.position = before.length := by
    rw [offset, holds.position, List.length_append]
    exact Nat.add_sub_cancel _ _
  cases cuts with
  | equals equals =>
      subst equals
      exact .beforeEquals split start
  | blank blank => exact .beforeBlank split blank start
  | ending ends standalone => exact .beforeEnd split rfl ends start standalone
  | quote => exact .literal split rfl start

theorem Reaches.names_isNameIn {source read text rest : Text}
    (reaches : Reaches input scan text next rest) (holds : scan.Holds source read text)
    (named : ∀ token ∈ scan.names, token.IsNameIn source) :
    ∀ token ∈ next.names, token.IsNameIn source := by
  induction reaches with
  | refl => exact named
  | @step middle reached character rest before stepped induction =>
      intro token member
      rcases (reads_of_step stepped).names with same | ⟨state, cut, activity, longer, cuts⟩
      · exact induction token (same ▸ member)
      · change token ∈ reached.names at member
        rw [longer, List.mem_append, List.mem_singleton] at member
        rcases member with member | rfl
        · exact induction token member
        · rcases before.holds holds with ⟨read, holdsThen⟩
          exact cuts.isNameIn holdsThen (by simp [activity])

/-! ## Texts that stand alone -/

/-- Whether the text of a property may begin: nothing is buffered, and no name waits for a value. -/
structure BeginsProperty (scan : Scan) : Prop where
  ready : scan.skip = 0
  empty : scan.buffer = #[]
  activity : scan.activity = .properties (.outside false)

/-- The scan behind a text that it has buffered. -/
def reading (scan : Scan) (text : Text) : Scan :=
  { scan with
    buffer := scan.buffer ++ text.toArray
    position := scan.position + text.length }

variable {text ending : Text}

theorem reaches_reading {named : Bool} (ready : scan.skip = 0)
    (activity : scan.activity = .properties (.outside named))
    (plain : ∀ character ∈ text,
      character ≠ '=' ∧ character ≠ '>' ∧ Text.isBlank character = false)
    (slash : text.getLast? = some '/' → ending.head? ≠ some '>') :
    Reaches input scan (text ++ ending) (scan.reading text) ending := by
  induction text generalizing scan with
  | nil =>
      have same : scan.reading [] = scan := by simp [reading]
      rw [same]
      exact .refl
  | cons character text induction =>
      have first := plain character List.mem_cons_self
      have noSlash : ¬ (character = '/' ∧ (text ++ ending).head? = some '>') := by
        rintro ⟨rfl, bracket⟩
        cases text with
        | nil => exact slash rfl bracket
        | cons second others =>
            cases bracket
            exact (plain '>' (by simp)).2.1 rfl
      have stepped : scan.step input character (text ++ ending) = .ok (scan.push character) := by
        simp only [step, ready, activity, outsideStep, first, noSlash]
        simp
      have further : Reaches input (scan.push character).advance (text ++ ending)
          ((scan.push character).advance.reading text) ending := by
        refine @induction (scan.push character).advance ready activity ?_ ?_
        · exact fun other member => plain other (List.mem_cons_of_mem _ member)
        · intro last
          apply slash
          cases text with
          | nil => cases last
          | cons second others => exact last
      have same : (scan.push character).advance.reading text = scan.reading (character :: text) := by
        simp only [reading, advance, push, List.length_cons, Scan.mk.injEq, true_and, and_true]
        exact ⟨by omega, by simp⟩
      rw [same] at further
      exact (Reaches.step .refl stepped).trans further

/-- Whether a scan gets past the text of a property: what is buffered later starts behind it, and the
text is cut if it is more than whitespace. -/
def GetsPast (input : ScanInput) (scan : Scan) (text ending cut : Text) : Prop :=
  ∃ next rest, Reaches input scan (text ++ ending) next rest ∧
    scan.position < next.offset next.position ∧
    (text.isAllWhitespace = false →
      { kind := .propertyName, text := cut, offset := scan.position } ∈ next.tokens.toList)

theorem BeginsProperty.text_reading (begins : scan.BeginsProperty) (text : Text) :
    (scan.reading text).text = text := by
  simp [Scan.text, reading, begins.empty]

theorem BeginsProperty.offset_reading (begins : scan.BeginsProperty) (text : Text) :
    (scan.reading text).offset (scan.reading text).position = scan.position := by
  simp [offset, reading, begins.empty]

theorem BeginsProperty.reaches (begins : scan.BeginsProperty) (alone : text.StandsAlone ending) :
    Reaches input scan (text ++ ending) (scan.reading text) ending :=
  reaches_reading begins.ready begins.activity alone.plain alone.slash

theorem BeginsProperty.getsPast {next : Scan} {others cut : Text} (begins : scan.BeginsProperty)
    (alone : text.StandsAlone (character :: others))
    (stepped : (scan.reading text).step input character others = .ok next)
    (position : next.position = (scan.reading text).position) (empty : next.buffer = #[])
    (cuts : text.isAllWhitespace = false →
      { kind := .propertyName, text := cut, offset := scan.position } ∈ next.tokens.toList) :
    scan.GetsPast input text (character :: others) cut := by
  refine ⟨next.advance, others, .step (begins.reaches alone) stepped, ?_, cuts⟩
  simp only [offset, advance, empty, position, reading, List.size_toArray, List.length_nil]
  omega

/-- A blank cuts the text before it, whatever it is. -/
theorem BeginsProperty.getsPast_blank {blank : Char} {others : Text}
    (begins : scan.BeginsProperty) (alone : text.StandsAlone (blank :: others))
    (isBlank : Text.isBlank blank) : scan.GetsPast input text (blank :: others) text := by
  have unequal : blank ≠ '=' := by
    rintro rfl
    cases isBlank
  have stepped : (scan.reading text).step input blank others =
      .ok { (scan.reading text).flushSolid .propertyName (scan.reading text).position with
        activity := .properties (.outside false) } := by
    have ready : (scan.reading text).skip = 0 := begins.ready
    have activity : (scan.reading text).activity = .properties (.outside false) :=
      begins.activity
    simp [step, ready, activity, outsideStep, unequal, isBlank, propertyKind]
  refine begins.getsPast alone stepped (by simp) (by simp) ?_
  intro solid
  simp only [flushSolid, begins.text_reading, solid, Bool.false_eq_true, if_false,
    toList_tokens_flush, begins.offset_reading]
  exact List.mem_append_right _ (List.mem_singleton_self _)

/-- The end of a tag looks at the text before it. -/
theorem BeginsProperty.finishProperties_reading (begins : scan.BeginsProperty) (text : Text) :
    (scan.reading text).finishProperties input false =
      if text.isAllWhitespace then .ok (scan.reading text).clear
      else if PropertyName.isStandalone text.trim then
        .ok ((scan.reading text).emit .propertyName text.trim scan.position).clear
      else .error (.unhandledProperty text.trim (.locate input.source scan.position)) := by
  have empty : text.trim.isEmpty = text.isAllWhitespace := by
    rw [Bool.eq_iff_iff, List.isEmpty_iff, Text.trim_eq_nil_iff]
  unfold finishProperties
  simp only [begins.text_reading, begins.offset_reading, propertyKind, empty]
  rfl

theorem BeginsProperty.exists_finished (begins : scan.BeginsProperty)
    (standalone : PropertyName.isStandalone text.trim) :
    ∃ finished, (scan.reading text).finishProperties input false = .ok finished ∧
      (text.isAllWhitespace = false →
        { kind := .propertyName, text := text.trim, offset := scan.position } ∈
          finished.tokens.toList) := by
  rw [begins.finishProperties_reading, if_pos standalone]
  split
  · rename_i white
    exact ⟨_, rfl, by simp [white]⟩
  · exact ⟨_, rfl, fun _ => by simp [clear]⟩

/-- The end of a tag cuts a name or a spread. -/
theorem BeginsProperty.getsPast_end (begins : scan.BeginsProperty)
    (alone : text.StandsAlone ending) (closes : ending.ClosesTag)
    (standalone : PropertyName.isStandalone text.trim) :
    scan.GetsPast input text ending text.trim := by
  have ready : (scan.reading text).skip = 0 := begins.ready
  have activity : (scan.reading text).activity = .properties (.outside false) := begins.activity
  have found := @BeginsProperty.exists_finished input scan text begins standalone
  rcases found with ⟨finished, finishes, cuts⟩
  have frame := finishProperties_frame finishes
  rcases closes with ⟨others, rfl | rfl⟩
  · have stepped := @step_outside_bracket input others _ _ ready activity
    rw [finishes] at stepped
    exact begins.getsPast alone stepped frame.1 frame.2.1 cuts
  · have stepped := @step_outside_slash input others _ _ ready activity
    rw [finishes] at stepped
    refine begins.getsPast alone stepped ?_ ?_ ?_
    · simpa [closeSelf, emit] using frame.1
    · simpa [closeSelf, emit] using frame.2.1
    · intro solid
      exact (isPrefix_closeSelf finished).subset (cuts solid)

/-- The end of a tag reports any other text. -/
theorem BeginsProperty.run_unhandled (begins : scan.BeginsProperty)
    (alone : text.StandsAlone ending) (closes : ending.ClosesTag)
    (other : PropertyName.isStandalone text.trim = false) :
    scan.run input (text ++ ending) =
      .error (.unhandledProperty text.trim (.locate input.source scan.position)) := by
  have ready : (scan.reading text).skip = 0 := begins.ready
  have activity : (scan.reading text).activity = .properties (.outside false) := begins.activity
  have solid : text.isAllWhitespace = false := by
    by_contra white
    rw [Bool.not_eq_false, ← Text.trim_eq_nil_iff] at white
    rw [white] at other
    cases other
  have failed : (scan.reading text).finishProperties input false =
      .error (.unhandledProperty text.trim (.locate input.source scan.position)) := by
    simp [begins.finishProperties_reading, solid, other]
  rw [(begins.reaches alone).run_eq]
  rcases closes with ⟨others, rfl | rfl⟩
  · rw [run, step_outside_bracket ready activity, failed]
    rfl
  · rw [run, step_outside_slash ready activity, failed]
    rfl

end Scan

/-! ## Whole sources -/

variable {source : Text} {ceiling : Nat}

/-- What holds of a source whose scan gets past the text of a property. -/
theorem tokenize_of_getsPast {scan : Scan} {text ending cut : Text}
    (reaches : Scan.Reaches { source, ceiling } {} (Comment.strip source) scan (text ++ ending))
    (past : scan.GetsPast { source, ceiling } text ending cut) :
    (∀ value, tokenize source ceiling ≠
      .error (.unhandledProperty value (.locate source scan.position))) ∧
    ∀ tokens, tokenize source ceiling = .ok tokens → text.isAllWhitespace = false →
      { kind := .propertyName, text := cut, offset := scan.position } ∈ tokens := by
  rcases past with ⟨next, rest, further, behind, cuts⟩
  have whole := reaches.trans further
  constructor
  · intro value failed
    have ran : next.run { source, ceiling } rest =
        .error (.unhandledProperty value (.locate source scan.position)) := by
      rw [tokenize, whole.run_eq] at failed
      split at failed
      · rename_i ran
        cases failed
        exact ran
      · cases failed
    rcases whole.holds (Scan.holds_initial _) with ⟨read, holds⟩
    have located := (Scan.lies_of_run holds ran rfl).2
    exact absurd located (Nat.not_le_of_lt behind)
  · intro tokens tokenized solid
    rcases tokenize_eq_ok_iff.mp tokenized with ⟨final, ran, rfl⟩
    rw [whole.run_eq] at ran
    exact Scan.mem_finish_of_run ran (cuts solid)

theorem Text.not_closesTag_of_blank {blank : Char} {others : Text}
    (isBlank : Text.isBlank blank) : ¬ Text.ClosesTag (blank :: others) := by
  rintro ⟨rest, bracket | slash⟩
  · cases bracket
    cases isBlank
  · cases slash
    cases isBlank

theorem isNameIn_of_tokenize {tokens : List Token} {token : Token}
    (tokenized : tokenize source ceiling = .ok tokens) (member : token ∈ tokens)
    (name : token.kind = .propertyName) : token.IsNameIn (Comment.strip source) := by
  rcases tokenize_eq_ok_iff.mp tokenized with ⟨final, ran, rfl⟩
  have cut : token ∈ final.names := by
    change token ∈ final.ofKind .propertyName
    rw [← final.filter_finish (by decide), List.mem_filter]
    exact ⟨member, decide_eq_true name⟩
  have none : ∀ other ∈ ({} : Scan).names, other.IsNameIn (Comment.strip source) := by
    intro other absent
    cases absent
  exact (Scan.Reaches.of_run ran).names_isNameIn (Scan.holds_initial _) none token cut

/-- A text that stands alone among the properties of a tag is checked only where the tag ends. Every
name of a property is cut before an `=`, before a blank, or as a name or a spread before the end of
a tag, unless it is a literal that no name waits for. A text without a value is reported exactly if
the tag ends right behind it and it is neither a plain name nor a spread; before a blank it is cut as
it stands, whatever it is. -/
theorem standalone_text_reported_iff (source : Text) (ceiling : Nat) :
    (∀ tokens, tokenize source ceiling = .ok tokens →
      ∀ token ∈ tokens, token.kind = .propertyName → token.IsNameIn (Comment.strip source)) ∧
    ∀ scan text ending,
      Scan.Reaches { source, ceiling } {} (Comment.strip source) scan (text ++ ending) →
      scan.BeginsProperty → text.StandsAlone ending →
        (tokenize source ceiling =
            .error (.unhandledProperty text.trim (.locate source scan.position)) ↔
          ending.ClosesTag ∧ PropertyName.isStandalone text.trim = false) ∧
        ∀ tokens, tokenize source ceiling = .ok tokens → text.isAllWhitespace = false →
          (¬ ending.ClosesTag →
            { kind := .propertyName, text, offset := scan.position } ∈ tokens) ∧
          (ending.ClosesTag →
            { kind := .propertyName, text := text.trim, offset := scan.position } ∈ tokens) := by
  refine ⟨fun tokens tokenized token member => isNameIn_of_tokenize tokenized member, ?_⟩
  intro scan text ending reaches begins alone
  rcases alone.ends with closes | ⟨blank, others, rfl, isBlank⟩
  · cases standalone : PropertyName.isStandalone text.trim with
    | false =>
        have failed : tokenize source ceiling =
            .error (.unhandledProperty text.trim (.locate source scan.position)) := by
          rw [tokenize, reaches.run_eq, begins.run_unhandled alone closes standalone]
        refine ⟨by simp [failed, closes], fun tokens tokenized => ?_⟩
        rw [failed] at tokenized
        cases tokenized
    | true =>
        have past := tokenize_of_getsPast reaches (begins.getsPast_end alone closes standalone)
        refine ⟨by simp [past.1], fun tokens tokenized solid => ?_⟩
        exact ⟨fun goesOn => absurd closes goesOn, fun _ => past.2 tokens tokenized solid⟩
  · have goesOn := @Text.not_closesTag_of_blank blank others isBlank
    have past := tokenize_of_getsPast reaches (begins.getsPast_blank alone isBlank)
    refine ⟨by simp [past.1, goesOn], fun tokens tokenized solid => ?_⟩
    exact ⟨fun _ => past.2 tokens tokenized solid, fun closes => absurd closes goesOn⟩

/-- The same text before the end of a tag and before a blank. -/
theorem standalone_text_reported_iff_samples :
    let reported : Text := "<a b!/>".toList
    let passed : Text := "<a b! />".toList
    (∃ scan, Scan.Reaches { source := reported, ceiling := 1 } {} (Comment.strip reported) scan
        ("b!".toList ++ "/>".toList) ∧ scan.BeginsProperty ∧ scan.position = 3) ∧
      Text.StandsAlone "b!".toList "/>".toList ∧
      tokenize reported 1 = .error (.unhandledProperty "b!".toList (.locate reported 3)) ∧
    (∃ scan, Scan.Reaches { source := passed, ceiling := 1 } {} (Comment.strip passed) scan
        ("b!".toList ++ " />".toList) ∧ scan.BeginsProperty ∧ scan.position = 3) ∧
      Text.StandsAlone "b!".toList " />".toList ∧
      ∃ tokens, tokenize passed 1 = .ok tokens ∧
        { kind := .propertyName, text := "b!".toList, offset := 3 } ∈ tokens := by
  intro reported passed
  have before : ∃ scan, Scan.Reaches { source := reported, ceiling := 1 } {}
      (Comment.strip reported) scan ("b!".toList ++ "/>".toList) ∧ scan.BeginsProperty ∧
        scan.position = 3 :=
    ⟨_, .step (.step (.step .refl rfl) rfl) rfl, ⟨rfl, rfl, rfl⟩, rfl⟩
  have beforeBlank : ∃ scan, Scan.Reaches { source := passed, ceiling := 1 } {}
      (Comment.strip passed) scan ("b!".toList ++ " />".toList) ∧ scan.BeginsProperty ∧
        scan.position = 3 :=
    ⟨_, .step (.step (.step .refl rfl) rfl) rfl, ⟨rfl, rfl, rfl⟩, rfl⟩
  have alone : Text.StandsAlone "b!".toList "/>".toList :=
    ⟨by simp [Text.isBlank], by simp, Or.inl ⟨[], Or.inr rfl⟩⟩
  have aloneBlank : Text.StandsAlone "b!".toList " />".toList :=
    ⟨by simp [Text.isBlank], by simp, Or.inr ⟨' ', _, rfl, rfl⟩⟩
  refine ⟨before, alone, ?_, beforeBlank, aloneBlank, ?_⟩
  · rcases before with ⟨scan, reaches, begins, position⟩
    have reports := (standalone_text_reported_iff reported 1).2 scan _ _ reaches begins alone
    rw [position] at reports
    exact reports.1.mpr ⟨⟨[], Or.inr rfl⟩, by decide⟩
  · rcases beforeBlank with ⟨scan, reaches, begins, position⟩
    have cut := (standalone_text_reported_iff passed 1).2 scan _ _ reaches begins aloneBlank
    rw [position] at cut
    exact ⟨_, rfl, (cut.2 _ rfl (by decide)).1 (Text.not_closesTag_of_blank rfl)⟩

end ElementScript
