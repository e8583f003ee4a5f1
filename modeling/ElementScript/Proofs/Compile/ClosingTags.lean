import Mathlib.Data.List.Basic
import Mathlib.Tactic.SplitIfs
import ElementScript.Compile
import ElementScript.Proofs.Scan.Kinds
import ElementScript.Proofs.Scan.Progress
import ElementScript.Proofs.Tree.Failure

/-! # Where closing tags are

Blanks in a closing tag are read and not buffered, but the offset of its token is counted back from
the tag's end by the length of what was buffered. So the token starts as many characters behind the
`<` of the tag as the tag has blanks (`ClosingTag.token`). It points at the `<` exactly if there are
none, because a closing tag holds no second slash that could be taken for the first
(`ClosingTag.points_iff`). An error that a closing tag has the wrong name is located at its token, so
it is located at the tag under the same condition (`Options.closing_tags_located_iff`).
-/

namespace ElementScript

/-- A closing tag as it stands in a text. -/
structure ClosingTag (source : Text) where
  start : Nat
  /-- The characters between the `</` and the `>`. -/
  inner : Text
  stands : source.StandsAt ('<' :: '/' :: (inner ++ ['>'])) start
  plain : ∀ character ∈ inner, character ≠ '/' ∧ character ≠ '>'

namespace ClosingTag

variable {source : Text} (tag : ClosingTag source)

/-- The token that is cut from a closing tag. -/
def token : Token where
  kind := .elementEnd
  text := '<' :: '/' :: (tag.inner.filter (!Text.isBlank ·) ++ ['>'])
  offset := tag.start + tag.inner.countP Text.isBlank

/-- Whether a closing tag has no blanks. -/
def IsTight : Prop :=
  ∀ character ∈ tag.inner, Text.isBlank character = false

theorem countP_eq_zero_iff : tag.inner.countP Text.isBlank = 0 ↔ tag.IsTight := by
  simp [List.countP_eq_zero, IsTight]

theorem getElem?_tag (index : Nat) (inside : index < tag.inner.length + 3) :
    source[tag.start + index]? = ('<' :: '/' :: (tag.inner ++ ['>']))[index]? := by
  have slice := congrArg (·[index]?) tag.stands.2
  have within : index < ('<' :: '/' :: (tag.inner ++ ['>'])).length := by
    simp only [List.length_cons, List.length_append, List.length_nil]
    omega
  simp only [List.getElem?_take, List.getElem?_drop] at slice
  rwa [if_pos within] at slice

/-- Behind its first two characters a closing tag has no slash. -/
theorem ne_slash (index : Nat) (behind : 1 < index) (inside : index < tag.inner.length + 3) :
    source[tag.start + index]? ≠ some '/' := by
  rw [tag.getElem?_tag index inside]
  obtain ⟨index, rfl⟩ := Nat.exists_eq_add_of_le behind
  rw [Nat.add_comm, List.getElem?_cons_succ, List.getElem?_cons_succ]
  intro slash
  rcases List.mem_append.mp (List.mem_of_getElem? slash) with member | last
  · exact (tag.plain '/' member).1 rfl
  · cases List.mem_singleton.mp last

/-- The token of a closing tag points at its first two characters exactly if it has no blanks. -/
theorem points_iff :
    source[tag.token.offset]? = some '<' ∧ source[tag.token.offset + 1]? = some '/' ↔
      tag.IsTight := by
  rw [← tag.countP_eq_zero_iff]
  have bounded := tag.inner.countP_le_length (p := Text.isBlank)
  constructor
  · rintro ⟨-, slash⟩
    by_contra blanks
    exact tag.ne_slash (tag.inner.countP Text.isBlank + 1) (by omega) (by omega) slash
  · intro none
    have start : tag.token.offset = tag.start := by simp [token, none]
    rw [start]
    exact ⟨tag.getElem?_tag 0 (by omega), tag.getElem?_tag 1 (by omega)⟩

end ClosingTag

namespace Scan

/-! ## Reading closing tags -/

variable {input : ScanInput} {scan next : Scan} {character : Char}
  {source read following text rest : Text} {token : Token}

/-- What a scan that is reading a closing tag has buffered: the tag without its blanks. -/
def BuffersClosingTag (read : Text) (scan : Scan) : Prop :=
  scan.activity = .tag true → ∃ before inner, read = before ++ '<' :: '/' :: inner ∧
    scan.text = '<' :: '/' :: inner.filter (!Text.isBlank ·) ∧
    ∀ character ∈ inner, character ≠ '/' ∧ character ≠ '>'

/-- Only a slash right behind a `<` starts a closing tag, and only names and blanks are read in
one. -/
theorem Reads.buffersClosingTag (reads : Reads input scan character following next)
    (holds : scan.Holds source read (character :: following))
    (buffers : scan.BuffersClosingTag read) :
    next.advance.BuffersClosingTag (read ++ [character]) := by
  intro isClosing
  change next.activity = .tag true at isClosing
  cases reads with
  | skipped skips =>
      rcases buffers isClosing with ⟨before, inner, -, buffered, -⟩
      rw [text, holds.idle (by omega)] at buffered
      cases buffered
  | @buffered activity ready pushes =>
      cases isClosing
      cases pushes with
      | @slash closing isTag first slash =>
          have opened : scan.activity ≠ .tag true := by
            intro closes
            rcases buffers closes with ⟨before, inner, -, buffered, -⟩
            simp [text, first] at buffered
          rcases holds.suffix opened with ⟨before, rfl⟩
          refine ⟨before, [], ?_, ?_, by simp⟩
          · simp [text, first, slash]
          · simp [text, advance, push, first, slash]
      | name isTag plain =>
          rcases buffers isTag with ⟨before, inner, rfl, buffered, others⟩
          refine ⟨before, inner ++ [character], by simp, ?_, ?_⟩
          · rw [text] at buffered
            simp [text, advance, push, buffered, plain]
          · simpa [or_imp, forall_and, plain] using others
  | closingBlank ready activity blank =>
      rcases buffers activity with ⟨before, inner, rfl, buffered, others⟩
      refine ⟨before, inner ++ [character], by simp, ?_, ?_⟩
      · rw [text] at buffered
        simp [text, advance, buffered, blank]
      · have plain : character ≠ '/' ∧ character ≠ '>' := by
          constructor <;> rintro rfl <;> cases blank
        simpa [or_imp, forall_and, plain] using others
  | scriptTag | valueTag | textTag | firstTag | furtherTag | tagBracket | tagBlank |
    propertyBlank | propertyBracket | quotedEnd | valueEnd | codeStart | codeEnd | regionEnd =>
      cases isClosing
  | tagSlash | closingBracket | propertySlash =>
      exact absurd isClosing (activity_resume_ne_tag _ _ _)
  | @equals named ready activity equals =>
      rcases scan.exists_equalsStep named following with ⟨skip, state, result, -⟩
      rw [result] at isClosing
      cases isClosing

/-! ## The tokens of closing tags -/

/-- How a scan cuts the end of an element at a character. -/
inductive CutsEnd (scan : Scan) (character : Char) : Token → Prop where
  | slash (offset : Nat) :
      CutsEnd scan character { kind := .elementEnd, text := ['/', '>'], offset }
  | closing (activity : scan.activity = .tag true) (bracket : character = '>') :
      CutsEnd scan character
        { kind := .elementEnd, text := (scan.push character).text
          offset := (scan.push character).offset (scan.position + 1) }

theorem ofKind_closeSelf_end (scan : Scan) :
    scan.closeSelf.ofKind .elementEnd = scan.ofKind .elementEnd ++
      [{ kind := .elementEnd, text := ['/', '>'], offset := scan.position }] := by
  simp [ofKind, closeSelf]

theorem propertyKind_ne_elementEnd (named : Bool) : propertyKind named ≠ .elementEnd := by
  cases named <;> decide

theorem ofKind_finishProperties {named : Bool} {finished : Scan}
    (ok : scan.finishProperties input named = .ok finished) :
    finished.ofKind .elementEnd = scan.ofKind .elementEnd := by
  unfold finishProperties at ok
  simp only at ok
  split at ok
  · cases ok
    rfl
  · split at ok
    · cases ok
      exact scan.ofKind_emit (propertyKind_ne_elementEnd named) _ _
    · cases ok

/-- A step cuts no end of an element, or one of those that can be cut at its character. -/
theorem Reads.ends (reads : Reads input scan character following next) :
    next.ofKind .elementEnd = scan.ofKind .elementEnd ∨
      ∃ token, next.ofKind .elementEnd = scan.ofKind .elementEnd ++ [token] ∧
        scan.CutsEnd character token := by
  cases reads with
  | skipped skips => exact Or.inl rfl
  | buffered ready buffers => exact Or.inl rfl
  | closingBlank ready activity blank => exact Or.inl rfl
  | scriptTag ready activity bracket opens room =>
      exact Or.inl (scan.ofKind_flushSome _ (by simp))
  | valueTag ready activity bracket opens room =>
      exact Or.inl (scan.ofKind_cutBeforeElement rfl _)
  | textTag ready activity bracket opens =>
      exact Or.inl (scan.ofKind_flushChild _ (by simp) (by simp))
  | firstTag ready activity bracket opens => exact Or.inl (scan.ofKind_flush _ (by simp))
  | furtherTag ready activity bracket opens =>
      exact Or.inl (scan.ofKind_flushSome _ (by simp))
  | tagBracket ready activity bracket =>
      exact Or.inl ((scan.push character).ofKind_flush _ (by simp))
  | tagBlank ready activity blank => exact Or.inl (scan.ofKind_flush _ (by simp))
  | tagSlash ready activity slash bracket =>
      refine Or.inr ⟨_, ?_, .slash scan.position⟩
      rw [ofKind_closeSelf_end, scan.ofKind_flush _ (by simp)]
      rfl
  | closingBracket ready activity bracket =>
      refine Or.inr ⟨_, ?_, .closing activity bracket⟩
      simp [ofKind, push]
  | @equals named ready activity equals =>
      rcases scan.exists_equalsStep named following with ⟨skip, state, result, -⟩
      rw [result]
      exact Or.inl (scan.ofKind_flushSolid _ (by simp))
  | propertyBlank ready activity blank =>
      exact Or.inl (scan.ofKind_flushSolid _ (propertyKind_ne_elementEnd _))
  | @propertySlash named finished ready activity slash bracket finishes =>
      refine Or.inr ⟨_, ?_, .slash finished.position⟩
      rw [ofKind_closeSelf_end, ofKind_finishProperties finishes]
  | @propertyBracket named finished ready activity bracket finishes =>
      have same : finished.ofKind .elementEnd = scan.ofKind .elementEnd :=
        ofKind_finishProperties finishes
      exact Or.inl same
  | quotedEnd ready activity quote =>
      exact Or.inl (scan.ofKind_emit (propertyKind_ne_elementEnd _) _ _)
  | valueEnd ready activity brace => exact Or.inl (scan.ofKind_closeValue rfl _)
  | codeStart ready activity brace =>
      exact Or.inl (scan.ofKind_flushChild _ (by simp) (by simp))
  | codeEnd ready activity brace =>
      exact Or.inl (scan.ofKind_flushChild _ (by simp) (by simp))
  | regionEnd ready activity brace => exact Or.inl (scan.ofKind_flush _ (by simp))

/-- Whether the end of an element is that of a tag that closes itself, or is cut from a closing
tag. -/
def EndsIn (source : Text) (token : Token) : Prop :=
  token.text = ['/', '>'] ∨ ∃ tag : ClosingTag source, token = tag.token

/-- What is cut at the `>` of a closing tag is the token of that tag. -/
theorem CutsEnd.endsIn (cuts : scan.CutsEnd character token)
    (holds : scan.Holds source read (character :: following))
    (buffers : scan.BuffersClosingTag read) : EndsIn source token := by
  cases cuts with
  | slash offset => exact Or.inl rfl
  | closing activity bracket =>
      subst bracket
      rcases buffers activity with ⟨before, inner, rfl, buffered, plain⟩
      have split : source = before ++ ('<' :: '/' :: (inner ++ ['>'])) ++ following := by
        simpa using holds.split
      have stands : source.StandsAt ('<' :: '/' :: (inner ++ ['>'])) before.length := by
        rw [split]
        exact Text.standsAt_of_append
      refine Or.inr ⟨⟨before.length, inner, stands, plain⟩, ?_⟩
      rw [text] at buffered
      -- What is not buffered of the tag are its blanks.
      have counted : inner.length =
          inner.countP Text.isBlank + (inner.filter (!Text.isBlank ·)).length := by
        rw [List.countP_eq_length_filter]
        exact List.length_eq_length_filter_add _
      have size : scan.buffer.size = (inner.filter (!Text.isBlank ·)).length + 2 := by
        rw [← Array.length_toList, buffered]
        rfl
      simp only [ClosingTag.token, Token.mk.injEq, true_and]
      constructor
      · simp [text, push, buffered]
      · simp only [offset, push, Array.size_push, holds.position, List.length_append,
          List.length_cons]
        omega

theorem Reaches.buffersClosingTag (reaches : Reaches input scan text next rest)
    (holds : scan.Holds source read text) (buffers : scan.BuffersClosingTag read)
    (ends : ∀ token ∈ scan.ofKind .elementEnd, EndsIn source token) :
    ∃ read, next.Holds source read rest ∧ next.BuffersClosingTag read ∧
      ∀ token ∈ next.ofKind .elementEnd, EndsIn source token := by
  induction reaches with
  | refl => exact ⟨read, holds, buffers, ends⟩
  | @step middle reached character rest before stepped induction =>
      rcases induction with ⟨read, holdsThen, buffersThen, endsThen⟩
      have reads := reads_of_step stepped
      refine ⟨_, reads.holds holdsThen, reads.buffersClosingTag holdsThen buffersThen, ?_⟩
      intro token member
      change token ∈ reached.ofKind .elementEnd at member
      rcases reads.ends with same | ⟨cut, longer, cuts⟩
      · exact endsThen token (same ▸ member)
      · rw [longer, List.mem_append, List.mem_singleton] at member
        rcases member with earlier | rfl
        · exact endsThen token earlier
        · exact cuts.endsIn holdsThen buffersThen

end Scan

theorem endsIn_of_tokenize {source : Text} {ceiling : Nat} {tokens : List Token} {token : Token}
    (tokenized : tokenize source ceiling = .ok tokens) (member : token ∈ tokens)
    (kind : token.kind = .elementEnd) : Scan.EndsIn (Comment.strip source) token := by
  rcases tokenize_eq_ok_iff.mp tokenized with ⟨final, ran, rfl⟩
  have cut : token ∈ final.ofKind .elementEnd := by
    rw [← final.filter_finish (by decide), List.mem_filter]
    exact ⟨member, decide_eq_true kind⟩
  have reached := (Scan.Reaches.of_run ran).buffersClosingTag (Scan.holds_initial _)
    (by simp [Scan.BuffersClosingTag]) (by simp [Scan.ofKind])
  rcases reached with ⟨read, -, -, ends⟩
  exact ends token cut

/-! ## Errors at closing tags -/

/-- A closing tag with the wrong name is reported at the offset of its token. -/
theorem Program.exists_token_of_mismatch {input : TreeInput} {tokens : List Token}
    {expected found : Text} {index : Nat} {location : Location}
    (failed : ofTokens input tokens =
      .error (.mismatchedClosingTag expected found index location)) :
    ∃ token, tokens[index]? = some token ∧ token.kind = .elementEnd ∧
      tagName token.text = found ∧ found ≠ [] ∧
      location = .locate input.source token.offset := by
  unfold ofTokens at failed
  split at failed
  · rename_i ran
    cases failed
    rcases TreeBuilder.exists_rejects_of_run ran with
      ⟨before, token, after, reached, rfl, first, rejects⟩
    have index : reached.index = before.length := by
      simpa using (TreeBuilder.run_counters first).1
    cases rejects with
    | mismatch stack outside kind differs =>
        exact ⟨token, by simp [index], kind, rfl, differs.1, rfl⟩
  · rename_i builder ran
    unfold TreeBuilder.finish at failed
    split at failed
    · cases failed
    · split_ifs at failed
      cases failed

namespace Options

theorem exists_tokens_of_parse {options : Options} {source : Text} {error : TreeError}
    (failed : options.parse source = .error (.tree error)) :
    ∃ tokens, tokenize source options.ceiling = .ok tokens ∧
      Program.ofTokens
        { source, fragment := options.fragmentFor source, ceiling := options.ceiling } tokens =
          .error error := by
  simp only [parse, Options.tokens] at failed
  cases tokenized : tokenize source options.ceiling with
  | error reason => simp [tokenized] at failed
  | ok tokens =>
      simp only [tokenized] at failed
      split at failed
      · rename_i built
        cases failed
        exact ⟨tokens, rfl, built⟩
      · cases failed

/-- The token of every closing tag of a source starts as many characters behind the `<` of the tag as
the tag has blanks. So it points at the tag exactly if there are no blanks in it, and then an error
that the tag has the wrong name is located at the tag. -/
theorem closing_tags_located_iff (options : Options) (source : Text) :
    (∀ tokens, tokenize source options.ceiling = .ok tokens →
      ∀ token ∈ tokens, token.kind = .elementEnd → (∃ name, token.text = '<' :: '/' :: name) →
        ∃ tag : ClosingTag (Comment.strip source), token = tag.token ∧
          ((Comment.strip source)[token.offset]? = some '<' ∧
            (Comment.strip source)[token.offset + 1]? = some '/' ↔ tag.IsTight)) ∧
    ∀ expected found index location,
      options.parse source =
        .error (.tree (.mismatchedClosingTag expected found index location)) →
      ∃ (tokens : List Token) (tag : ClosingTag (Comment.strip source)),
        tokenize source options.ceiling = .ok tokens ∧ tokens[index]? = some tag.token ∧
          tagName tag.token.text = found ∧
          (location = .locate source tag.start ↔ tag.IsTight) := by
  constructor
  · rintro tokens tokenized token member kind ⟨name, closing⟩
    rcases endsIn_of_tokenize tokenized member kind with slash | ⟨tag, rfl⟩
    · rw [slash] at closing
      cases closing
    · exact ⟨tag, rfl, tag.points_iff⟩
  · intro expected found index location failed
    rcases exists_tokens_of_parse failed with ⟨tokens, tokenized, built⟩
    rcases Program.exists_token_of_mismatch built with ⟨token, atIndex, kind, rfl, named, located⟩
    rcases endsIn_of_tokenize tokenized (List.mem_of_getElem? atIndex) kind with
      slash | ⟨tag, rfl⟩
    · rw [slash] at named
      exact absurd rfl named
    · refine ⟨tokens, tag, tokenized, atIndex, rfl, ?_⟩
      rw [located, ← tag.countP_eq_zero_iff]
      constructor
      · intro same
        have offsets := congrArg Location.offset same
        simpa [Location.locate, ClosingTag.token] using offsets
      · intro none
        simp [ClosingTag.token, none]

/-- A closing tag with a blank and the wrong name is reported one character behind its `<`. -/
theorem closing_tags_located_iff_blank :
    let options : Options := {}
    let source : Text := "<a></b >".toList
    let token : Token := { kind := .elementEnd, text := "</b>".toList, offset := 4 }
    tokenize source options.ceiling =
        .ok [{ kind := .elementStart, text := "<a>".toList, offset := 0 }, token] ∧
      ¬ ((Comment.strip source)[token.offset]? = some '<' ∧
        (Comment.strip source)[token.offset + 1]? = some '/') ∧
      options.parse source = .error (.tree (.mismatchedClosingTag "a".toList "b".toList 1
        (.locate source 4))) ∧
      ∃ tag : ClosingTag (Comment.strip source), token = tag.token ∧ ¬ tag.IsTight := by
  intro options source token
  have tokenized : tokenize source options.ceiling =
      .ok [{ kind := .elementStart, text := "<a>".toList, offset := 0 }, token] := by rfl
  have failed : options.parse source = .error (.tree (.mismatchedClosingTag "a".toList "b".toList 1
      (.locate source 4))) := by rfl
  rcases (closing_tags_located_iff options source).1 _ tokenized token (by simp) rfl
    ⟨"b>".toList, rfl⟩ with ⟨tag, same, points⟩
  have astray : ¬ ((Comment.strip source)[token.offset]? = some '<' ∧
      (Comment.strip source)[token.offset + 1]? = some '/') := by decide
  exact ⟨tokenized, astray, failed, tag, same, fun tight => astray (points.mpr tight)⟩

end Options

end ElementScript
