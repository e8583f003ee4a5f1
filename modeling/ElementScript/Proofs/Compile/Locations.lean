import ElementScript.Compile
import ElementScript.Proofs.Scan.Failure
import ElementScript.Proofs.Scan.Offsets
import ElementScript.Proofs.Tree.Failure

/-! # Where errors are

An error of a compilation that carries a location is an error at a character that the scan was
reading, or at a token. Both stand inside of the source, since the offsets of the text without
comments are those of the source. So such a location is that of an offset of the source
(`Options.offsets_in_source`).
-/

namespace ElementScript

/-! ## Building trees -/

theorem mem_of_mem_regionsAfter {opened : List Token} {token start : Token}
    (member : start ∈ regionsAfter opened token) : start ∈ opened ∨ start = token := by
  unfold regionsAfter at member
  split at member
  · exact (List.mem_cons.mp member).symm
  · exact Or.inl (List.mem_of_mem_tail member)
  · exact Or.inl member

/-- An open region is opened by one of the tokens. -/
theorem mem_of_mem_foldl_regionsAfter {tokens opened : List Token} {start : Token}
    (member : start ∈ tokens.foldl regionsAfter opened) : start ∈ opened ∨ start ∈ tokens := by
  induction tokens generalizing opened with
  | nil => exact Or.inl member
  | cons token tokens induction =>
      rcases induction member with earlier | later
      · rcases mem_of_mem_regionsAfter earlier with earlier | rfl
        · exact Or.inl earlier
        · exact Or.inr List.mem_cons_self
      · exact Or.inr (List.mem_cons_of_mem token later)

namespace Program

variable {input : TreeInput} {tokens : List Token} {error : TreeError} {location : Location}

theorem exists_token_of_finish {builder : TreeBuilder}
    (ran : ({} : TreeBuilder).run input tokens = .ok builder)
    (failed : builder.finish input = .error error) (located : error.location? = some location) :
    ∃ token ∈ tokens, location = .locate input.source token.offset := by
  have regions := openRegions_of_run ran
  unfold TreeBuilder.finish at failed
  split at failed
  · rename_i region found
    cases failed
    cases located
    rw [found, Option.map_some] at regions
    rcases Option.map_eq_some_iff.mp regions.symm with ⟨start, first, same⟩
    rcases mem_of_mem_foldl_regionsAfter (List.mem_of_mem_head? first) with none | member
    · cases none
    · exact ⟨start, member, by rw [same]⟩
  · split_ifs at failed
    cases failed
    cases located

/-- An error of tree building that is located is located at a token. -/
theorem exists_token_of_error (failed : ofTokens input tokens = .error error)
    (located : error.location? = some location) :
    ∃ token ∈ tokens, location = .locate input.source token.offset := by
  unfold ofTokens at failed
  split at failed
  · rename_i ran
    cases failed
    rcases TreeBuilder.exists_rejects_of_run ran with
      ⟨before, token, after, reached, split, -, rejects⟩
    refine ⟨token, by simp [split], ?_⟩
    cases rejects with
    | full counts full => cases located
    | outside outside kind => exact (Option.some.inj located).symm
    | element stack outside kind => exact (Option.some.inj located).symm
    | region stack inside kind => exact (Option.some.inj located).symm
    | mismatch stack outside kind differs => exact (Option.some.inj located).symm
  · rename_i builder ran
    exact exists_token_of_finish ran failed located

end Program

/-! ## Compiling -/

namespace Options

variable {options : Options} {source : Text} {error : CompileError} {location : Location}

theorem liesBelow_of_parse (failed : options.parse source = .error error)
    (located : error.location? = some location) : location.LiesBelow source source.length := by
  simp only [parse, Options.tokens] at failed
  cases tokenized : tokenize source options.ceiling with
  | error reason =>
      simp only [tokenized] at failed
      cases failed
      exact liesBelow_of_tokenize tokenized located
  | ok tokens =>
      simp only [tokenized] at failed
      split at failed
      · rename_i built
        cases failed
        rcases Program.exists_token_of_error built located with ⟨token, member, rfl⟩
        exact Location.liesBelow_locate ((offsets_of_tokenize tokenized).2 token member)
      · cases failed

theorem liesBelow_of_compile (failed : options.compile source = .error error)
    (located : error.location? = some location) : location.LiesBelow source source.length := by
  unfold compile at failed
  split at failed
  · cases failed
  · split at failed
    · rename_i parsed
      cases failed
      exact liesBelow_of_parse parsed located
    · cases failed

/-- Offsets are in order and in range. The tokens of a source stand in the order of their offsets
and start inside of the source, and an error of its compilation that carries a location is located
at an offset inside of the source, with the line, the column and the text of that offset. -/
theorem offsets_in_source (options : Options) (source : Text) :
    (∀ tokens, tokenize source options.ceiling = .ok tokens →
      (tokens.Pairwise fun first second => first.offset ≤ second.offset) ∧
        ∀ token ∈ tokens, token.offset < source.length) ∧
    ∀ error location, options.compile source = .error error →
      error.location? = some location →
        location.offset < source.length ∧ location = .locate source location.offset := by
  constructor
  · intro tokens tokenized
    exact offsets_of_tokenize tokenized
  · intro error location failed located
    have lies := liesBelow_of_compile failed located
    exact ⟨lies.below, lies.resolved⟩

/-- The first region of this source is opened before an element that has been cut already, and the
second one ends with its element, which is an error on the second line. -/
theorem offsets_in_source_sample :
    let options : Options := { skipCompiled := false }
    let source : Text := "<a b=\x7b<c/> d\x7d>\n\x7be</a>".toList
    let tokens : List Token :=
      [{ kind := .elementStart, text := "<a".toList, offset := 0 },
        { kind := .propertyName, text := "b".toList, offset := 3 },
        { kind := .fragmentStart, text := [], offset := 6 },
        { kind := .elementStart, text := "<c".toList, offset := 6 },
        { kind := .elementEnd, text := "/>".toList, offset := 8 },
        { kind := .fragmentEnd, text := " d".toList, offset := 10 },
        { kind := .childWhitespace, text := "\n".toList, offset := 14 },
        { kind := .fragmentStart, text := "e".toList, offset := 16 },
        { kind := .elementEnd, text := "</a>".toList, offset := 17 }]
    let location : Location :=
      { offset := 17, line := 2, column := 3, text := "\x7be</a>".toList }
    let error : CompileError := .tree (.unexpectedRegionToken .elementEnd 8 location)
    tokenize source options.ceiling = .ok tokens ∧
      (tokens.Pairwise fun first second => first.offset ≤ second.offset) ∧
      options.compile source = .error error ∧
      location.offset < source.length ∧ location = .locate source location.offset := by
  intro options source tokens location error
  have tokenized : tokenize source options.ceiling = .ok tokens := by rfl
  have failed : options.compile source = .error error := by rfl
  have offsets := offsets_in_source options source
  exact ⟨tokenized, (offsets.1 tokens tokenized).1, failed, offsets.2 error location failed rfl⟩

end Options

end ElementScript
