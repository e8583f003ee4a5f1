import ElementScript.Proofs.Comment.Idempotence
import ElementScript.Proofs.Compile.Ceiling
import ElementScript.Proofs.Scan.Properties

/-! # Markup that the end of a source cuts off

A scan that reaches the end of its text inside of an element cuts no further token and leaves the
report to the tree. Wherever the start of an element has been cut, the tree finds more starts than
ends (`Program.ofTokens_ne_ok`). The start of a tag is cut where its name ends. So there is one place
without a trace: the name of a tag that stands directly in the script. Nothing of such a tag reaches
the tokens, and the source compiles like the text before the tag (`Options.compile_cut_off`).

That text is read in the same way with the tag behind it and without. Every decision on characters
to come looks for something that a tag and the end of a text lack alike.
-/

namespace ElementScript

/-! ## Looking ahead to a tag -/

namespace Lookahead

variable {name : Text} {first second : Char}

theorem compares_tag (opens : opensElement name) (seenSpace : Bool) :
    compares seenSpace ('<' :: name) = false := by
  have passed : compares seenSpace ('<' :: name) = compares seenSpace name := rfl
  rw [passed]
  cases name with
  | nil => rfl
  | cons initial rest =>
      simp only [opensElement, Bool.and_eq_true, Bool.or_eq_true, decide_eq_true_eq,
        Bool.not_eq_true'] at opens
      rcases opens with ⟨letter | rfl, noComparison⟩
      · have word : isWordOrSlash initial := by simp [isWordOrSlash, Char.isAlphanum, letter]
        cases seenSpace <;> simp [compares, word, noComparison]
      · rfl

theorem compares_before_tag (opens : opensElement name) (seenSpace : Bool) (text : Text) :
    compares seenSpace (text ++ '<' :: name) = compares seenSpace text := by
  induction text generalizing seenSpace with
  | nil => exact compares_tag opens seenSpace
  | cons character text induction => simp only [List.cons_append, compares, induction]

theorem opensElement_before_tag (opens : opensElement name) (text : Text) :
    opensElement (text ++ '<' :: name) = opensElement text := by
  cases text with
  | nil => rfl
  | cons character text =>
      rw [List.cons_append, opensElement, opensElement, compares_before_tag opens]

theorem opensTag_before_tag (opens : opensElement name) (text : Text) :
    opensTag (text ++ '<' :: name) = opensTag text := by
  cases text with
  | nil => rfl
  | cons character text =>
      rw [List.cons_append, opensTag, opensTag, compares_before_tag opens]

theorem head?_before_tag (text : Text) (different : first ≠ '<') :
    (text ++ '<' :: name).head? = some first ↔ text.head? = some first := by
  cases text with
  | nil => simp [Ne.symm different]
  | cons character text => rfl

theorem take_before_tag (text : Text) (different : first ≠ '<' ∧ second ≠ '<') :
    (text ++ '<' :: name).take 2 = [first, second] ↔ text.take 2 = [first, second] := by
  rcases text with _ | ⟨character, _ | ⟨next, text⟩⟩
  · simp [Ne.symm different.1]
  · simp [Ne.symm different.2]
  · rfl

end Lookahead

open Lookahead

namespace Comment

theorem step_before_tag {name : Text} (opens : opensElement name) (state : State)
    (character : Char) (following : Text) :
    step state character (following ++ '<' :: name) = step state character following := by
  unfold step codeStep
  simp only [opensElement_before_tag opens,
    head?_before_tag following (show '/' ≠ '<' by decide),
    head?_before_tag following (show '*' ≠ '<' by decide),
    take_before_tag following (show '/' ≠ '<' ∧ '*' ≠ '<' by decide),
    take_before_tag following (show '/' ≠ '<' ∧ '}' ≠ '<' by decide)]

/-- Comments in the text before a tag are removed as if the text ended there. -/
theorem take_stripFrom_before_tag {name : Text} (opens : opensElement name) (state : State)
    (front : Text) :
    (stripFrom state (front ++ '<' :: name)).take front.length = stripFrom state front := by
  induction front generalizing state with
  | nil => rfl
  | cons character front induction =>
      simp only [List.cons_append, stripFrom, List.length_cons, List.take_succ_cons,
        step_before_tag opens, induction]

/-- Where no blanks are left, nothing was removed. -/
theorem stripFrom_eq_self {state : State} {source : Text}
    (solid : ∀ character ∈ stripFrom state source, Text.isBlank character = false) :
    stripFrom state source = source := by
  induction source generalizing state with
  | nil => rfl
  | cons character rest induction =>
      rw [stripFrom] at solid ⊢
      have parts := List.forall_mem_cons.mp solid
      rw [(step_of_shown parts.1).1, induction parts.2]

/-- The end of a text without comments is the end of the source, if it has no blanks. -/
theorem exists_append_of_stripFrom {state : State} {source first second : Text}
    (stripped : stripFrom state source = first ++ second)
    (solid : ∀ character ∈ second, Text.isBlank character = false) :
    ∃ front, source = front ++ second ∧ front.length = first.length := by
  have behind := drop_stripFrom state source first.length
  rw [stripped, List.drop_left] at behind
  have kept : source.drop first.length = second := by
    rw [behind] at solid
    rw [behind, stripFrom_eq_self solid]
  have lengths := congrArg List.length stripped
  rw [length_stripFrom, List.length_append] at lengths
  refine ⟨source.take first.length, ?_, by simp [lengths]⟩
  rw [← kept, List.take_append_drop]

end Comment

namespace Scan

variable {input : ScanInput} {scan next final : Scan} {character : Char} {following name : Text}

/-- A tag behind an `=` opens no value. -/
theorem equalsStep_before_tag (scan : Scan) (named : Bool) (following : Text) :
    scan.equalsStep named (following ++ '<' :: name) = scan.equalsStep named following :=
  equalsStep_append (by decide) (by decide)

theorem step_before_tag (opens : opensElement name) (input : ScanInput) (scan : Scan)
    (character : Char) (following : Text) :
    scan.step input character (following ++ '<' :: name) =
      scan.step input character following := by
  unfold step codeStep tagStep outsideStep bracedStep childTextStep childCodeStep
  simp only [opensElement_before_tag opens, opensTag_before_tag opens, equalsStep_before_tag,
    head?_before_tag following (show '>' ≠ '<' by decide)]

/-! ## The tag that is cut off -/

/-- Whether a character goes on with the name of a tag. -/
def continuesName (character : Char) : Bool :=
  character ≠ '/' && character ≠ '>' && !Text.isBlank character

/-- How a scan gets into the name of a tag that stands in the script: the tag starts, or the scan was
in its name already. -/
inductive EntersTag (scan : Scan) (character : Char) (following : Text) (next : Scan) : Prop where
  | starts (activity : scan.activity = .code none) (ready : next.skip = 0)
      (bracket : character = '<') (opens : opensElement following)
      (tokens : next.tokens = (scan.flushSome .code scan.position).tokens)
  | goesOn (activity : scan.activity = .tag false) (levels : scan.levels = [])
      (tokens : next.tokens = scan.tokens)
      (read : next.skip + 1 = scan.skip ∨
        scan.skip = 0 ∧ next.skip = 0 ∧ continuesName character)

theorem Reads.entersTag (reads : Reads input scan character following next)
    (activity : next.activity = .tag false) (levels : next.levels = []) :
    scan.EntersTag character following next := by
  cases reads with
  | skipped skips => exact .goesOn activity levels rfl (Or.inl skips.symm)
  | buffered ready buffers =>
      cases buffers with
      | name before plain =>
          cases activity
          refine .goesOn before levels rfl (Or.inr ⟨ready, ready, ?_⟩)
          simp [continuesName, plain]
      | _ => cases activity
  | closingBlank ready before blank =>
      rw [before] at activity
      cases activity
  | scriptTag ready before bracket opens room =>
      exact .starts before (by simpa [startTag] using ready) bracket opens rfl
  | tagSlash ready before slash bracket => exact absurd activity (activity_resume_ne_tag _ _ _)
  | closingBracket ready before bracket => exact absurd activity (activity_resume_ne_tag _ _ _)
  | propertySlash ready before slash bracket finishes =>
      exact absurd activity (activity_resume_ne_tag _ _ _)
  | @equals named ready before equals =>
      rcases scan.exists_equalsStep named following with ⟨skip, state, result, -⟩
      rw [result] at activity
      cases activity
  | valueTag => cases levels
  | textTag => cases levels
  | firstTag => cases levels
  | furtherTag => cases levels
  | _ => cases activity

/-- A scan that ends in the name of a tag of the script has read a text up to the tag, and then the
tag. Only what it has read before the tag is in its tokens. -/
theorem exists_front_of_run {text : Text} (ran : scan.run input text = .ok final)
    (activity : final.activity = .tag false) (levels : final.levels = []) :
    (scan.activity = .tag false ∧ scan.levels = [] ∧ final.tokens = scan.tokens ∧
      ∀ character ∈ text.drop scan.skip, continuesName character) ∨
    ∃ front name before, text = front ++ '<' :: name ∧ opensElement name ∧
      (∀ character ∈ name, continuesName character) ∧ scan.run input front = .ok before ∧
      before.activity = .code none ∧
      final.tokens = (before.flushSome .code before.position).tokens := by
  induction text generalizing scan with
  | nil =>
      cases ran
      exact Or.inl ⟨activity, levels, rfl, by simp⟩
  | cons character rest induction =>
      rw [run] at ran
      split at ran
      · cases ran
      rename_i next stepped
      -- The tag starts here if the scan is in its name after this character and not before it.
      rcases induction ran with ⟨inTag, outermost, tokens, solid⟩ | ⟨front, name, before, split,
        opens, solid, ranFront, outside, tokens⟩
      · cases (reads_of_step stepped).entersTag inTag outermost with
        | starts outside ready bracket opens cut =>
            subst bracket
            refine Or.inr ⟨[], rest, scan, rfl, opens, ?_, rfl, outside, tokens.trans cut⟩
            simpa [advance, ready] using solid
        | goesOn inTagBefore outermostBefore same read =>
            refine Or.inl ⟨inTagBefore, outermostBefore, tokens.trans same, ?_⟩
            rcases read with skipped | ⟨readyBefore, ready, goesOn⟩
            · rw [← skipped]
              exact solid
            · rw [readyBefore, List.drop_zero]
              refine List.forall_mem_cons.mpr ⟨goesOn, ?_⟩
              simpa [advance, ready] using solid
      · -- This character has been read with the tag behind it.
        subst split
        refine Or.inr ⟨character :: front, name, before, rfl, opens, solid, ?_, outside, tokens⟩
        rw [step_before_tag opens] at stepped
        rw [run, stepped]
        exact ranFront

/-! ## Locations

A source is looked at again only to locate errors. What is read without an error is read in the same
way if errors are located in another source. -/

section Relocation

variable (source : Text)

theorem tagStep_relocated {closing : Bool}
    (stepped : scan.tagStep input closing character following = .ok next) :
    scan.tagStep { input with source } closing character following = .ok next := by
  unfold tagStep at stepped ⊢
  split_ifs at stepped ⊢ <;> exact stepped

theorem finishProperties_relocated {named : Bool}
    (finished : scan.finishProperties input named = .ok next) :
    scan.finishProperties { input with source } named = .ok next := by
  unfold finishProperties at finished ⊢
  simp only at finished ⊢
  split_ifs at finished ⊢ <;> exact finished

theorem outsideStep_relocated {named : Bool}
    (stepped : scan.outsideStep input named character following = .ok next) :
    scan.outsideStep { input with source } named character following = .ok next := by
  have relocated : ∀ continuation : Scan → Scan,
      (do let finished ← scan.finishProperties input named
          return continuation finished) = .ok next →
        (do let finished ← scan.finishProperties { input with source } named
            return continuation finished) = .ok next := by
    intro continuation ok
    rcases exists_of_bind ok with ⟨finished, finishes, rfl⟩
    rw [finishProperties_relocated source finishes]
    rfl
  unfold outsideStep at stepped ⊢
  split_ifs at stepped ⊢
  · exact stepped
  · exact stepped
  · exact relocated _ stepped
  · exact relocated _ stepped
  · exact stepped

theorem step_relocated (stepped : scan.step input character following = .ok next) :
    scan.step { input with source } character following = .ok next := by
  unfold step at stepped ⊢
  split at stepped
  · exact stepped
  · split at stepped
    · exact stepped
    · exact tagStep_relocated source stepped
    · exact outsideStep_relocated source stepped
    · exact stepped
    · exact stepped
    · exact stepped
    · exact stepped

theorem run_relocated {text : Text} (ran : scan.run input text = .ok final) :
    scan.run { input with source } text = .ok final := by
  induction text generalizing scan with
  | nil => exact ran
  | cons character rest induction =>
      rw [run] at ran ⊢
      split at ran
      · cases ran
      · rename_i next stepped
        rw [step_relocated source stepped]
        exact induction ran

end Relocation

end Scan

/-! ## Directives -/

namespace Directive

variable {name word : Text}

theorem afterOpener?_cons (first second third : Char) (rest : Text) :
    afterOpener? (first :: second :: third :: rest) =
      if first = '/' then
        if second = '/' then some (third :: rest)
        else if second = '*' then some (if third = '*' then rest else third :: rest)
        else none
      else none := by
  unfold afterOpener?
  split <;> simp_all
  grind

theorem afterOpener?_before_tag (text : Text) :
    afterOpener? (text ++ '<' :: name) = (afterOpener? text).map (· ++ '<' :: name) := by
  rcases text with _ | ⟨first, _ | ⟨second, _ | ⟨third, rest⟩⟩⟩
  · rfl
  · simp only [List.cons_append, List.nil_append]
    unfold afterOpener?
    split <;> simp_all
  · simp only [List.cons_append, List.nil_append]
    unfold afterOpener?
    split <;> simp_all
  · simp only [List.cons_append, afterOpener?_cons]
    split_ifs <;> rfl

theorem afterWhitespace?_before_tag (text : Text) :
    afterWhitespace? (text ++ '<' :: name) = (afterWhitespace? text).map (· ++ '<' :: name) := by
  have solid : Text.isWhitespace '<' = false := by decide
  cases text with
  | nil => simp [afterWhitespace?, solid]
  | cons first rest =>
      have trimmed : Text.trimStart (rest ++ '<' :: name) = Text.trimStart rest ++ '<' :: name := by
        simp [Text.trimStart, List.dropWhile_append, solid]
      simp only [List.cons_append, afterWhitespace?, trimmed]
      split <;> rfl

theorem after?_before_tag (absent : '<' ∉ word) (text : Text) :
    Text.after? word (text ++ '<' :: name) = (Text.after? word text).map (· ++ '<' :: name) := by
  induction word generalizing text with
  | nil => rfl
  | cons expected word induction =>
      have parts := List.ne_and_not_mem_of_not_mem_cons absent
      cases text with
      | nil => simp [Text.after?, Ne.symm parts.1]
      | cons actual text =>
          simp only [List.cons_append, Text.after?, induction parts.2]
          split <;> rfl

theorem atFront?_before_tag (absent : '<' ∉ word) (text : Text) :
    atFront? word (text ++ '<' :: name) = atFront? word text := by
  have ends : isIdentifierCharacter '<' = false := rfl
  unfold atFront?
  simp only [afterOpener?_before_tag, Option.bind_eq_bind, Option.bind_map, Function.comp_def,
    afterWhitespace?_before_tag, after?_before_tag absent, Text.takeWhile_before ends]

theorem leftmost?_of_not_mem {text : Text} (absent : '/' ∉ text) : leftmost? word text = none := by
  induction text with
  | nil => rfl
  | cons first rest induction =>
      have parts := List.ne_and_not_mem_of_not_mem_cons absent
      have noOpener : afterOpener? (first :: rest) = none := by
        unfold afterOpener?
        split <;> simp_all
      rw [leftmost?, induction parts.2, atFront?, noOpener]
      rfl

theorem leftmost?_before_tag (absent : '<' ∉ word) (noSlash : '/' ∉ name) (text : Text) :
    leftmost? word (text ++ '<' :: name) = leftmost? word text := by
  induction text with
  | nil => exact leftmost?_of_not_mem (by simp [noSlash])
  | cons first rest induction =>
      rw [List.cons_append, leftmost?, leftmost?, induction, ← List.cons_append,
        atFront?_before_tag absent]

/-- A tag that holds no slash selects nothing and ends no directive before it. -/
theorem scan_before_tag (noSlash : '/' ∉ name) (text : Text) :
    scan (text ++ '<' :: name) = scan text := by
  have factory : '<' ∉ factoryWord := by decide
  have fragment : '<' ∉ fragmentWord := by decide
  simp only [scan, leftmost?_before_tag factory noSlash, leftmost?_before_tag fragment noSlash]

end Directive

/-! ## Elements whose start is cut -/

/-- Tokens that leave elements open form no tree. -/
theorem Program.ofTokens_ne_ok {tokens : List Token} {places : List Bool}
    (ran : Protocol.run [] tokens = some places) (leftOpen : places ≠ []) (input : TreeInput)
    (program : Program) : ofTokens input tokens ≠ .ok program := by
  intro built
  rcases ofTokens_eq_ok_iff.mp built with ⟨final, ranTokens, finished⟩
  have coherent := TreeBuilder.run_coherent TreeBuilder.coherent_initial ranTokens
  have outside := (TreeBuilder.finish_succeeds_iff coherent).mp ⟨program, finished⟩
  have balanced := coherent.balanced
  have counted := Protocol.run_length ran
  have counters : final.index = 0 + _ ∧ final.starts = 0 + _ ∧ final.ends = 0 + _ :=
    TreeBuilder.run_counters ranTokens
  have positive := List.length_pos_iff.mpr leftOpen
  rw [outside, List.length_nil] at balanced
  rw [List.length_nil] at counted
  omega

/-- Inside of an element, at least one element is open in the tokens. -/
theorem Scan.spans_ne_nil {scan : Scan} {rest : Text} (agrees : scan.Agrees rest)
    (inside : scan.IsInside) : scan.spans ≠ [] := by
  unfold spans
  cases activity : scan.activity with
  | code mark => exact absurd activity (inside.1 mark)
  | tag closing =>
      have levels : scan.levels ≠ [] := by
        cases closing with
        | true => exact levels_ne_of_closing agrees activity
        | false => exact inside.2 activity
      simp [Activity.spans, levels]
  | properties state => cases state <;> simp [Activity.spans]
  | children region => simp [Activity.spans]

/-! ## Whole sources -/

section Sources

variable {source : Text} {ceiling : Nat} {scan : Scan}

theorem tokenize_of_run
    (ran : Scan.run { source, ceiling } {} (Comment.strip source) = .ok scan) :
    tokenize source ceiling = .ok scan.finish := by
  rw [tokenize, ran]

theorem Scan.finish_of_cutOff (cutOff : ∀ mark, scan.activity ≠ .code mark) :
    scan.finish = scan.tokens.toList := by
  unfold finish
  split
  · rename_i mark activity
    exact absurd activity (cutOff mark)
  · rfl

/-- A source that ends in the name of a tag of the script has the tokens of the text before the
tag. -/
theorem exists_front_of_tokenize
    (ran : Scan.run { source, ceiling } {} (Comment.strip source) = .ok scan)
    (activity : scan.activity = .tag false) (levels : scan.levels = []) :
    ∃ front name, source = front ++ '<' :: name ∧ opensElement name ∧
      (∀ character ∈ name, Scan.continuesName character) ∧
      tokenize front ceiling = .ok scan.finish := by
  rcases Scan.exists_front_of_run ran activity levels with ⟨initial, -⟩ |
    ⟨read, name, before, split, opens, solid, ranFront, outside, tokens⟩
  · cases initial
  have visible : ∀ character ∈ '<' :: name, Text.isBlank character = false := by
    refine List.forall_mem_cons.mpr ⟨rfl, fun character member => ?_⟩
    have goesOn := solid character member
    simp only [Scan.continuesName, Bool.and_eq_true, Bool.not_eq_true'] at goesOn
    exact goesOn.2
  rcases Comment.exists_append_of_stripFrom split visible with ⟨front, rfl, length⟩
  have stripped : Comment.strip front = read := by
    have before := Comment.take_stripFrom_before_tag opens {} front
    rw [← Comment.strip, split, length, List.take_left] at before
    exact before.symm
  refine ⟨front, name, rfl, opens, solid, ?_⟩
  have cutOff : ∀ mark, scan.activity ≠ .code mark := by simp [activity]
  have finished : before.finish = scan.finish := by
    rw [Scan.finish_of_cutOff cutOff, tokens, Scan.finish, outside]
  rw [← finished]
  apply tokenize_of_run
  rw [stripped]
  exact Scan.run_relocated front ranFront

end Sources

namespace Options

variable {options : Options} {source front name script : Text} {tokens : List Token}

/-- Sources with the same tokens and the same directives compile to the same scripts. -/
theorem compile_of_same_tokens {other : Text} (bypass : options.skipCompiled = false)
    (tokenized : tokenize source options.ceiling = .ok tokens)
    (otherTokenized : tokenize other options.ceiling = .ok tokens)
    (directives : Directive.scan source = Directive.scan other)
    (compiled : options.compile source = .ok script) : options.compile other = .ok script := by
  rcases (compile_eq_ok_iff bypass tokenized).mp compiled with ⟨program, built, written⟩
  have fragment : options.fragmentFor source = options.fragmentFor other := by
    rw [fragmentFor, fragmentFor, directives]
  have factory : options.factoryFor source = options.factoryFor other := by
    rw [factoryFor, factoryFor, directives]
  rw [fragment] at built
  rw [factory] at written
  have within := Program.pieces_le_of_ofTokens built
  exact (compile_eq_ok_iff bypass otherTokenized).mpr
    ⟨program, Program.ofTokens_transfer built rfl within, written⟩

/-- Where an element has been started in the tokens, the end of the source is an error. -/
theorem compile_of_isInside {scan : Scan} (bypass : options.skipCompiled = false)
    (ran : Scan.run { source, ceiling := options.ceiling } {} (Comment.strip source) = .ok scan)
    (inside : scan.IsInside) : ∃ error, options.compile source = .error error := by
  have ordered := Scan.ordered_run (Scan.ordered_initial _) ran
  have opened : Protocol.run [] scan.finish = some (scan.spans.map Scan.Span.place) := by
    rw [Scan.finish_of_cutOff inside.1]
    exact ordered.layout.run
  have leftOpen : scan.spans.map Scan.Span.place ≠ [] := by
    simpa using Scan.spans_ne_nil ordered.agrees inside
  cases compiled : options.compile source with
  | error error => exact ⟨error, rfl⟩
  | ok script =>
      rcases (compile_eq_ok_iff bypass (tokenize_of_run ran)).mp compiled with ⟨program, built, -⟩
      exact absurd built (Program.ofTokens_ne_ok opened leftOpen _ program)

/-- Markup that is cut off by the end of a source is an error, unless the end is reached in the name
of a tag that stands directly in the script. Such a tag is dropped: the source compiles to whatever
the text before the tag compiles to. -/
theorem compile_cut_off {scan : Scan} (bypass : options.skipCompiled = false)
    (ran : Scan.run { source, ceiling := options.ceiling } {} (Comment.strip source) = .ok scan)
    (cutOff : ∀ mark, scan.activity ≠ .code mark) :
    (scan.IsInside → ∃ error, options.compile source = .error error) ∧
      (¬ scan.IsInside → ∃ front name, source = front ++ '<' :: name ∧
        Lookahead.opensElement name ∧ (∀ character ∈ name, Scan.continuesName character) ∧
        ∀ script, options.compile source = .ok script ↔ options.compile front = .ok script) := by
  refine ⟨compile_of_isInside bypass ran, fun outermost => ?_⟩
  obtain ⟨activity, levels⟩ : scan.activity = .tag false ∧ scan.levels = [] := by
    simpa [Scan.IsInside, cutOff] using outermost
  rcases exists_front_of_tokenize ran activity levels with
    ⟨front, name, rfl, opens, solid, frontTokens⟩
  have tokens := tokenize_of_run ran
  have noSlash : '/' ∉ name := by
    intro member
    cases solid _ member
  have directives := Directive.scan_before_tag noSlash front
  refine ⟨front, name, rfl, opens, solid, fun script => ⟨?_, ?_⟩⟩
  · exact compile_of_same_tokens bypass tokens frontTokens directives
  · exact compile_of_same_tokens bypass frontTokens tokens directives.symm

/-- A tag that is cut off in its name is dropped, and one that is cut off after its name is an
error. -/
theorem compile_cut_off_sample :
    let options : Options := { skipCompiled := false }
    (∃ front name, "x<div".toList = front ++ '<' :: name ∧
      options.compile "x<div".toList = .ok "x".toList ∧ options.compile front = .ok "x".toList) ∧
    ∃ error, options.compile "x<div ".toList = .error error := by
  intro options
  let script : Token := { kind := .code, text := "x".toList, offset := 0 }
  let start : Token := { kind := .elementStart, text := "<div".toList, offset := 1 }
  let inName : Scan :=
    { position := 5, buffer := "<div".toList.toArray, tokens := #[script], calls := 1,
      activity := .tag false }
  let behindName : Scan :=
    { position := 6, tokens := #[script, start], calls := 1,
      activity := .properties (.outside false) }
  have ranName : Scan.run { source := "x<div".toList, ceiling := options.ceiling } {}
      (Comment.strip "x<div".toList) = .ok inName := by rfl
  have ranBehind : Scan.run { source := "x<div ".toList, ceiling := options.ceiling } {}
      (Comment.strip "x<div ".toList) = .ok behindName := by rfl
  constructor
  · have compiled : options.compile "x<div".toList = .ok "x".toList := by rfl
    have dropped := (compile_cut_off rfl ranName nofun).2 fun inside => inside.2 rfl rfl
    rcases dropped with ⟨front, name, split, -, -, same⟩
    exact ⟨front, name, split, compiled, (same _).mp compiled⟩
  · exact (compile_cut_off rfl ranBehind nofun).1 ⟨nofun, nofun⟩

end Options

end ElementScript
