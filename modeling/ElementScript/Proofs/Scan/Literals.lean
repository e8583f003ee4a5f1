import ElementScript.Proofs.Comment
import ElementScript.Proofs.Scan.Reading
import ElementScript.Proofs.Text.Brackets

/-! # Literals that are read back

Comment removal and scanning both take a quote for the end of a literal unless a backslash stands
right before it. A written literal has a backslash before every quote of its text, so none of them
ends it (`Literal.staysOpen_escapes`). But a text may itself end with a backslash, which is written
as two of them, and then the closing quote has a backslash before it as well. Such a literal goes on
into what follows it. Every other one is read as a whole, and what follows is read as if it stood
alone (`Text.quote_read_back_iff`).
-/

namespace ElementScript

/-! ## Texts inside of literals -/

/-- The character before what follows a text, given the character before the text. -/
theorem Text.getLast?_cons_or (character : Char) (text : Text) (previous : Option Char) :
    (character :: text).getLast?.or previous = text.getLast?.or (some character) := by
  rw [List.getLast?_cons]
  cases text.getLast? <;> rfl

namespace Literal

variable {mark : Char} {previous : Option Char} {first second : Text}

/-- Whether a text that is read inside of a literal leaves it open, given the character before the
text. -/
def staysOpen (mark : Char) : Option Char → Text → Bool
  | _, [] => true
  | previous, character :: rest =>
      !closes mark previous character && staysOpen mark (some character) rest

theorem staysOpen_append :
    staysOpen mark previous (first ++ second) =
      (staysOpen mark previous first && staysOpen mark (first.getLast?.or previous) second) := by
  induction first generalizing previous with
  | nil => rfl
  | cons character first induction =>
      rw [List.cons_append, staysOpen, staysOpen, induction, Text.getLast?_cons_or, Bool.and_assoc]

theorem staysOpen_of_not_mem {text : Text} (absent : mark ∉ text) :
    staysOpen mark previous text := by
  induction text generalizing previous with
  | nil => rfl
  | cons character text induction =>
      have parts := List.ne_and_not_mem_of_not_mem_cons absent
      have inside : closes mark previous character = false := by
        simp [closes, Ne.symm parts.1]
      rw [staysOpen, inside, induction parts.2]
      rfl

/-- The quotes in a written literal have a backslash before them. -/
theorem staysOpen_escape (character : Char) : staysOpen '"' previous (Text.escape character) := by
  rcases Brackets.escape_cases character with
    ⟨itself, noQuote, -⟩ | ⟨letter, digits, escaped, plain, -⟩
  · rw [itself]
    exact staysOpen_of_not_mem (by simpa using Ne.symm noQuote)
  · have unquoted : '"' ∉ digits := fun member => by
      cases (plain _ member).1
    have others : staysOpen '"' (some letter) digits := staysOpen_of_not_mem unquoted
    rw [escaped, staysOpen, staysOpen, others]
    simp [closes]

theorem staysOpen_escapes (text : Text) : staysOpen '"' previous (text.flatMap Text.escape) := by
  induction text generalizing previous with
  | nil => rfl
  | cons character text induction =>
      rw [List.flatMap_cons, staysOpen_append, staysOpen_escape, induction]
      rfl

end Literal

namespace Text

/-- Only a backslash is written with a backslash at its end. -/
theorem getLast?_escape (character : Char) :
    (escape character).getLast? = some '\\' ↔ character = '\\' := by
  have digit := (Brackets.isPlain_hexDigit (show character.toNat % 16 < 16 by omega)).2
  unfold escape
  repeat' split
  all_goals simp_all

theorem escape_ne_nil (character : Char) : escape character ≠ [] := by
  rcases Brackets.escape_cases character with ⟨itself, -⟩ | ⟨letter, digits, escaped, -⟩
  · simp [itself]
  · simp [escaped]

theorem getLast?_escapes (text : Text) :
    (text.flatMap escape).getLast? = some '\\' ↔ text.getLast? = some '\\' := by
  rcases List.eq_nil_or_concat text with rfl | ⟨front, last, rfl⟩
  · rfl
  · rcases List.eq_nil_or_concat (escape last) with empty | ⟨others, final, written⟩
    · exact absurd empty (escape_ne_nil last)
    · have backslash := getLast?_escape last
      simp only [written, List.concat_eq_append, List.getLast?_concat, Option.some.injEq]
        at backslash
      simp only [List.concat_eq_append, List.flatMap_append, List.flatMap_singleton, written,
        ← List.append_assoc, List.getLast?_concat, Option.some.injEq]
      exact backslash

/-- The quote at the end of a literal ends it exactly if the text does not end with a backslash. -/
theorem closes_quote_iff (text : Text) :
    Literal.closes '"' ((text.flatMap escape).getLast?.or (some '"')) '"' ↔
      text.getLast? ≠ some '\\' := by
  rw [ne_eq, ← getLast?_escapes]
  cases last : (text.flatMap escape).getLast? <;> simp [Literal.closes]

end Text

/-! ## Comment removal -/

namespace Comment

variable {state : State} {part rest : Text}

/-- What leaves a literal open is kept as it is. -/
theorem exists_stripFrom_open {mark : Char} (mode : state.mode = .literal mark)
    (ready : state.skip = 0) (opened : Literal.staysOpen mark state.previous part) :
    ∃ earlier, stripFrom state (part ++ rest) =
      part ++ stripFrom { state with
        previous := part.getLast?.or state.previous, beforePrevious := earlier } rest := by
  induction part generalizing state with
  | nil => exact ⟨state.beforePrevious, rfl⟩
  | cons character part induction =>
      rw [Literal.staysOpen, Bool.and_eq_true, Bool.not_eq_true'] at opened
      have stepped : step state character (part ++ rest) = (character, state) := by
        simp [step, ready, mode, opened.1]
      rcases @induction (state.remember character) mode ready opened.2 with ⟨earlier, kept⟩
      refine ⟨earlier, ?_⟩
      rw [List.cons_append, stripFrom, stepped, kept, Text.getLast?_cons_or]
      rfl

/-- Whether two readers in the same place differ at most in what they remember of the characters
behind them, and in nothing that makes a difference later. -/
structure Alike (first second : State) : Prop where
  mode : first.mode = second.mode
  skip : first.skip = second.skip
  elements : first.elements = second.elements
  braces : first.braces = second.braces
  /-- The character before the end of a literal counts. -/
  literal : ∀ mark, first.mode = .literal mark → first.previous = second.previous
  /-- So do a `<` and a slash before the end of a tag. -/
  bracket : first.previous = some '<' ↔ second.previous = some '<'
  slash : (first.previous = some '/' ∧ first.beforePrevious ≠ some '<') ↔
    (second.previous = some '/' ∧ second.beforePrevious ≠ some '<')

/-- Whether two results show the same character and differ only where the states before them do: in
what these remember. -/
def SameStep (first second : State) (one other : Char × State) : Prop :=
  ∃ shown mode skip elements braces,
    one = (shown, { first with mode, skip, elements, braces }) ∧
      other = (shown, { second with mode, skip, elements, braces })

theorem SameStep.ite {first second : State} {condition : Prop} {oneDecidable : Decidable condition}
    {otherDecidable : Decidable condition} {one other oneElse otherElse : Char × State}
    (holds : SameStep first second one other) (fails : SameStep first second oneElse otherElse) :
    SameStep first second (@ite _ condition oneDecidable one oneElse)
      (@ite _ condition otherDecidable other otherElse) := by
  by_cases chosen : condition
  · rwa [if_pos chosen, if_pos chosen]
  · rwa [if_neg chosen, if_neg chosen]

/-- Readers that are alike do the same with a character. -/
theorem Alike.sameStep {first second : State} (alike : Alike first second) (character : Char)
    (following : Text) :
    SameStep first second (step first character following) (step second character following) := by
  rcases first with ⟨mode, skip, elements, braces, previous, beforePrevious⟩
  rcases second with ⟨_, _, _, _, otherPrevious, otherBeforePrevious⟩
  rcases alike with ⟨rfl, rfl, rfl, rfl, literal, bracket, slash⟩
  simp only [step]
  cases skip with
  | succ skip => exact ⟨_, _, _, _, _, rfl, rfl⟩
  | zero =>
      cases mode with
      | code =>
          -- With `slash` both sides ask the same in the same order.
          simp only [codeStep, State.inCode, slash]
          repeat' apply SameStep.ite
          all_goals exact ⟨_, _, _, _, _, rfl, rfl⟩
      | markupComment | lineComment | blockComment =>
          apply SameStep.ite
          all_goals exact ⟨_, _, _, _, _, rfl, rfl⟩
      | literal mark =>
          have same : previous = otherPrevious := literal mark rfl
          rw [same]
          apply SameStep.ite
          all_goals exact ⟨_, _, _, _, _, rfl, rfl⟩

theorem Alike.stripFrom_eq {first second : State} (alike : Alike first second) (source : Text) :
    stripFrom first source = stripFrom second source := by
  induction source generalizing first second with
  | nil => rfl
  | cons character rest induction =>
      rcases alike.sameStep character rest with
        ⟨shown, mode, skip, elements, braces, one, other⟩
      have after : Alike ((step first character rest).2.remember character)
          ((step second character rest).2.remember character) := by
        rw [one, other]
        exact ⟨rfl, rfl, rfl, rfl, fun _ _ => rfl, Iff.rfl,
          and_congr Iff.rfl (not_congr alike.bracket)⟩
      rw [stripFrom, stripFrom, induction after, one, other]

/-- The reader after the literal of a text that a source begins with. -/
theorem exists_strip_quote (text rest : Text) :
    ∃ earlier, strip (text.quote ++ rest) = text.quote ++ stripFrom
      { mode := if text.getLast? = some '\\' then .literal '"' else .code
        previous := some '"', beforePrevious := earlier } rest := by
  let opened : State := { mode := .literal '"', previous := some '"' }
  have inside : Literal.staysOpen '"' opened.previous (text.flatMap Text.escape) :=
    Literal.staysOpen_escapes text
  rcases @exists_stripFrom_open opened _ ('"' :: rest) _ rfl rfl inside with ⟨earlier, kept⟩
  have source : text.quote ++ rest = '"' :: (text.flatMap Text.escape ++ '"' :: rest) := by
    simp [Text.quote]
  have start : strip ('"' :: (text.flatMap Text.escape ++ '"' :: rest)) =
      '"' :: stripFrom opened (text.flatMap Text.escape ++ '"' :: rest) := rfl
  refine ⟨(text.flatMap Text.escape).getLast?.or (some '"'), ?_⟩
  rw [source, start, kept, stripFrom]
  have ends := Text.closes_quote_iff text
  simp only [opened, step]
  by_cases backslash : text.getLast? = some '\\'
  · rw [if_neg (by simpa [backslash] using ends), if_pos backslash]
    simp [Text.quote, State.remember]
  · rw [if_pos (ends.mpr backslash), if_neg backslash]
    simp [Text.quote, State.remember]

/-- What follows a literal that is read as a whole is read as if it stood alone. -/
theorem strip_quote_append {text : Text} (complete : text.getLast? ≠ some '\\') (rest : Text) :
    strip (text.quote ++ rest) = text.quote ++ strip rest := by
  rcases exists_strip_quote text rest with ⟨earlier, kept⟩
  rw [if_neg complete] at kept
  have alike : Alike { previous := some '"', beforePrevious := earlier } {} :=
    ⟨rfl, rfl, rfl, rfl, nofun, by simp, by simp⟩
  rw [kept, alike.stripFrom_eq rest]
  rfl

/-- A literal of a text that ends with a backslash goes on up to the next quote. -/
theorem strip_quote_append_unquoted {text inner : Text} (backslash : text.getLast? = some '\\')
    (unquoted : '"' ∉ inner) : strip (text.quote ++ inner) = text.quote ++ inner := by
  rcases exists_strip_quote text inner with ⟨earlier, kept⟩
  rw [if_pos backslash] at kept
  let opened : State :=
    { mode := .literal '"', previous := some '"', beforePrevious := earlier }
  have inside : Literal.staysOpen '"' opened.previous inner :=
    Literal.staysOpen_of_not_mem unquoted
  rcases @exists_stripFrom_open opened inner [] _ rfl rfl inside with ⟨later, swallowed⟩
  rw [List.append_nil] at swallowed
  rw [kept, swallowed, stripFrom, List.append_nil]

end Comment

/-! ## Scanning -/

namespace Scan

variable {input : ScanInput} {position : Nat} {tokens : List Token} {held part rest : Text}

/-- What leaves a literal open is buffered as it is. -/
theorem run_open {mark : Char} (opened : Literal.staysOpen mark held.getLast? part) :
    ((ready (.code (some mark)) [] position tokens 0).holding held).run input (part ++ rest) =
      ((ready (.code (some mark)) [] (position + part.length) tokens 0).holding
        (held ++ part)).run input rest := by
  induction part generalizing position held with
  | nil => simp
  | cons character part induction =>
      rw [Literal.staysOpen, Bool.and_eq_true, Bool.not_eq_true'] at opened
      have stepped : ((ready (.code (some mark)) [] position tokens 0).holding held).step input
          character (part ++ rest) =
            .ok ((ready (.code (some mark)) [] position tokens 0).holding
              (held ++ [character])) := by
        simp [step, codeStep, ready, holding, push, opened.1]
      have later := @induction (position + 1) (held ++ [character]) (by simpa using opened.2)
      rw [List.cons_append, run_cons_of_step stepped]
      refine later.trans ?_
      rw [List.append_assoc, List.singleton_append, List.length_cons, Nat.add_assoc,
        Nat.add_comm 1]

/-- The scan after the literal of a text that a source begins with. -/
theorem run_quote (text : Text) :
    run input {} (text.quote ++ rest) =
      ((ready (.code (if text.getLast? = some '\\' then some '"' else none)) []
        text.quote.length [] 0).holding text.quote).run input rest := by
  have inside : Literal.staysOpen '"' ['"'].getLast? (text.flatMap Text.escape) :=
    Literal.staysOpen_escapes text
  have source : text.quote ++ rest = '"' :: (text.flatMap Text.escape ++ '"' :: rest) := by
    simp [Text.quote]
  have start : run input {} ('"' :: (text.flatMap Text.escape ++ '"' :: rest)) =
      ((ready (.code (some '"')) [] 1 [] 0).holding ['"']).run input
        (text.flatMap Text.escape ++ '"' :: rest) := rfl
  have length : text.quote.length = 1 + (text.flatMap Text.escape).length + 1 := by
    simp [Text.quote, Nat.add_comm]
  have previous : (['"'] ++ text.flatMap Text.escape).toArray.back? =
      (text.flatMap Text.escape).getLast?.or (some '"') := by
    rw [List.back?_toArray, List.getLast?_append, List.getLast?_singleton]
  have mark : (if Literal.closes '"' ((text.flatMap Text.escape).getLast?.or (some '"')) '"' then
      none else some '"') = if text.getLast? = some '\\' then some '"' else none := by
    simp only [Text.closes_quote_iff, ne_eq, ite_not]
  have stepped : ((ready (.code (some '"')) [] (1 + (text.flatMap Text.escape).length) []
      0).holding (['"'] ++ text.flatMap Text.escape)).step input '"' rest =
        .ok ((ready (.code (if text.getLast? = some '\\' then some '"' else none)) []
          (1 + (text.flatMap Text.escape).length) [] 0).holding text.quote) := by
    rw [← mark, ← previous]
    simp [step, codeStep, ready, holding, push, Text.quote]
  rw [source, start, run_open inside, run_cons_of_step stepped, length]
  rfl

/-- An empty element that stands in a script. -/
theorem run_empty_element :
    (ready (.code none) [] position tokens 0).run input ['<', 'b', '/', '>'] =
      if 0 < input.ceiling then
        .ok (ready (.code none) [] (position + 4) (tokens ++
          [{ kind := .elementStart, text := ['<', 'b'], offset := position },
            { kind := .elementEnd, text := ['/', '>'], offset := position + 2 }]) 1)
      else .error (.limitExceeded input.ceiling) := by
  have opens : Lookahead.opensElement ['b', '/', '>'] := by decide
  split
  · rename_i room
    have name : ∀ character ∈ ['b'], Pushes (.tag false) character := by
      simp only [List.forall_mem_singleton]
      exact pushes_tag (by decide) (by decide) (by decide)
    have named := @run_pushes input [] (position + 1) 1 tokens ['/', '>'] _ _ name ['<']
    have cut := @run_holding_tag input [] position 1 tokens ['/', '>'] ['<', 'b'] (by decide)
      ⟨[], Or.inr rfl⟩
    rw [run_script_tag opens room]
    refine named.trans (cut.trans ?_)
    rw [run_outside_slash, resumed_script, List.append_assoc]
    rfl
  · rename_i full
    have stepped : (ready (.code none) [] position tokens 0).step input '<' ['b', '/', '>'] = _ :=
      step_script_tag rfl rfl opens
    have entered : (ready (.code none) [] position tokens 0).enter input =
        .error (.limitExceeded input.ceiling) := if_pos (by simp [ready]; omega)
    rw [flushSome_ready, entered] at stepped
    rw [run, stepped]
    rfl

end Scan

/-! ## Tokens -/

/-- The token of a text with so many more characters before it. -/
def Token.shift (distance : Nat) (token : Token) : Token :=
  { token with offset := token.offset + distance }

/-- Script followed by the tokens of the markup after it. -/
def Token.afterScript (script : Text) (tokens : List Token) : List Token :=
  { kind := .code, text := script, offset := 0 } :: tokens.map (Token.shift script.length)

theorem tokenize_quote_of_complete {text : Text} (complete : text.getLast? ≠ some '\\')
    (ceiling : Nat) :
    tokenize (text.quote ++ ";<b/>".toList) ceiling =
      (tokenize "<b/>".toList ceiling).map (Token.afterScript (text.quote ++ [';'])) := by
  have alone : Comment.strip "<b/>".toList = ['<', 'b', '/', '>'] := by decide
  have following : Comment.strip ";<b/>".toList = [';'] ++ ['<', 'b', '/', '>'] := by decide
  have opens : Lookahead.opensElement ['b', '/', '>'] := by decide
  have pushes : ∀ character ∈ [';'], Scan.Pushes (.code none) character := by
    simp only [List.forall_mem_singleton]
    exact Scan.pushes_script (by decide) (by decide)
  have initial : ({} : Scan) = Scan.ready (.code none) [] 0 [] 0 := rfl
  have length : text.quote.length + [';'].length = 0 + (text.quote ++ [';']).length := by simp
  rw [tokenize_eq, tokenize_eq, Comment.strip_quote_append complete, alone, following,
    Scan.run_quote, if_neg complete, Scan.run_pushes pushes, length,
    Scan.run_holding_script (by simp) opens, Scan.run_empty_element, initial,
    Scan.run_empty_element]
  dsimp only
  split
  · simp [Except.map, Scan.finish_ready, Token.afterScript, Token.shift]
    omega
  · rfl

/-- A literal that goes on takes in all that has no quote. -/
theorem tokenize_quote_of_backslash {text inner : Text} (backslash : text.getLast? = some '\\')
    (unquoted : '"' ∉ inner) (ceiling : Nat) :
    tokenize (text.quote ++ inner) ceiling =
      .ok [{ kind := .code, text := text.quote ++ inner, offset := 0 }] := by
  have nonempty : text.quote ++ inner ≠ [] := by simp [Text.quote]
  have length : text.quote.length + inner.length = 0 + (text.quote ++ inner).length := by simp
  have opened : Literal.staysOpen '"' text.quote.getLast? inner :=
    Literal.staysOpen_of_not_mem unquoted
  have ran := @Scan.run_open { source := text.quote ++ inner, ceiling } text.quote.length [] _ _ []
    _ opened
  rw [List.append_nil, length] at ran
  rw [tokenize_eq, Comment.strip_quote_append_unquoted backslash unquoted, Scan.run_quote,
    if_pos backslash, ran, Scan.run, Except.map, Scan.finish_holding nonempty]
  rfl

namespace Text

/-- A literal is read as a whole, by comment removal and by scanning, exactly if its text does not
end with a backslash. If it does, then both take what follows, up to the next quote, for a part of
the literal. -/
theorem quote_read_back_iff (text : Text) (ceiling : Nat) :
    ((∀ rest, Comment.strip (text.quote ++ rest) = text.quote ++ Comment.strip rest) ↔
      text.getLast? ≠ some '\\') ∧
    (tokenize (text.quote ++ ";<b/>".toList) ceiling =
        (tokenize "<b/>".toList ceiling).map (Token.afterScript (text.quote ++ [';'])) ↔
      text.getLast? ≠ some '\\') ∧
    (text.getLast? = some '\\' → ∀ inner, '"' ∉ inner →
      Comment.strip (text.quote ++ inner) = text.quote ++ inner ∧
        tokenize (text.quote ++ inner) ceiling =
          .ok [{ kind := .code, text := text.quote ++ inner, offset := 0 }]) := by
  refine ⟨⟨fun kept backslash => ?_, Comment.strip_quote_append⟩,
    ⟨fun read backslash => ?_, fun complete => tokenize_quote_of_complete complete ceiling⟩,
    fun backslash inner unquoted => ⟨Comment.strip_quote_append_unquoted backslash unquoted,
      tokenize_quote_of_backslash backslash unquoted ceiling⟩⟩
  · have blanked := kept ['/', '/']
    rw [Comment.strip_quote_append_unquoted backslash (by decide)] at blanked
    exact absurd (List.append_cancel_left blanked) (by decide)
  · rw [tokenize_quote_of_backslash backslash (by decide)] at read
    cases tokenized : tokenize "<b/>".toList ceiling with
    | error failure =>
        rw [tokenized] at read
        cases read
    | ok tokens =>
        rw [tokenized] at read
        have texts := congrArg (List.head?) (Except.ok.inj read)
        simp [Token.afterScript] at texts

/-- The literal of a backslash takes in the comment and the element after it. The literal of a text
with a backslash and a quote inside does not. -/
theorem quote_read_back_iff_samples :
    let backslash : Text := "\\".toList
    let inside : Text := "\\\"x".toList
    (¬ ∀ rest, Comment.strip (backslash.quote ++ rest) = backslash.quote ++ Comment.strip rest) ∧
      Comment.strip (backslash.quote ++ " // c".toList) = backslash.quote ++ " // c".toList ∧
      tokenize (backslash.quote ++ ";<b/>".toList) 1 =
        .ok [{ kind := .code, text := backslash.quote ++ ";<b/>".toList, offset := 0 }] ∧
      ∀ rest, Comment.strip (inside.quote ++ rest) = inside.quote ++ Comment.strip rest := by
  intro backslash inside
  have broken := quote_read_back_iff backslash 1
  have swallows := broken.2.2 rfl
  refine ⟨?_, (swallows " // c".toList (by decide)).1, (swallows ";<b/>".toList (by decide)).2, ?_⟩
  · rw [broken.1]
    decide
  · rw [(quote_read_back_iff inside 1).1]
    decide

end Text

end ElementScript
