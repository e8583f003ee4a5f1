import ElementScript.Proofs.Comment

/-! # Where a comment in braces ends

A comment that opens together with a brace of an element is taken for one that fills the braces, so
nothing but a star, a slash and a closing brace in one ends it. Where code follows the comment
inside the same braces these three do not stand together: the code goes with the comment, and so
does everything up to the next comment that does fill its braces, or to the end of the source.

`stripFrom_unclosed` and `stripFrom_closed` say this of every reader that is inside such a comment,
and `strip_code_after_comment` of a comment in front of the code of a child and of a property.
-/

namespace ElementScript

/-- What ends a comment that was opened together with a brace. -/
def Comment.fullClose : Text := ['*', '/', '}']

namespace Text

open Comment (fullClose)

theorem holds_fullClose_cons {character : Char} {text : Text} :
    holds fullClose (character :: text) = false ↔
      ¬ (character = '*' ∧ text.take 2 = ['/', '}']) ∧ holds fullClose text = false := by
  rw [holds_cons_eq_false_iff]
  have front : after? fullClose (character :: text) = none ↔
      ¬ (character = '*' ∧ text.take 2 = ['/', '}']) := by
    rw [Option.eq_none_iff_forall_ne_some]
    constructor
    · rintro none ⟨rfl, mark⟩
      refine none (text.drop 2) (after?_eq_some_iff.mpr ?_)
      rw [fullClose, List.cons_append, ← mark, List.take_append_drop]
    · rintro none rest found
      have split := after?_eq_some_iff.mp found
      rw [fullClose, List.cons_append, List.cons.injEq] at split
      exact none ⟨split.1, by simp [split.2]⟩
  rw [front]

/-- A text that holds no end of an ordinary comment holds none of the other kind, also where a star
follows it. -/
theorem holds_fullClose_append {body rest : Text} (closed : holds ['*', '/'] body = false)
    (none : holds fullClose ('*' :: rest) = false) :
    holds fullClose (body ++ '*' :: rest) = false := by
  induction body with
  | nil => exact none
  | cons character body induction =>
      have parts := holds_cons_eq_false_iff.mp closed
      rw [List.cons_append, holds_fullClose_cons]
      refine ⟨?_, induction parts.2⟩
      rintro ⟨rfl, slash⟩
      cases body with
      | nil => simp at slash
      | cons next body =>
          have isSlash : next = '/' := by simpa using congrArg List.head? slash
          simp [isSlash, after?] at parts

/-- Code without slashes ends no comment, also where a brace follows it. -/
theorem holds_fullClose_code {code rest : Text} (plain : '/' ∉ code)
    (none : holds fullClose rest = false) :
    holds fullClose (code ++ '}' :: rest) = false := by
  induction code with
  | nil => exact holds_fullClose_cons.mpr ⟨by simp, none⟩
  | cons character code induction =>
      have parts : '/' ≠ character ∧ '/' ∉ code := by simpa using plain
      rw [List.cons_append, holds_fullClose_cons]
      refine ⟨?_, induction parts.2⟩
      rintro ⟨-, slash⟩
      cases code with
      | nil => simp at slash
      | cons next code =>
          have isSlash : next = '/' := by simpa using congrArg List.head? slash
          simp [isSlash] at parts

end Text

namespace Comment

variable {state : State}

/-- A comment without its end goes on to the end of the text. -/
theorem stripFrom_unclosed {text : Text} (mode : state.mode = .markupComment)
    (skip : state.skip = 0) (none : Text.holds fullClose text = false) :
    stripFrom state text = text.map blank := by
  induction text generalizing state with
  | nil => rfl
  | cons character rest induction =>
      have parts := Text.holds_fullClose_cons.mp none
      have stepped : step state character rest = (blank character, state) := by
        simp only [step, skip, mode]
        exact if_neg parts.1
      rw [stripFrom, stepped, List.map_cons]
      exact congrArg _ (induction mode skip parts.2)

/-- A comment is blanked up to its first end, and the reader goes on in code. -/
theorem stripFrom_closed {body rest : Text} (mode : state.mode = .markupComment)
    (skip : state.skip = 0) (first : Text.holds fullClose (body ++ ['*', '/']) = false) :
    stripFrom state (body ++ fullClose ++ rest) =
      (body ++ fullClose).map blank ++
        stripFrom { state with mode := .code, previous := some '}', beforePrevious := some '/' }
          rest := by
  induction body generalizing state with
  | nil => simp [fullClose, stripFrom, step, mode, skip, State.remember, blank]
  | cons character body induction =>
      have parts := Text.holds_fullClose_cons.mp first
      have goesOn : ¬ (character = '*' ∧ (body ++ fullClose ++ rest).take 2 = ['/', '}']) := by
        rintro ⟨isStar, mark⟩
        rcases body with _ | ⟨second, _ | ⟨third, others⟩⟩
        · simp [fullClose] at mark
        · simp [fullClose] at mark
        · exact parts.1 ⟨isStar, by simpa using mark⟩
      have stepped : step state character (body ++ fullClose ++ rest) =
          (blank character, state) := by
        simp only [step, skip, mode]
        exact if_neg goesOn
      rw [List.cons_append, List.cons_append, stripFrom, stepped, List.map_cons, List.cons_append]
      exact congrArg _ (induction mode skip parts.2)

/-- The three characters that open a comment with a brace of an element are blanked. -/
theorem stripFrom_opening {rest : Text} (mode : state.mode = .code) (skip : state.skip = 0)
    (elements : 0 < state.elements) :
    stripFrom state ('{' :: '/' :: '*' :: rest) =
      ['{', '/', '*'].map blank ++
        stripFrom { state with
          mode := .markupComment, previous := some '*', beforePrevious := some '/' } rest := by
  simp [stripFrom, step, codeStep, mode, skip, elements, State.remember, blank]

/-- A comment that fills the braces of an element is blanked with them. -/
theorem stripFrom_comment_alone {comment rest : Text} (mode : state.mode = .code)
    (skip : state.skip = 0) (elements : 0 < state.elements)
    (closed : Text.holds ['*', '/'] comment = false) :
    stripFrom state (['{', '/', '*'] ++ comment ++ fullClose ++ rest) =
      (['{', '/', '*'] ++ comment ++ fullClose).map blank ++
        stripFrom { state with mode := .code, previous := some '}', beforePrevious := some '/' }
          rest := by
  have first : Text.holds fullClose (comment ++ ['*', '/']) = false :=
    Text.holds_fullClose_append closed (by decide)
  have inside := @stripFrom_closed
    { state with mode := .markupComment, previous := some '*', beforePrevious := some '/' }
    comment rest rfl skip first
  have opening := @stripFrom_opening state (comment ++ fullClose ++ rest) mode skip elements
  rw [inside] at opening
  simpa using opening

/-- A comment in front of code takes the code with it, and everything up to the next comment that
fills its braces. -/
theorem stripFrom_comment_before_code {comment code rest : Text} (mode : state.mode = .code)
    (skip : state.skip = 0) (elements : 0 < state.elements)
    (closed : Text.holds ['*', '/'] comment = false) (plain : '/' ∉ code ∧ '}' ∉ code)
    (holdsCode : code ≠ []) (none : Text.holds fullClose rest = false) :
    stripFrom state (['{', '/', '*'] ++ comment ++ ['*', '/'] ++ code ++ '}' :: rest) =
      (['{', '/', '*'] ++ comment ++ ['*', '/'] ++ code ++ '}' :: rest).map blank := by
  -- The star and the slash that end an ordinary comment are followed by code, not by a brace.
  have noBrace : (code ++ '}' :: rest).take 1 ≠ ['}'] := by
    cases code with
    | nil => exact absurd rfl holdsCode
    | cons first code =>
        intro brace
        simp_all
  have behind : Text.holds fullClose ('*' :: '/' :: (code ++ '}' :: rest)) = false := by
    rw [Text.holds_fullClose_cons, Text.holds_fullClose_cons]
    refine ⟨?_, by simp, Text.holds_fullClose_code plain.1 none⟩
    rintro ⟨-, mark⟩
    rw [List.take_succ_cons, List.cons.injEq] at mark
    exact noBrace mark.2
  have inside : Text.holds fullClose (comment ++ ['*', '/'] ++ code ++ '}' :: rest) = false := by
    simpa using Text.holds_fullClose_append closed behind
  have unclosed := @stripFrom_unclosed
    { state with mode := .markupComment, previous := some '*', beforePrevious := some '/' }
    _ rfl skip inside
  have opening := @stripFrom_opening state
    (comment ++ ['*', '/'] ++ code ++ '}' :: rest) mode skip elements
  rw [unclosed] at opening
  simpa using opening

/-- Code that follows a comment in the braces of a child or of a property is blanked with it, and so
is everything after the braces. Where no code follows, the comment ends in front of what stands
after the braces. -/
theorem strip_code_after_comment {comment code : Text}
    (closed : Text.holds "*/".toList comment = false) (plain : '/' ∉ code ∧ '}' ∉ code) :
    strip ("<a>\x7b/*".toList ++ comment ++ "*/".toList ++ code ++ "\x7d</a>".toList) =
        "<a>".toList ++
          (if code = [] then
            ("\x7b/*".toList ++ comment ++ "*/\x7d".toList).map blank ++ "</a>".toList
          else
            ("\x7b/*".toList ++ comment ++ "*/".toList ++ code ++ "\x7d</a>".toList).map blank) ∧
      strip ("<a x=\x7b/*".toList ++ comment ++ "*/".toList ++ code ++ "\x7d/>".toList) =
        "<a x=".toList ++
          (if code = [] then
            ("\x7b/*".toList ++ comment ++ "*/\x7d".toList).map blank ++ "/>".toList
          else
            ("\x7b/*".toList ++ comment ++ "*/".toList ++ code ++ "\x7d/>".toList).map blank) := by
  let inChild : State := { elements := 1, previous := some '>', beforePrevious := some 'a' }
  let inTag : State := { elements := 1, previous := some '=', beforePrevious := some 'x' }
  have child : ∀ rest, strip ("<a>".toList ++ rest) = "<a>".toList ++ stripFrom inChild rest :=
    fun _ => rfl
  have tag : ∀ rest, strip ("<a x=".toList ++ rest) = "<a x=".toList ++ stripFrom inTag rest :=
    fun _ => rfl
  split
  · rename_i empty
    have inBody := @stripFrom_comment_alone inChild comment "</a>".toList rfl rfl Nat.one_pos closed
    have inValue := @stripFrom_comment_alone inTag comment "/>".toList rfl rfl Nat.one_pos closed
    have kept : ∀ after : Text, after.opensNoComment → stripFrom
        { elements := 1, previous := some '}', beforePrevious := some '/' } after = after :=
      fun _ => stripFrom_of_opensNoComment rfl rfl
    rw [kept "</a>".toList (by decide)] at inBody
    rw [kept "/>".toList (by decide)] at inValue
    constructor
    · have whole := congrArg ("<a>".toList ++ ·) inBody
      rw [← child] at whole
      simpa [empty, fullClose] using whole
    · have whole := congrArg ("<a x=".toList ++ ·) inValue
      rw [← tag] at whole
      simpa [empty, fullClose] using whole
  · rename_i holdsCode
    have inBody := @stripFrom_comment_before_code inChild comment code "</a>".toList rfl rfl
      Nat.one_pos closed plain holdsCode (by decide)
    have inValue := @stripFrom_comment_before_code inTag comment code "/>".toList rfl rfl
      Nat.one_pos closed plain holdsCode (by decide)
    constructor
    · have whole := congrArg ("<a>".toList ++ ·) inBody
      rw [← child] at whole
      simpa using whole
    · have whole := congrArg ("<a x=".toList ++ ·) inValue
      rw [← tag] at whole
      simpa using whole

/-- The code `v` and the end of its element are blanked with the comment before them. -/
theorem strip_code_after_comment_sample :
    Text.holds "*/".toList " c ".toList = false ∧
      strip "<a>\x7b/* c */ v\x7d</a>".toList = "<a>               ".toList ∧
      strip "<a x=\x7b/* c */ v\x7d/>".toList = "<a x=             ".toList :=
  ⟨by decide, @strip_code_after_comment " c ".toList " v".toList (by decide) (by decide)⟩

end Comment

end ElementScript
