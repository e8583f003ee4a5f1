import ElementScript.Compile
import ElementScript.Proofs.Comment
import ElementScript.Proofs.Scan.Growth
import ElementScript.Proofs.Scan.Literals
import ElementScript.Proofs.Scan.Reading
import ElementScript.Proofs.Text.Braces
import ElementScript.Proofs.Text.Brackets
import ElementScript.Proofs.Tree.Contents
import ElementScript.Proofs.Tree.Stage

/-! # String literals in braces

Comment removal knows the string literals in the braces of a child and leaves them as they are
(`Comment.strip_literalChild`). The scan does not: inside of these braces it counts braces and looks
for tags, also in a literal. So a literal is the code of the child, as it stands, exactly if its
braces are balanced and no `<` in it looks like a tag (`Options.parse_literalChild`). Otherwise the
code is cut inside of the literal (`Scan.exists_cut_short`).
-/

namespace ElementScript

/-- An element whose only child is the literal of a text in braces. -/
def literalChild (text : Text) : Text :=
  '<' :: 'a' :: '>' :: '{' :: (text.quote ++ ['}', '<', '/', 'a', '>'])

/-! ## Texts without tags -/

namespace Text

/-- Whether no `<` of a text opens or closes an element among children, with `rest` after the
text. -/
def OpensNoTag (text rest : Text) : Prop :=
  ∀ before following, text = before ++ '<' :: following →
    Lookahead.opensTag (following ++ rest) = false

theorem opensNoTag_nil (rest : Text) : OpensNoTag [] rest := by
  intro before following split
  cases before <;> cases split

theorem opensNoTag_cons {character : Char} {text rest : Text} :
    OpensNoTag (character :: text) rest ↔
      (character = '<' → Lookahead.opensTag (text ++ rest) = false) ∧ text.OpensNoTag rest := by
  constructor
  · intro plain
    constructor
    · rintro rfl
      exact plain [] text rfl
    · intro before following split
      exact plain (character :: before) following (by rw [split, List.cons_append])
  · rintro ⟨first, others⟩ before following split
    cases before with
    | nil =>
        cases split
        exact first rfl
    | cons head before =>
        cases split
        exact others before following rfl

instance decidableOpensNoTag : (text rest : Text) → Decidable (text.OpensNoTag rest)
  | [], rest => .isTrue (opensNoTag_nil rest)
  | _ :: text, rest =>
      have := decidableOpensNoTag text rest
      decidable_of_iff _ opensNoTag_cons.symm

theorem isAllWhitespace_quote (text : Text) : text.quote.isAllWhitespace = false := by
  have solid : isWhitespace '"' = false := by decide
  simp [quote, isAllWhitespace, solid]

/-- A literal has no whitespace and no braces at its ends. -/
theorem stripBraces_trim_quote (text : Text) : stripBraces text.quote.trim = text.quote := by
  have trimmed : text.quote.trim = text.quote := trim_enclosed (by decide) (by decide) _
  have opening : text.quote.head? ≠ some '{' := by simp [quote]
  have closing : text.quote.getLast? = some '"' := List.getLast?_concat
  simp [trimmed, stripBraces, opening, closing]

theorem head?_trim {first : Char} (solid : isWhitespace first = false) (rest : Text) :
    (trim (first :: rest)).head? = some first := by
  have kept : trimStart (first :: rest) = first :: rest := by simp [trimStart, solid]
  rw [trim, kept, trimEnd, List.reverse_cons, List.dropWhile_append]
  split <;> simp [solid]

/-- Code that begins with a quote begins with it also without whitespace and braces at its ends. -/
theorem head?_stripBraces_trim (rest : Text) :
    (stripBraces (trim ('"' :: rest))).head? = some '"' := by
  have solid : isWhitespace '"' = false := by decide
  rcases List.head?_eq_some_iff.mp (head?_trim solid rest) with ⟨others, trimmed⟩
  rw [trimmed]
  cases others with
  | nil => rfl
  | cons second others =>
      have opening : ('"' :: second :: others).head? ≠ some '{' := by simp
      simp only [stripBraces, if_neg opening]
      split <;> rfl

theorem length_stripBraces_trim_le (text : Text) :
    (stripBraces text.trim).length ≤ text.length := by
  rcases text.exists_trim with ⟨before, after, split, -, -⟩
  have trimmed : text.length = before.length + (text.trim.length + after.length) := by
    rw [← List.length_append, ← List.length_append, ← split]
  have stripped : (stripBraces text.trim).length ≤ text.trim.length := by
    unfold stripBraces
    grind
  omega

end Text

/-! ## Comment removal -/

namespace Comment

variable {state : State} {rest : Text}

theorem stripFrom_escapes (mode : state.mode = .literal '"') (skip : state.skip = 0)
    (none : rest.opensNoComment) (text : Text) :
    stripFrom state (text.flatMap Text.escape ++ rest) = text.flatMap Text.escape ++ rest := by
  have inside : Literal.staysOpen '"' state.previous (text.flatMap Text.escape) :=
    Literal.staysOpen_escapes text
  rcases @exists_stripFrom_open state _ rest _ mode skip inside with ⟨earlier, kept⟩
  have outside : state.mode.isOutside := by rw [mode]; rfl
  rw [kept]
  congr 1
  exact stripFrom_of_opensNoComment outside skip none

/-- A literal in braces is kept, whatever it holds. -/
theorem strip_literalChild (text : Text) : strip (literalChild text) = literalChild text := by
  have literal := @stripFrom_escapes
    { mode := .literal '"', elements := 1, braces := 1, previous := '"', beforePrevious := '{' }
    ['"', '}', '<', '/', 'a', '>'] rfl rfl (by decide) text
  have source : literalChild text = '<' :: 'a' :: '>' :: '{' :: '"' ::
      (text.flatMap Text.escape ++ ['"', '}', '<', '/', 'a', '>']) := by
    simp [literalChild, Text.quote]
  rw [source]
  refine Eq.trans ?_ (congrArg ('<' :: 'a' :: '>' :: '{' :: '"' :: ·) literal)
  rfl

end Comment

/-! ## Scanning code -/

namespace Scan

variable {input : ScanInput} {levels : List Level} {position calls depth reached : Nat}
  {tokens : List Token} {held code rest : Text} {final : Scan}

theorem step_code_counted {scan : Scan} {holdsElements : Bool} {character : Char}
    {following : Text} (skip : scan.skip = 0)
    (activity : scan.activity = .children (.code depth holdsElements))
    (counted : Text.nestingAfter depth character = some reached)
    (plain : character = '<' → Lookahead.opensTag following = false) :
    scan.step input character following =
      .ok { scan.push character with activity := .children (.code reached holdsElements) } := by
  simp only [step, skip, activity, childCodeStep]
  unfold Text.nestingAfter at counted
  split at counted
  · rename_i opening
    cases counted
    simp [opening]
  · split at counted
    · rename_i noOpening closing
      rw [if_pos closing]
      split at counted
      · cases counted
      · cases counted
        rfl
    · rename_i noOpening noClosing
      cases counted
      rw [if_neg noClosing, if_neg noOpening, if_neg fun opens => ?_]
      · rw [← activity]
        rfl
      · simp [plain opens.1] at opens

theorem advance_code_counted {character : Char} :
    advance { push ((ready (.children (.code depth false)) levels position tokens calls).holding
        held) character with activity := .children (.code reached false) } =
      (ready (.children (.code reached false)) levels (position + 1) tokens calls).holding
        (held ++ [character]) := by
  simp [ready, holding, push, advance]

/-- Code in braces is buffered as long as it closes no more braces than it opens and nothing in it
looks like a tag. -/
theorem run_code_counted (counted : code.nesting depth = some reached)
    (plain : code.OpensNoTag rest) (held : Text) :
    ((ready (.children (.code depth false)) levels position tokens calls).holding held).run input
        (code ++ rest) =
      ((ready (.children (.code reached false)) levels (position + code.length) tokens
        calls).holding (held ++ code)).run input rest := by
  induction code generalizing depth position held with
  | nil =>
      cases counted
      simp
  | cons character code induction =>
      have parts := Text.opensNoTag_cons.mp plain
      rw [Text.nesting_cons, Option.bind_eq_some_iff] at counted
      rcases counted with ⟨middle, first, others⟩
      have stepped := @step_code_counted input depth middle
        ((ready (.children (.code depth false)) levels position tokens calls).holding held)
        false character (code ++ rest) rfl rfl first parts.1
      rw [List.cons_append, run_cons_of_step stepped, advance_code_counted,
        induction others parts.2, List.append_assoc, List.singleton_append, List.length_cons,
        Nat.add_assoc, Nat.add_comm 1]

theorem exists_region_of_tag {scan : Scan} (skip : scan.skip = 0)
    (activity : scan.activity = .children (.code depth false)) (opens : Lookahead.opensTag rest)
    (ran : scan.run input ('<' :: rest) = .ok final) :
    ∃ token ∈ final.finish, token.kind = .fragmentStart := by
  rw [run_cons_of_step (step_code_tag skip activity opens)] at ran
  let cut : Token :=
    { kind := .fragmentStart, text := scan.text, offset := scan.offset scan.position }
  exact ⟨cut, mem_finish_of_run ran (Array.mem_toList_iff.mpr Array.mem_push_self), rfl⟩

theorem exists_code_of_brace {scan : Scan} (skip : scan.skip = 0)
    (activity : scan.activity = .children (.code 0 false))
    (ran : scan.run input ('}' :: rest) = .ok final)
    (solid : scan.text.isAllWhitespace = false) :
    ∃ token ∈ final.finish, token.kind = .childCode ∧ token.text = scan.text := by
  have filled : scan.buffer.isEmpty = false := by
    rw [← Bool.not_eq_true]
    intro empty
    rw [text, Array.isEmpty_iff.mp empty] at solid
    cases solid
  have stepped : scan.step input '}' rest =
      .ok { scan.flush .childCode scan.position with activity := .children .text } := by
    simp [step, skip, activity, childCodeStep, flushChild, solid, flushSome, filled]
  rw [run_cons_of_step stepped] at ran
  let cut : Token := { kind := .childCode, text := scan.text, offset := scan.offset scan.position }
  exact ⟨cut, mem_finish_of_run ran (Array.mem_toList_iff.mpr Array.mem_push_self), rfl, rfl⟩

/-- If code in braces is not buffered as a whole, then it is cut inside: at a brace that closes what
is not open, or at something that looks like a tag. Braces that it leaves open take in what follows,
up to the tag that should close the element. -/
theorem exists_cut_short {closing : Text} (solid : held.isAllWhitespace = false)
    (closes : Lookahead.opensTag closing)
    (ran : ((ready (.children (.code depth false)) levels position tokens calls).holding held).run
      input (code ++ '}' :: '<' :: closing) = .ok final) :
    (code.nesting depth = some 0 ∧ code.OpensNoTag ('}' :: '<' :: closing)) ∨
      (∃ token ∈ final.finish, token.kind = .fragmentStart) ∨
      ∃ token ∈ final.finish, token.kind = .childCode ∧
        ∃ before after, code = before ++ '}' :: after ∧ token.text = held ++ before := by
  induction code generalizing depth position held with
  | nil =>
      cases depth with
      | zero => exact Or.inl ⟨rfl, Text.opensNoTag_nil _⟩
      | succ depth =>
          have stepped := @step_code_counted input (depth + 1) depth
            ((ready (.children (.code (depth + 1) false)) levels position tokens calls).holding
              held) false '}' ('<' :: closing) rfl rfl rfl nofun
          rw [List.nil_append, run_cons_of_step stepped] at ran
          exact Or.inr (Or.inl (exists_region_of_tag rfl rfl closes ran))
  | cons character code induction =>
      rw [List.cons_append] at ran
      by_cases tag : character = '<' ∧ Lookahead.opensTag (code ++ '}' :: '<' :: closing)
      · rcases tag with ⟨rfl, opens⟩
        exact Or.inr (Or.inl (exists_region_of_tag rfl rfl opens ran))
      have plain : character = '<' → Lookahead.opensTag (code ++ '}' :: '<' :: closing) = false :=
        fun bracket => by simpa [bracket] using tag
      cases counted : Text.nestingAfter depth character with
      | none =>
          rcases Text.nestingAfter_eq_none_iff.mp counted with ⟨rfl, rfl⟩
          rcases exists_code_of_brace rfl rfl ran solid with ⟨token, member, kind, cut⟩
          exact Or.inr (Or.inr ⟨token, member, kind, [], code, rfl,
            cut.trans (List.append_nil held).symm⟩)
      | some reached =>
          have stepped := @step_code_counted input depth reached
            ((ready (.children (.code depth false)) levels position tokens calls).holding held)
            false character _ rfl rfl counted plain
          rw [run_cons_of_step stepped, advance_code_counted] at ran
          have solidLonger : Text.isAllWhitespace (held ++ [character]) = false := by
            simp [Text.isAllWhitespace, List.all_append, show held.all _ = false from solid]
          rcases induction solidLonger ran with whole | region | ⟨token, member, kind, cut⟩
          · left
            rw [Text.nesting_cons, counted, Text.opensNoTag_cons]
            exact ⟨whole.1, plain, whole.2⟩
          · exact Or.inr (Or.inl region)
          · rcases cut with ⟨before, after, rfl, text⟩
            refine Or.inr (Or.inr ⟨token, member, kind, character :: before, after, rfl, ?_⟩)
            rw [text, List.append_assoc, List.singleton_append]

end Scan

/-! ## The tokens and the tree -/

section Tokens

variable {text : Text}

/-- The tokens of an element whose only child is code. -/
def codeChildTokens (code : Text) : List Token :=
  [{ kind := .elementStart, text := ['<', 'a', '>'], offset := 0 },
    { kind := .childCode, text := code, offset := 4 },
    { kind := .elementEnd, text := ['<', '/', 'a', '>'], offset := 4 + code.length + 1 }]

/-- The element with this code as its only child. -/
def codeChild (code : Text) : Element :=
  { name := ['a']
    isComponent := false
    properties := []
    children := [.code code]
    depth := 0
    offset := 0 }

theorem run_literalChild_start {input : ScanInput} (room : 1 ≤ input.ceiling) (text : Text) :
    Scan.run input {} (literalChild text) =
      ((Scan.ready (.children (.code 0 false)) [] 4
        [{ kind := .elementStart, text := ['<', 'a', '>'], offset := 0 }] 1).holding []).run input
        (text.quote ++ ['}', '<', '/', 'a', '>']) := by
  have opens : Lookahead.opensElement
      ('a' :: '>' :: '{' :: (text.quote ++ ['}', '<', '/', 'a', '>'])) := rfl
  rw [literalChild, Scan.run_first_tag opens room]
  rfl

theorem run_literalChild {input : ScanInput} (room : 1 ≤ input.ceiling)
    (balanced : text.quote.IsBalanced) (plain : text.quote.OpensNoTag ['}', '<', '/', 'a', '>']) :
    (Scan.run input {} (literalChild text)).map Scan.finish = .ok (codeChildTokens text.quote) := by
  have closes : Lookahead.opensTag ['/', 'a', '>'] := by decide
  have name : ∀ character ∈ ['a'], Scan.Pushes (.tag true) character := by
    simp only [List.forall_mem_singleton]
    exact Scan.pushes_tag (by decide) (by decide) (by decide)
  rw [run_literalChild_start room, Scan.run_code_counted (Text.isBalanced_iff.mp balanced) plain,
    List.nil_append, Scan.run_code_end text.isAllWhitespace_quote, Scan.run_text_tag closes]
  have closed := @Scan.run_closing_tag input [] (4 + text.quote.length + 1) 1
    [{ kind := .elementStart, text := ['<', 'a', '>'], offset := 0 },
      { kind := .childCode, text := text.quote, offset := 4 }] [] .text ['a'] [] name nofun
  exact congrArg (Except.map Scan.finish) closed

theorem ofTokens_codeChild {input : TreeInput} (room : 1 ≤ input.ceiling) (text : Text) :
    Program.ofTokens input (codeChildTokens text.quote) =
      .ok { body := [.element (codeChild text.quote)] } := by
  have child : Token.child? { kind := .childCode, text := text.quote, offset := 4 } =
      some (.code text.quote) := by
    rw [Token.child?, Text.stripBraces_trim_quote]
    simp [Text.quote]
  exact Program.ofTokens_single room rfl rfl child ⟨rfl, Or.inr rfl⟩

/-- Each token leaves in the contents what it leaves in some place. -/
theorem exists_mem_contentsFrom {fragment : Text} {tokens : List Token} {token : Token}
    (member : token ∈ tokens) (places : List Bool) :
    ∃ inRegion, ∀ content, token.content? fragment inRegion = some content →
      content ∈ contentsFrom fragment places tokens := by
  induction tokens generalizing places with
  | nil => cases member
  | cons first tokens induction =>
      rw [contentsFrom]
      rcases List.mem_cons.mp member with rfl | later
      · refine ⟨places.headD false, fun content left => List.mem_append_left _ ?_⟩
        rw [left]
        exact List.mem_singleton_self content
      · rcases induction later (placesAfter places first) with ⟨inRegion, left⟩
        exact ⟨inRegion, fun content found => List.mem_append_right _ (left content found)⟩

/-- What the tokens of an element leave whose only child is code. -/
theorem contents_of_codeChild {input : TreeInput} {tokens : List Token} {code : Text}
    (built : Program.ofTokens input tokens = .ok { body := [.element (codeChild code)] }) :
    ∀ content ∈ contentsFrom input.fragment [] tokens,
      content = .element ['a'] 0 ∨ content = .code code := by
  have leaves := @Spells.leaves input.fragment tokens _ [] (Program.ofTokens_spells built) rfl
  have contents : (Piece.script [.element (codeChild code)]).contents =
      [.element ['a'] 0, .code code] := by
    simp [Piece.contents, Piece.ownContents, Piece.elements, Piece.outermost, Node.contents,
      Node.elements, Element.subtree_eq, Element.nested, Element.contents, codeChild,
      Child.contents, Child.elements]
  intro content member
  have listed := leaves.2.subset member
  rw [contents] at listed
  simpa using listed

/-- There is no region beside the code. -/
theorem no_region_of_codeChild {input : TreeInput} {tokens : List Token} {code : Text}
    (built : Program.ofTokens input tokens = .ok { body := [.element (codeChild code)] }) :
    ∀ token ∈ tokens, token.kind ≠ .fragmentStart := by
  intro token member kind
  rcases @exists_mem_contentsFrom input.fragment _ _ member [] with ⟨inRegion, left⟩
  have raw : token.content? input.fragment inRegion = some (.raw token.text token.offset) := by
    simp [Token.content?, kind]
  simpa using contents_of_codeChild built _ (left _ raw)

/-- There is no shorter literal beside the code. -/
theorem length_le_of_codeChild {input : TreeInput} {tokens : List Token} {code rest : Text}
    {token : Token}
    (built : Program.ofTokens input tokens = .ok { body := [.element (codeChild code)] })
    (member : token ∈ tokens) (kind : token.kind = .childCode)
    (quoted : token.text = '"' :: rest) : code.length ≤ token.text.length := by
  rcases @exists_mem_contentsFrom input.fragment _ _ member [] with ⟨inRegion, left⟩
  cases inRegion with
  | true =>
      have raw : token.content? input.fragment true = some (.raw token.text token.offset) := by
        simp [Token.content?, kind]
      have listed := contents_of_codeChild built _ (left _ raw)
      simp at listed
  | false =>
      have solid := Text.head?_stripBraces_trim rest
      rw [← quoted] at solid
      have nonempty : (stripBraces token.text.trim).isEmpty = false := by
        cases stripped : stripBraces token.text.trim <;> simp_all
      have child : token.content? input.fragment false =
          some (.code (stripBraces token.text.trim)) := by
        simp [Token.content?, kind, nonempty]
      have listed := contents_of_codeChild built _ (left _ child)
      have same : stripBraces token.text.trim = code := by simpa using listed
      rw [← same]
      exact Text.length_stripBraces_trim_le token.text

end Tokens

namespace Options

variable {options : Options} {text : Text}

theorem parse_literalChild_of_balanced (room : 1 ≤ options.ceiling)
    (balanced : text.quote.IsBalanced) (plain : text.quote.OpensNoTag ['}', '<', '/', 'a', '>']) :
    options.parse (literalChild text) = .ok { body := [.element (codeChild text.quote)] } := by
  refine parse_eq_ok_iff.mpr ⟨_, ?_, ofTokens_codeChild room text⟩
  rw [tokenize_eq, Comment.strip_literalChild, run_literalChild room balanced plain]

theorem balanced_of_parse_literalChild (room : 1 ≤ options.ceiling)
    (parsed : options.parse (literalChild text) =
      .ok { body := [.element (codeChild text.quote)] }) :
    text.quote.IsBalanced ∧ text.quote.OpensNoTag ['}', '<', '/', 'a', '>'] := by
  rcases parse_eq_ok_iff.mp parsed with ⟨tokens, tokenized, built⟩
  rcases tokenize_eq_ok_iff.mp tokenized with ⟨final, ran, rfl⟩
  let inner := text.flatMap Text.escape ++ ['"']
  have quote : text.quote = ['"'] ++ inner := rfl
  have pushes : ∀ character ∈ ['"'], Scan.Pushes (.children (.code 0 false)) character := by
    simp only [List.forall_mem_singleton]
    exact Scan.pushes_code (by decide) (by decide) (by decide)
  rw [Comment.strip_literalChild, run_literalChild_start room, quote, List.append_assoc,
    Scan.run_pushes pushes] at ran
  -- With its first quote buffered, the code held is more than whitespace wherever it is cut.
  rcases Scan.exists_cut_short rfl rfl ran with
    whole | ⟨token, member, kind⟩ | ⟨token, member, kind, before, after, split, cut⟩
  · rw [Text.isBalanced_iff, quote, List.singleton_append, Text.opensNoTag_cons]
    exact ⟨whole.1, nofun, whole.2⟩
  · exact absurd kind (no_region_of_codeChild built token member)
  · have short := length_le_of_codeChild built member kind cut
    rw [cut, quote, split] at short
    simp only [List.nil_append, List.length_append, List.length_cons] at short
    omega

/-- The literal of a text in braces is one piece of code, as it stands, exactly if its braces are
balanced and nothing in it looks like a tag. -/
theorem parse_literalChild (room : 1 ≤ options.ceiling) (text : Text) :
    options.parse (literalChild text) =
        .ok { body := [.element (codeChild text.quote)] } ↔
      text.quote.IsBalanced ∧ text.quote.OpensNoTag ['}', '<', '/', 'a', '>'] :=
  ⟨balanced_of_parse_literalChild room,
    fun whole => parse_literalChild_of_balanced room whole.1 whole.2⟩

/-- A quote and a pair of braces are no obstacle, and neither is a `<` before a digit. A lone brace
ends the code, and what looks like a tag opens an element. -/
theorem parse_literalChild_samples :
    let options : Options := {}
    let kept (text : Text) : Prop :=
      options.parse (literalChild text) = .ok { body := [.element (codeChild text.quote)] }
    kept "\"\x7b\x7d <1 // \\".toList ∧ ¬ kept "\x7d".toList ∧ ¬ kept "\x7b".toList ∧
      ¬ kept "<b>".toList := by
  intro options kept
  have condition (text : Text) : kept text ↔
      text.quote.IsBalanced ∧ text.quote.OpensNoTag ['}', '<', '/', 'a', '>'] :=
    parse_literalChild (by decide : 1 ≤ options.ceiling) text
  refine ⟨(condition _).mpr (by decide), ?_, ?_, ?_⟩
  · rw [condition]
    decide
  · rw [condition]
    decide
  · rw [condition]
    decide

end Options

end ElementScript
