import ElementScript.Proofs.Compile.PassThrough
import ElementScript.Proofs.Directive
import ElementScript.Proofs.Markup.Scanning
import ElementScript.Proofs.Scan.Growth

/-! # The blank after the name of a tag

Any of the four blanks ends the name of a tag, and a scan that reads the tag goes on in the same way
after each of them. The look ahead from the `<` of the tag knows only one of them: a word behind a
space shows markup, and a word behind another blank does not. So the blank decides nothing as long
as the `<` opens an element with it, and with a space it always does. With another blank the
properties may end an operand before they show markup; the tag is then code, and its tokens are not
those of an element (`tokenize_tagWith_iff`).
-/

namespace ElementScript

/-- What a token is, wherever it stands. -/
def Token.shape (token : Token) : Token.Kind × Text :=
  (token.kind, token.text)

namespace Text

variable {character : Char} {before after : Text}

theorem after?_append_isSome {pattern : Text} (absent : character ∉ pattern) :
    (after? pattern (before ++ character :: after)).isSome = (after? pattern before).isSome := by
  induction pattern generalizing before with
  | nil => rfl
  | cons expected pattern induction =>
      have parts := List.ne_and_not_mem_of_not_mem_cons absent
      cases before with
      | nil => simp [after?, Ne.symm parts.1]
      | cons actual before =>
          simp only [List.cons_append, after?]
          split
          · exact induction parts.2
          · rfl

/-- A pattern does not reach across a character that it has not. -/
theorem holds_append_cons {pattern : Text} (absent : character ∉ pattern)
    (nonempty : pattern ≠ []) :
    holds pattern (before ++ character :: after) =
      (holds pattern before || holds pattern after) := by
  induction before with
  | nil =>
      cases pattern with
      | nil => exact absurd rfl nonempty
      | cons expected pattern =>
          have different := Ne.symm (List.ne_of_not_mem_cons absent)
          simp [holds, after?, different]
  | cons first before induction =>
      have here := @after?_append_isSome character (first :: before) after pattern absent
      rw [List.cons_append] at here
      rw [List.cons_append, holds, here, induction, holds, Bool.or_assoc]

/-- Whether a comment is opened around a blank does not depend on the blank. -/
theorem opensNoComment_blank {first second : Char} (blankFirst : isBlank first)
    (blankSecond : isBlank second) :
    opensNoComment (before ++ first :: after) = opensNoComment (before ++ second :: after) := by
  have absent : ∀ blank, isBlank blank → blank ∉ ['/', '/'] ∧ blank ∉ ['/', '*'] := by
    intro blank isBlank
    simp only [Text.isBlank, Bool.or_eq_true, decide_eq_true_eq] at isBlank
    rcases isBlank with ((rfl | rfl) | rfl) | rfl <;> decide
  have line := fun blank isBlank =>
    @holds_append_cons blank before after ['/', '/'] (absent blank isBlank).1 (by simp)
  have block := fun blank isBlank =>
    @holds_append_cons blank before after ['/', '*'] (absent blank isBlank).2 (by simp)
  simp only [opensNoComment, line _ blankFirst, line _ blankSecond, block _ blankFirst,
    block _ blankSecond]

end Text

namespace Scan

variable {input : ScanInput} {scan final : Scan} {rest : Text}

/-- A character of a script is buffered, or it opens an element. -/
theorem step_script_cases {next : Scan} {character : Char} {mark : Option Char}
    (skip : scan.skip = 0) (activity : scan.activity = .code mark)
    (stepped : scan.step input character rest = .ok next) :
    (∃ reached, next = { scan.push character with activity := .code reached }) ∨
      next = { (scan.flushSome .code scan.position).startTag with calls := scan.calls + 1 } := by
  cases reads_of_step stepped with
  | buffered ready buffers =>
      cases buffers <;> simp_all
  | scriptTag ready activity bracket opens room => exact Or.inr rfl
  | _ => simp_all

theorem exists_mem_flushSome (filled : scan.buffer.isEmpty = false) (kind : Token.Kind)
    (stop : Nat) : ∃ token ∈ (scan.flushSome kind stop).tokens.toList, token.kind = kind := by
  rw [flushSome, filled]
  refine ⟨{ kind, text := scan.text, offset := scan.offset stop }, ?_, rfl⟩
  exact Array.mem_toList_iff.mpr Array.mem_push_self

/-- Script that is buffered is cut as code in the end. -/
theorem exists_code_of_run {text : Text} {mark : Option Char} (skip : scan.skip = 0)
    (activity : scan.activity = .code mark) (filled : scan.buffer.isEmpty = false)
    (ran : scan.run input text = .ok final) : ∃ token ∈ final.finish, token.kind = .code := by
  induction text generalizing scan mark with
  | nil =>
      cases ran
      rw [finish, activity]
      exact exists_mem_flushSome filled .code _
  | cons character rest induction =>
      rw [run] at ran
      split at ran
      · cases ran
      · rename_i next stepped
        rcases step_script_cases skip activity stepped with ⟨reached, rfl⟩ | rfl
        · have longer : (scan.push character).buffer.isEmpty = false := by simp [push]
          exact @induction (advance { scan.push character with activity := .code reached }) reached
            skip rfl longer ran
        · rcases exists_mem_flushSome filled .code scan.position with ⟨token, member, kind⟩
          exact ⟨token, mem_finish_of_run ran member, kind⟩

end Scan

namespace Markup

variable {role : Role} {name : Text} {properties : Markup .properties}

/-- The text after the `<` of a tag that closes itself, with a blank of one's choice after the
name. -/
def bodyWith (name : Text) (blank : Char) (properties : Markup .properties) : Text :=
  name ++ blank :: (properties.render.drop 1 ++ ['/', '>'])

def tagWith (name : Text) (blank : Char) (properties : Markup .properties) : Text :=
  '<' :: bodyWith name blank properties

theorem bodyWith_space (nonempty : properties ≠ .noProperties) :
    bodyWith name ' ' properties = (selfClosing name properties).body := by
  cases properties with
  | noProperties => exact absurd rfl nonempty
  | _ => simp [bodyWith]

/-- Elements and their pieces have no token of script. -/
theorem kind_ne_code (markup : Markup role) (inside : role ≠ .script) (offset : Nat) :
    ∀ token ∈ markup.tokens offset, token.kind ≠ .code := by
  induction markup generalizing offset with
  | noScript | plain | markup => exact absurd rfl inside
  | _ => simp_all [codeTokens, textToken] <;> grind

section Tags

variable {blank first second : Char} {ceiling : Nat}

/-- With a space after its name, the `<` of a tag opens an element, whatever its properties are. -/
theorem opensElement_tagWith_space (named : isTagName name) (formed : properties.wellFormed)
    (nonempty : properties ≠ .noProperties) :
    Lookahead.opensElement (bodyWith name ' ' properties) := by
  have opens := opensElement_selfClosing named formed []
  rwa [List.append_nil, ← bodyWith_space nonempty] at opens

theorem opensNoComment_tagWith (nonempty : properties ≠ .noProperties)
    (uncommented : (selfClosing name properties).render.opensNoComment)
    (separates : Text.isBlank blank) : (tagWith name blank properties).opensNoComment := by
  have space : Text.isBlank ' ' := by decide
  rwa [tagWith, bodyWith, ← List.cons_append, Text.opensNoComment_blank separates space,
    List.cons_append, ← bodyWith, bodyWith_space nonempty, ← render_eq_cons_body]

theorem run_bodyWith (named : isTagName name) (separates : Text.isBlank blank)
    {input : ScanInput} {position calls : Nat} {tokens : List Token} :
    ((Scan.ready (.tag false) [] position tokens calls).holding ['<']).run input
        (bodyWith name blank properties) =
      ((Scan.ready (.tag false) [] position tokens calls).holding ['<']).run input
        (bodyWith name ' ' properties) := by
  have space : Text.isBlank ' ' := by decide
  rw [bodyWith, bodyWith, Scan.run_pushes (pushes_tagName named),
    Scan.run_pushes (pushes_tagName named), Scan.run_tag_blank rfl rfl separates space]

/-- A tag whose `<` opens an element has the tokens of the element, whatever the blank is. -/
theorem tokenize_tagWith (named : isTagName name) (formed : properties.wellFormed)
    (nonempty : properties ≠ .noProperties)
    (uncommented : (selfClosing name properties).render.opensNoComment)
    (room : 1 + properties.entries ≤ ceiling) (separates : Text.isBlank blank)
    (opens : Lookahead.opensElement (bodyWith name blank properties)) :
    tokenize (tagWith name blank properties) ceiling =
      .ok ((selfClosing name properties).tokens 0) := by
  have entered : 0 < ceiling := by omega
  have read : (selfClosing name properties).Scans :=
    scans (selfClosing name properties) (by simp [named, formed])
  rw [tokenize_of_opensNoComment (opensNoComment_tagWith nonempty uncommented separates),
    tagWith, Scan.run_first_tag opens entered, run_bodyWith named separates,
    bodyWith_space nonempty, ← List.append_nil (body _), read (by simpa using room)]
  rfl

/-- A tag whose `<` opens no element is code, at least at its start. -/
theorem exists_code_of_tagWith {tokens : List Token} (nonempty : properties ≠ .noProperties)
    (uncommented : (selfClosing name properties).render.opensNoComment)
    (separates : Text.isBlank blank)
    (compares : Lookahead.opensElement (bodyWith name blank properties) = false)
    (tokenized : tokenize (tagWith name blank properties) ceiling = .ok tokens) :
    ∃ token ∈ tokens, token.kind = .code := by
  rcases tokenize_eq_ok_iff.mp tokenized with ⟨final, ran, rfl⟩
  have stepped := fun input =>
    @Scan.step_script {} input none '<' (bodyWith name blank properties) rfl rfl fun _ => compares
  rw [Comment.strip_of_opensNoComment (opensNoComment_tagWith nonempty uncommented separates),
    tagWith, Scan.run_cons_of_step (stepped _)] at ran
  exact Scan.exists_code_of_run rfl rfl rfl ran

/-- Let a tag be written with one of the four blanks after its name. With a space its `<` opens an
element. If it does so with a first blank, then a second blank gives the same kinds and texts of
tokens exactly if the `<` opens an element with it as well. -/
theorem tokenize_tagWith_iff (named : isTagName name) (formed : properties.wellFormed)
    (nonempty : properties ≠ .noProperties)
    (uncommented : (selfClosing name properties).render.opensNoComment)
    (room : 1 + properties.entries ≤ ceiling) (separatesFirst : Text.isBlank first)
    (separatesSecond : Text.isBlank second) :
    Lookahead.opensElement (bodyWith name ' ' properties) ∧
      (Lookahead.opensElement (bodyWith name first properties) →
        ((tokenize (tagWith name first properties) ceiling).map (List.map Token.shape) =
            (tokenize (tagWith name second properties) ceiling).map (List.map Token.shape) ↔
          Lookahead.opensElement (bodyWith name second properties))) := by
  refine ⟨opensElement_tagWith_space named formed nonempty, fun opensFirst => ?_⟩
  rw [tokenize_tagWith named formed nonempty uncommented room separatesFirst opensFirst]
  constructor
  · intro same
    by_contra compares
    cases tokenized : tokenize (tagWith name second properties) ceiling with
    | error failed =>
        rw [tokenized] at same
        cases same
    | ok tokens =>
        rw [tokenized] at same
        have shapes : ((selfClosing name properties).tokens 0).map Token.shape =
            tokens.map Token.shape := Except.ok.inj same
        rcases exists_code_of_tagWith nonempty uncommented separatesSecond (by simpa using compares)
          tokenized with ⟨token, member, kind⟩
        have listed : token.shape ∈ tokens.map Token.shape := List.mem_map_of_mem member
        rw [← shapes, List.mem_map] at listed
        rcases listed with ⟨other, among, alike⟩
        have code : other.kind = .code := (congrArg Prod.fst alike).trans kind
        exact kind_ne_code _ (by decide) 0 other among code
  · intro opensSecond
    rw [tokenize_tagWith named formed nonempty uncommented room separatesSecond opensSecond]

/-- A value with a call in it. -/
def calledProperty : Markup .properties :=
  .braced "x".toList "f(y)".toList .noProperties

/-- With a space after the name, `x={f(y)}` shows markup at its first letter. With a tab it does
not, and the round bracket ends an operand. -/
theorem tokenize_tab_differs :
    isTagName "a".toList ∧ calledProperty.wellFormed ∧ calledProperty ≠ .noProperties ∧
      (selfClosing "a".toList calledProperty).render.opensNoComment ∧
      Text.isBlank ' ' ∧ Text.isBlank '\t' ∧
      (tokenize (tagWith "a".toList ' ' calledProperty) 1000).map (List.map Token.shape) ≠
        (tokenize (tagWith "a".toList '\t' calledProperty) 1000).map (List.map Token.shape) := by
  refine ⟨by decide, by decide, nofun, by decide, by decide, by decide, ?_⟩
  decide

/-- With quotes around the value, no operand is ended and a line end does as well as a space. With a
call in braces, it does not. -/
theorem tokenize_tagWith_iff_samples :
    let quotedProperty : Markup .properties := .quoted "x".toList "1 > 0".toList .noProperties
    (tokenize (tagWith "a".toList ' ' quotedProperty) 1000).map (List.map Token.shape) =
        (tokenize (tagWith "a".toList '\n' quotedProperty) 1000).map (List.map Token.shape) ∧
      (tokenize (tagWith "a".toList ' ' calledProperty) 1000).map (List.map Token.shape) ≠
        (tokenize (tagWith "a".toList '\n' calledProperty) 1000).map (List.map Token.shape) := by
  intro quotedProperty
  constructor
  · have exactly := @tokenize_tagWith_iff "a".toList quotedProperty ' ' '\n' 1000 (by decide)
      (by decide) nofun (by decide) (by decide) (by decide) (by decide)
    exact (exactly.2 exactly.1).mpr (by decide)
  · have exactly := @tokenize_tagWith_iff "a".toList calledProperty ' ' '\n' 1000 (by decide)
      (by decide) nofun (by decide) (by decide) (by decide) (by decide)
    exact fun same => absurd ((exactly.2 exactly.1).mp same) (by decide)

end Tags

end Markup

end ElementScript
