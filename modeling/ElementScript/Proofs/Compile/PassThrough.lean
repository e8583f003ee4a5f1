import ElementScript.Compile
import ElementScript.Proofs.Comment.Idempotence

/-! # Sources without markup

A source in which nothing opens an element compiles to itself without its comments: it is scanned as
one piece of code (`Scan.run_script`), and that piece is written as it is. If it has no `<` at all
then the result compiles to itself, since no comment is left in it.
-/

namespace ElementScript

/-- Whether no `<` of a text opens an element. -/
def Text.OpensNoElement (text : Text) : Prop :=
  ∀ before following, text = before ++ '<' :: following →
    Lookahead.opensElement following = false

theorem Text.opensNoElement_cons {character : Char} {rest : Text} :
    OpensNoElement (character :: rest) ↔
      (character = '<' → Lookahead.opensElement rest = false) ∧ OpensNoElement rest := by
  constructor
  · intro plain
    constructor
    · rintro rfl
      exact plain [] rest rfl
    · intro before following split
      exact plain (character :: before) following (by rw [split, List.cons_append])
  · rintro ⟨first, others⟩ before following split
    cases before with
    | nil =>
        cases split
        exact first rfl
    | cons head before =>
        cases split
        exact others before following rfl

instance Text.decidableOpensNoElement : (text : Text) → Decidable text.OpensNoElement
  | [] => .isTrue fun before following split => by cases before <;> cases split
  | _ :: rest =>
      have := decidableOpensNoElement rest
      decidable_of_iff _ opensNoElement_cons.symm

theorem Text.opensNoElement_of_not_mem {text : Text} (absent : '<' ∉ text) :
    text.OpensNoElement := by
  rintro before following rfl
  exact absurd (List.mem_append_right before List.mem_cons_self) absent

namespace Scan

variable {scan : Scan}

theorem step_script {input : ScanInput} {mark : Option Char} {character : Char} {following : Text}
    (ready : scan.skip = 0) (activity : scan.activity = .code mark)
    (plain : character = '<' → Lookahead.opensElement following = false) :
    scan.step input character following =
      .ok { scan.push character with
        activity := .code (Literal.after mark scan.buffer.back? character) } := by
  simp only [step, ready, activity]
  cases mark with
  | some opened => rfl
  | none =>
      have noTag : ¬ (character = '<' ∧ Lookahead.opensElement following) := by
        rintro ⟨bracket, opens⟩
        rw [plain bracket] at opens
        cases opens
      by_cases quote : Literal.isMark character
      · simp [codeStep, Literal.after, quote]
      · simp [codeStep, Literal.after, quote, noTag, push, activity]

/-- Script without markup is buffered to its end. -/
theorem run_script (input : ScanInput) {text : Text} {mark : Option Char} (ready : scan.skip = 0)
    (activity : scan.activity = .code mark) (plain : text.OpensNoElement) :
    ∃ reached, scan.run input text =
      .ok { scan with
        position := scan.position + text.length
        buffer := scan.buffer ++ text.toArray
        activity := .code reached } := by
  induction text generalizing scan mark with
  | nil =>
      refine ⟨mark, ?_⟩
      rw [run, ← activity]
      simp
  | cons character rest induction =>
      have parts := Text.opensNoElement_cons.mp plain
      have pushed : (advance { scan.push character with
          activity := .code (Literal.after mark scan.buffer.back? character) }).skip = 0 := ready
      rcases induction pushed rfl parts.2 with ⟨reached, ran⟩
      refine ⟨reached, ?_⟩
      rw [run, step_script ready activity parts.1]
      refine ran.trans ?_
      simp [advance, push, Nat.add_assoc, Nat.add_comm 1]

end Scan

/-- The tokens of a script without markup: one piece of code, if there is any. -/
def scriptTokens (script : Text) : List Token :=
  if script.isEmpty then [] else [{ kind := .code, text := script, offset := 0 }]

theorem tokenize_script {source : Text} (plain : (Comment.strip source).OpensNoElement)
    (ceiling : Nat) : tokenize source ceiling = .ok (scriptTokens (Comment.strip source)) := by
  have initial : ({} : Scan).skip = 0 := rfl
  rcases Scan.run_script { source, ceiling } initial rfl plain with ⟨reached, ran⟩
  rw [tokenize, ran]
  by_cases empty : Comment.strip source = []
  · simp [Scan.finish, Scan.flushSome, scriptTokens, empty]
  · simp [Scan.finish, Scan.flushSome, Scan.flush, Scan.emit, Scan.clear, Scan.text, Scan.offset,
      scriptTokens, empty]

theorem Program.ofTokens_scriptTokens (input : TreeInput) (script : Text)
    (room : 1 ≤ input.ceiling) :
    ∃ program, ofTokens input (scriptTokens script) = .ok program ∧
      ∀ factory, program.write { factory, strict := false } = script := by
  unfold scriptTokens
  split
  · rename_i empty
    refine ⟨{ body := [] }, rfl, fun factory => ?_⟩
    simp [write, List.isEmpty_iff.mp empty]
  · refine ⟨{ body := [.code { text := script, offset := 0, depth := 0 }] }, ?_, fun factory => ?_⟩
    · have entered : ({} : TreeBuilder).enter input = .ok { calls := 1 } :=
        TreeBuilder.enter_of_lt room
      simp only [ofTokens, TreeBuilder.run, TreeBuilder.step, TreeBuilder.outsideStep, entered]
      rfl
    · simp [write, Node.write]

namespace Options

variable {options : Options} {source : Text}

/-- A source in which nothing opens an element compiles to itself without its comments. -/
theorem compile_script (direct : options.skipCompiled = false) (loose : options.strict = false)
    (room : 1 ≤ options.ceiling) (plain : (Comment.strip source).OpensNoElement) :
    options.compile source = .ok (Comment.strip source) := by
  rcases Program.ofTokens_scriptTokens
    { source, fragment := options.fragmentFor source, ceiling := options.ceiling }
    (Comment.strip source) room with ⟨program, built, written⟩
  have parsed : options.parse source = .ok program := by
    simp only [parse, tokens, tokenize_script plain, built]
  simp [compile, direct, parsed, loose, written]

/-- Plain code passes through: where nothing opens an element only comments are removed, the result
of a source without any `<` is its own result, and where there is no comment nothing is removed. -/
theorem compile_passes_through (direct : options.skipCompiled = false)
    (loose : options.strict = false) (room : 1 ≤ options.ceiling) :
    (∀ source : Text, (Comment.strip source).OpensNoElement →
      options.compile source = .ok (Comment.strip source)) ∧
    (∀ source : Text, '<' ∉ source →
      ∃ script, options.compile source = .ok script ∧ options.compile script = .ok script) ∧
    ∀ source : Text, Text.holds ['/', '/'] source = false → Text.holds ['/', '*'] source = false →
      Comment.strip source = source := by
  refine ⟨fun source plain => compile_script direct loose room plain, ?_, ?_⟩
  · intro source absent
    have plain : (Comment.strip source).OpensNoElement :=
      Text.opensNoElement_of_not_mem (Comment.not_mem_strip absent rfl)
    have once := compile_script direct loose room plain
    have stripped := Comment.strip_strip absent
    rw [← stripped] at plain
    have twice := compile_script direct loose room plain
    rw [stripped] at twice
    exact ⟨Comment.strip source, once, twice⟩
  · intro source noLine noBlock
    exact Comment.strip_of_opensNoComment (by simp [Text.opensNoComment, noLine, noBlock])

/-- A comparison passes through, a slash in a literal is kept, and a comment is removed only once. -/
theorem compile_passes_through_sample :
    let options : Options := { skipCompiled := false, ceiling := 1 }
    options.compile "a < b // c\n+ '//'".toList = .ok "a < b     \n+ '//'".toList ∧
      (∃ script, options.compile "x / /* y */ '/*'".toList = .ok script ∧
        options.compile script = .ok script) ∧
      Comment.strip "a < b / c".toList = "a < b / c".toList := by
  intro options
  have passes := compile_passes_through (rfl : options.skipCompiled = false) rfl (Nat.le_refl 1)
  exact ⟨passes.1 _ (by decide), passes.2.1 _ (by decide), passes.2.2 _ (by decide) (by decide)⟩

end Options

end ElementScript
