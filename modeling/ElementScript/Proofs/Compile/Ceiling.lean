import ElementScript.Compile
import ElementScript.Proofs.Tree.Failure

/-! # What the ceiling does

Both stages count some of their steps against a ceiling and stop where it is exceeded. A higher
ceiling changes nothing else: as long as a stage is not stopped it goes through the same states
(`Scan.run_raised`, `TreeBuilder.run_raised`), and so does compiling.

Building a tree counts code outside of elements, elements and regions. The count is known from the
tokens alone (`TreeBuilder.run_calls`), and so is the lowest ceiling under which their tree is built.
-/

namespace ElementScript

/-- Two results of which the first is cut off by an error, if it is not the same as the second. -/
def SameUnless {ε α : Type} (limit : ε) (lower higher : Except ε α) : Prop :=
  lower = .error limit ∨ higher = lower

theorem SameUnless.bind {ε α β : Type} {limit : ε} {lower higher : Except ε α}
    (same : SameUnless limit lower higher) (continuation : α → Except ε β) :
    SameUnless limit (lower >>= continuation) (higher >>= continuation) := by
  rcases same with cut | same
  · exact Or.inl (by rw [cut]; rfl)
  · exact Or.inr (by rw [same])

/-! ## Scanning -/

namespace Scan

variable {input : ScanInput} {higher : Nat}

theorem enter_raised (le : input.ceiling ≤ higher) (scan : Scan) :
    SameUnless (.limitExceeded input.ceiling) (scan.enter input)
      (scan.enter { input with ceiling := higher }) := by
  by_cases full : input.ceiling < scan.calls + 1
  · exact Or.inl (if_pos full)
  · have room : ¬ higher < scan.calls + 1 := by omega
    exact Or.inr ((if_neg room).trans (if_neg full).symm)

theorem codeStep_raised (le : input.ceiling ≤ higher) (scan : Scan) (mark : Option Char)
    (character : Char) (following : Text) :
    SameUnless (.limitExceeded input.ceiling) (scan.codeStep input mark character following)
      (scan.codeStep { input with ceiling := higher } mark character following) := by
  cases mark with
  | some opened => exact Or.inr rfl
  | none =>
      unfold codeStep
      simp only
      split
      · exact Or.inr rfl
      · split
        · exact (enter_raised le _).bind _
        · exact Or.inr rfl

theorem bracedStep_raised (le : input.ceiling ≤ higher) (scan : Scan) (depth : Nat)
    (content : Content) (character : Char) (following : Text) :
    SameUnless (.limitExceeded input.ceiling)
      (scan.bracedStep input depth content character following)
      (scan.bracedStep { input with ceiling := higher } depth content character following) := by
  unfold bracedStep
  split
  · exact Or.inr rfl
  · split
    · exact Or.inr rfl
    · split
      · exact (enter_raised le _).bind _
      · exact Or.inr rfl

/-- Only the characters that start an element on its own can exceed the ceiling. -/
theorem step_raised (le : input.ceiling ≤ higher) (scan : Scan) (character : Char)
    (following : Text) :
    SameUnless (.limitExceeded input.ceiling) (scan.step input character following)
      (scan.step { input with ceiling := higher } character following) := by
  unfold step
  split
  · exact Or.inr rfl
  · split
    · exact codeStep_raised le _ _ _ _
    · exact Or.inr rfl
    · exact Or.inr rfl
    · exact Or.inr rfl
    · exact bracedStep_raised le _ _ _ _ _
    · exact Or.inr rfl
    · exact Or.inr rfl

theorem run_raised (le : input.ceiling ≤ higher) (scan : Scan) (text : Text) :
    SameUnless (.limitExceeded input.ceiling) (scan.run input text)
      (scan.run { input with ceiling := higher } text) := by
  induction text generalizing scan with
  | nil => exact Or.inr rfl
  | cons character rest induction =>
      rw [run, run]
      rcases step_raised le scan character rest with cut | same
      · exact Or.inl (by rw [cut])
      · rw [same]
        cases scan.step input character rest with
        | error error => exact Or.inr rfl
        | ok next => exact induction next.advance

end Scan

theorem tokenize_raised (source : Text) {lower higher : Nat} (le : lower ≤ higher) :
    SameUnless (.limitExceeded lower) (tokenize source lower) (tokenize source higher) := by
  unfold tokenize
  rcases @Scan.run_raised { source, ceiling := lower } higher le {} (Comment.strip source) with
    cut | same
  · exact Or.inl (by rw [cut])
  · exact Or.inr (by rw [same])

/-! ## Building trees -/

namespace TreeBuilder

variable {input other : TreeInput} {builder next final : TreeBuilder} {token : Token}
  {tokens : List Token} {program : Program} {error : TreeError} {higher : Nat}

/-- A token is read in the same way under every ceiling that has room for it. The source does not
matter: only errors are located in it. -/
theorem Reads.transfer (reads : Reads input builder token next)
    (fragment : other.fragment = input.fragment) (room : next.calls ≤ other.ceiling) :
    Reads other builder token next := by
  cases reads with
  | code outside kind _ => exact .code outside kind room
  | start kind _ =>
      rw [← fragment]
      exact .start kind room
  | take stack taken => exact .take stack taken
  | region stack outside kind _ => exact .region stack outside kind room
  | close stack outside ends => exact .close stack outside ends

/-- A token that is rejected is rejected for the same reason under a higher ceiling, unless the
ceiling was the reason. -/
theorem Rejects.raised (rejects : Rejects input builder token error) :
    error = .limitExceeded input.ceiling ∨
      Rejects { input with ceiling := higher } builder token error := by
  cases rejects with
  | full counts full => exact Or.inl rfl
  | outside outside kind => exact Or.inr (.outside outside kind)
  | element stack outside kind => exact Or.inr (.element stack outside kind)
  | region stack inside kind => exact Or.inr (.region stack inside kind)
  | mismatch stack outside kind differs => exact Or.inr (.mismatch stack outside kind differs)

theorem step_raised (le : input.ceiling ≤ higher) (within : builder.calls ≤ input.ceiling)
    (token : Token) :
    SameUnless (.limitExceeded input.ceiling) (builder.step input token)
      (builder.step { input with ceiling := higher } token) := by
  rcases reads_or_rejects input builder token with ⟨next, reads⟩ | ⟨error, rejects⟩
  · have raised : Reads { input with ceiling := higher } builder token next :=
      reads.transfer rfl (Nat.le_trans (reads.calls_le within) le)
    exact Or.inr ((step_of_reads raised).trans (step_of_reads reads).symm)
  · rcases rejects.raised with rfl | raised
    · exact Or.inl (step_of_rejects rejects)
    · exact Or.inr ((step_of_rejects raised).trans (step_of_rejects rejects).symm)

theorem run_raised (le : input.ceiling ≤ higher) (within : builder.calls ≤ input.ceiling)
    (tokens : List Token) :
    SameUnless (.limitExceeded input.ceiling) (builder.run input tokens)
      (builder.run { input with ceiling := higher } tokens) := by
  induction tokens generalizing builder with
  | nil => exact Or.inr rfl
  | cons token tokens induction =>
      rw [run, run]
      rcases step_raised le within token with cut | same
      · exact Or.inl (by rw [cut])
      · rw [same]
        cases stepped : builder.step input token with
        | error error => exact Or.inr rfl
        | ok next =>
            have counted : next.advance.calls ≤ input.ceiling :=
              (step_eq_ok_iff.mp stepped).calls_le within
            exact induction counted

/-! ### The count -/

/-- A builder counts the pieces of the tokens that it reads. -/
theorem run_calls (ran : builder.run input tokens = .ok final) :
    final.calls = builder.calls + pieces builder.stack.length tokens := by
  induction tokens generalizing builder with
  | nil =>
      cases ran
      rfl
  | cons token tokens induction =>
      rcases run_cons_eq_ok_iff.mp ran with ⟨next, reads, ran⟩
      exact (induction ran).trans (reads.calls_add_pieces tokens)

/-- Tokens that are read under some ceiling are read under every ceiling that their count does not
exceed. -/
theorem run_transfer (ran : builder.run input tokens = .ok final)
    (fragment : other.fragment = input.fragment) (enough : final.calls ≤ other.ceiling) :
    builder.run other tokens = .ok final := by
  induction tokens generalizing builder with
  | nil => exact ran
  | cons token tokens induction =>
      rcases run_cons_eq_ok_iff.mp ran with ⟨next, reads, ran⟩
      have counted := run_calls ran
      have room : next.calls ≤ other.ceiling := by
        change final.calls = next.calls + _ at counted
        omega
      exact run_cons_eq_ok_iff.mpr ⟨next, reads.transfer fragment room, induction ran⟩

theorem run_within (ran : builder.run input tokens = .ok final)
    (within : builder.calls ≤ input.ceiling) : final.calls ≤ input.ceiling := by
  induction tokens generalizing builder with
  | nil =>
      cases ran
      exact within
  | cons token tokens induction =>
      rcases run_cons_eq_ok_iff.mp ran with ⟨next, reads, ran⟩
      exact induction ran (reads.calls_le within)

theorem finish_transfer (finished : builder.finish input = .ok program) (other : TreeInput) :
    builder.finish other = .ok program := by
  unfold finish at finished ⊢
  split at finished
  · cases finished
  · exact finished

end TreeBuilder

namespace Program

variable {input other : TreeInput} {tokens : List Token} {program : Program} {higher : Nat}

theorem ofTokens_raised (le : input.ceiling ≤ higher) (tokens : List Token) :
    SameUnless (.limitExceeded input.ceiling) (ofTokens input tokens)
      (ofTokens { input with ceiling := higher } tokens) := by
  unfold ofTokens
  have initial : ({} : TreeBuilder).calls ≤ input.ceiling := Nat.zero_le _
  rcases TreeBuilder.run_raised le initial tokens with cut | same
  · exact Or.inl (by rw [cut])
  · exact Or.inr (by rw [same]; rfl)

theorem pieces_le_of_ofTokens (built : ofTokens input tokens = .ok program) :
    pieces 0 tokens ≤ input.ceiling := by
  rcases ofTokens_eq_ok_iff.mp built with ⟨final, ran, -⟩
  have counted : final.calls = 0 + pieces 0 tokens := TreeBuilder.run_calls ran
  have within := TreeBuilder.run_within ran (Nat.zero_le _)
  omega

/-- A tree that is built under some ceiling is built under every ceiling that allows for its
pieces. -/
theorem ofTokens_transfer (built : ofTokens input tokens = .ok program)
    (fragment : other.fragment = input.fragment) (enough : pieces 0 tokens ≤ other.ceiling) :
    ofTokens other tokens = .ok program := by
  rcases ofTokens_eq_ok_iff.mp built with ⟨final, ran, finished⟩
  have counted : final.calls = 0 + pieces 0 tokens := TreeBuilder.run_calls ran
  have fits : final.calls ≤ other.ceiling := by omega
  exact ofTokens_eq_ok_iff.mpr ⟨final, TreeBuilder.run_transfer ran fragment fits,
    TreeBuilder.finish_transfer finished other⟩

/-- Under a ceiling that does not allow for its pieces, a tree that is built under some ceiling is
cut off. -/
theorem ofTokens_of_lt_pieces (built : ofTokens input tokens = .ok program) {ceiling : Nat}
    (exceeded : ceiling < pieces 0 tokens) :
    ofTokens { input with ceiling } tokens = .error (.limitExceeded ceiling) := by
  have lower : ceiling ≤ input.ceiling := by
    have within := pieces_le_of_ofTokens built
    omega
  rcases @ofTokens_raised { input with ceiling } _ lower tokens with cut | same
  · exact cut
  · rw [built] at same
    have within : pieces 0 tokens ≤ ceiling := pieces_le_of_ofTokens same.symm
    omega

end Program

/-! ## Compiling -/

namespace Options

variable {options : Options} {source : Text} {higher : Nat}

/-- Whether a result says that the ceiling of one of the stages was exceeded. -/
def ExceedsCeiling (result : Except CompileError Text) : Prop :=
  ∃ limit, result = .error (.scan (.limitExceeded limit)) ∨
    result = .error (.tree (.limitExceeded limit))

theorem parse_raised (le : options.ceiling ≤ higher) (source : Text) :
    options.parse source = .error (.scan (.limitExceeded options.ceiling)) ∨
      SameUnless (.tree (.limitExceeded options.ceiling)) (options.parse source)
        ({ options with ceiling := higher }.parse source) := by
  unfold parse tokens
  rcases tokenize_raised source le with cut | same
  · exact Or.inl (by rw [cut])
  · simp only [same]
    cases scanned : tokenize source options.ceiling with
    | error error => exact Or.inr (Or.inr rfl)
    | ok tokens =>
        right
        simp only
        rcases @Program.ofTokens_raised
          { source, fragment := options.fragmentFor source, ceiling := options.ceiling }
          higher le tokens with cut | built
        · exact Or.inl (by rw [cut])
        · right
          simp only [fragmentFor] at built ⊢
          rw [built]

theorem compile_raised (le : options.ceiling ≤ higher)
    (within : ¬ ExceedsCeiling (options.compile source)) :
    { options with ceiling := higher }.compile source = options.compile source := by
  by_cases skipped : options.skipCompiled && isCompiled source
  · simp only [compile, skipped, if_true]
  · have compiled : options.compile source = _ := if_neg skipped
    have raised : { options with ceiling := higher }.compile source = _ := if_neg skipped
    rw [compiled] at within ⊢
    rw [raised]
    rcases parse_raised le source with cut | cut | same
    · exact absurd ⟨options.ceiling, Or.inl (by rw [cut])⟩ within
    · exact absurd ⟨options.ceiling, Or.inr (by rw [cut])⟩ within
    · rw [same]
      rfl

end Options

/-- The ceiling only cuts off. A source that compiles or fails without exceeding it does the same
under every higher ceiling. Tokens that form a tree under some ceiling form the same tree under every
ceiling that allows for their pieces: the code tokens outside of every element, the element starts
and the region starts. Under every lower ceiling they exceed it. -/
theorem ceiling_only_cuts_off :
    (∀ (options : Options) (source : Text) (higher : Nat), options.ceiling ≤ higher →
      ¬ Options.ExceedsCeiling (options.compile source) →
        { options with ceiling := higher }.compile source = options.compile source) ∧
    ∀ (input : TreeInput) (tokens : List Token) (program : Program) (ceiling : Nat),
      Program.ofTokens input tokens = .ok program →
        let needed := scriptCodes 0 tokens + tokens.countP (·.kind = .elementStart) +
          tokens.countP (·.kind = .fragmentStart)
        (needed ≤ ceiling →
          Program.ofTokens { input with ceiling } tokens = .ok program) ∧
        (ceiling < needed →
          Program.ofTokens { input with ceiling } tokens = .error (.limitExceeded ceiling)) := by
  refine ⟨fun options source higher le within => Options.compile_raised le within, ?_⟩
  intro input tokens program ceiling built
  constructor
  · intro enough
    exact Program.ofTokens_transfer built rfl enough
  · intro exceeded
    exact Program.ofTokens_of_lt_pieces built exceeded

/-- A wrong closing tag stays the error under a higher ceiling. Code, an element in a region of a
property and the element around it are four pieces. -/
theorem ceiling_only_cuts_off_sample :
    let source := "<a></b>".toList
    let tokens : List Token :=
      [{ kind := .code, text := "x".toList, offset := 0 },
        { kind := .elementStart, text := "<a".toList, offset := 1 },
        { kind := .propertyName, text := "p".toList, offset := 4 },
        { kind := .fragmentStart, text := "1 +".toList, offset := 7 },
        { kind := .elementStart, text := "<b".toList, offset := 10 },
        { kind := .elementEnd, text := "/>".toList, offset := 12 },
        { kind := .fragmentEnd, text := [], offset := 14 },
        { kind := .elementEnd, text := "/>".toList, offset := 15 }]
    let input (ceiling : Nat) : TreeInput := { source := [], fragment := [], ceiling }
    ({ ceiling := 9 } : Options).compile source = ({ ceiling := 1 } : Options).compile source ∧
      ∃ program, Program.ofTokens (input 9) tokens = .ok program ∧
        Program.ofTokens (input 4) tokens = .ok program ∧
        Program.ofTokens (input 3) tokens = .error (.limitExceeded 3) := by
  intro source tokens input
  have failed : ({ ceiling := 1 } : Options).compile source =
      .error (.tree (.mismatchedClosingTag "a".toList "b".toList 1 (.locate source 3))) := by rfl
  have within : ¬ Options.ExceedsCeiling (({ ceiling := 1 } : Options).compile source) := by
    rw [failed]
    rintro ⟨limit, cut | cut⟩ <;> cases cut
  refine ⟨ceiling_only_cuts_off.1 _ source 9 (by decide) within, _, rfl, ?_⟩
  have recount (ceiling : Nat) := ceiling_only_cuts_off.2 (input 9) tokens _ ceiling rfl
  exact ⟨(recount 4).1 (by decide), (recount 3).2 (by decide)⟩

end ElementScript
