import ElementScript.Proofs.Directive
import ElementScript.Proofs.Tree.Rules

/-! # Kinds of errors

An error says what it is about and where that stands. Its kind is what is left without these. Tree
building needs the source for the places of errors and for nothing else, so the kind of an error
does not depend on the source that the tokens were cut from (`Program.ofTokens_relocated`), and
neither does what a source without comments compiles to (`Options.compile_of_tokens`).
-/

namespace ElementScript

namespace ScanError

inductive Kind where
  | unhandledProperty
  | malformedElement
  | limitExceeded
deriving DecidableEq, Repr

def kind : ScanError → Kind
  | .unhandledProperty _ _ => .unhandledProperty
  | .malformedElement _ _ => .malformedElement
  | .limitExceeded _ => .limitExceeded

end ScanError

namespace TreeError

inductive Kind where
  | mismatchedClosingTag
  | unexpectedToken
  | unexpectedRegionToken
  | unterminatedRegion
  | unbalancedElements
  | limitExceeded
deriving DecidableEq, Repr

def kind : TreeError → Kind
  | .mismatchedClosingTag _ _ _ _ => .mismatchedClosingTag
  | .unexpectedToken _ _ _ => .unexpectedToken
  | .unexpectedRegionToken _ _ _ => .unexpectedRegionToken
  | .unterminatedRegion _ => .unterminatedRegion
  | .unbalancedElements _ _ => .unbalancedElements
  | .limitExceeded _ => .limitExceeded

end TreeError

namespace CompileError

inductive Kind where
  | scan (kind : ScanError.Kind)
  | tree (kind : TreeError.Kind)
deriving DecidableEq, Repr

def kind : CompileError → Kind
  | .scan error => .scan error.kind
  | .tree error => .tree error.kind

end CompileError

/-- Whether two results are the same, up to what an error says beyond its kind. -/
def TreeError.Agree {α : Type} (first second : Except TreeError α) : Prop :=
  (∃ value, first = .ok value ∧ second = .ok value) ∨
    ∃ error other, first = .error error ∧ second = .error other ∧ error.kind = other.kind

/-! ## Building trees for another source -/

namespace TreeBuilder

open TreeError (Agree)

variable {input : TreeInput} {builder next : TreeBuilder} {token : Token} {error : TreeError}

theorem Reads.relocated (reads : Reads input builder token next) (source : Text) :
    Reads { input with source } builder token next := by
  cases reads with
  | code outside kind room => exact .code outside kind room
  | start kind room => exact .start kind room
  | take stack taken => exact .take stack taken
  | region stack outside kind room => exact .region stack outside kind room
  | close stack outside ends => exact .close stack outside ends

theorem Rejects.relocated (rejects : Rejects input builder token error) (source : Text) :
    ∃ other, Rejects { input with source } builder token other ∧ error.kind = other.kind := by
  cases rejects with
  | full counts full => exact ⟨_, .full counts full, rfl⟩
  | outside outside kind => exact ⟨_, .outside outside kind, rfl⟩
  | element stack outside kind => exact ⟨_, .element stack outside kind, rfl⟩
  | region stack inside kind => exact ⟨_, .region stack inside kind, rfl⟩
  | mismatch stack outside kind differs => exact ⟨_, .mismatch stack outside kind differs, rfl⟩

theorem run_relocated (input : TreeInput) (builder : TreeBuilder) (tokens : List Token)
    (source : Text) :
    Agree (builder.run input tokens) (builder.run { input with source } tokens) := by
  induction tokens generalizing builder with
  | nil => exact Or.inl ⟨builder, rfl, rfl⟩
  | cons token tokens induction =>
      rw [run, run]
      rcases reads_or_rejects input builder token with ⟨next, reads⟩ | ⟨error, rejects⟩
      · rw [step_of_reads reads, step_of_reads (reads.relocated source)]
        exact induction next.advance
      · rcases rejects.relocated source with ⟨other, relocated, kind⟩
        rw [step_of_rejects rejects, step_of_rejects relocated]
        exact Or.inr ⟨error, other, rfl, rfl, kind⟩

theorem finish_relocated (input : TreeInput) (builder : TreeBuilder) (source : Text) :
    Agree (builder.finish input) (builder.finish { input with source }) := by
  unfold finish
  split
  · exact Or.inr ⟨_, _, rfl, rfl, rfl⟩
  · split
    · exact Or.inr ⟨_, _, rfl, rfl, rfl⟩
    · exact Or.inl ⟨_, rfl, rfl⟩

end TreeBuilder

/-- Tokens form the same tree for every source, or fail with an error of the same kind. -/
theorem Program.ofTokens_relocated (input : TreeInput) (tokens : List Token) (source : Text) :
    TreeError.Agree (ofTokens input tokens) (ofTokens { input with source } tokens) := by
  rw [ofTokens, ofTokens]
  rcases TreeBuilder.run_relocated input {} tokens source with
    ⟨final, here, there⟩ | ⟨error, other, here, there, kind⟩
  · rw [here, there]
    exact final.finish_relocated input source
  · rw [here, there]
    exact Or.inr ⟨error, other, rfl, rfl, kind⟩

/-! ## Compiling -/

namespace Options

variable {options : Options} {source : Text}

theorem compile_of_scanError {error : ScanError} (direct : options.skipCompiled = false)
    (failed : tokenize source options.ceiling = .error error) :
    options.compile source = .error (.scan error) := by
  simp [compile, direct, parse, tokens, failed]

/-- What tokens compile to under given options, with the kind of an error in its place. -/
def outcome (options : Options) (tokens : List Token) : Except CompileError.Kind Text :=
  match Program.ofTokens
    { source := [], fragment := options.fragment, ceiling := options.ceiling } tokens with
  | .error error => .error (.tree error.kind)
  | .ok program => .ok (program.write { factory := options.factory, strict := options.strict })

/-- A source without comments compiles to what its tokens compile to. -/
theorem compile_of_tokens {tokens : List Token} (direct : options.skipCompiled = false)
    (uncommented : source.opensNoComment)
    (tokenized : tokenize source options.ceiling = .ok tokens) :
    (options.compile source).mapError CompileError.kind = options.outcome tokens := by
  simp only [compile, direct, Bool.false_and, Bool.false_eq_true, if_false, parse, Options.tokens,
    tokenized, fragmentFor_of_opensNoComment uncommented, factoryFor_of_opensNoComment uncommented,
    outcome]
  rcases Program.ofTokens_relocated
    { source := [], fragment := options.fragment, ceiling := options.ceiling } tokens source with
    ⟨program, here, there⟩ | ⟨error, other, here, there, kind⟩
  · simp only [here, there]
    rfl
  · simp only [here, there, kind]
    rfl

end Options

end ElementScript
