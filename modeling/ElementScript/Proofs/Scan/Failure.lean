import Mathlib.Tactic.SplitIfs
import ElementScript.Proofs.Scan.Tiling

/-! # Where a scan fails

A scan fails at the character that it is reading, or at the start of the text that is buffered before
it. Both stand inside of the source, since the offsets of the text without comments are those of the
source (`liesBelow_of_tokenize`). What is buffered starts no earlier from one character to the next,
and so no failure is located before it (`Scan.lies_of_run`).
-/

namespace ElementScript

/-- Whether a location is that of an offset of a source below a bound. -/
structure Location.LiesBelow (source : Text) (bound : Nat) (location : Location) : Prop where
  below : location.offset < bound
  resolved : location = .locate source location.offset

theorem Location.liesBelow_locate {source : Text} {offset bound : Nat} (below : offset < bound) :
    (locate source offset).LiesBelow source bound :=
  ⟨below, rfl⟩

namespace Scan

variable {input : ScanInput} {scan : Scan} {error : ScanError} {location : Location}
  {character : Char} {following : Text}

theorem eq_error_of_bind {ε α β : Type} {action : Except ε α} {continuation : α → β} {error : ε}
    (failed : (do let value ← action; return continuation value) = Except.error error) :
    action = .error error := by
  cases action with
  | ok value => cases failed
  | error reason =>
      cases failed
      rfl

/-- The ceiling is nowhere in the source. -/
theorem location?_of_enter (failed : scan.enter input = .error error) :
    error.location? = none := by
  unfold enter at failed
  split at failed
  · cases failed
    rfl
  · cases failed

theorem lies_of_finishProperties {named : Bool}
    (failed : scan.finishProperties input named = .error error)
    (located : error.location? = some location) :
    location.LiesBelow input.source (scan.position + 1) ∧
      scan.offset scan.position ≤ location.offset := by
  unfold finishProperties at failed
  simp only at failed
  split_ifs at failed
  cases failed
  cases located
  exact ⟨Location.liesBelow_locate (Nat.lt_succ_of_le (Nat.sub_le _ _)), Nat.le_refl _⟩

theorem lies_of_tagStep {closing : Bool}
    (failed : scan.tagStep input closing character following = .error error)
    (located : error.location? = some location) :
    location.LiesBelow input.source (scan.position + 1) ∧
      scan.offset scan.position ≤ location.offset := by
  unfold tagStep at failed
  split_ifs at failed
  cases failed
  cases located
  exact ⟨Location.liesBelow_locate (Nat.lt_succ_self _), Nat.sub_le _ _⟩

theorem lies_of_outsideStep {named : Bool}
    (failed : scan.outsideStep input named character following = .error error)
    (located : error.location? = some location) :
    location.LiesBelow input.source (scan.position + 1) ∧
      scan.offset scan.position ≤ location.offset := by
  unfold outsideStep at failed
  split_ifs at failed
  · exact lies_of_finishProperties (eq_error_of_bind failed) located
  · exact lies_of_finishProperties (eq_error_of_bind failed) located

theorem location?_of_codeStep {mark : Option Char}
    (failed : scan.codeStep input mark character following = .error error) :
    error.location? = none := by
  unfold codeStep at failed
  split at failed
  · cases failed
  · split_ifs at failed
    exact location?_of_enter (eq_error_of_bind failed)

theorem location?_of_bracedStep {depth : Nat} {content : Content}
    (failed : scan.bracedStep input depth content character following = .error error) :
    error.location? = none := by
  unfold bracedStep at failed
  split_ifs at failed
  · cases depth <;> cases failed
  · exact location?_of_enter (eq_error_of_bind failed)

/-- An error is located at the character being read or before it, where the buffered text starts. -/
theorem lies_of_step (failed : scan.step input character following = .error error)
    (located : error.location? = some location) :
    location.LiesBelow input.source (scan.position + 1) ∧
      scan.offset scan.position ≤ location.offset := by
  unfold step at failed
  split at failed
  · cases failed
  · split at failed
    · simp [location?_of_codeStep failed] at located
    · exact lies_of_tagStep failed located
    · exact lies_of_outsideStep failed located
    · cases failed
    · simp [location?_of_bracedStep failed] at located
    · cases failed
    · cases failed

/-- The buffer grows by no more than the character that is read. -/
theorem Reads.size_buffer_le {next : Scan} (reads : Reads input scan character following next) :
    next.buffer.size ≤ scan.buffer.size + 1 := by
  cases reads with
  | skipped skips => exact Nat.le_succ _
  | buffered ready buffers => simp [push]
  | closingBlank ready activity blank => exact Nat.le_succ _
  | scriptTag ready activity bracket opens room => simp [startTag]
  | valueTag ready activity bracket opens room => simp [startTag]
  | textTag ready activity bracket opens => simp [startChildTag, startTag]
  | firstTag ready activity bracket opens => simp [startChildTag, startTag]
  | furtherTag ready activity bracket opens => simp [startChildTag, startTag]
  | tagBracket ready activity bracket => simp [flush, clear]
  | tagBlank ready activity blank => simp [flush, clear]
  | tagSlash ready activity slash bracket => simp [closeSelf, emit, flush, clear]
  | closingBracket ready activity bracket => simp [flush, clear]
  | @equals named ready activity equals =>
      rcases scan.exists_equalsStep named following with ⟨skip, state, result, -⟩
      simp [result]
  | propertyBlank ready activity blank => simp
  | propertySlash ready activity slash bracket finishes =>
      simp [closeSelf, emit, (finishProperties_frame finishes).2.1]
  | propertyBracket ready activity bracket finishes =>
      simp [(finishProperties_frame finishes).2.1]
  | quotedEnd ready activity quote => simp [clear]
  | valueEnd ready activity brace => simp
  | codeStart ready activity brace => simp
  | codeEnd ready activity brace => simp
  | regionEnd ready activity brace => simp [flush, clear]

/-- An error is located inside of the text, and not before what is buffered. -/
theorem lies_of_run {text read rest : Text} (holds : scan.Holds text read rest)
    (failed : scan.run input rest = .error error) (located : error.location? = some location) :
    location.LiesBelow input.source text.length ∧
      scan.offset scan.position ≤ location.offset := by
  induction rest generalizing scan read with
  | nil => cases failed
  | cons character following induction =>
      rw [run] at failed
      split at failed
      · rename_i stepped
        cases failed
        rcases lies_of_step stepped located with ⟨lies, behind⟩
        have below := lies.below
        refine ⟨⟨?_, lies.resolved⟩, behind⟩
        rw [holds.split, List.length_append, List.length_cons, ← holds.position]
        omega
      · rename_i next stepped
        have reads := reads_of_step stepped
        have grown : next.advance.buffer.size ≤ scan.buffer.size + 1 := reads.size_buffer_le
        have advanced := (reads.holds holds).position
        rcases induction (reads.holds holds) failed with ⟨lies, behind⟩
        refine ⟨lies, ?_⟩
        rw [offset, advanced, List.length_append, List.length_singleton] at behind
        rw [offset, holds.position]
        omega

end Scan

theorem liesBelow_of_tokenize {source : Text} {ceiling : Nat} {error : ScanError}
    {location : Location} (failed : tokenize source ceiling = .error error)
    (located : error.location? = some location) : location.LiesBelow source source.length := by
  unfold tokenize at failed
  split at failed
  · rename_i ran
    cases failed
    have lies := (Scan.lies_of_run (Scan.holds_initial _) ran located).1
    rwa [Comment.length_strip] at lies
  · cases failed

end ElementScript
