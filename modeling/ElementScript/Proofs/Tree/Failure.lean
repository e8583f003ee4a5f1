import ElementScript.Proofs.Token.Protocol
import ElementScript.Proofs.Tree.Grammar
import ElementScript.Proofs.Tree.Stage

/-! # Why tokens form no tree

Tree building stops at the first token that no tree has in its place. Up to that token everything
can still be completed: whatever is open, an end for each region and each element closes it
(`exists_completes`). With the token nothing can be completed any more, because the builder takes up
every token that some tree goes on with (`TreeBuilder.reads_of_continues`).

Tokens that are read to the end without forming a tree leave something open. If that is a region,
the error is located at the innermost one; `openRegions` finds it from the tokens alone, by matching
region starts with region ends.
-/

namespace ElementScript

/-- Whether tokens form a tree, if the ceiling is high enough. -/
def Accepted (fragment : Text) (tokens : List Token) : Prop :=
  ∃ source ceiling program, Program.ofTokens { source, fragment, ceiling } tokens = .ok program

/-- Whether tokens are the beginning of tokens that form a tree. -/
def Viable (fragment : Text) (tokens : List Token) : Prop :=
  ∃ more, Accepted fragment (tokens ++ more)

/-- The region starts that are open after a token, innermost first. -/
def regionsAfter (opened : List Token) (token : Token) : List Token :=
  match token.kind with
  | .fragmentStart => token :: opened
  | .fragmentEnd => opened.tail
  | _ => opened

/-- The region starts in some tokens that no region end closes, innermost first. -/
def openRegions (tokens : List Token) : List Token :=
  tokens.foldl regionsAfter []

/-- What an error says about the tokens. -/
def TreeError.Describes (input : TreeInput) (tokens : List Token) : TreeError → Prop
  -- The token at the index is the first that nothing can be completed with.
  | .mismatchedClosingTag _ _ index _ | .unexpectedToken _ index _
  | .unexpectedRegionToken _ index _ =>
      index < tokens.length ∧ Viable input.fragment (tokens.take index) ∧
        ¬ Viable input.fragment (tokens.take (index + 1))
  | .unterminatedRegion location =>
      ¬ Accepted input.fragment tokens ∧ Viable input.fragment tokens ∧
        ∃ start outer, openRegions tokens = start :: outer ∧
          location = .locate input.source start.offset
  | .unbalancedElements starts ends =>
      ¬ Accepted input.fragment tokens ∧ Viable input.fragment tokens ∧
        openRegions tokens = [] ∧ starts = tokens.countP (·.kind = .elementStart) ∧
        ends = tokens.countP (·.kind = .elementEnd) ∧ ends < starts
  | .limitExceeded _ => False

/-! ## What is open can be closed -/

theorem exists_completes (fragment : Text) (frames : List Frame) :
    ∃ tokens, Completes fragment frames tokens := by
  induction frames with
  | nil => exact ⟨[], .script .done⟩
  | cons frame outer induction =>
      rcases induction with ⟨rest, following⟩
      rcases frame with ⟨name, inRegion⟩
      -- An end without a name fits every element.
      let stop : Token := { kind := .elementEnd, text := [], offset := 0 }
      have closed : Completes fragment (⟨name, false⟩ :: outer) ([] ++ stop :: rest) :=
        .element .done ⟨rfl, Or.inl rfl⟩ following
      cases inRegion with
      | false => exact ⟨_, closed⟩
      | true =>
          let closing : Token := { kind := .fragmentEnd, text := [], offset := 0 }
          exact ⟨[] ++ closing :: ([] ++ stop :: rest), .region .done rfl closed⟩

namespace TreeBuilder

variable {input : TreeInput} {builder next final : TreeBuilder} {token : Token}
  {tokens rest : List Token} {error : TreeError}

theorem exists_continues (fragment : Text) (stack : List OpenElement) :
    ∃ rest, Continues fragment stack rest := by
  rcases exists_completes fragment (frames stack) with ⟨rest, completes⟩
  exact ⟨rest, .plain completes⟩

theorem run_cons_eq_ok_iff :
    builder.run input (token :: tokens) = .ok final ↔
      ∃ next, Reads input builder token next ∧ next.advance.run input tokens = .ok final := by
  rw [run]
  constructor
  · intro ran
    split at ran
    · cases ran
    · rename_i next stepped
      exact ⟨next, step_eq_ok_iff.mp stepped, ran⟩
  · rintro ⟨next, reads, ran⟩
    rw [step_eq_ok_iff.mpr reads]
    exact ran

/-- What continues a builder after some tokens continues it, with these tokens in front, before
them. -/
theorem continues_append_of_run (coherent : builder.Coherent)
    (ran : builder.run input tokens = .ok final)
    (continues : Continues input.fragment final.stack rest) :
    Continues input.fragment builder.stack (tokens ++ rest) := by
  induction tokens generalizing builder with
  | nil =>
      cases ran
      exact continues
  | cons token tokens induction =>
      rcases run_cons_eq_ok_iff.mp ran with ⟨next, reads, ran⟩
      have following : Continues input.fragment next.advance.stack (tokens ++ rest) :=
        induction (reads.coherent coherent).advance ran
      exact reads.continues_cons coherent following

/-- What continues a builder and begins with tokens that it reads continues it after them. -/
theorem continues_of_continues_append (ran : builder.run input tokens = .ok final)
    (room : builder.calls + tokens.length ≤ input.ceiling)
    (continues : Continues input.fragment builder.stack (tokens ++ rest)) :
    Continues input.fragment final.stack rest := by
  induction tokens generalizing builder with
  | nil =>
      cases ran
      exact continues
  | cons token tokens induction =>
      rw [List.length_cons] at room
      rcases run_cons_eq_ok_iff.mp ran with ⟨next, reads, ran⟩
      rcases reads_of_continues continues fun _ => by omega with ⟨other, otherReads, following⟩
      have same : other = next := by
        have stepped := step_eq_ok_iff.mpr otherReads
        rw [step_eq_ok_iff.mpr reads] at stepped
        exact (Except.ok.inj stepped).symm
      subst same
      have counted := reads.calls_le_succ
      refine induction ran ?_ following
      change other.calls + tokens.length ≤ input.ceiling
      omega

/-! ## What a builder counts -/

theorem Reads.counters (reads : Reads input builder token next) :
    next.index = builder.index ∧
      next.starts = builder.starts + [token].countP (·.kind = .elementStart) ∧
      next.ends = builder.ends + [token].countP (·.kind = .elementEnd) := by
  cases reads with
  | code outside kind room => simp [kind]
  | start kind room => simp [kind]
  | region stack outside kind room => simp [kind]
  | @close element outer stack outside ends =>
      cases outer <;> simp [closeInnermost, ends.1]
  | take stack taken =>
      cases taken with
      | name outside kind => simp [kind]
      | regionEnd inside kind => simp [kind]
      | value outside waiting kind =>
          cases shape : token.kind <;> simp_all [Token.Kind.isValue]
      | child outside kind =>
          cases shape : token.kind <;> simp_all [Token.Kind.isChild]
      | part inside kind =>
          cases shape : token.kind <;> simp_all [Token.Kind.isPart]

theorem run_counters (ran : builder.run input tokens = .ok final) :
    final.index = builder.index + tokens.length ∧
      final.starts = builder.starts + tokens.countP (·.kind = .elementStart) ∧
      final.ends = builder.ends + tokens.countP (·.kind = .elementEnd) := by
  induction tokens generalizing builder with
  | nil =>
      cases ran
      exact ⟨rfl, rfl, rfl⟩
  | cons token tokens induction =>
      rcases run_cons_eq_ok_iff.mp ran with ⟨next, reads, ran⟩
      have first := reads.counters
      have others := induction ran
      simp only [advance] at others
      rw [← List.singleton_append, List.countP_append, List.countP_append, List.length_append,
        List.length_singleton]
      omega

theorem run_calls_le (ran : builder.run input tokens = .ok final) :
    final.calls ≤ builder.calls + tokens.length := by
  induction tokens generalizing builder with
  | nil =>
      cases ran
      exact Nat.le_refl _
  | cons token tokens induction =>
      rcases run_cons_eq_ok_iff.mp ran with ⟨next, reads, ran⟩
      have first := reads.calls_le_succ
      have others := induction ran
      simp only [advance] at others
      rw [List.length_cons]
      omega

/-! ## Open regions -/

/-- The offsets of the open regions, innermost first. -/
def regionOffsets (stack : List OpenElement) : List Nat :=
  stack.filterMap fun element => element.region.map (·.offset)

theorem regionOffsets_cons (element : OpenElement) (outer : List OpenElement) :
    regionOffsets (element :: outer) =
      (element.region.map (·.offset)).toList ++ regionOffsets outer := by
  cases region : element.region <;> simp [regionOffsets, region]

/-- A nested element leaves the region of its parent where it is. -/
theorem offset_attach (element : OpenElement) (inner : Element) :
    (element.attach inner).region.map (·.offset) = element.region.map (·.offset) := by
  unfold OpenElement.attach
  split
  · rename_i region inside
    simp [inside]
  · split <;> rfl

theorem regionOffsets_closeInnermost {element : OpenElement} {outer : List OpenElement} :
    regionOffsets (builder.closeInnermost element outer).stack = regionOffsets outer := by
  cases outer with
  | nil => rfl
  | cons parent above =>
      simp only [closeInnermost, regionOffsets_cons, offset_attach]

/-- A builder opens and closes regions with the region starts and ends that it reads. -/
theorem Reads.regionOffsets_eq (reads : Reads input builder token next) {opened : List Token}
    (same : regionOffsets builder.stack = opened.map (·.offset)) :
    regionOffsets next.stack = (regionsAfter opened token).map (·.offset) := by
  cases reads with
  | code outside kind room => simpa [regionsAfter, kind] using same
  | start kind room => simpa [regionsAfter, kind, regionOffsets_cons] using same
  | @region element outer stack outside kind room =>
      rw [stack, regionOffsets_cons, outside] at same
      simpa [regionsAfter, kind, regionOffsets_cons, OpenElement.openRegion] using same
  | @close element outer stack outside ends =>
      rw [stack, regionOffsets_cons, outside] at same
      rw [regionOffsets_closeInnermost]
      simpa [regionsAfter, ends.1] using same
  | @take element changed outer stack taken =>
      rw [stack, regionOffsets_cons] at same
      rw [regionOffsets_cons]
      cases taken with
      | name outside kind => simpa [regionsAfter, kind] using same
      | value outside waiting kind =>
          cases shape : token.kind <;>
            simp_all [regionsAfter, Token.Kind.isValue, OpenElement.addProperty]
      | child outside kind =>
          cases shape : token.kind <;> simp_all [regionsAfter, Token.Kind.isChild]
      | part inside kind =>
          cases shape : token.kind <;> simp_all [regionsAfter, Token.Kind.isPart]
      | regionEnd inside kind =>
          rw [inside] at same
          simp only [regionsAfter, kind, OpenElement.region_attachRegion, List.map_tail, ← same]
          simp

theorem run_regionOffsets {opened : List Token} (ran : builder.run input tokens = .ok final)
    (same : regionOffsets builder.stack = opened.map (·.offset)) :
    regionOffsets final.stack = (tokens.foldl regionsAfter opened).map (·.offset) := by
  induction tokens generalizing builder opened with
  | nil =>
      cases ran
      exact same
  | cons token tokens induction =>
      rcases run_cons_eq_ok_iff.mp ran with ⟨next, reads, ran⟩
      exact induction ran (reads.regionOffsets_eq same)

/-- The error at the end of the tokens is located at the innermost open region. -/
theorem findSome?_region (stack : List OpenElement) :
    (stack.findSome? (·.region)).map (·.offset) = (regionOffsets stack).head? := by
  induction stack with
  | nil => rfl
  | cons element outer induction =>
      cases region : element.region <;>
        simp [regionOffsets_cons, region, induction]

theorem exists_rejects_of_run (failed : builder.run input tokens = .error error) :
    ∃ before token after reached, tokens = before ++ token :: after ∧
      builder.run input before = .ok reached ∧ Rejects input reached token error := by
  induction tokens generalizing builder with
  | nil => cases failed
  | cons token tokens induction =>
      rw [run] at failed
      split at failed
      · rename_i reason stepped
        cases failed
        exact ⟨[], token, tokens, builder, rfl, rfl, step_eq_error_iff.mp stepped⟩
      · rename_i next stepped
        rcases induction failed with ⟨before, offending, after, reached, split, ran, rejects⟩
        refine ⟨token :: before, offending, after, reached, by rw [split]; rfl, ?_, rejects⟩
        exact run_cons_eq_ok_iff.mpr ⟨next, step_eq_ok_iff.mp stepped, ran⟩

/-- Below the ceiling, nothing continues a builder with a token that it rejects. -/
theorem Rejects.not_continues (rejects : Rejects input builder token error)
    (room : builder.calls < input.ceiling) :
    ¬ Continues input.fragment builder.stack (token :: rest) := by
  intro continues
  rcases reads_of_continues continues fun _ => room with ⟨next, reads, -⟩
  have stepped := step_eq_error_iff.mpr rejects
  rw [step_eq_ok_iff.mpr reads] at stepped
  cases stepped

end TreeBuilder

open TreeBuilder (Continues Rejects)

variable {input : TreeInput} {builder : TreeBuilder} {tokens before after : List Token}
  {token : Token} {fragment : Text}

/-! ## Beginnings of trees -/

theorem accepted_iff_continues : Accepted fragment tokens ↔ Continues fragment [] tokens := by
  constructor
  · rintro ⟨source, ceiling, program, built⟩
    rcases Program.ofTokens_eq_ok_iff.mp built with ⟨final, ran, finished⟩
    have coherent := TreeBuilder.run_coherent TreeBuilder.coherent_initial ran
    have outside := (TreeBuilder.finish_succeeds_iff coherent).mp ⟨program, finished⟩
    exact ((TreeBuilder.run_completes_iff tokens TreeBuilder.coherent_initial
      (Nat.zero_le ceiling)).mp ⟨final, ran, outside⟩).1
  · intro continues
    let input : TreeInput := { source := [], fragment, ceiling := 0 + pieces 0 tokens }
    have completes : ∃ final, ({} : TreeBuilder).run input tokens = .ok final ∧
        final.stack = [] :=
      (TreeBuilder.run_completes_iff tokens TreeBuilder.coherent_initial (Nat.zero_le _)).mpr
        ⟨continues, Nat.le_refl _⟩
    rcases completes with ⟨final, ran, outside⟩
    have coherent := TreeBuilder.run_coherent TreeBuilder.coherent_initial ran
    rcases (TreeBuilder.finish_succeeds_iff coherent).mpr outside with ⟨program, finished⟩
    exact ⟨_, _, program, Program.ofTokens_eq_ok_iff.mpr ⟨final, ran, finished⟩⟩

/-- Tokens that a builder reads can be completed. -/
theorem viable_of_run (ran : ({} : TreeBuilder).run input tokens = .ok builder) :
    Viable input.fragment tokens := by
  rcases TreeBuilder.exists_continues input.fragment builder.stack with ⟨more, continues⟩
  exact ⟨more, accepted_iff_continues.mpr
    (TreeBuilder.continues_append_of_run TreeBuilder.coherent_initial ran continues)⟩

theorem not_viable_of_rejects {error : TreeError}
    (ran : ({} : TreeBuilder).run input before = .ok builder)
    (rejects : Rejects input builder token error) (room : before.length < input.ceiling) :
    ¬ Viable input.fragment (before ++ [token]) := by
  rintro ⟨more, accepted⟩
  rw [List.append_assoc, accepted_iff_continues] at accepted
  have counted := TreeBuilder.run_calls_le ran
  have start : ({} : TreeBuilder).calls = 0 := rfl
  exact rejects.not_continues (by omega)
    (TreeBuilder.continues_of_continues_append ran (by omega) accepted)

/-- An error at a token names the first token that nothing can be completed with. -/
theorem describes_of_rejects {error : TreeError}
    (ran : ({} : TreeBuilder).run input before = .ok builder)
    (rejects : Rejects input builder token error)
    (room : (before ++ token :: after).length ≤ input.ceiling) :
    error.Describes input (before ++ token :: after) := by
  rw [List.length_append, List.length_cons] at room
  have counted := TreeBuilder.run_calls_le ran
  have start : ({} : TreeBuilder).calls = 0 := rfl
  have index : builder.index = before.length := by
    have read := (TreeBuilder.run_counters ran).1
    simpa using read
  have first : before.length < (before ++ token :: after).length ∧
      Viable input.fragment ((before ++ token :: after).take before.length) ∧
      ¬ Viable input.fragment ((before ++ token :: after).take (before.length + 1)) := by
    have longer : (before ++ token :: after).take (before.length + 1) = before ++ [token] := by
      rw [List.take_length_add_append, List.take_succ_cons, List.take_zero]
    rw [List.take_left', longer]
    · exact ⟨by simp, viable_of_run ran, not_viable_of_rejects ran rejects (by omega)⟩
    · rfl
  rw [← index] at first
  cases rejects with
  | full counts full => omega
  | outside outside kind => exact first
  | element stack outside kind => exact first
  | region stack inside kind => exact first
  | mismatch stack outside kind differs => exact first

theorem Viable.of_append (viable : Viable fragment (before ++ after)) : Viable fragment before := by
  rcases viable with ⟨more, accepted⟩
  exact ⟨after ++ more, by rwa [← List.append_assoc]⟩

/-! ## The end of the tokens -/

/-- Tokens that leave an element open form no tree. -/
theorem not_accepted_of_run (room : tokens.length ≤ input.ceiling)
    (ran : ({} : TreeBuilder).run input tokens = .ok builder) (opened : builder.stack ≠ []) :
    ¬ Accepted input.fragment tokens := by
  intro accepted
  rw [accepted_iff_continues, ← List.append_nil tokens] at accepted
  have continues := TreeBuilder.continues_of_continues_append ran (by simpa using room) accepted
  cases continues with
  | plain completes =>
      have closed := completes.frames_eq_nil
      exact opened (List.map_eq_nil_iff.mp closed)

theorem openRegions_of_run (ran : ({} : TreeBuilder).run input tokens = .ok builder) :
    (builder.stack.findSome? (·.region)).map (·.offset) =
      (openRegions tokens).head?.map (·.offset) := by
  have none : TreeBuilder.regionOffsets ({} : TreeBuilder).stack =
      ([] : List Token).map (·.offset) := rfl
  rw [TreeBuilder.findSome?_region, TreeBuilder.run_regionOffsets ran none, List.head?_map]
  rfl

theorem describes_of_finish {error : TreeError} (room : tokens.length ≤ input.ceiling)
    (ran : ({} : TreeBuilder).run input tokens = .ok builder)
    (failed : builder.finish input = .error error) : error.Describes input tokens := by
  have coherent := TreeBuilder.run_coherent TreeBuilder.coherent_initial ran
  have opened : builder.stack ≠ [] := by
    intro outside
    rcases (TreeBuilder.finish_succeeds_iff coherent).mpr outside with ⟨program, finished⟩
    rw [failed] at finished
    cases finished
  have incomplete := not_accepted_of_run room ran opened
  have regions := openRegions_of_run ran
  unfold TreeBuilder.finish at failed
  split at failed
  · rename_i region found
    cases failed
    rw [found] at regions
    cases shape : openRegions tokens with
    | nil => simp [shape] at regions
    | cons start outer =>
        refine ⟨incomplete, viable_of_run ran, start, outer, shape, ?_⟩
        have same : region.offset = start.offset := by simpa [shape] using regions
        rw [same]
  · rename_i found
    split at failed
    · rename_i unequal
      cases failed
      rw [found] at regions
      have closed : openRegions tokens = [] := by simpa using regions.symm
      have counters := TreeBuilder.run_counters ran
      have balanced := coherent.balanced
      refine ⟨incomplete, viable_of_run ran, closed, by simpa using counters.2.1,
        by simpa using counters.2.2, by omega⟩
    · cases failed

namespace Program

/-- An error of tree building that names a token names the first one that no tree has in its place:
the tokens before it can be completed, and the tokens up to it cannot. An error that names none says
that the tokens can be completed and are not complete. It is that of an open region, located at the
start of the innermost one, exactly if a region is still open at the end; otherwise it has the exact
numbers of element starts and ends, of which the first is larger. -/
theorem ofTokens_reports_first (input : TreeInput) (tokens : List Token)
    (room : tokens.length ≤ input.ceiling) :
    (∀ error, ofTokens input tokens = .error error → error.Describes input tokens) ∧
      ((∃ location, ofTokens input tokens = .error (.unterminatedRegion location)) ↔
        Viable input.fragment tokens ∧ openRegions tokens ≠ []) := by
  have described : ∀ error, ofTokens input tokens = .error error →
      error.Describes input tokens := by
    intro error failed
    unfold ofTokens at failed
    split at failed
    · rename_i reason ran
      cases failed
      rcases TreeBuilder.exists_rejects_of_run ran with
        ⟨before, token, after, reached, rfl, reads, rejects⟩
      exact describes_of_rejects reads rejects room
    · rename_i builder ran
      exact describes_of_finish room ran failed
  refine ⟨described, ?_, ?_⟩
  · rintro ⟨location, failed⟩
    rcases described _ failed with ⟨-, viable, start, outer, opened, -⟩
    exact ⟨viable, by simp [opened]⟩
  · rintro ⟨viable, opened⟩
    cases ran : ({} : TreeBuilder).run input tokens with
    | error error =>
        rcases TreeBuilder.exists_rejects_of_run ran with
          ⟨before, token, after, reached, rfl, reads, rejects⟩
        have short : before.length < input.ceiling := by
          rw [List.length_append, List.length_cons] at room
          omega
        rw [← List.singleton_append, ← List.append_assoc] at viable
        exact absurd viable.of_append (not_viable_of_rejects reads rejects short)
    | ok builder =>
        have regions := openRegions_of_run ran
        cases found : builder.stack.findSome? (·.region) with
        | none =>
            rw [found] at regions
            exact absurd (by simpa using regions.symm) opened
        | some region =>
            refine ⟨.locate input.source region.offset, ?_⟩
            rw [ofTokens, ran]
            simp [TreeBuilder.finish, found]

/-- Two regions are open at the end of these tokens, and the error is located at the inner one. -/
theorem ofTokens_reports_first_region :
    let token (kind : Token.Kind) (text : String) (offset : Nat) : Token :=
      { kind, text := text.toList, offset }
    let tokens : List Token :=
      [token .elementStart "<a>" 0, token .fragmentStart "" 4, token .elementStart "<b>" 4,
        token .fragmentStart "" 8]
    let input : TreeInput := { source := [], fragment := [], ceiling := 4 }
    tokens.length ≤ input.ceiling ∧
      ofTokens input tokens = .error (.unterminatedRegion (.locate [] 8)) ∧
      openRegions tokens = [token .fragmentStart "" 8, token .fragmentStart "" 4] ∧
      ¬ Accepted [] tokens ∧ Viable [] tokens := by
  intro token tokens input
  have room : tokens.length ≤ input.ceiling := by decide
  have failed : ofTokens input tokens = .error (.unterminatedRegion (.locate [] 8)) := by rfl
  have described := (ofTokens_reports_first input tokens room).1 _ failed
  exact ⟨room, failed, by decide, described.1, described.2.1⟩

end Program

end ElementScript
