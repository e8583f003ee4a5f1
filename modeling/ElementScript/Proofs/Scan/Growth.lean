import Mathlib.Data.List.InsertIdx
import ElementScript.Proofs.Scan.Slices

/-! # Tokens are never lost

A scan adds tokens at the end, and the start of a region also before an element that has been cut
already (`Scan.Adds`). It takes none away and moves none: the tokens of a scan are among the tokens
of every scan after it, in the same order (`Scan.run_sublist`).
-/

namespace ElementScript.Scan

/-! ## Cutting -/

section Cutting

variable {input : ScanInput} (scan : Scan) (kind : Token.Kind) (stop : Nat)

theorem isPrefix_emit (text : Text) (offset : Nat) :
    scan.tokens.toList <+: (scan.emit kind text offset).tokens.toList := by
  rw [toList_tokens_emit]
  exact List.prefix_append _ _

theorem isPrefix_flush : scan.tokens.toList <+: (scan.flush kind stop).tokens.toList :=
  scan.isPrefix_emit kind _ _

theorem isPrefix_flushSome : scan.tokens.toList <+: (scan.flushSome kind stop).tokens.toList := by
  unfold flushSome
  split
  · exact List.prefix_rfl
  · exact scan.isPrefix_flush kind stop

theorem isPrefix_flushSolid :
    scan.tokens.toList <+: (scan.flushSolid kind stop).tokens.toList := by
  unfold flushSolid
  split
  · exact List.prefix_rfl
  · exact scan.isPrefix_flush kind stop

theorem isPrefix_flushChild :
    scan.tokens.toList <+: (scan.flushChild kind stop).tokens.toList :=
  scan.isPrefix_flushSome _ stop

theorem isPrefix_closeSelf : scan.tokens.toList <+: scan.closeSelf.tokens.toList := by
  simp only [closeSelf, tokens_resume]
  exact scan.isPrefix_emit _ _ _

theorem isPrefix_finish : scan.tokens.toList <+: scan.finish := by
  unfold finish
  split
  · exact scan.isPrefix_flushSome _ _
  · exact List.prefix_rfl

theorem sublist_openFragmentAt (mark : Nat) :
    scan.tokens.toList.Sublist (scan.openFragmentAt mark).tokens.toList :=
  List.sublist_insertIdx _ _ _

variable {scan}

theorem isPrefix_finishProperties {named : Bool} {finished : Scan}
    (ok : scan.finishProperties input named = .ok finished) :
    scan.tokens.toList <+: finished.tokens.toList := by
  unfold finishProperties at ok
  simp only at ok
  split at ok
  · cases ok
    exact List.prefix_rfl
  · split at ok
    · cases ok
      exact scan.isPrefix_emit _ _ _
    · cases ok

end Cutting

/-! ## Steps -/

variable {input : ScanInput} {scan next final : Scan} {character : Char} {following : Text}

/-- How a step adds to the tokens. -/
inductive Adds (scan next : Scan) : Prop where
  | behind (kept : scan.tokens.toList <+: next.tokens.toList)
  /-- Code after the first elements of a value puts them into a region. The mark of the value is
  given up. -/
  | before {depth mark : Nat} {token : Token}
      (activity : scan.activity = .properties (.braced depth (.elementsFirst mark)))
      (added : next.tokens.toList = (scan.openFragmentAt mark).tokens.toList ++ [token])
      (given : next.activity = .tag false ∧ next.levels = .value depth .fragment :: scan.levels ∨
        next.activity = .properties (.outside false) ∧ next.levels = scan.levels)

theorem adds_closeValue {content : Content}
    (activity : scan.activity = .properties (.braced 0 content)) :
    Adds scan (scan.closeValue content) := by
  cases content with
  | codeOnly => exact .behind (scan.isPrefix_flushSolid _ _)
  | fragment => exact .behind (scan.isPrefix_flush _ _)
  | elementsFirst mark =>
      by_cases white : scan.text.isAllWhitespace
      · refine .behind ?_
        simp only [closeValue, white, if_true]
        exact List.prefix_rfl
      · simp only [closeValue, white]
        exact .before activity (toList_tokens_flush _ _) (Or.inr ⟨rfl, rfl⟩)

theorem adds_cutBeforeElement {depth calls : Nat} {content : Content}
    (activity : scan.activity = .properties (.braced depth content)) :
    Adds scan
      { (scan.cutBeforeElement content).1.startTag with
        calls
        levels := .value depth (scan.cutBeforeElement content).2 :: scan.levels } := by
  by_cases white : scan.text.isAllWhitespace
  · refine .behind ?_
    cases content <;> simp only [cutBeforeElement, white, if_true] <;> exact List.prefix_rfl
  · simp only [cutBeforeElement, white]
    cases content with
    | codeOnly => exact .behind (scan.isPrefix_flush _ _)
    | fragment => exact .behind (scan.isPrefix_flush _ _)
    | elementsFirst mark =>
        exact .before activity (toList_tokens_flush _ _) (Or.inl ⟨rfl, rfl⟩)

theorem Reads.adds (reads : Reads input scan character following next) : Adds scan next := by
  cases reads with
  | skipped skips => exact .behind List.prefix_rfl
  | buffered ready buffers => exact .behind List.prefix_rfl
  | closingBlank ready activity blank => exact .behind List.prefix_rfl
  | scriptTag ready activity bracket opens room => exact .behind (scan.isPrefix_flushSome _ _)
  | valueTag ready activity bracket opens room => exact adds_cutBeforeElement activity
  | textTag ready activity bracket opens => exact .behind (scan.isPrefix_flushChild _ _)
  | firstTag ready activity bracket opens => exact .behind (scan.isPrefix_flush _ _)
  | furtherTag ready activity bracket opens => exact .behind (scan.isPrefix_flushSome _ _)
  | tagBracket ready activity bracket =>
      exact .behind (isPrefix_flush (scan.push character) _ _)
  | tagBlank ready activity blank => exact .behind (scan.isPrefix_flush _ _)
  | tagSlash ready activity slash bracket =>
      exact .behind ((scan.isPrefix_flush _ _).trans (isPrefix_closeSelf _))
  | closingBracket ready activity bracket =>
      refine .behind ?_
      rw [tokens_resume]
      exact isPrefix_flush (scan.push character) _ _
  | @equals named ready activity equals =>
      rcases scan.exists_equalsStep named following with ⟨skip, state, result, -⟩
      rw [result]
      exact .behind (scan.isPrefix_flushSolid _ _)
  | propertyBlank ready activity blank => exact .behind (scan.isPrefix_flushSolid _ _)
  | propertySlash ready activity slash bracket finishes =>
      exact .behind ((isPrefix_finishProperties finishes).trans (isPrefix_closeSelf _))
  | @propertyBracket named finished ready activity bracket finishes =>
      have kept : scan.tokens.toList <+: finished.tokens.toList :=
        isPrefix_finishProperties finishes
      exact .behind kept
  | quotedEnd ready activity quote => exact .behind (scan.isPrefix_emit _ _ _)
  | valueEnd ready activity brace => exact adds_closeValue activity
  | codeStart ready activity brace => exact .behind (scan.isPrefix_flushChild _ _)
  | codeEnd ready activity brace => exact .behind (scan.isPrefix_flushChild _ _)
  | regionEnd ready activity brace => exact .behind (scan.isPrefix_flush _ _)

theorem Reads.sublist (reads : Reads input scan character following next) :
    scan.tokens.toList.Sublist next.tokens.toList := by
  cases reads.adds with
  | behind kept => exact kept.sublist
  | @before depth mark token activity added given =>
      rw [added]
      exact (scan.sublist_openFragmentAt mark).trans (List.sublist_append_left _ _)

/-! ## Whole runs -/

/-- The tokens of a scan are among those of every later scan, in the same order. -/
theorem run_sublist {text : Text} (ran : scan.run input text = .ok final) :
    scan.tokens.toList.Sublist final.tokens.toList := by
  induction text generalizing scan with
  | nil =>
      cases ran
      exact .refl _
  | cons character rest induction =>
      rw [run] at ran
      split at ran
      · cases ran
      · rename_i next stepped
        have later : next.advance.tokens.toList.Sublist final.tokens.toList := induction ran
        exact (reads_of_step stepped).sublist.trans later

/-- A token that a scan has cut is among the tokens of the whole text. -/
theorem mem_finish_of_run {text : Text} {token : Token} (ran : scan.run input text = .ok final)
    (cut : token ∈ scan.tokens.toList) : token ∈ final.finish :=
  final.isPrefix_finish.subset ((run_sublist ran).subset cut)

end ElementScript.Scan
