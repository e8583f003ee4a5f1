import ElementScript.Proofs.Scan.Growth
import ElementScript.Proofs.Scan.Tiling

/-! # Offsets in order

A token starts where the text that was buffered for it starts, and what was buffered before has been
cut by then. So the tokens of a scan stand in the order of their offsets, and the next one starts
behind all of them (`InOrder`). The start of a region that is put in later takes the offset of the
token that it is put before. There is such a token, because every mark points at one as soon as the
name of the marked tag has been read (`Marked`).
-/

namespace ElementScript

/-! ## Tokens in order -/

/-- Whether tokens stand in the order of their offsets and none starts behind a limit. -/
structure Ascending (limit : Nat) (tokens : List Token) : Prop where
  sorted : tokens.Pairwise fun first second => first.offset ≤ second.offset
  bounded : ∀ token ∈ tokens, token.offset ≤ limit

namespace Ascending

variable {limit further : Nat} {tokens before after : List Token} {token next : Token}

theorem mono (ascending : Ascending limit tokens) (le : limit ≤ further) :
    Ascending further tokens :=
  ⟨ascending.sorted, fun token member => Nat.le_trans (ascending.bounded token member) le⟩

theorem append (ascending : Ascending limit tokens) (behind : limit ≤ token.offset)
    (le : token.offset ≤ further) : Ascending further (tokens ++ [token]) where
  sorted := by
    rw [List.pairwise_append]
    refine ⟨ascending.sorted, List.pairwise_singleton _ _, ?_⟩
    intro first member last isLast
    rw [List.mem_singleton.mp isLast]
    exact Nat.le_trans (ascending.bounded first member) behind
  bounded := by
    intro other member
    rcases List.mem_append.mp member with member | isLast
    · exact Nat.le_trans (ascending.bounded other member) (Nat.le_trans behind le)
    · rw [List.mem_singleton.mp isLast]
      exact le

/-- A token may be put in front of one that starts at the same offset. -/
theorem insert (ascending : Ascending limit (before ++ next :: after))
    (same : token.offset = next.offset) :
    Ascending limit (before ++ token :: next :: after) where
  sorted := by
    rcases List.pairwise_append.mp ascending.sorted with ⟨first, second, across⟩
    refine List.pairwise_append.mpr ⟨first, List.pairwise_cons.mpr ⟨?_, second⟩, ?_⟩
    · intro other member
      rw [same]
      rcases List.mem_cons.mp member with rfl | member
      · exact Nat.le_refl _
      · exact (List.pairwise_cons.mp second).1 other member
    · intro earlier isEarlier other member
      rcases List.mem_cons.mp member with rfl | member
      · rw [same]
        exact across earlier isEarlier next List.mem_cons_self
      · exact across earlier isEarlier other member
  bounded := by
    intro other member
    simp only [List.mem_append, List.mem_cons] at member
    rcases member with member | rfl | member
    · exact ascending.bounded other (List.mem_append_left _ member)
    · rw [same]
      exact ascending.bounded next (List.mem_append_right _ List.mem_cons_self)
    · exact ascending.bounded other (List.mem_append_right _ (List.mem_cons.mpr member))

end Ascending

namespace Scan

/-! ## Cutting -/

section Cutting

variable {input : ScanInput} {scan : Scan} {kind : Token.Kind} {limit further stop mark : Nat}
  {content : Content}

theorem ascending_emit {text : Text} {offset : Nat}
    (ascending : Ascending limit scan.tokens.toList) (behind : limit ≤ offset)
    (le : offset ≤ further) : Ascending further (scan.emit kind text offset).tokens.toList := by
  rw [toList_tokens_emit]
  exact ascending.append behind le

theorem ascending_flush (ascending : Ascending (scan.offset stop) scan.tokens.toList) :
    Ascending stop (scan.flush kind stop).tokens.toList :=
  ascending_emit ascending (Nat.le_refl _) (Nat.sub_le _ _)

theorem ascending_flushSome (ascending : Ascending (scan.offset stop) scan.tokens.toList) :
    Ascending stop (scan.flushSome kind stop).tokens.toList := by
  unfold flushSome
  split
  · exact ascending.mono (Nat.sub_le _ _)
  · exact ascending_flush ascending

theorem ascending_flushSolid (ascending : Ascending (scan.offset stop) scan.tokens.toList) :
    Ascending stop (scan.flushSolid kind stop).tokens.toList := by
  unfold flushSolid
  split
  · exact ascending.mono (Nat.sub_le _ _)
  · exact ascending_flush ascending

theorem ascending_flushChild (ascending : Ascending (scan.offset stop) scan.tokens.toList) :
    Ascending stop (scan.flushChild kind stop).tokens.toList :=
  ascending_flushSome ascending

/-- The start of a region that is put in later has the offset of the token behind it. -/
theorem ascending_openFragmentAt (ascending : Ascending limit scan.tokens.toList)
    (inside : mark < scan.tokens.size) :
    Ascending limit (scan.openFragmentAt mark).tokens.toList := by
  obtain ⟨before, next, after, split, rfl⟩ : ∃ before next after,
      scan.tokens.toList = before ++ next :: after ∧ before.length = mark := by
    refine ⟨scan.tokens.toList.take mark, scan.tokens[mark],
      scan.tokens.toList.drop (mark + 1), ?_, ?_⟩
    · rw [← Array.getElem_toList, List.getElem_cons_drop, List.take_append_drop]
    · rw [List.length_take, Array.length_toList]
      omega
  have found : scan.tokens[before.length]? = some next := by
    rw [← Array.getElem?_toList, split]
    simp
  rw [split] at ascending
  simp only [openFragmentAt, found, split, Option.map_some, Option.getD_some,
    insertIdx_append_length]
  exact ascending.insert rfl

theorem ascending_closeSelf (ascending : Ascending scan.position scan.tokens.toList) :
    Ascending scan.position scan.closeSelf.tokens.toList := by
  simp only [closeSelf, tokens_resume]
  exact ascending_emit ascending (Nat.le_refl _) (Nat.le_refl _)

theorem ascending_finishProperties {named : Bool} {finished : Scan}
    (ascending : Ascending (scan.offset scan.position) scan.tokens.toList)
    (ok : scan.finishProperties input named = .ok finished) :
    Ascending scan.position finished.tokens.toList := by
  unfold finishProperties at ok
  simp only at ok
  split at ok
  · cases ok
    exact ascending.mono (Nat.sub_le _ _)
  · split at ok
    · cases ok
      exact ascending_emit ascending (Nat.le_refl _) (Nat.sub_le _ _)
    · cases ok

theorem ascending_closeValue
    (ascending : Ascending (scan.offset scan.position) scan.tokens.toList)
    (marked : ∀ mark ∈ content.marks, mark < scan.tokens.size) :
    Ascending scan.position (scan.closeValue content).tokens.toList := by
  cases content with
  | codeOnly => exact ascending_flushSolid ascending
  | fragment => exact ascending_flush ascending
  | elementsFirst mark =>
      unfold closeValue
      simp only
      split
      · exact ascending.mono (Nat.sub_le _ _)
      · have inside := marked mark (List.mem_singleton_self mark)
        exact ascending_flush (ascending_openFragmentAt ascending inside)

theorem ascending_cutBeforeElement
    (ascending : Ascending (scan.offset scan.position) scan.tokens.toList)
    (marked : ∀ mark ∈ content.marks, mark < scan.tokens.size) :
    Ascending scan.position (scan.cutBeforeElement content).1.tokens.toList := by
  unfold cutBeforeElement
  split
  · cases content <;> exact ascending.mono (Nat.sub_le _ _)
  · cases content with
    | codeOnly => exact ascending_flush ascending
    | fragment => exact ascending_flush ascending
    | elementsFirst mark =>
        have inside := marked mark (List.mem_singleton_self mark)
        exact ascending_flush (ascending_openFragmentAt ascending inside)

end Cutting

/-! ## Marks -/

/-- Whether a tag's name is being read. -/
def Activity.isTag : Activity → Bool
  | .tag _ => true
  | .code _ | .properties _ | .children _ => false

/-- Whether every mark points at a token. The token of a tag whose name is being read is the next
one. -/
def Marked (scan : Scan) : Prop :=
  ∀ mark ∈ scan.marks, mark < scan.tokens.size + scan.activity.isTag.toNat

variable {input : ScanInput} {scan next : Scan} {character : Char} {source read following : Text}

theorem marks_resume (levels : List Level) :
    (scan.resume levels).marks = levels.flatMap Level.marks := by
  rcases levels with _ | ⟨_ | _, levels⟩ <;> rfl

theorem marks_closeSelf : scan.closeSelf.marks = scan.levels.flatMap Level.marks :=
  marks_resume scan.levels

/-- A step that starts outside of tag names and marks nothing new keeps all marks. -/
theorem marked_of_grown (marked : scan.Marked) (plain : scan.activity.isTag = false)
    (known : next.marks ⊆ scan.levels.flatMap Level.marks)
    (grown : scan.tokens.size ≤ next.tokens.size) : next.Marked := by
  intro mark member
  have below := marked mark (List.mem_append_right _ (known member))
  rw [plain, Bool.toNat_false] at below
  omega

/-- So does a step that cuts a token and marks nothing new. -/
theorem marked_of_cut (marked : scan.Marked)
    (known : next.marks ⊆ scan.levels.flatMap Level.marks)
    (cut : scan.tokens.size < next.tokens.size) : next.Marked := by
  intro mark member
  have below := marked mark (List.mem_append_right _ (known member))
  have tag := Bool.toNat_le scan.activity.isTag
  omega

theorem marks_of_buffers {activity : Activity}
    (buffers : scan.Buffers character following activity) :
    activity.marks = scan.activity.marks ∧ activity.isTag = scan.activity.isTag := by
  cases buffers <;> simp_all [Activity.marks, Activity.isTag]

/-- Only the first element in the braces of a value is marked, and it is the next one to be cut. -/
theorem le_of_mem_cutBeforeElement {content : Content} {mark : Nat}
    (marked : ∀ mark ∈ content.marks, mark < scan.tokens.size)
    (member : mark ∈ (scan.cutBeforeElement content).2.marks) : mark ≤ scan.tokens.size := by
  have white : scan.text.isAllWhitespace := by
    by_contra solid
    cases content <;> simp [cutBeforeElement, solid, Content.marks] at member
  cases content with
  | codeOnly => simp_all [cutBeforeElement, Content.marks]
  | fragment => simp [cutBeforeElement, white, Content.marks] at member
  | elementsFirst first =>
      simp only [cutBeforeElement, white, if_true] at member
      exact Nat.le_of_lt (marked mark member)

theorem Reads.size_le (reads : Reads input scan character following next) :
    scan.tokens.size ≤ next.tokens.size := by
  simpa using reads.sublist.length_le

/-- The marks of a value that is being read point at tokens. -/
theorem Marked.content {depth : Nat} {content : Content} (marked : scan.Marked)
    (activity : scan.activity = .properties (.braced depth content)) :
    ∀ mark ∈ content.marks, mark < scan.tokens.size := by
  intro mark member
  have below := marked mark (List.mem_append_left _ (by rw [activity]; exact member))
  rwa [activity] at below

theorem Reads.marked (reads : Reads input scan character following next) (marked : scan.Marked) :
    next.Marked := by
  have grown := reads.size_le
  cases reads with
  | skipped skips => exact marked
  | buffered ready buffers =>
      have same := marks_of_buffers buffers
      intro mark member
      simp only [marks, Scan.push, same.1, same.2] at member ⊢
      exact marked mark member
  | closingBlank ready activity blank => exact marked
  | scriptTag ready activity bracket opens room =>
      apply marked_of_grown marked (by rw [activity]; rfl) _ grown
      simp [marks, startTag, Activity.marks]
  | valueTag ready activity bracket opens room =>
      have content := marked.content activity
      intro mark member
      simp only [marks, startTag, Activity.marks, List.nil_append, List.flatMap_cons,
        List.mem_append, Level.marks] at member
      rcases member with first | outer
      · have le := le_of_mem_cutBeforeElement content first
        exact Nat.lt_succ_of_le (Nat.le_trans le grown)
      · have below := marked mark (List.mem_append_right _ outer)
        rw [activity] at below
        exact Nat.lt_succ_of_le (Nat.le_trans (Nat.le_of_lt below) grown)
  | textTag ready activity bracket opens =>
      apply marked_of_grown marked (by rw [activity]; rfl) _ grown
      simp [marks, startChildTag, startTag, Activity.marks, Level.marks]
  | firstTag ready activity bracket opens =>
      exact marked_of_grown marked (by rw [activity]; rfl) (fun _ member => member) grown
  | furtherTag ready activity bracket opens =>
      apply marked_of_grown marked (by rw [activity]; rfl) _ grown
      simp [marks, startChildTag, startTag, Activity.marks, Level.marks]
  | tagBracket ready activity bracket =>
      refine marked_of_cut marked (fun _ member => member) ?_
      simp [flush, emit, clear, Scan.push]
  | tagBlank ready activity blank =>
      refine marked_of_cut marked (fun _ member => member) ?_
      simp [flush, emit, clear]
  | tagSlash ready activity slash bracket =>
      refine marked_of_cut marked ?_ ?_
      · rw [marks_closeSelf]
        exact List.Subset.refl _
      · simp only [closeSelf, tokens_resume, flush, emit, clear, Array.size_push]
        omega
  | closingBracket ready activity bracket =>
      refine marked_of_cut marked ?_ ?_
      · intro mark member
        rw [marks_resume, List.mem_flatMap] at member
        rcases member with ⟨level, isLevel, member⟩
        exact List.mem_flatMap.mpr ⟨level, List.mem_of_mem_drop isLevel, member⟩
      · simp [flush, emit, clear, Scan.push]
  | @equals named ready activity equals =>
      rcases scan.exists_equalsStep named following with ⟨skip, state, result, fresh⟩
      rw [result] at grown ⊢
      refine marked_of_grown marked (by rw [activity]; rfl) ?_ grown
      cases state with
      | outside named => simp [marks, Activity.marks]
      | quoted named mark => simp [marks, Activity.marks]
      | braced depth content =>
          cases fresh
          simp [marks, Activity.marks, Content.marks]
  | propertyBlank ready activity blank =>
      refine marked_of_grown marked (by rw [activity]; rfl) ?_ grown
      simp [marks, Activity.marks]
  | @propertySlash named finished ready activity slash bracket finishes =>
      refine marked_of_grown marked (by rw [activity]; rfl) ?_ grown
      rw [marks_closeSelf, (finishProperties_frame finishes).2.2.2]
      exact List.Subset.refl _
  | propertyBracket ready activity bracket finishes =>
      refine marked_of_grown marked (by rw [activity]; rfl) ?_ grown
      rw [← (finishProperties_frame finishes).2.2.2]
      exact fun _ member => member
  | quotedEnd ready activity quote =>
      exact marked_of_grown marked (by rw [activity]; rfl) (fun _ member => member) grown
  | valueEnd ready activity brace =>
      refine marked_of_grown marked (by rw [activity]; rfl) ?_ grown
      simp [marks, Activity.marks]
  | codeStart ready activity brace =>
      refine marked_of_grown marked (by rw [activity]; rfl) ?_ grown
      simp [marks, Activity.marks]
  | codeEnd ready activity brace =>
      refine marked_of_grown marked (by rw [activity]; rfl) ?_ grown
      simp [marks, Activity.marks]
  | regionEnd ready activity brace =>
      exact marked_of_grown marked (by rw [activity]; rfl) (fun _ member => member) grown

/-! ## Steps -/

/-- What holds of the offsets of the tokens that a scan has cut. -/
structure InOrder (scan : Scan) : Prop where
  /-- What is buffered starts behind all tokens. -/
  ascending : Ascending (scan.offset scan.position) scan.tokens.toList
  passed : ∀ token ∈ scan.tokens.toList, token.offset < scan.position
  marked : scan.Marked

/-- A step that leaves no more buffered than the character being read. -/
theorem InOrder.fresh (ascending : Ascending scan.position next.tokens.toList)
    (marked : next.Marked) (position : next.position = scan.position)
    (short : next.buffer.size ≤ 1) : next.advance.InOrder where
  ascending := by
    apply ascending.mono
    simp only [advance, offset, position]
    omega
  passed := by
    intro token member
    have le := ascending.bounded token member
    simp only [advance, position]
    omega
  marked := marked

/-- A step that cuts nothing. -/
theorem InOrder.uncut (inOrder : scan.InOrder) (marked : next.Marked)
    (same : next.tokens = scan.tokens) (position : next.position = scan.position)
    (le : next.buffer.size ≤ scan.buffer.size + 1) : next.advance.InOrder where
  ascending := by
    change Ascending _ next.tokens.toList
    rw [same]
    apply inOrder.ascending.mono
    simp only [advance, offset, position]
    omega
  passed := by
    intro token member
    have before := inOrder.passed token (same ▸ member)
    simp only [advance, position]
    omega
  marked := marked

/-- Every step keeps the order of the tokens. -/
theorem Reads.inOrder (reads : Reads input scan character following next)
    (inOrder : scan.InOrder) : next.advance.InOrder := by
  have marked := reads.marked inOrder.marked
  have ascending := inOrder.ascending
  -- A tag that is cut together with its last character starts where the buffered text does.
  have pushed : ∀ kind, Ascending scan.position
      ((scan.push character).flush kind (scan.position + 1)).tokens.toList := by
    intro kind
    have start : (scan.push character).offset (scan.position + 1) = scan.offset scan.position := by
      simp [offset, Scan.push]
    rw [toList_tokens_flush, start]
    exact ascending.append (Nat.le_refl _) (Nat.sub_le _ _)
  cases reads with
  | skipped skips => exact inOrder.uncut marked rfl rfl (Nat.le_succ _)
  | buffered ready buffers =>
      exact inOrder.uncut marked rfl rfl (by simp [Scan.push])
  | closingBlank ready activity blank => exact inOrder.uncut marked rfl rfl (Nat.le_succ _)
  | scriptTag ready activity bracket opens room =>
      exact .fresh (ascending_flushSome ascending) marked (by simp [startTag]) (by simp [startTag])
  | valueTag ready activity bracket opens room =>
      have cut := ascending_cutBeforeElement ascending (inOrder.marked.content activity)
      exact .fresh cut marked (by simp [startTag]) (by simp [startTag])
  | textTag ready activity bracket opens =>
      exact .fresh (ascending_flushChild ascending) marked (by simp [startChildTag, startTag])
        (by simp [startChildTag, startTag])
  | firstTag ready activity bracket opens =>
      exact .fresh (ascending_flush ascending) marked rfl (by simp [startChildTag, startTag])
  | furtherTag ready activity bracket opens =>
      exact .fresh (ascending_flushSome ascending) marked (by simp [startChildTag, startTag])
        (by simp [startChildTag, startTag])
  | tagBracket ready activity bracket =>
      exact .fresh (pushed .elementStart) marked rfl (by simp [flush, clear])
  | tagBlank ready activity blank =>
      exact .fresh (ascending_flush ascending) marked rfl (by simp [flush, clear])
  | tagSlash ready activity slash bracket =>
      have cut : Ascending scan.position
          (scan.flush .elementStart scan.position).tokens.toList := ascending_flush ascending
      exact .fresh (ascending_closeSelf cut) marked (by simp [closeSelf, flush, emit, clear])
        (by simp [closeSelf, flush, emit, clear])
  | closingBracket ready activity bracket =>
      have closed : Ascending scan.position (((scan.push character).flush .elementEnd
          (scan.position + 1)).resume (scan.levels.drop 1)).tokens.toList := by
        rw [tokens_resume]
        exact pushed .elementEnd
      exact .fresh closed marked (by simp [flush, emit, clear, Scan.push])
        (by simp [flush, emit, clear])
  | @equals named ready activity equals =>
      rcases scan.exists_equalsStep named following with ⟨skip, state, result, -⟩
      rw [result] at marked ⊢
      exact .fresh (ascending_flushSolid ascending) marked (by simp) (by simp)
  | propertyBlank ready activity blank =>
      exact .fresh (ascending_flushSolid ascending) marked (by simp) (by simp)
  | @propertySlash named finished ready activity slash bracket finishes =>
      have frame := finishProperties_frame finishes
      have cut := ascending_finishProperties ascending finishes
      rw [← frame.1] at cut
      have closed := ascending_closeSelf cut
      rw [frame.1] at closed
      exact .fresh closed marked (by simp [closeSelf, emit, frame])
        (by simp [closeSelf, emit, frame])
  | @propertyBracket named finished ready activity bracket finishes =>
      have frame := finishProperties_frame finishes
      have cut : Ascending scan.position finished.tokens.toList :=
        ascending_finishProperties ascending finishes
      exact .fresh cut marked frame.1 (by simp [frame])
  | quotedEnd ready activity quote =>
      exact .fresh (ascending_emit ascending (Nat.le_refl _) (Nat.sub_le _ _)) marked rfl
        (by simp [clear])
  | valueEnd ready activity brace =>
      have closed := ascending_closeValue ascending (inOrder.marked.content activity)
      exact .fresh closed marked (by simp) (by simp)
  | codeStart ready activity brace =>
      exact .fresh (ascending_flushChild ascending) marked (by simp) (by simp)
  | codeEnd ready activity brace =>
      exact .fresh (ascending_flushChild ascending) marked (by simp) (by simp)
  | regionEnd ready activity brace =>
      exact .fresh (ascending_flush ascending) marked rfl (by simp [flush, clear])

/-! ## Whole texts -/

theorem inOrder_initial : ({} : Scan).InOrder where
  ascending := ⟨List.Pairwise.nil, by simp⟩
  passed := by simp
  marked := by simp [Marked, marks, Activity.marks]

theorem run_inOrder {text : Text} (inOrder : scan.InOrder)
    (ran : scan.run input text = .ok next) : next.InOrder := by
  induction text generalizing scan with
  | nil =>
      cases ran
      exact inOrder
  | cons character following induction =>
      rw [run] at ran
      split at ran
      · cases ran
      · rename_i reached stepped
        exact induction ((reads_of_step stepped).inOrder inOrder) ran

theorem ascending_finish (inOrder : scan.InOrder) (bounded : scan.buffer.size ≤ scan.position) :
    (scan.finish.Pairwise fun first second => first.offset ≤ second.offset) ∧
      ∀ token ∈ scan.finish, token.offset < scan.position := by
  unfold finish
  split
  · refine ⟨(ascending_flushSome inOrder.ascending).sorted, ?_⟩
    unfold flushSome
    split
    · exact inOrder.passed
    · rename_i filled
      intro token member
      rw [toList_tokens_flush] at member
      rcases List.mem_append.mp member with member | isLast
      · exact inOrder.passed token member
      · have positive : 0 < scan.buffer.size := by
          simpa [Array.size_pos_iff] using filled
        rw [List.mem_singleton.mp isLast]
        simp only [offset]
        omega
  · exact ⟨inOrder.ascending.sorted, inOrder.passed⟩

end Scan

/-- The tokens of a source stand in the order of their offsets, and all of them start inside of the
source. -/
theorem offsets_of_tokenize {source : Text} {ceiling : Nat} {tokens : List Token}
    (tokenized : tokenize source ceiling = .ok tokens) :
    (tokens.Pairwise fun first second => first.offset ≤ second.offset) ∧
      ∀ token ∈ tokens, token.offset < source.length := by
  rcases tokenize_eq_ok_iff.mp tokenized with ⟨final, ran, rfl⟩
  have inOrder := Scan.run_inOrder Scan.inOrder_initial ran
  have holds := (Scan.run_placed (Scan.ordered_initial _) (Scan.holds_initial _)
    (by simp [Scan.Fits]) Scan.placed_initial ran).1
  have length : final.position = source.length := by
    rw [holds.position, Comment.length_strip]
  have bounded := holds.bounded
  rw [← holds.position] at bounded
  rw [← length]
  exact Scan.ascending_finish inOrder bounded

end ElementScript
