import ElementScript.Proofs.Scan.Slices

/-! # Code and elements cover a script

The tokens outside of elements and the elements themselves follow each other without a gap: each
starts where the one before it has ended. `Tiled` builds such sequences up, and `Placed` says of a
scan between two characters that what it has cut is such a sequence, up to the element or the code
that it is reading.

Inside of an element only the element's first token counts. The start of a region that is put in
later is put behind that token, because every mark points behind it (`Inside`).
-/

namespace ElementScript

/-- Whether a token ends an element with the `>` that stands at a position. -/
structure Token.EndsAt (source : Text) (last : Nat) (token : Token) : Prop where
  kind : token.kind = .elementEnd
  text : token.text.getLast? = some '>'
  bracket : source[last]? = some '>'
  stop : token.offset + token.text.length = last + 1

/-- The tokens of code and complete elements that cover a text up to the position `stop`. If `coded`
then the last of them is code. -/
inductive Tiled (source : Text) : (coded : Bool) → (stop : Nat) → List Token → Prop where
  | nil : Tiled source false 0 []
  | code {stop : Nat} {tokens : List Token} {code : Token} (tiled : Tiled source false stop tokens)
      (kind : code.kind = .code) (starts : code.offset = stop) :
      Tiled source true (stop + code.text.length) (tokens ++ [code])
  | element {coded : Bool} {stop last : Nat} {tokens inside : List Token} {start close : Token}
      (tiled : Tiled source coded stop tokens) (kind : start.kind = .elementStart)
      (starts : start.offset = stop) (markup : ∀ token ∈ inside, token.kind ≠ .code)
      (ends : close.EndsAt source last) :
      Tiled source false (last + 1) (tokens ++ start :: (inside ++ [close]))

/-- The tokens up to a place inside of an element of the script. All marks point behind the start of
that element. -/
inductive Inside (source : Text) (marks : List Nat) : List Token → Prop where
  | intro {coded : Bool} {stop : Nat} {script inside : List Token} {start : Token}
      (tiled : Tiled source coded stop script) (kind : start.kind = .elementStart)
      (starts : start.offset = stop) (markup : ∀ token ∈ inside, token.kind ≠ .code)
      (marked : ∀ mark ∈ marks, script.length < mark) :
      Inside source marks (script ++ start :: inside)

namespace Inside

variable {source : Text} {marks otherMarks : List Nat} {tokens more : List Token} {token : Token}

theorem append (inside : Inside source marks tokens) (markup : ∀ token ∈ more, token.kind ≠ .code) :
    Inside source marks (tokens ++ more) := by
  cases inside with
  | intro tiled kind starts before marked =>
      rw [List.append_assoc, List.cons_append]
      apply Inside.intro tiled kind starts _ marked
      intro token member
      rcases List.mem_append.mp member with member | member
      · exact before token member
      · exact markup token member

/-- Marks may be forgotten, and the end of the tokens may be marked. -/
theorem remark (inside : Inside source marks tokens)
    (known : ∀ mark ∈ otherMarks, mark ∈ marks ∨ mark = tokens.length) :
    Inside source otherMarks tokens := by
  cases inside with
  | intro tiled kind starts markup marked =>
      apply Inside.intro tiled kind starts markup
      intro mark member
      rcases known mark member with old | last
      · exact marked mark old
      · simp only [List.length_append, List.length_cons] at last
        omega

theorem insertIdx_length_add {α : Type} (before after : List α) (value : α) (index : Nat) :
    (before ++ after).insertIdx (before.length + index) value =
      before ++ after.insertIdx index value := by
  induction before with
  | nil => simp
  | cons head tail induction =>
      rw [List.cons_append, List.length_cons, Nat.add_right_comm, List.insertIdx_succ_cons,
        induction, List.cons_append]

theorem insertAt {mark : Nat} (inside : Inside source marks tokens) (member : mark ∈ marks)
    (markup : token.kind ≠ .code) : Inside source marks (tokens.insertIdx mark token) := by
  cases inside with
  | @intro coded stop script inside start tiled kind starts before marked =>
      have behind := marked mark member
      obtain ⟨index, rfl⟩ : ∃ index, mark = script.length + (index + 1) :=
        ⟨mark - script.length - 1, by omega⟩
      rw [insertIdx_length_add, List.insertIdx_succ_cons]
      apply Inside.intro tiled kind starts _ marked
      intro other otherMember
      rcases List.eq_or_mem_of_mem_insertIdx otherMember with rfl | otherMember
      · exact markup
      · exact before other otherMember

theorem close {last : Nat} (inside : Inside source marks tokens) (ends : token.EndsAt source last) :
    Tiled source false (last + 1) (tokens ++ [token]) := by
  cases inside with
  | intro tiled kind starts markup marked =>
      rw [List.append_assoc, List.cons_append]
      exact .element tiled kind starts markup ends

end Inside

namespace Scan

/-! ## Where a scan stands -/

def Content.marks : Content → List Nat
  | .elementsFirst mark => [mark]
  | .codeOnly | .fragment => []

def Activity.marks : Activity → List Nat
  | .properties (.braced _ content) => content.marks
  | _ => []

def Level.marks : Level → List Nat
  | .value _ content => content.marks
  | .children _ => []

/-- The places among the tokens where a region may still be opened. -/
def marks (scan : Scan) : List Nat :=
  scan.activity.marks ++ scan.levels.flatMap Level.marks

/-- Whether what a scan has cut covers the text up to what it is reading. -/
def Placed (source : Text) (scan : Scan) : Prop :=
  match scan.activity, scan.levels with
  | .code _, _ =>
      ∃ stop, Tiled source false stop scan.tokens.toList ∧
        stop + scan.buffer.size = scan.position + scan.skip
  | .tag false, [] =>
      ∃ coded stop, Tiled source coded stop scan.tokens.toList ∧
        stop + scan.buffer.size = scan.position + scan.skip ∧
        Lookahead.opensElement (source.drop (stop + 1))
  | _, _ => Inside source scan.marks scan.tokens.toList

/-- Whether a scan is inside of an element whose start has been cut. -/
def IsInside (scan : Scan) : Prop :=
  (∀ mark, scan.activity ≠ .code mark) ∧ (scan.activity = .tag false → scan.levels ≠ [])

variable {input : ScanInput} {scan next : Scan} {character : Char} {source read following : Text}

theorem placed_iff_inside (isInside : scan.IsInside) :
    scan.Placed source ↔ Inside source scan.marks scan.tokens.toList := by
  unfold Placed
  split
  · rename_i activity
    exact absurd activity (isInside.1 _)
  · rename_i activity levels
    exact absurd levels (isInside.2 activity)
  · rfl

theorem isInside_of_properties {state : Properties}
    (activity : scan.activity = .properties state) : scan.IsInside := by
  simp [IsInside, activity]

theorem isInside_of_children {region : Region} (activity : scan.activity = .children region) :
    scan.IsInside := by
  simp [IsInside, activity]

theorem isInside_of_levels {closing : Bool} (activity : scan.activity = .tag closing)
    (levels : scan.levels ≠ []) : scan.IsInside := by
  simp [IsInside, activity, levels]

theorem AmongChildren.levels_ne (among : scan.AmongChildren) : scan.levels ≠ [] := by
  rcases among with ⟨region, outer, levels⟩
  simp [levels]

theorem inside_of_properties {state : Properties} (placed : scan.Placed source)
    (activity : scan.activity = .properties state) :
    Inside source ((Activity.properties state).marks ++ scan.levels.flatMap Level.marks)
      scan.tokens.toList := by
  have inside := (placed_iff_inside (isInside_of_properties activity)).mp placed
  rwa [marks, activity] at inside

theorem inside_of_children {region : Region} (placed : scan.Placed source)
    (activity : scan.activity = .children region) :
    Inside source (scan.levels.flatMap Level.marks) scan.tokens.toList := by
  have inside := (placed_iff_inside (isInside_of_children activity)).mp placed
  rwa [marks, activity] at inside

theorem inside_of_levels {closing : Bool} (placed : scan.Placed source)
    (activity : scan.activity = .tag closing) (levels : scan.levels ≠ []) :
    Inside source (scan.levels.flatMap Level.marks) scan.tokens.toList := by
  have inside := (placed_iff_inside (isInside_of_levels activity levels)).mp placed
  rwa [marks, activity] at inside

theorem levels_ne_of_closing {rest : Text} (agrees : scan.Agrees rest)
    (activity : scan.activity = .tag true) : scan.levels ≠ [] := by
  rw [Agrees, activity] at agrees
  exact agrees.levels_ne

/-! ## Cutting tokens inside of elements -/

section Cutting

variable {marks : List Nat} {kind : Token.Kind}

theorem inside_emit {text : Text} {offset : Nat} (inside : Inside source marks scan.tokens.toList)
    (markup : kind ≠ .code) : Inside source marks (scan.emit kind text offset).tokens.toList := by
  rw [toList_tokens_emit]
  apply inside.append
  simpa using markup

/-- Tokens of one kind that is not code may be cut inside of an element. -/
theorem inside_cut {tokens : List Token} (inside : Inside source marks scan.tokens.toList)
    (markup : kind ≠ .code)
    (cut : ∃ more, tokens = scan.tokens.toList ++ more ∧ ∀ token ∈ more, token.kind = kind) :
    Inside source marks tokens := by
  rcases cut with ⟨more, split, kinds⟩
  rw [split]
  apply inside.append
  intro token member
  rw [kinds token member]
  exact markup

theorem inside_flushSome (inside : Inside source marks scan.tokens.toList) (markup : kind ≠ .code)
    (stop : Nat) : Inside source marks (scan.flushSome kind stop).tokens.toList :=
  inside_cut inside markup (scan.exists_flushSome kind stop)

theorem inside_flushSolid (inside : Inside source marks scan.tokens.toList)
    (markup : kind ≠ .code) (stop : Nat) :
    Inside source marks (scan.flushSolid kind stop).tokens.toList :=
  inside_cut inside markup (scan.exists_flushSolid kind stop)

theorem inside_flushChild (inside : Inside source marks scan.tokens.toList)
    (markup : kind ≠ .code) (stop : Nat) :
    Inside source marks (scan.flushChild kind stop).tokens.toList := by
  unfold flushChild
  split
  · exact inside_flushSome inside (by decide) stop
  · exact inside_flushSome inside markup stop

theorem inside_openFragmentAt {mark : Nat} (inside : Inside source marks scan.tokens.toList)
    (member : mark ∈ marks) : Inside source marks (scan.openFragmentAt mark).tokens.toList := by
  have inserted : (scan.openFragmentAt mark).tokens.toList = scan.tokens.toList.insertIdx mark
      { kind := .fragmentStart, text := [],
        offset := (scan.tokens[mark]?.map (·.offset)).getD 0 } := by
    simp [openFragmentAt]
  rw [inserted]
  exact inside.insertAt member (by simp)

theorem propertyKind_ne_code (named : Bool) : propertyKind named ≠ .code := by
  cases named <;> decide

theorem inside_finishProperties {named : Bool} {finished : Scan}
    (inside : Inside source marks scan.tokens.toList)
    (ok : scan.finishProperties input named = .ok finished) :
    Inside source marks finished.tokens.toList := by
  unfold finishProperties at ok
  simp only at ok
  split at ok
  · cases ok
    exact inside
  · split at ok
    · cases ok
      exact inside_emit inside (propertyKind_ne_code named)
    · cases ok

theorem inside_closeValue {content : Content} (inside : Inside source marks scan.tokens.toList)
    (known : ∀ mark ∈ content.marks, mark ∈ marks) :
    Inside source marks (scan.closeValue content).tokens.toList := by
  cases content with
  | codeOnly => exact inside_flushSolid inside (by decide) scan.position
  | fragment => exact inside_emit inside (by decide)
  | elementsFirst mark =>
      unfold closeValue
      simp only
      split
      · exact inside
      · have opened := inside_openFragmentAt inside (known mark (List.mem_singleton_self mark))
        exact inside_emit opened (by decide)

/-- The code before an element of a value is cut, and what is marked then is known. -/
theorem inside_cutBeforeElement {content : Content}
    (inside : Inside source (content.marks ++ marks) scan.tokens.toList) :
    Inside source ((scan.cutBeforeElement content).2.marks ++ marks)
      (scan.cutBeforeElement content).1.tokens.toList := by
  have forgotten : ∀ tokens, Inside source (content.marks ++ marks) tokens →
      Inside source (Content.fragment.marks ++ marks) tokens := by
    intro tokens known
    apply known.remark
    intro mark member
    exact Or.inl (List.mem_append.mpr (Or.inr member))
  unfold cutBeforeElement
  split
  · cases content with
    | codeOnly =>
        apply inside.remark
        intro mark member
        rcases List.mem_cons.mp member with rfl | member
        · exact Or.inr (Array.length_toList).symm
        · exact Or.inl member
    | elementsFirst mark => exact inside
    | fragment => exact inside
  · cases content with
    | codeOnly => exact forgotten _ (inside_emit inside (by decide))
    | fragment => exact forgotten _ (inside_emit inside (by decide))
    | elementsFirst mark =>
        have opened := inside_openFragmentAt inside (List.mem_append_left _
          (List.mem_singleton_self mark))
        exact forgotten _ (inside_emit opened (by decide))

end Cutting

/-! ## Starting and ending elements -/

/-- Wherever a tag starts, its first token puts the scan inside of an element of the script. -/
theorem inside_openTag {start : Token} (placed : scan.Placed source)
    (activity : scan.activity = .tag false) (kind : start.kind = .elementStart)
    (starts : start.offset + scan.buffer.size = scan.position + scan.skip) :
    Inside source (scan.levels.flatMap Level.marks) (scan.tokens.toList ++ [start]) := by
  cases levels : scan.levels with
  | nil =>
      rw [Placed, activity, levels] at placed
      rcases placed with ⟨coded, stop, tiled, counted, -⟩
      exact .intro tiled kind (by omega) (by simp) (by simp)
  | cons level outer =>
      have inside := (placed_iff_inside (isInside_of_levels activity (by simp [levels]))).mp placed
      rw [marks, activity, levels] at inside
      apply inside.append
      simp [kind]

/-- A scan that goes on after the end of an element is placed if it was inside of the element. -/
theorem placed_resume {closed : Scan} {tokens : List Token} {close : Token} {last skip : Nat}
    {levels : List Level} (inside : Inside source (levels.flatMap Level.marks) tokens)
    (cut : closed.tokens.toList = tokens ++ [close]) (ends : close.EndsAt source last)
    (empty : closed.buffer = #[]) (reached : closed.position + skip = last) :
    ({ closed.resume levels with skip } : Scan).advance.Placed source := by
  cases levels with
  | nil =>
      refine ⟨last + 1, ?_, ?_⟩
      · change Tiled source false (last + 1) closed.tokens.toList
        rw [cut]
        exact inside.close ends
      · simp only [resume, advance, empty, List.size_toArray, List.length_nil]
        omega
  | cons level outer =>
      have closedInside : Inside source ((level :: outer).flatMap Level.marks)
          closed.tokens.toList := by
        rw [cut]
        apply inside.append
        simp [ends.kind]
      cases level with
      | children region => exact closedInside
      | value depth content => exact closedInside

/-- The end of a tag that closes itself is a token of its own. -/
theorem placed_closeSelf (holds : scan.Holds source read (character :: following))
    (inside : Inside source (next.levels.flatMap Level.marks) next.tokens.toList)
    (position : next.position = scan.position) (empty : next.buffer = #[])
    (bracket : following.head? = some '>') : next.closeSelf.advance.Placed source := by
  apply placed_resume inside (next.toList_tokens_emit _ _) _ empty
  · change next.position + 1 = read.length + 1
    rw [position, holds.position]
  · refine ⟨rfl, rfl, holds.getElem_following bracket, ?_⟩
    change next.position + 2 = read.length + 1 + 1
    rw [position, holds.position]

/-- A scan that stays inside of an element keeps what it has cut in place. -/
theorem placed_of_inside (isInside : next.IsInside)
    (inside : Inside source next.marks next.tokens.toList) : next.advance.Placed source := by
  have advanced : next.advance.IsInside := isInside
  exact (placed_iff_inside advanced).mpr inside

theorem placed_properties {state : Properties} (activity : next.activity = .properties state)
    (unmarked : (Activity.properties state).marks = [])
    (inside : Inside source (next.levels.flatMap Level.marks) next.tokens.toList) :
    next.advance.Placed source := by
  apply placed_of_inside (isInside_of_properties activity)
  rwa [marks, activity, unmarked]

theorem placed_children {region : Region} (activity : next.activity = .children region)
    (inside : Inside source (next.levels.flatMap Level.marks) next.tokens.toList) :
    next.advance.Placed source := by
  apply placed_of_inside (isInside_of_children activity)
  rwa [marks, activity]

theorem placed_startChildTag {region : Region}
    (inside : Inside source (next.levels.flatMap Level.marks) next.tokens.toList) :
    (next.startChildTag region).advance.Placed source :=
  placed_of_inside (isInside_of_levels rfl (by simp [startChildTag])) inside

/-! ## One character -/

theorem placed_skipped {skip : Nat} (placed : scan.Placed source)
    (skips : scan.skip = skip + 1) : ({ scan with skip } : Scan).advance.Placed source := by
  unfold Placed at *
  simp only [advance, marks] at *
  split at placed
  · rcases placed with ⟨stop, tiled, counted⟩
    exact ⟨stop, tiled, by omega⟩
  · rcases placed with ⟨coded, stop, tiled, counted, opens⟩
    exact ⟨coded, stop, tiled, by omega, opens⟩
  · exact placed

/-- A character that is buffered inside of an element leaves the tokens and the marks as they
are. -/
theorem placed_push {activity : Activity} (placed : scan.Placed source) (before : scan.IsInside)
    (after : ({ scan.push character with activity } : Scan).IsInside)
    (same : scan.activity.marks = activity.marks) :
    ({ scan.push character with activity } : Scan).advance.Placed source := by
  have inside := (placed_iff_inside before).mp placed
  rw [marks, same] at inside
  exact placed_of_inside after inside

theorem placed_buffered {activity : Activity} (placed : scan.Placed source)
    (agrees : scan.Agrees (character :: following)) (ready : scan.skip = 0)
    (buffers : scan.Buffers character following activity) :
    ({ scan.push character with activity } : Scan).advance.Placed source := by
  cases buffers with
  | script isCode plain =>
      unfold Placed at placed
      rw [isCode] at placed
      rcases placed with ⟨stop, tiled, counted⟩
      refine ⟨stop, tiled, ?_⟩
      simp only [advance, push, Array.size_push]
      omega
  | @slash closing isTag first slash =>
      have among : scan.AmongChildren := by
        rw [Agrees, isTag] at agrees
        cases closing with
        | true => exact agrees
        | false => exact agrees.2 first (by simp [ready, slash])
      have levels := among.levels_ne
      exact placed_push placed (isInside_of_levels isTag levels) (isInside_of_levels rfl levels)
        (by rw [isTag]; rfl)
  | @name closing isTag plain =>
      by_cases levels : scan.levels = []
      · cases closing with
        | true => exact absurd levels (levels_ne_of_closing agrees isTag)
        | false =>
            unfold Placed at placed ⊢
            simp only [isTag, levels, advance, push, Array.size_push] at placed ⊢
            rcases placed with ⟨coded, stop, tiled, counted, opens⟩
            exact ⟨coded, stop, tiled, by omega, opens⟩
      · exact placed_push placed (isInside_of_levels isTag levels) (isInside_of_levels rfl levels)
          (by rw [isTag])
  | property isOutside plain slash =>
      exact placed_push placed (isInside_of_properties isOutside) (isInside_of_properties rfl)
        (by rw [isOutside])
  | quoted isQuoted plain =>
      exact placed_push placed (isInside_of_properties isQuoted) (isInside_of_properties rfl)
        (by rw [isQuoted])
  | value isValue nests plain =>
      exact placed_push placed (isInside_of_properties isValue) (isInside_of_properties rfl)
        (by rw [isValue]; rfl)
  | text isText plain noTag =>
      exact placed_push placed (isInside_of_children isText) (isInside_of_children rfl)
        (by rw [isText])
  | code isCode nests plain =>
      exact placed_push placed (isInside_of_children isCode) (isInside_of_children rfl)
        (by rw [isCode]; rfl)

/-- The code being read goes on where the last element has ended. -/
theorem tiled_flushSome {rest : Text} {mark : Option Char} (placed : scan.Placed source)
    (holds : scan.Holds source read rest) (activity : scan.activity = .code mark) :
    ∃ coded, Tiled source coded (scan.position + scan.skip)
        (scan.flushSome .code scan.position).tokens.toList ∧ (coded → scan.skip = 0) := by
  unfold Placed at placed
  rw [activity] at placed
  rcases placed with ⟨stop, tiled, counted⟩
  unfold flushSome
  split
  · rename_i empty
    have size : scan.buffer.size = 0 := by simpa using empty
    rw [← counted, size]
    exact ⟨false, tiled, by simp⟩
  · rename_i buffered
    have ready : scan.skip = 0 := by
      by_contra skips
      exact buffered (by simp [holds.idle skips])
    have bounded := holds.bounded
    have position := holds.position
    let code : Token := { kind := .code, text := scan.text, offset := scan.offset scan.position }
    have starts : code.offset = stop := by
      simp only [code, offset]
      omega
    have tile : Tiled source true (stop + code.text.length) (scan.tokens.toList ++ [code]) :=
      .code tiled rfl starts
    rw [← counted, toList_tokens_flush]
    exact ⟨true, tile, fun _ => ready⟩

/-- Code that a tag ends is cut right before the tag. -/
theorem placed_scriptTag (placed : scan.Placed source)
    (holds : scan.Holds source read (character :: following))
    (agrees : scan.Agrees (character :: following)) (ready : scan.skip = 0)
    (activity : scan.activity = .code none) (opens : Lookahead.opensElement following) :
    ({ (scan.flushSome .code scan.position).startTag with
      calls := scan.calls + 1 } : Scan).advance.Placed source := by
  have outside : scan.levels = [] := by
    rwa [Agrees, activity] at agrees
  have next : source.drop (scan.position + 1) = following := by
    rw [holds.split, holds.position]
    simp
  rcases tiled_flushSome placed holds activity with ⟨coded, tiled, -⟩
  rw [ready, Nat.add_zero] at tiled
  unfold Placed
  simp only [advance, startTag, levels_flushSome, outside]
  refine ⟨coded, scan.position, tiled, ?_, by rwa [next]⟩
  simp [ready]

theorem inside_flush_openTag (placed : scan.Placed source)
    (holds : scan.Holds source read (character :: following)) (ready : scan.skip = 0)
    (activity : scan.activity = .tag false) :
    Inside source (scan.levels.flatMap Level.marks)
      (scan.flush .elementStart scan.position).tokens.toList := by
  have bounded := holds.bounded
  have position := holds.position
  rw [toList_tokens_flush]
  apply inside_openTag placed activity rfl
  simp only [offset]
  omega

theorem placed_closingBracket (placed : scan.Placed source)
    (holds : scan.Holds source read (character :: following))
    (agrees : scan.Agrees (character :: following)) (ready : scan.skip = 0)
    (activity : scan.activity = .tag true) (bracket : character = '>') :
    (((scan.push character).flush .elementEnd (scan.position + 1)).resume
      (scan.levels.drop 1)).advance.Placed source := by
  have bounded := holds.bounded
  have position := holds.position
  have outer : Inside source ((scan.levels.drop 1).flatMap Level.marks) scan.tokens.toList := by
    apply (inside_of_levels placed activity (levels_ne_of_closing agrees activity)).remark
    intro mark member
    rcases List.mem_flatMap.mp member with ⟨level, below, marked⟩
    exact Or.inl (List.mem_flatMap.mpr ⟨level, List.mem_of_mem_drop below, marked⟩)
  let closed := (scan.push character).flush .elementEnd (scan.position + 1)
  have cut : closed.tokens.toList = scan.tokens.toList ++
      [{ kind := .elementEnd, text := (scan.push character).text
         offset := (scan.push character).offset (scan.position + 1) }] :=
    toList_tokens_flush _ _
  have ends : Token.EndsAt source read.length
      { kind := .elementEnd, text := (scan.push character).text
        offset := (scan.push character).offset (scan.position + 1) } := by
    refine ⟨rfl, by simp [text, push, bracket], by rw [holds.getElem_read, bracket], ?_⟩
    simp only [offset, push, text, Array.size_push, Array.length_toList]
    omega
  have reached : closed.position + (closed.resume (scan.levels.drop 1)).skip = read.length := by
    rw [skip_resume]
    change scan.position + scan.skip = read.length
    omega
  exact placed_resume outer cut ends rfl reached

/-- Every step keeps the tokens in place. -/
theorem Reads.placed (reads : Reads input scan character following next)
    (holds : scan.Holds source read (character :: following))
    (agrees : scan.Agrees (character :: following)) (placed : scan.Placed source) :
    next.advance.Placed source := by
  cases reads with
  | skipped skips => exact placed_skipped placed skips
  | buffered ready buffers => exact placed_buffered placed agrees ready buffers
  | closingBlank ready activity blank =>
      have isInside := isInside_of_levels activity (levels_ne_of_closing agrees activity)
      exact placed_of_inside isInside ((placed_iff_inside isInside).mp placed)
  | scriptTag ready activity bracket opens room =>
      exact placed_scriptTag placed holds agrees ready activity opens
  | valueTag ready activity bracket opens room =>
      have inside := inside_of_properties placed activity
      exact placed_of_inside (isInside_of_levels rfl (by simp)) (inside_cutBeforeElement inside)
  | textTag ready activity bracket opens =>
      apply placed_startChildTag
      rw [levels_flushChild]
      exact inside_flushChild (inside_of_children placed activity) (by decide) scan.position
  | firstTag ready activity bracket opens =>
      exact placed_startChildTag (inside_emit (inside_of_children placed activity) (by decide))
  | furtherTag ready activity bracket opens =>
      apply placed_startChildTag
      rw [levels_flushSome]
      exact inside_flushSome (inside_of_children placed activity) (by decide) scan.position
  | tagBracket ready activity bracket =>
      have bounded := holds.bounded
      have position := holds.position
      apply placed_children rfl
      change Inside source (scan.levels.flatMap Level.marks)
        ((scan.push character).flush .elementStart (scan.position + 1)).tokens.toList
      rw [toList_tokens_flush]
      apply inside_openTag placed activity rfl
      simp only [offset, push, Array.size_push]
      omega
  | tagBlank ready activity blank =>
      exact placed_properties rfl rfl (inside_flush_openTag placed holds ready activity)
  | tagSlash ready activity slash bracket =>
      have inside := inside_flush_openTag placed holds ready activity
      exact placed_closeSelf holds inside rfl rfl bracket
  | closingBracket ready activity bracket =>
      exact placed_closingBracket placed holds agrees ready activity bracket
  | @equals named ready activity equals =>
      rcases scan.exists_equalsStep named following with ⟨skip, state, result, fresh⟩
      have unmarked : (Activity.properties state).marks = [] := by
        cases state with
        | outside named => rfl
        | quoted named mark => rfl
        | braced depth content =>
            cases fresh
            rfl
      rw [result]
      apply placed_properties rfl unmarked
      rw [levels_flushSolid]
      exact inside_flushSolid (inside_of_properties placed activity) (by decide) scan.position
  | @propertyBlank named ready activity blank =>
      apply placed_properties rfl rfl
      rw [levels_flushSolid]
      exact inside_flushSolid (inside_of_properties placed activity) (propertyKind_ne_code named)
        scan.position
  | propertySlash ready activity slash bracket finishes =>
      have frame := finishProperties_frame finishes
      have finished := inside_finishProperties (inside_of_properties placed activity) finishes
      rw [← frame.2.2.2] at finished
      exact placed_closeSelf holds finished frame.1 frame.2.1 bracket
  | propertyBracket ready activity bracket finishes =>
      have finished := inside_finishProperties (inside_of_properties placed activity) finishes
      rw [← (finishProperties_frame finishes).2.2.2] at finished
      exact placed_children rfl finished
  | @quotedEnd named mark ready activity quote =>
      have inside := inside_of_properties placed activity
      exact placed_properties rfl rfl (inside_emit inside (propertyKind_ne_code named))
  | @valueEnd content ready activity brace =>
      have inside := inside_of_properties placed activity
      have closed := inside_closeValue inside fun mark member => List.mem_append_left _ member
      apply placed_properties rfl rfl
      rw [levels_closeValue]
      apply closed.remark
      intro mark member
      exact Or.inl (List.mem_append_right _ member)
  | codeStart ready activity brace =>
      apply placed_children rfl
      rw [levels_flushChild]
      exact inside_flushChild (inside_of_children placed activity) (by decide) scan.position
  | codeEnd ready activity brace =>
      apply placed_children rfl
      rw [levels_flushChild]
      exact inside_flushChild (inside_of_children placed activity) (by decide) scan.position
  | regionEnd ready activity brace =>
      exact placed_children rfl (inside_emit (inside_of_children placed activity) (by decide))

/-! ## Whole texts -/

theorem holds_initial (source : Text) : ({} : Scan).Holds source [] source where
  split := rfl
  position := rfl
  suffix := fun _ => List.suffix_rfl
  bounded := Nat.le_refl 0
  idle := fun _ => rfl
  tag := by simp
  follows := by simp
  unbraced := by simp

theorem placed_initial : ({} : Scan).Placed source :=
  ⟨0, .nil, rfl⟩

theorem run_placed {rest : Text} (ordered : scan.Ordered rest)
    (holds : scan.Holds source read rest) (fits : scan.Fits source) (placed : scan.Placed source)
    (ran : scan.run input rest = .ok next) :
    next.Holds source source [] ∧ next.Fits source ∧ next.Placed source := by
  induction rest generalizing scan read with
  | nil =>
      cases ran
      have all : source = read := by simpa using holds.split
      subst all
      exact ⟨holds, fits, placed⟩
  | cons character following induction =>
      rw [run] at ran
      split at ran
      · cases ran
      · rename_i reached stepped
        have reads := reads_of_step stepped
        exact induction (ordered_step ordered stepped).advance (reads.holds holds)
          (reads.fits holds fits) (reads.placed holds ordered.agrees placed) ran

end Scan

/-! ## The neighbours of code -/

/-- Whether code starts at the start of a text or right after the `>` of the element before it. -/
def Token.StartsInPlace (source : Text) (before : List Token) (code : Token) : Prop :=
  before = [] ∧ code.offset = 0 ∨
    ∃ earlier close last, before = earlier ++ [close] ∧ close.EndsAt source last ∧
      code.offset = last + 1

/-- Whether the first token after some code is an element that starts where the code ends. -/
def Token.EndsAtElement (code : Token) (after : List Token) : Prop :=
  ∃ start rest, after = start :: rest ∧ start.kind = .elementStart ∧
    start.offset = code.offset + code.text.length

/-- Whether a tag starts at a position of a text and the text ends within the tag's name. -/
def Text.BreaksOffAt (source : Text) (position : Nat) : Prop :=
  ∃ name, source.drop position = '<' :: name ∧ Lookahead.opensElement name ∧
    ∀ character ∈ name, Scan.isTagNameCharacter character

/-- Whether all code among tokens is in its place. Only the last token may be code that no element
follows. Then `coded` holds and the code ends at `stop`. -/
def CodeInPlace (source : Text) (coded : Bool) (stop : Nat) (tokens : List Token) : Prop :=
  ∀ before code after, tokens = before ++ code :: after → code.kind = .code →
    code.StartsInPlace source before ∧
      (code.EndsAtElement after ∨
        after = [] ∧ coded ∧ code.offset + code.text.length = stop)

section CodeInPlace

variable {source : Text} {coded : Bool} {stop : Nat} {tokens : List Token}

theorem Tiled.startsInPlace {code : Token} (tiled : Tiled source false stop tokens)
    (starts : code.offset = stop) : code.StartsInPlace source tokens := by
  cases tiled with
  | nil => exact Or.inl ⟨rfl, starts⟩
  | @element coded before last script inside start close tiled kind begins markup ends =>
      refine Or.inr ⟨script ++ start :: inside, close, last, ?_, ends, starts⟩
      rw [List.append_assoc, List.cons_append]

/-- Code before an element stays in its place, whatever the element holds. -/
theorem CodeInPlace.append_element {otherCoded : Bool} {otherStop : Nat} {start : Token}
    {rest : List Token} (inPlace : CodeInPlace source coded stop tokens)
    (kind : start.kind = .elementStart) (starts : start.offset = stop)
    (markup : ∀ token ∈ rest, token.kind ≠ .code) :
    CodeInPlace source otherCoded otherStop (tokens ++ start :: rest) := by
  intro before code after split isCode
  have other : code ∉ start :: rest := by
    intro member
    rcases List.mem_cons.mp member with rfl | member
    · simp [kind] at isCode
    · exact markup code member isCode
  rcases List.append_eq_append_iff.mp split with ⟨middle, -, element⟩ | ⟨middle, script, codes⟩
  · exact absurd (element ▸ by simp) other
  · cases middle with
    | nil =>
        rw [List.nil_append] at codes
        exact absurd (codes ▸ List.mem_cons_self) other
    | cons head middle =>
        rw [List.cons_append, List.cons.injEq] at codes
        rcases codes with ⟨rfl, rfl⟩
        rcases inPlace before code middle script isCode with ⟨begins, follows | ⟨rfl, -, ends⟩⟩
        · rcases follows with ⟨next, others, rfl, nextKind, nextOffset⟩
          exact ⟨begins, Or.inl ⟨next, others ++ start :: rest, rfl, nextKind, nextOffset⟩⟩
        · exact ⟨begins, Or.inl ⟨start, rest, rfl, kind, by rw [starts, ends]⟩⟩

theorem Tiled.codeInPlace (tiled : Tiled source coded stop tokens) :
    CodeInPlace source coded stop tokens := by
  induction tiled with
  | nil =>
      intro before code after split
      simp at split
  | @code stop tokens last tiled kind starts induction =>
      intro before code after split isCode
      rcases List.eq_nil_or_concat after with rfl | ⟨others, final, rfl⟩
      · rcases List.append_inj' split rfl with ⟨rfl, same⟩
        cases same
        exact ⟨tiled.startsInPlace starts, Or.inr ⟨rfl, rfl, by rw [starts]⟩⟩
      · have inner : tokens = before ++ code :: others := by
          rw [List.concat_eq_append, ← List.cons_append, ← List.append_assoc] at split
          exact (List.append_inj' split rfl).1
        rcases induction before code others inner isCode with
          ⟨begins, ⟨next, more, rfl, nextKind, nextOffset⟩ | ⟨-, impossible, -⟩⟩
        · exact ⟨begins, Or.inl ⟨next, more.concat final, rfl, nextKind, nextOffset⟩⟩
        · cases impossible
  | @element coded stop last tokens inside start close tiled kind starts markup ends induction =>
      apply induction.append_element kind starts
      intro token member
      rcases List.mem_append.mp member with member | member
      · exact markup token member
      · rw [List.mem_singleton.mp member, ends.kind]
        decide

theorem Inside.codeInPlace {marks : List Nat} (inside : Inside source marks tokens) :
    CodeInPlace source false 0 tokens := by
  cases inside with
  | intro tiled kind starts markup marked =>
      exact tiled.codeInPlace.append_element kind starts markup

end CodeInPlace

namespace Scan

variable {source : Text} {scan : Scan}

theorem fits_finish (holds : scan.Holds source source []) (fits : scan.Fits source) :
    ∀ token ∈ scan.finish, token.FitsIn source := by
  unfold finish
  split
  · rename_i mark activity
    exact fits_flushSome fits holds (by simp [activity]) (by simp)
  · exact fits

/-- At the end of a text an open tag holds all that comes after the code before it. -/
theorem breaksOffAt_of_tag {stop : Nat} (holds : scan.Holds source source [])
    (activity : scan.activity = .tag false)
    (counted : stop + scan.buffer.size = scan.position + scan.skip)
    (opens : Lookahead.opensElement (source.drop (stop + 1))) : source.BreaksOffAt stop := by
  rcases holds.tag activity with ⟨name, named, characters⟩
  have ready : scan.skip = 0 := by
    by_contra skips
    rw [text, holds.idle skips] at named
    cases named
  have bounded := holds.bounded
  have position := holds.position
  rcases holds.suffix (by simp [activity]) with ⟨earlier, split⟩
  have start : stop = earlier.length := by
    have lengths : earlier.length + scan.buffer.size = source.length := by
      rw [← split, List.length_append]
      rfl
    omega
  have tag : source.drop stop = '<' :: name := by
    rw [← split, start, List.drop_left, named]
  refine ⟨name, tag, ?_, characters⟩
  rwa [← List.drop_drop, tag] at opens

theorem codeInPlace_finish (holds : scan.Holds source source []) (placed : scan.Placed source) :
    ∃ coded stop, CodeInPlace source coded stop scan.finish ∧
      (coded → stop = source.length ∨ source.BreaksOffAt stop) := by
  cases activity : scan.activity with
  | code mark =>
      rcases tiled_flushSome placed holds activity with ⟨coded, tiled, ready⟩
      simp only [finish, activity]
      refine ⟨coded, _, tiled.codeInPlace, fun last => Or.inl ?_⟩
      rw [holds.position, ready last, Nat.add_zero]
  | tag closing =>
      simp only [finish, activity]
      by_cases outermost : closing = false ∧ scan.levels = []
      · rcases outermost with ⟨rfl, levels⟩
        unfold Placed at placed
        rw [activity, levels] at placed
        rcases placed with ⟨coded, stop, tiled, counted, opens⟩
        exact ⟨coded, stop, tiled.codeInPlace, fun _ =>
          Or.inr (breaksOffAt_of_tag holds activity counted opens)⟩
      · have isInside : scan.IsInside := by simpa [IsInside, activity] using outermost
        have inside := (placed_iff_inside isInside).mp placed
        exact ⟨false, 0, inside.codeInPlace, by simp⟩
  | properties state =>
      have inside := (placed_iff_inside (isInside_of_properties activity)).mp placed
      simp only [finish, activity]
      exact ⟨false, 0, inside.codeInPlace, by simp⟩
  | children region =>
      have inside := (placed_iff_inside (isInside_of_children activity)).mp placed
      simp only [finish, activity]
      exact ⟨false, 0, inside.codeInPlace, by simp⟩

end Scan

/-- What holds of the last state of a scan. -/
theorem exists_of_tokenize {source : Text} {ceiling : Nat} {tokens : List Token}
    (tokenized : tokenize source ceiling = .ok tokens) :
    ∃ final : Scan, tokens = final.finish ∧
      final.Holds (Comment.strip source) (Comment.strip source) [] ∧
      final.Fits (Comment.strip source) ∧ final.Placed (Comment.strip source) := by
  unfold tokenize at tokenized
  split at tokenized
  · cases tokenized
  · rename_i final ran
    cases tokenized
    exact ⟨final, rfl, Scan.run_placed (Scan.ordered_initial _) (Scan.holds_initial _)
      (by simp [Scan.Fits]) Scan.placed_initial ran⟩

/-- Every token of a source whose text is cut as it stands is a slice of the text without comments,
and code outside of elements leaves no gap: it starts at the start of that text or right after the
element before it, and it ends with the text, at the start of the element after it, or, as the last
token, at a tag whose name is broken off by the end of the text. -/
theorem tokenize_slices {source : Text} {ceiling : Nat} {tokens : List Token}
    (tokenized : tokenize source ceiling = .ok tokens) :
    (∀ token ∈ tokens, token.kind.isSlice →
      (Comment.strip source).StandsAt token.text token.offset) ∧
    ∀ before code after, tokens = before ++ code :: after → code.kind = .code →
      code.StartsInPlace (Comment.strip source) before ∧
        (code.EndsAtElement after ∨
          after = [] ∧ (code.offset + code.text.length = (Comment.strip source).length ∨
            (Comment.strip source).BreaksOffAt (code.offset + code.text.length))) := by
  rcases exists_of_tokenize tokenized with ⟨final, rfl, holds, fits, placed⟩
  constructor
  · intro token member
    exact (Scan.fits_finish holds fits token member).slice
  · intro before code after split isCode
    rcases Scan.codeInPlace_finish holds placed with ⟨coded, stop, inPlace, ends⟩
    rcases inPlace before code after split isCode with ⟨starts, element | ⟨last, isLast, rfl⟩⟩
    · exact ⟨starts, Or.inl element⟩
    · exact ⟨starts, Or.inr ⟨last, ends isLast⟩⟩

/-- The code at the end of these tokens starts after an element, whose closing tag has a blank, and
ends at a tag that is broken off. -/
theorem tokenize_slices_sample :
    let source : Text := "x<a>t</a >y<b".toList
    let element : List Token :=
      [{ kind := .elementStart, text := "<a>".toList, offset := 1 },
        { kind := .childText, text := "t".toList, offset := 4 },
        { kind := .elementEnd, text := "</a>".toList, offset := 6 }]
    let before : List Token := { kind := .code, text := "x".toList, offset := 0 } :: element
    let code : Token := { kind := .code, text := "y".toList, offset := 10 }
    tokenize source 2 = .ok (before ++ [code]) ∧
      code.StartsInPlace (Comment.strip source) before ∧
      (Comment.strip source).BreaksOffAt 11 := by
  intro source element before code
  have tokenized : tokenize source 2 = .ok (before ++ [code]) := by rfl
  have inPlace := (tokenize_slices tokenized).2 before code [] rfl rfl
  refine ⟨tokenized, inPlace.1, ?_⟩
  rcases inPlace.2 with ⟨start, rest, none, -⟩ | ⟨-, ends | breaks⟩
  · cases none
  · cases ends
  · exact breaks

end ElementScript
