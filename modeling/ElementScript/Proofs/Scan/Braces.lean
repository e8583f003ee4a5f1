import ElementScript.Compile
import ElementScript.Proofs.Scan.Slices
import ElementScript.Proofs.Tree.Braces

/-! # The braces that a scan counts

A scan ends a region at the brace that closes it, so it counts the braces inside. `Scan.Counted`
says that the count of a scan is the one that the tokens cut so far lead to, together with the text
that is still in the buffer: for the region being read, and for every region around it in which the
scan has left off at an element.

A region in the value of a property may be found to be one only after its first elements, and its
start is put in before them. This changes no other count, since complete elements leave all counts
around them as they are (`Braces.run_of_neutral`).
-/

namespace ElementScript

/-! ## Complete elements -/

namespace Braces

variable {places kept : List Bool} {upper lower result : List (Option Nat)} {token : Token}
  {tokens : List Token}

/-- A token that the protocol allows with some open elements changes no count below these. -/
theorem next_frame (allowed : Protocol.next places token.kind = some kept)
    (same : upper.length = places.length) (moved : next (upper ++ lower) token = some result) :
    ∃ left, left.length = kept.length ∧ result = left ++ lower ∧
      ∀ other, next (upper ++ other) token = some (left ++ other) := by
  -- An element may start anywhere; all else needs an open element, or it is code and counts nothing.
  by_cases starts : token.kind = .elementStart
  · rw [next_of_elementStart starts] at moved
    rw [starts, Protocol.next] at allowed
    cases moved
    cases allowed
    exact ⟨none :: upper, by simpa using same, rfl, fun _ => next_of_elementStart starts⟩
  cases places with
  | nil =>
      cases List.length_eq_zero_iff.mp same
      have code : token.kind = .code ∧ kept = [] := by
        cases shape : token.kind <;> simp_all [Protocol.next]
      rw [next_of_code code.1] at moved
      cases moved
      exact ⟨[], by simp [code.2], rfl, fun _ => next_of_code code.1⟩
  | cons place places =>
      rcases List.exists_cons_of_length_eq_add_one same with ⟨count, upper, rfl⟩
      by_cases ends : token.kind = .elementEnd
      · rw [next_of_elementEnd ends] at moved
        rw [ends, Protocol.next] at allowed
        cases moved
        cases allowed
        exact ⟨upper, by simpa using same, rfl, fun _ => next_of_elementEnd ends⟩
      · rw [List.cons_append, next_cons starts ends, Option.map_eq_some_iff] at moved
        rcases moved with ⟨changed, counted, rfl⟩
        have size : kept.length = places.length + 1 := by
          cases place <;> cases shape : token.kind <;> simp_all [Protocol.next] <;>
            simp [← allowed]
        refine ⟨changed :: upper, by simp_all, rfl, fun other => ?_⟩
        rw [List.cons_append, next_cons starts ends, counted]
        rfl

theorem run_frame (allowed : Protocol.run places tokens = some kept)
    (same : upper.length = places.length) (ran : run (upper ++ lower) tokens = some result) :
    ∃ left, left.length = kept.length ∧ result = left ++ lower ∧
      ∀ other, run (upper ++ other) tokens = some (left ++ other) := by
  induction tokens generalizing places upper with
  | nil =>
      cases allowed
      cases ran
      exact ⟨upper, same, rfl, fun _ => rfl⟩
  | cons token tokens induction =>
      rcases Protocol.run_cons_eq_some_iff.mp allowed with ⟨places, first, allowed⟩
      rcases run_cons_eq_some_iff.mp ran with ⟨counts, moved, ran⟩
      rcases next_frame first same moved with ⟨middle, same, rfl, moves⟩
      rcases induction allowed same ran with ⟨left, size, rfl, runs⟩
      exact ⟨left, size, rfl, fun other =>
        run_cons_eq_some_iff.mpr ⟨middle ++ other, moves other, runs other⟩⟩

/-- Complete elements leave all counts around them as they are, whatever these are. -/
theorem run_of_neutral {counts reached : List (Option Nat)} (neutral : Protocol.Neutral tokens)
    (ran : run counts tokens = some reached) :
    reached = counts ∧ ∀ other, run other tokens = some other := by
  rcases @run_frame [] [] [] counts reached tokens (neutral []) rfl ran with
    ⟨left, size, rfl, runs⟩
  cases List.length_eq_zero_iff.mp size
  exact ⟨rfl, runs⟩

end Braces

namespace Scan

/-! ## What a scan counts -/

/-- Whether the start of a region has been cut. -/
def Content.isCut : Content → Bool
  | .fragment => true
  | .codeOnly | .elementsFirst _ => false

/-- The count of an element in whose braces some more are open: none if no token tells yet that
there is a region. -/
def countOf (isCut : Bool) (depth : Nat) : Option Nat :=
  if isCut then some depth else none

/-- The counts of the element being read, if there is a text after its tokens. Before the start of a
region is cut, all of its code is in that text. -/
inductive Activity.Counts (text : Text) : Activity → List (Option Nat) → Prop where
  | script {mark : Option Char} : Counts text (.code mark) []
  | tag {closing : Bool} : Counts text (.tag closing) []
  | outside {named : Bool} : Counts text (.properties (.outside named)) [none]
  | quoted {named : Bool} {mark : Char} : Counts text (.properties (.quoted named mark)) [none]
  | text : Counts text (.children .text) [none]
  | value {base depth : Nat} {content : Content} (uncut : content.isCut = false → base = 0)
      (nests : text.nesting base = some depth) :
      Counts text (.properties (.braced depth content)) [countOf content.isCut base]
  | code {base depth : Nat} {holdsElements : Bool} (uncut : holdsElements = false → base = 0)
      (nests : text.nesting base = some depth) :
      Counts text (.children (.code depth holdsElements)) [countOf holdsElements base]

namespace Level

/-- What is to be read next of the element. -/
def activity : Level → Activity
  | .children region => .children region
  | .value depth content => .properties (.braced depth content)

def count : Level → Option Nat
  | .children .text => none
  | .children (.code depth holdsElements) => countOf holdsElements depth
  | .value depth content => countOf content.isCut depth

end Level

/-- The counts that the tokens of a scan lead to. -/
def counts (scan : Scan) : Option (List (Option Nat)) :=
  Braces.run [] scan.tokens.toList

/-- What holds of the counts of a scan between two characters. -/
structure Counted (scan : Scan) : Prop where
  levels : ∀ level ∈ scan.levels, level.activity.Counts [] [level.count]
  tokens : ∃ counts, scan.activity.Counts scan.text counts ∧
    scan.counts = some (counts ++ scan.levels.map Level.count)

/-! ## Cutting tokens -/

section Cutting

variable {scan : Scan} {kind : Token.Kind} {outer reached : List (Option Nat)}

theorem counts_emit (counted : scan.counts = some reached) (kind : Token.Kind) (text : Text)
    (offset : Nat) :
    (scan.emit kind text offset).counts =
      Braces.next reached { kind := kind, text := text, offset := offset } := by
  rw [counts, toList_tokens_emit]
  exact Braces.run_snoc_of_eq_some counted

theorem counts_flush (counted : scan.counts = some reached) (kind : Token.Kind) (stop : Nat) :
    (scan.flush kind stop).counts =
      Braces.next reached { kind, text := scan.text, offset := scan.offset stop } :=
  counts_emit counted kind scan.text (scan.offset stop)

theorem counts_flush_fragmentStart {depth : Nat} (counted : scan.counts = some (none :: outer))
    (nests : scan.text.nesting 0 = some depth) (stop : Nat) :
    (scan.flush .fragmentStart stop).counts = some (some depth :: outer) := by
  rw [counts_flush counted, Braces.next_fragmentStart rfl]
  simp only [nests, Option.map_some]

theorem counts_flush_of_isPart {base depth : Nat} (part : kind.isPart)
    (counted : scan.counts = some (some base :: outer))
    (nests : scan.text.nesting base = some depth) (stop : Nat) :
    (scan.flush kind stop).counts = some (some depth :: outer) := by
  rw [counts_flush counted, Braces.next_of_isPart part]
  simp only [nests, Option.map_some]

theorem counts_flush_fragmentEnd {base : Nat} (counted : scan.counts = some (some base :: outer))
    (nests : scan.text.nesting base = some 0) (stop : Nat) :
    (scan.flush .fragmentEnd stop).counts = some (none :: outer) := by
  rw [counts_flush counted, Braces.next_fragmentEnd rfl, if_pos nests]

theorem counts_flushSome (counted : scan.counts = some (none :: outer))
    (uncounted : Braces.isUncounted kind) (stop : Nat) :
    (scan.flushSome kind stop).counts = some (none :: outer) := by
  unfold flushSome
  split
  · exact counted
  · rw [counts_flush counted]
    exact Braces.next_of_isUncounted uncounted

theorem counts_flushCode (counted : scan.counts = some reached) (stop : Nat) :
    (scan.flushSome .code stop).counts = some reached := by
  unfold flushSome
  split
  · exact counted
  · rw [counts_flush counted]
    exact Braces.next_of_code rfl

theorem counts_flushSolid (counted : scan.counts = some (none :: outer))
    (uncounted : Braces.isUncounted kind) (stop : Nat) :
    (scan.flushSolid kind stop).counts = some (none :: outer) := by
  unfold flushSolid
  split
  · exact counted
  · rw [counts_flush counted]
    exact Braces.next_of_isUncounted uncounted

/-- Without buffered code there is no token, and nothing to count. -/
theorem counts_flushPart {base depth : Nat} (part : kind.isPart)
    (counted : scan.counts = some (some base :: outer))
    (nests : scan.text.nesting base = some depth) (stop : Nat) :
    (scan.flushSome kind stop).counts = some (some depth :: outer) := by
  unfold flushSome
  split
  · rename_i empty
    have text : scan.text = [] := by simpa [Scan.text] using empty
    rw [text] at nests
    cases nests
    exact counted
  · exact counts_flush_of_isPart part counted nests stop

theorem counts_flushChild (counted : scan.counts = some (none :: outer))
    (uncounted : Braces.isUncounted kind) (stop : Nat) :
    (scan.flushChild kind stop).counts = some (none :: outer) := by
  unfold flushChild
  split
  · exact counts_flushSome counted rfl stop
  · exact counts_flushSome counted uncounted stop

theorem counts_flushChildCode (counted : scan.counts = some (none :: outer))
    (nests : scan.text.nesting 0 = some 0) (stop : Nat) :
    (scan.flushChild .childCode stop).counts = some (none :: outer) := by
  unfold flushChild
  split
  · exact counts_flushSome counted rfl stop
  · unfold flushSome
    split
    · exact counted
    · rw [counts_flush counted, Braces.next_childCode rfl, if_pos nests]

theorem isUncounted_propertyKind (named : Bool) : Braces.isUncounted (propertyKind named) := by
  cases named <;> rfl

theorem counts_finishProperties {input : ScanInput} {named : Bool} {finished : Scan}
    (counted : scan.counts = some (none :: outer))
    (ok : scan.finishProperties input named = .ok finished) :
    finished.counts = some (none :: outer) := by
  unfold finishProperties at ok
  simp only at ok
  split at ok
  · cases ok
    exact counted
  · split at ok
    · cases ok
      exact (counts_emit counted _ _ _).trans
        (Braces.next_of_isUncounted (isUncounted_propertyKind named))
    · cases ok

/-! In the braces of a value, the start of a region may be put in before the marked elements. -/

theorem Layout.exists_marked {mark : Nat} {spans : List Span} {tokens : List Token}
    (layout : Layout (.elements mark :: spans) tokens) :
    ∃ first elements, tokens = first ++ elements ∧ mark = first.length ∧
      Protocol.Neutral elements := by
  cases layout with
  | @element _ _ before inside start around kind fits =>
      rcases fits with ⟨items, elements, rfl, rfl, -, neutral⟩
      refine ⟨before ++ start :: items, elements, by simp, ?_, neutral⟩
      rw [List.length_append, List.length_cons]
      omega

theorem counts_openFragmentAt {mark : Nat} {spans : List Span}
    (layout : Layout (.elements mark :: spans) scan.tokens.toList)
    (counted : scan.counts = some (none :: outer)) :
    (scan.openFragmentAt mark).counts = some (some 0 :: outer) := by
  rcases layout.exists_marked with ⟨first, elements, split, rfl, neutral⟩
  rw [counts, split] at counted
  rcases Braces.run_append_eq_some_iff.mp counted with ⟨middle, before, following⟩
  rcases Braces.run_of_neutral neutral following with ⟨same, runs⟩
  rw [← same] at before
  simp only [counts, openFragmentAt, split, insertIdx_append_length]
  refine Braces.run_append_eq_some_iff.mpr ⟨_, before, Braces.run_cons_eq_some_iff.mpr ?_⟩
  exact ⟨some 0 :: outer, Braces.next_fragmentStart rfl, runs _⟩

variable {content : Content} {base depth : Nat} {spans : List Span}

/-- Before an element in the braces of a value, the code so far is counted, or there is none. -/
theorem counts_cutBeforeElement (layout : Layout (content.span :: spans) scan.tokens.toList)
    (uncut : content.isCut = false → base = 0) (nests : scan.text.nesting base = some depth)
    (counted : scan.counts = some (countOf content.isCut base :: outer)) :
    ((scan.cutBeforeElement content).2.isCut = false → depth = 0) ∧
      (scan.cutBeforeElement content).1.counts =
        some (countOf (scan.cutBeforeElement content).2.isCut depth :: outer) := by
  unfold cutBeforeElement
  split
  · rename_i white
    rw [Text.nesting_of_isAllWhitespace white] at nests
    cases nests
    cases content <;> exact ⟨uncut, counted⟩
  · cases content with
    | codeOnly =>
        cases uncut rfl
        exact ⟨nofun, counts_flush_fragmentStart counted nests _⟩
    | elementsFirst mark =>
        cases uncut rfl
        have opened := counts_openFragmentAt layout counted
        exact ⟨nofun, counts_flush_of_isPart rfl opened nests _⟩
    | fragment => exact ⟨nofun, counts_flush_of_isPart rfl counted nests _⟩

/-- A value that ends has all of its braces closed. -/
theorem counts_closeValue (layout : Layout (content.span :: spans) scan.tokens.toList)
    (uncut : content.isCut = false → base = 0) (nests : scan.text.nesting base = some 0)
    (counted : scan.counts = some (countOf content.isCut base :: outer)) :
    (scan.closeValue content).counts = some (none :: outer) := by
  cases content with
  | codeOnly => exact counts_flushSolid counted rfl scan.position
  | fragment => exact counts_flush_fragmentEnd counted nests scan.position
  | elementsFirst mark =>
      cases uncut rfl
      unfold closeValue
      simp only
      split
      · exact counted
      · exact counts_flush_fragmentEnd (counts_openFragmentAt layout counted) nests scan.position

end Cutting

/-! ## One character -/

section Steps

variable {input : ScanInput} {scan next : Scan} {character : Char} {following : Text}

theorem Nests.nestingAfter {depth after : Nat} (nests : Nests character depth after) :
    Text.nestingAfter depth character = some after := by
  cases nests with
  | closing brace => simp [Text.nestingAfter, brace]
  | opening brace => simp [Text.nestingAfter, brace]
  | other plain => simp [Text.nestingAfter, plain]

/-- A character in the buffer is counted as the scan counts it. -/
theorem Nests.nesting {text : Text} {base depth after : Nat} (nests : Nests character depth after)
    (counted : text.nesting base = some depth) :
    (text ++ [character]).nesting base = some after := by
  rw [Text.nesting_append_of_eq_some counted, Text.nesting_singleton, nests.nestingAfter]

theorem Buffers.counts {activity : Activity} {counts : List (Option Nat)}
    (buffers : scan.Buffers character following activity)
    (before : scan.activity.Counts scan.text counts) :
    activity.Counts (scan.text ++ [character]) counts := by
  cases buffers with
  | script isScript plain =>
      rw [isScript] at before
      cases before
      exact .script
  | slash isTag first slash =>
      rw [isTag] at before
      cases before
      exact .tag
  | name isTag plain =>
      rw [isTag] at before
      cases before
      exact .tag
  | property isOutside plain slash =>
      rw [isOutside] at before
      cases before
      exact .outside
  | quoted isQuoted inside =>
      rw [isQuoted] at before
      cases before
      exact .quoted
  | value isBraced nests plain =>
      rw [isBraced] at before
      cases before with
      | value uncut counted => exact .value uncut (nests.nesting counted)
  | text isText plain noTag =>
      rw [isText] at before
      cases before
      exact .text
  | code isCode nests plain =>
      rw [isCode] at before
      cases before with
      | code uncut counted => exact .code uncut (nests.nesting counted)

/-- A step that cuts tokens and then reads on inside of the same elements. -/
theorem Counted.of_cut {cut : Scan} {counts : List (Option Nat)} {levels : List Level}
    (sound : ∀ level ∈ levels, level.activity.Counts [] [level.count])
    (after : next.activity.Counts next.text counts)
    (counted : cut.counts = some (counts ++ levels.map Level.count))
    (sameTokens : next.tokens = cut.tokens) (sameLevels : next.levels = levels) :
    next.Counted := by
  refine ⟨by rwa [sameLevels], counts, after, ?_⟩
  rw [Scan.counts, sameTokens, sameLevels]
  exact counted

/-- A scan that goes on with the innermost open element has that element's count. -/
theorem counted_resume {levels : List Level} (skip : Nat) (empty : scan.buffer = #[])
    (sound : ∀ level ∈ levels, level.activity.Counts [] [level.count])
    (counted : scan.counts = some (levels.map Level.count)) :
    ({ scan.resume levels with skip } : Scan).Counted := by
  have text : scan.text = [] := by simp [Scan.text, empty]
  cases levels with
  | nil => exact ⟨by simp [resume], [], .script, counted⟩
  | cons level outer =>
      rcases List.forall_mem_cons.mp sound with ⟨inner, around⟩
      rw [← text] at inner
      cases level with
      | children region => exact ⟨around, _, inner, counted⟩
      | value depth content => exact ⟨around, _, inner, counted⟩

theorem counted_closeSelf {count : Option Nat} (empty : scan.buffer = #[])
    (sound : ∀ level ∈ scan.levels, level.activity.Counts [] [level.count])
    (counted : scan.counts = some (count :: scan.levels.map Level.count)) :
    scan.closeSelf.Counted := by
  refine counted_resume 1 empty sound ?_
  rw [counts_emit counted]
  exact Braces.next_of_elementEnd rfl

theorem counted_startChildTag {region : Region}
    (sound : ∀ level ∈ scan.levels, level.activity.Counts [] [level.count])
    (resumes : Activity.Counts [] (.children region) [(Level.children region).count])
    (counted : scan.counts =
      some ((Level.children region).count :: scan.levels.map Level.count)) :
    (scan.startChildTag region).Counted :=
  ⟨List.forall_mem_cons.mpr ⟨resumes, sound⟩, [], .tag, counted⟩

/-- After an `=`, nothing of the value has been read. -/
theorem activity_equalsStep_counts (scan : Scan) (named : Bool) (following : Text) :
    (scan.equalsStep named following).activity.Counts [] [none] := by
  unfold equalsStep
  simp only
  split
  · split
    · exact .quoted
    · split
      · exact .value (fun _ => rfl) rfl
      · exact .outside
  · exact .outside

/-- Every step counts its braces as the tokens do. -/
theorem Reads.counted (reads : Reads input scan character following next)
    (ordered : scan.Ordered (character :: following)) (counted : scan.Counted) :
    next.Counted := by
  rcases counted with ⟨sound, counts, before, counted⟩
  cases reads with
  | skipped skips => exact ⟨sound, counts, before, counted⟩
  | buffered ready buffers =>
      refine ⟨sound, counts, ?_, counted⟩
      have after := buffers.counts before
      simpa [Scan.text, push] using after
  | closingBlank ready activity blank => exact ⟨sound, counts, before, counted⟩
  | scriptTag ready activity bracket opens room =>
      rw [activity] at before
      cases before
      exact .of_cut sound .tag (counts_flushCode counted scan.position) rfl
        (scan.levels_flushSome scan.position)
  | valueTag ready activity bracket opens room =>
      -- The region may turn out to have started before elements that are cut already.
      rw [activity] at before
      have layout := ordered.layout
      rw [spans, activity] at layout
      cases before with
      | value uncut nests =>
          have cut := counts_cutBeforeElement layout uncut nests counted
          exact ⟨List.forall_mem_cons.mpr ⟨.value cut.1 rfl, sound⟩, [], .tag, cut.2⟩
  | textTag ready activity bracket opens =>
      rw [activity] at before
      cases before
      refine counted_startChildTag (by simpa using sound) .text ?_
      rw [levels_flushChild]
      exact counts_flushChild counted rfl scan.position
  | firstTag ready activity bracket opens =>
      rw [activity] at before
      cases before with
      | code uncut nests =>
          cases uncut rfl
          exact counted_startChildTag sound (.code (by simp) rfl)
            (counts_flush_fragmentStart counted nests scan.position)
  | furtherTag ready activity bracket opens =>
      rw [activity] at before
      cases before with
      | code uncut nests =>
          refine counted_startChildTag (by simpa using sound) (.code (by simp) rfl) ?_
          rw [levels_flushSome]
          exact counts_flushPart rfl counted nests scan.position
  | tagBracket ready activity bracket =>
      rw [activity] at before
      cases before
      have pushed : (scan.push character).counts = some (scan.levels.map Level.count) := counted
      have opened := (counts_flush pushed .elementStart (scan.position + 1)).trans
        (Braces.next_of_elementStart rfl)
      exact .of_cut sound .text opened rfl rfl
  | tagBlank ready activity blank =>
      rw [activity] at before
      cases before
      have opened := (counts_flush counted .elementStart scan.position).trans
        (Braces.next_of_elementStart rfl)
      exact .of_cut sound .outside opened rfl rfl
  | tagSlash ready activity slash bracket =>
      rw [activity] at before
      cases before
      have opened := (counts_flush counted .elementStart scan.position).trans
        (Braces.next_of_elementStart rfl)
      exact counted_closeSelf rfl sound opened
  | closingBracket ready activity bracket =>
      rw [activity] at before
      cases before
      have pushed : (scan.push character).counts = some (scan.levels.map Level.count) := counted
      have closed := (counts_flush pushed .elementEnd (scan.position + 1)).trans
        (Braces.next_of_elementEnd rfl)
      rw [← List.drop_one, ← List.map_drop] at closed
      exact counted_resume _ rfl (fun level member => sound level (List.mem_of_mem_drop member))
        closed
  | @equals named ready activity equals =>
      -- Blanks and the opening quote or brace are skipped, so the buffer stays empty.
      rw [activity] at before
      cases before
      have after := scan.activity_equalsStep_counts named following
      rcases scan.exists_equalsStep named following with ⟨skip, state, result, -⟩
      have text : (scan.flushSolid .propertyName scan.position).text = [] := by simp [Scan.text]
      rw [result, ← text] at after
      rw [result]
      exact .of_cut sound after (counts_flushSolid counted rfl scan.position) rfl
        (scan.levels_flushSolid scan.position)
  | @propertyBlank named ready activity blank =>
      rw [activity] at before
      cases before
      exact .of_cut sound .outside
        (counts_flushSolid counted (isUncounted_propertyKind named) scan.position) rfl
        (scan.levels_flushSolid scan.position)
  | propertySlash ready activity slash bracket finishes =>
      rw [activity] at before
      cases before
      have frame := finishProperties_frame finishes
      rw [← frame.2.2.2] at sound counted
      exact counted_closeSelf frame.2.1 sound (counts_finishProperties counted finishes)
  | propertyBracket ready activity bracket finishes =>
      rw [activity] at before
      cases before
      exact .of_cut sound .text (counts_finishProperties counted finishes) rfl
        (finishProperties_frame finishes).2.2.2
  | @quotedEnd named mark ready activity quote =>
      rw [activity] at before
      cases before
      refine ⟨sound, [none], .outside, (counts_emit counted _ _ _).trans ?_⟩
      exact Braces.next_of_isUncounted (isUncounted_propertyKind named)
  | valueEnd ready activity brace =>
      rw [activity] at before
      have layout := ordered.layout
      rw [spans, activity] at layout
      cases before with
      | value uncut nests =>
          exact .of_cut sound .outside (counts_closeValue layout uncut nests counted) rfl
            (scan.levels_closeValue _)
  | codeStart ready activity brace =>
      rw [activity] at before
      cases before
      have text : (scan.flushChild .childText scan.position).text = [] := by simp [Scan.text]
      have nests : (scan.flushChild .childText scan.position).text.nesting 0 = some 0 := by
        rw [text, Text.nesting_nil]
      exact .of_cut sound (.code (fun _ => rfl) nests)
        (counts_flushChild counted rfl scan.position) rfl (scan.levels_flushChild scan.position)
  | codeEnd ready activity brace =>
      rw [activity] at before
      cases before with
      | code uncut nests =>
          cases uncut rfl
          exact .of_cut sound .text (counts_flushChildCode counted nests scan.position) rfl
            (scan.levels_flushChild scan.position)
  | regionEnd ready activity brace =>
      rw [activity] at before
      cases before with
      | code uncut nests =>
          exact .of_cut sound .text (counts_flush_fragmentEnd counted nests scan.position) rfl rfl

/-! ## Whole texts -/

theorem Counted.advance (counted : scan.Counted) : scan.advance.Counted :=
  ⟨counted.levels, counted.tokens⟩

theorem counted_initial : ({} : Scan).Counted :=
  ⟨by simp, [], .script, rfl⟩

theorem counted_run {text : Text} (ordered : scan.Ordered text) (counted : scan.Counted)
    (ran : scan.run input text = .ok next) : next.Counted := by
  induction text generalizing scan with
  | nil =>
      cases ran
      exact counted
  | cons character following induction =>
      rw [run] at ran
      split at ran
      · cases ran
      · rename_i reached stepped
        exact induction (ordered_step ordered stepped).advance
          ((reads_of_step stepped).counted ordered counted).advance ran

theorem exists_run_finish (counted : scan.Counted) :
    ∃ reached, Braces.run [] scan.finish = some reached := by
  rcases counted.tokens with ⟨counts, -, ran⟩
  unfold finish
  split
  · exact ⟨_, counts_flushCode ran scan.position⟩
  · exact ⟨_, ran⟩

end Steps

end Scan

/-- In the tokens of every source, the braces of each region are closed where it ends, and not
before. -/
theorem braces_tokenize {source : Text} {ceiling : Nat} {tokens : List Token}
    (tokenized : tokenize source ceiling = .ok tokens) :
    ∃ reached, Braces.run [] tokens = some reached := by
  unfold tokenize at tokenized
  split at tokenized
  · cases tokenized
  · rename_i final ran
    cases tokenized
    exact Scan.exists_run_finish
      (Scan.counted_run (Scan.ordered_initial _) Scan.counted_initial ran)

/-! ## The trees of sources -/

namespace Options

variable {options : Options} {source : Text} {program : Program}

/-- The elements of a source's tree are balanced where they hold regions, and their code was before
its ends were removed. -/
theorem exists_braced_of_parse (parsed : options.parse source = .ok program) :
    ∃ tokens, options.tokens source = .ok tokens ∧
      ∀ element ∈ program.elements, Braced tokens element.properties element.children := by
  unfold parse at parsed
  split at parsed
  · cases parsed
  · rename_i tokens tokenized
    simp only at parsed
    split at parsed
    · cases parsed
    · rename_i tree built
      cases parsed
      refine ⟨tokens, tokenized, fun element member => ?_⟩
      unfold Options.tokens at tokenized
      split at tokenized
      · cases tokenized
      · rename_i scanned
        cases tokenized
        rcases braces_tokenize scanned with ⟨reached, ran⟩
        exact Program.ofTokens_braced built ran member

/-- In the tree of every source, the regions that hold elements are balanced: those that are values
of properties, and those that are children. -/
theorem parse_balances_regions (parsed : options.parse source = .ok program) :
    ∀ element ∈ program.elements,
      (∀ property ∈ element.properties, ∀ parts, property.value = some (.fragment parts) →
        (regionText parts).IsBalanced) ∧
      ∀ parts, .expression parts ∈ element.children → (regionText parts).IsBalanced := by
  intro element member
  rcases exists_braced_of_parse parsed with ⟨tokens, -, braced⟩
  exact ⟨(braced element member).values, (braced element member).regions⟩

/-- Braces that are open before an element and closed after it. -/
theorem parse_balances_regions_sample :
    let value : List (Part Element) :=
      [.code { text := "f(\x7bk: ".toList, offset := 6, depth := 1 },
        .element { name := "b".toList, isComponent := false, properties := [], children := []
                   depth := 2, offset := 12 },
        .code { text := "\x7d)".toList, offset := 16, depth := 1 }]
    let child : List (Part Element) :=
      [.code { text := " g(() => \x7b ".toList, offset := 21, depth := 0 },
        .element { name := "c".toList, isComponent := false, properties := [], children := []
                   depth := 1, offset := 32 },
        .code { text := " \x7d) ".toList, offset := 36, depth := 0 }]
    let element : Element :=
      { name := "a".toList
        isComponent := false
        properties := [{ name := "x".toList, value := some (.fragment value) }]
        children := [.expression child]
        depth := 0
        offset := 0 }
    ({} : Options).parse
        "<a x=\x7bf(\x7bk: <b/>\x7d)\x7d>\x7b g(() => \x7b <c/> \x7d) \x7d</a>".toList =
        .ok { body := [.element element] } ∧
      (regionText value).IsBalanced ∧ (regionText child).IsBalanced := by
  intro value child element
  have parsed : ({} : Options).parse
      "<a x=\x7bf(\x7bk: <b/>\x7d)\x7d>\x7b g(() => \x7b <c/> \x7d) \x7d</a>".toList =
      .ok { body := [.element element] } := by rfl
  have member : element ∈ Program.elements { body := [.element element] } := by
    simp [Program.elements, Node.elements, element.subtree_eq]
  have balanced := parse_balances_regions parsed element member
  exact ⟨parsed, balanced.1 _ (.head _) value rfl, balanced.2 child (.head _)⟩

/-- In the tree of every source, code that is a child is a balanced text of the source without the
whitespace around it and without a brace at its start and one at its end. So it is balanced if there
are no such braces, or if the two belong together. -/
theorem parse_code_balanced_iff (parsed : options.parse source = .ok program) :
    ∃ tokens, options.tokens source = .ok tokens ∧
      ∀ element ∈ program.elements, ∀ text, .code text ∈ element.children →
        ∃ token ∈ tokens, token.kind = .childCode ∧ token.text.IsBalanced ∧
          text = stripBraces token.text.trim ∧
          (text.IsBalanced ↔
            (token.text.trim.head? ≠ some '{' ∧ token.text.trim.getLast? ≠ some '}') ∨
              ∃ inner : Text, inner.IsBalanced ∧
                token.text.trim = '{' :: (inner ++ ['}'])) := by
  rcases exists_braced_of_parse parsed with ⟨tokens, tokenized, braced⟩
  refine ⟨tokens, tokenized, fun element member text child => ?_⟩
  rcases (braced element member).codes text child with ⟨token, among, kind, balanced, stripped⟩
  refine ⟨token, among, kind, balanced, stripped, ?_⟩
  rw [stripped]
  exact Text.isBalanced_stripBraces_iff (Text.isBalanced_trim balanced)

/-- The body of a function at the end of a child loses its last brace. -/
theorem parse_code_balanced_iff_function :
    let source := "<a>\x7bx => \x7by\x7d\x7d</a>".toList
    let code := "x => \x7by".toList
    let element : Element :=
      { name := "a".toList, isComponent := false, properties := [], children := [.code code]
        depth := 0, offset := 0 }
    ({} : Options).parse source = .ok { body := [.element element] } ∧
      ¬ Text.IsBalanced code ∧
      ∃ tokens, ({} : Options).tokens source = .ok tokens ∧
        ∃ token ∈ tokens, token.kind = .childCode ∧ token.text.IsBalanced ∧
          code = stripBraces token.text.trim ∧
          (Text.IsBalanced code ↔
            (token.text.trim.head? ≠ some '{' ∧ token.text.trim.getLast? ≠ some '}') ∨
              ∃ inner : Text, inner.IsBalanced ∧
                token.text.trim = '{' :: (inner ++ ['}'])) := by
  intro source code element
  have parsed : ({} : Options).parse source = .ok { body := [.element element] } := by rfl
  have member : element ∈ Program.elements { body := [.element element] } := by
    simp [Program.elements, Node.elements, element.subtree_eq]
  rcases parse_code_balanced_iff parsed with ⟨tokens, tokenized, codes⟩
  exact ⟨parsed, by decide, tokens, tokenized, codes element member code (.head _)⟩

end Options

end ElementScript
