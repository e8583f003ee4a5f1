import ElementScript.Proofs.Scan.Offsets
import ElementScript.Proofs.Scan.Progress

/-! # Marks point at first elements

The start of a region can be put in late, before an element that has been cut already: that is the
place that a mark remembers. Meanwhile, the elements nested in that element are cut, and they put in
the starts of their own regions.

A scan holds the marks of all values around what it is reading, one above the other (`Scan.stack`).
A mark is made when the first element of a value starts, before that element is cut, so it is above
all marks held by then. Tokens are put in at the uppermost mark only, which is given up by that, so
what is below stays where it is (`Scan.Adds.getElem_of_mem`). And what a mark points at is the start
of the first element in the braces of its value (`Scan.FirstElement`): the value is followed from its
opening brace on, through the code before the element (`Scan.ReadsCode`) and the name in its tag
(`Scan.Points`).
-/

namespace ElementScript

namespace Scan

/-! ## Stacks -/

/-- What is being read as a level. -/
def Activity.level : Activity → List Level
  | .properties (.braced depth content) => [.value depth content]
  | .children region => [.children region]
  | .code _ | .tag _ | .properties (.outside _) | .properties (.quoted _ _) => []

/-- What is being read and what is around it, innermost first. -/
def stack (scan : Scan) : List Level :=
  scan.activity.level ++ scan.levels

variable {input : ScanInput} {scan next : Scan} {character : Char} {following : Text}

@[simp] theorem stack_resume (scan : Scan) (levels : List Level) :
    (scan.resume levels).stack = levels := by
  rcases levels with _ | ⟨_ | _, levels⟩ <;> rfl

@[simp] theorem stack_closeSelf (scan : Scan) : scan.closeSelf.stack = scan.levels :=
  stack_resume _ scan.levels

theorem marks_eq (scan : Scan) : scan.marks = scan.stack.flatMap Level.marks := by
  rcases activity : scan.activity with _ | _ | (_ | _ | _) | _ <;>
    simp [marks, stack, activity, Activity.level, Activity.marks, Level.marks]

theorem stack_eq {activity : Activity} {levels : List Level} (reading : scan.activity = activity)
    (around : scan.levels = levels) : scan.stack = activity.level ++ levels := by
  rw [stack, reading, around]

theorem stack_of_value {depth : Nat} {content : Content}
    (activity : scan.activity = .properties (.braced depth content)) :
    scan.stack = .value depth content :: scan.levels :=
  stack_eq activity rfl

theorem stack_of_children {region : Region} (activity : scan.activity = .children region) :
    scan.stack = .children region :: scan.levels :=
  stack_eq activity rfl

/-- Whether a character starts the first element of a value. -/
structure StartsFirst (scan : Scan) (character : Char) (following : Text) (depth : Nat)
    (next : Scan) : Prop where
  ready : scan.skip = 0
  activity : scan.activity = .properties (.braced depth .codeOnly)
  white : scan.text.isAllWhitespace
  bracket : character = '<'
  opens : Lookahead.opensElement following
  result : next = { scan.startTag with
    calls := scan.calls + 1
    levels := .value depth (.elementsFirst scan.tokens.size) :: scan.levels }

/-- How a step changes the stack. -/
inductive Restacks (scan : Scan) (character : Char) (following : Text) (next : Scan) : Prop where
  | kept (same : next.stack = scan.stack)
  | left {level : Level} (popped : scan.stack = level :: next.stack)
  | entered {region : Region} (pushed : next.stack = .children region :: scan.stack)
  | opened {depth : Nat} (pushed : next.stack = .value depth .codeOnly :: scan.stack)
  | turned {before after : Region} {outer : List Level}
      (old : scan.stack = .children before :: outer) (new : next.stack = .children after :: outer)
  | nested {depth after : Nat} {content : Content} {outer : List Level}
      (old : scan.stack = .value depth content :: outer)
      (new : next.stack = .value after content :: outer)
  /-- Code before an element makes a value a region. -/
  | cut {depth : Nat} {content : Content} {outer : List Level}
      (old : scan.stack = .value depth content :: outer)
      (new : next.stack = .value depth .fragment :: outer)
  | marked {depth : Nat} (starts : scan.StartsFirst character following depth next)

theorem restacks_buffered {activity : Activity}
    (buffers : scan.Buffers character following activity) :
    Restacks scan character following { scan.push character with activity } := by
  cases buffers with
  | script activity plain => exact .kept (stack_eq activity rfl).symm
  | slash activity first slash => exact .kept (stack_eq activity rfl).symm
  | name activity plain => exact .kept (stack_eq activity rfl).symm
  | property activity plain slash => exact .kept (stack_eq activity rfl).symm
  | quoted activity inside => exact .kept (stack_eq activity rfl).symm
  | value activity nests plain => exact .nested (stack_of_value activity) rfl
  | text activity plain noTag => exact .turned (stack_of_children activity) rfl
  | code activity nests plain => exact .turned (stack_of_children activity) rfl

theorem restacks_valueTag {depth : Nat} {content : Content} (ready : scan.skip = 0)
    (activity : scan.activity = .properties (.braced depth content)) (bracket : character = '<')
    (opens : Lookahead.opensElement following) :
    Restacks scan character following
      { (scan.cutBeforeElement content).1.startTag with
        calls := scan.calls + 1
        levels := .value depth (scan.cutBeforeElement content).2 :: scan.levels } := by
  have old := stack_of_value activity
  by_cases white : scan.text.isAllWhitespace
  · cases content with
    | codeOnly =>
        simp only [cutBeforeElement, white, if_true]
        exact .marked ⟨ready, activity, white, bracket, opens, rfl⟩
    | elementsFirst mark =>
        simp only [cutBeforeElement, white, if_true]
        exact .nested old rfl
    | fragment =>
        simp only [cutBeforeElement, white, if_true]
        exact .nested old rfl
  · have shown : (scan.cutBeforeElement content).2 = .fragment := by
      cases content <;> simp [cutBeforeElement, white]
    rw [shown]
    exact .cut old rfl

theorem restacks_equals {named : Bool} (activity : scan.activity = .properties (.outside named)) :
    Restacks scan character following (scan.equalsStep named following) := by
  have old : scan.stack = scan.levels := stack_eq activity rfl
  rcases scan.exists_equalsStep named following with ⟨skip, state, result, fresh⟩
  rw [result]
  have levels : (scan.flushSolid .propertyName scan.position).levels = scan.levels := by simp
  cases state with
  | outside named => exact .kept (levels.trans old.symm)
  | quoted named mark => exact .kept (levels.trans old.symm)
  | braced depth content =>
      cases fresh
      exact .opened (congrArg _ (levels.trans old.symm))

theorem Reads.restacks (reads : Reads input scan character following next) :
    Restacks scan character following next := by
  cases reads with
  | skipped skips => exact .kept rfl
  | buffered ready buffers => exact restacks_buffered buffers
  | closingBlank ready activity blank => exact .kept rfl
  | scriptTag ready activity bracket opens room =>
      exact .kept ((stack_eq rfl (by simp [startTag])).trans (stack_eq activity rfl).symm)
  | valueTag ready activity bracket opens room =>
      exact restacks_valueTag ready activity bracket opens
  | textTag ready activity bracket opens =>
      exact .turned (stack_of_children activity) (congrArg _ (levels_flushChild scan _))
  | firstTag ready activity bracket opens => exact .turned (stack_of_children activity) rfl
  | furtherTag ready activity bracket opens =>
      exact .turned (stack_of_children activity) (congrArg _ (levels_flushSome scan _))
  | tagBracket ready activity bracket =>
      exact .entered (congrArg _ (stack_eq activity rfl).symm)
  | tagBlank ready activity blank => exact .kept (stack_eq activity rfl).symm
  | tagSlash ready activity slash bracket =>
      exact .kept ((stack_closeSelf _).trans (stack_eq activity rfl).symm)
  | closingBracket ready activity bracket =>
      have old : scan.stack = scan.levels := stack_eq activity rfl
      cases levels : scan.levels with
      | nil => exact .kept (by simp [old, levels])
      | cons level outer => exact .left (by rw [old, levels, stack_resume]; rfl)
  | equals ready activity equals => exact restacks_equals activity
  | propertyBlank ready activity blank =>
      exact .kept ((stack_eq rfl (by simp)).trans (stack_eq activity rfl).symm)
  | propertySlash ready activity slash bracket finishes =>
      have levels := (finishProperties_frame finishes).2.2.2
      exact .kept ((stack_closeSelf _).trans (levels.trans (stack_eq activity rfl).symm))
  | propertyBracket ready activity bracket finishes =>
      have levels := (finishProperties_frame finishes).2.2.2
      exact .entered (congrArg _ (levels.trans (stack_eq activity rfl).symm))
  | quotedEnd ready activity quote => exact .kept (stack_eq activity rfl).symm
  | valueEnd ready activity brace =>
      exact .left ((stack_of_value activity).trans (congrArg _ (levels_closeValue scan _).symm))
  | codeStart ready activity brace =>
      exact .turned (stack_of_children activity) (stack_eq rfl (levels_flushChild scan _))
  | codeEnd ready activity brace =>
      exact .turned (stack_of_children activity) (stack_eq rfl (levels_flushChild scan _))
  | regionEnd ready activity brace => exact .turned (stack_of_children activity) rfl

/-! ## The order of marks -/

theorem Restacks.marks_cases (restacks : Restacks scan character following next) :
    next.marks <:+ scan.marks ∨
      scan.activity.isTag = false ∧ next.marks = scan.tokens.size :: scan.marks := by
  cases restacks with
  | kept same => exact Or.inl (by simp [marks_eq, same])
  | left popped =>
      rw [marks_eq, marks_eq, popped, List.flatMap_cons]
      exact Or.inl (List.suffix_append _ _)
  | entered pushed => exact Or.inl (by simp [marks_eq, pushed, Level.marks])
  | opened pushed => exact Or.inl (by simp [marks_eq, pushed, Level.marks, Content.marks])
  | turned old new => exact Or.inl (by simp [marks_eq, old, new, Level.marks])
  | nested old new => exact Or.inl (by simp [marks_eq, old, new, Level.marks])
  | cut old new => exact Or.inl (by simp [marks_eq, old, new, Level.marks, Content.marks])
  | marked starts =>
      rw [starts.result]
      refine Or.inr ⟨by rw [starts.activity]; rfl, ?_⟩
      simp [marks, starts.activity, startTag, Activity.marks, Level.marks, Content.marks]

/-- Marks stand one above the other: an inner mark is above all outer ones. -/
theorem Reads.descending (reads : Reads input scan character following next)
    (marked : scan.Marked) (descending : scan.marks.Pairwise (· > ·)) :
    next.marks.Pairwise (· > ·) := by
  rcases reads.restacks.marks_cases with older | ⟨plain, newer⟩
  · exact descending.sublist older.sublist
  · rw [newer, List.pairwise_cons]
    refine ⟨fun mark member => ?_, descending⟩
    have below := marked mark member
    rwa [plain] at below

theorem suffix_of_ne {α : Type} {first head : α} {rest tail : List α}
    (held : first :: rest <:+ head :: tail) (different : first ≠ head) : first :: rest <:+ tail := by
  rcases List.suffix_cons_iff.mp held with same | older
  · exact absurd (List.cons.inj same).1 different
  · exact older

/-- A mark has been held before or is made for the first element of a value. -/
theorem Restacks.exists_of_held {depth mark : Nat} {outer : List Level}
    (restacks : Restacks scan character following next)
    (held : .value depth (.elementsFirst mark) :: outer <:+ next.stack) :
    (∃ before, .value before (.elementsFirst mark) :: outer <:+ scan.stack) ∨
      scan.StartsFirst character following depth next ∧ mark = scan.tokens.size ∧
        outer = scan.levels := by
  cases restacks with
  | kept same => exact Or.inl ⟨depth, same ▸ held⟩
  | left popped => exact Or.inl ⟨depth, popped ▸ held.trans (List.suffix_cons _ _)⟩
  | entered pushed => exact Or.inl ⟨depth, suffix_of_ne (pushed ▸ held) (by simp)⟩
  | opened pushed => exact Or.inl ⟨depth, suffix_of_ne (pushed ▸ held) (by simp)⟩
  | turned old new =>
      have older := suffix_of_ne (new ▸ held) (by simp)
      exact Or.inl ⟨depth, old ▸ older.trans (List.suffix_cons _ _)⟩
  | cut old new =>
      have older := suffix_of_ne (new ▸ held) (by simp)
      exact Or.inl ⟨depth, old ▸ older.trans (List.suffix_cons _ _)⟩
  | @nested before after content outer old new =>
      rw [new, List.suffix_cons_iff] at held
      rcases held with same | older
      · cases same
        exact Or.inl ⟨before, by simp [old]⟩
      · exact Or.inl ⟨depth, old ▸ older.trans (List.suffix_cons _ _)⟩
  | @marked first starts =>
      have new : next.stack =
          .value first (.elementsFirst scan.tokens.size) :: scan.levels := by
        rw [starts.result]
        rfl
      rw [new, List.suffix_cons_iff] at held
      rcases held with same | older
      · cases same
        exact Or.inr ⟨starts, rfl, rfl⟩
      · exact Or.inl ⟨depth, stack_of_value starts.activity ▸
          older.trans (List.suffix_cons _ _)⟩

/-! ## The first element of a value -/

/-- Whether a scan is inside of a value whose tag stands within the given levels. -/
def ReadsValue (outer : List Level) (scan : Scan) : Prop :=
  ∃ depth content, .value depth content :: outer <:+ scan.stack

/-- Whether a scan comes to another state without leaving the value that it is in. -/
inductive ReachesWithin (input : ScanInput) (outer : List Level) (scan : Scan) (text : Text) :
    Scan → Text → Prop where
  | refl (inside : scan.ReadsValue outer) : ReachesWithin input outer scan text scan text
  | step {middle next : Scan} {character : Char} {rest : Text}
      (before : ReachesWithin input outer scan text middle (character :: rest))
      (stepped : middle.step input character rest = .ok next)
      (inside : next.advance.ReadsValue outer) :
      ReachesWithin input outer scan text next.advance rest

/-- Whether the braces of a value open behind the first part of a text: the state of the scan right
after the brace, with the rest of the text before it. -/
structure OpensValue (input : ScanInput) (text before rest : Text) (opened : Scan) : Prop where
  split : text = before ++ '{' :: rest
  reached : Reaches input {} text opened rest
  ready : opened.skip = 0
  activity : opened.activity = .properties (.braced 0 .codeOnly)

/-- Whether the value that a scan is in has its first element at an offset: between the brace that
opens the value and the `<` at the offset there is nothing but whitespace. -/
inductive FirstElement (input : ScanInput) (text : Text) (outer : List Level) (scan : Scan)
    (rest : Text) : Nat → Prop where
  | intro {before white behind : Text} {opened : Scan}
      (opens : OpensValue input text before (white ++ '<' :: behind) opened)
      (levels : opened.levels = outer) (blank : white.isAllWhitespace)
      (element : Lookahead.opensElement behind)
      (within : ReachesWithin input outer opened (white ++ '<' :: behind) scan rest) :
      FirstElement input text outer scan rest (before.length + 1 + white.length)

variable {text rest : Text} {outer : List Level} {depth mark offset : Nat}

theorem readsValue_of_activity {content : Content}
    (activity : scan.activity = .properties (.braced depth content)) :
    scan.ReadsValue scan.levels :=
  ⟨depth, content, by simp [stack_of_value activity]⟩

theorem FirstElement.step (first : FirstElement input text outer scan (character :: rest) offset)
    (stepped : scan.step input character rest = .ok next) (inside : next.ReadsValue outer) :
    FirstElement input text outer next.advance rest offset := by
  cases first with
  | intro opens levels blank element within =>
      exact .intro opens levels blank element (.step within stepped inside)

/-! ### Before the first element -/

/-- What is known of a value that has shown no element so far: the characters up to its brace are
still to be read, or what has been read behind the brace is what is buffered. -/
inductive ReadsCode (input : ScanInput) (text : Text) (depth : Nat) (scan : Scan) (rest : Text) :
    Prop where
  | opening {blanks inside : Text} (outermost : depth = 0) (split : rest = blanks ++ '{' :: inside)
      (skips : scan.skip = blanks.length + 1)
  | inside {before inner : Text} {opened : Scan} (ready : scan.skip = 0)
      (split : inner = scan.text ++ rest) (opens : OpensValue input text before inner opened)
      (levels : opened.levels = scan.levels)
      (within : ReachesWithin input scan.levels opened inner scan rest)

theorem readsCode_skipped {skip : Nat} {read : Text}
    (code : ReadsCode input text depth scan (character :: rest))
    (reached : Reaches input {} text scan (character :: rest))
    (holds : scan.Holds text read (character :: rest)) (skips : scan.skip = skip + 1)
    (activity : scan.activity = .properties (.braced depth .codeOnly)) :
    ReadsCode input text depth ({ scan with skip } : Scan).advance rest := by
  have stepped : scan.step input character rest = .ok { scan with skip } := by
    simp [step, skips]
  cases code with
  | inside ready split opens levels within => simp [ready] at skips
  | @opening blanks inside outermost split counted =>
      have empty : scan.buffer = #[] := holds.idle (by simp [skips])
      cases blanks with
      | nil =>
          cases split
          have last : skip = 0 := by simpa [skips] using counted
          subst last
          have noText : scan.text = [] := by simp [Scan.text, empty]
          have opens : OpensValue input text read rest ({ scan with skip := 0 } : Scan).advance :=
            ⟨holds.split, .step reached stepped, rfl, outermost ▸ activity⟩
          exact .inside rfl (congrArg (· ++ rest) noText.symm) opens rfl
            (.refl (readsValue_of_activity activity))
      | cons blank blanks =>
          cases split
          refine .opening outermost rfl ?_
          change skip = blanks.length + 1
          simpa [skips] using counted

/-- A character of code is buffered behind the ones before it. -/
theorem readsCode_buffered {after : Nat} (code : ReadsCode input text depth scan (character :: rest))
    (ready : scan.skip = 0)
    (stepped : scan.step input character rest =
      .ok { scan.push character with activity := .properties (.braced after .codeOnly) }) :
    ReadsCode input text after
      ({ scan.push character with
        activity := .properties (.braced after .codeOnly) } : Scan).advance rest := by
  cases code with
  | opening outermost split skips => simp [ready] at skips
  | inside _ split opens levels within =>
      refine .inside ready ?_ opens levels (.step within stepped (readsValue_of_activity rfl))
      rw [split]
      simp [advance, push, Scan.text]

/-- The brace that an `=` finds stands behind blanks, which are skipped together with it. -/
theorem readsCode_equalsStep {named : Bool}
    (reading : (scan.equalsStep named following).activity =
      .properties (.braced depth .codeOnly)) :
    ReadsCode input text depth (scan.equalsStep named following).advance following := by
  let blanks := following.takeWhile Text.isBlank
  cases opened : (following.drop blanks.length).head? with
  | none => simp [equalsStep, blanks, opened] at reading
  | some opener =>
      by_cases quote : opener = '"' ∨ opener = '\''
      · simp [equalsStep, blanks, opened, quote] at reading
      · by_cases brace : opener = '{'
        · subst brace
          rcases List.head?_eq_some_iff.mp opened with ⟨inside, behind⟩
          have whole : following = blanks ++ '{' :: inside := by
            rw [← behind]
            exact (List.prefix_iff_eq_append.mp (List.takeWhile_prefix _)).symm
          refine .opening ?_ whole ?_
          · have step : (scan.equalsStep named following).activity =
                .properties (.braced 0 .codeOnly) := by simp [equalsStep, blanks, opened]
            rw [step] at reading
            cases reading
            rfl
          · simp [equalsStep, blanks, opened, advance]
        · simp [equalsStep, blanks, opened, quote, brace] at reading

/-! ### Levels show what they hold -/

/-- Whether all values around what is being read have shown an element. -/
def Shown (scan : Scan) : Prop :=
  ∀ depth, .value depth .codeOnly ∉ scan.levels

theorem cutBeforeElement_ne_codeOnly (scan : Scan) (content : Content) :
    (scan.cutBeforeElement content).2 ≠ .codeOnly := by
  unfold cutBeforeElement
  split <;> cases content <;> simp

theorem levels_resume_suffix (scan : Scan) (levels : List Level) :
    (scan.resume levels).levels <:+ levels := by
  rcases levels with _ | ⟨_ | _, levels⟩
  · exact List.suffix_rfl
  · exact List.suffix_cons _ _
  · exact List.suffix_cons _ _

theorem Shown.suffix (shown : scan.Shown) (older : next.levels <:+ scan.levels) : next.Shown :=
  fun depth member => shown depth (older.subset member)

theorem Shown.cons (shown : scan.Shown) {level : Level} (levels : next.levels = level :: scan.levels)
    (other : ∀ depth, level ≠ .value depth .codeOnly) : next.Shown := by
  intro depth member
  rw [levels, List.mem_cons] at member
  rcases member with same | member
  · exact other depth same.symm
  · exact shown depth member

theorem Reads.shown (reads : Reads input scan character following next) (shown : scan.Shown) :
    next.Shown := by
  cases reads with
  | valueTag ready activity bracket opens room =>
      refine shown.cons rfl fun depth same => ?_
      exact cutBeforeElement_ne_codeOnly scan _ (Level.value.inj same).2
  | textTag ready activity bracket opens =>
      exact shown.cons (congrArg _ (levels_flushChild scan _)) (by simp)
  | firstTag ready activity bracket opens => exact shown.cons rfl (by simp)
  | furtherTag ready activity bracket opens =>
      exact shown.cons (congrArg _ (levels_flushSome scan _)) (by simp)
  | tagSlash ready activity slash bracket => exact shown.suffix (levels_resume_suffix _ _)
  | closingBracket ready activity bracket =>
      exact shown.suffix ((levels_resume_suffix _ _).trans (List.drop_suffix _ _))
  | @equals named ready activity equals =>
      rcases scan.exists_equalsStep named following with ⟨skip, state, result, -⟩
      rw [result]
      exact shown.suffix (by simp)
  | @propertySlash named finished ready activity slash bracket finishes =>
      have levels := (finishProperties_frame finishes).2.2.2
      exact shown.suffix (levels ▸ levels_resume_suffix _ finished.levels)
  | propertyBracket ready activity bracket finishes =>
      have levels := (finishProperties_frame finishes).2.2.2
      exact shown.suffix (by simp [levels])
  | _ => exact shown.suffix (by simp [startTag, flush, emit, clear, push])

/-- What is known of a value without elements is known after every step. -/
theorem readsCode_step {read : Text} (reached : Reaches input {} text scan (character :: rest))
    (holds : scan.Holds text read (character :: rest)) (shown : scan.Shown)
    (code : ∀ depth, scan.activity = .properties (.braced depth .codeOnly) →
      ReadsCode input text depth scan (character :: rest))
    (stepped : scan.step input character rest = .ok next)
    (reading : next.activity = .properties (.braced depth .codeOnly)) :
    ReadsCode input text depth next.advance rest := by
  -- An element that ends continues with a level, which has shown an element.
  have resumed : ∀ {closed : Scan} {levels : List Level}, levels <:+ scan.levels →
      (closed.resume levels).activity ≠ .properties (.braced depth .codeOnly) := by
    intro closed levels older same
    rcases levels with _ | ⟨_ | _, levels⟩
    · cases same
    · cases same
    · cases same
      exact shown depth (older.subset List.mem_cons_self)
  cases reads_of_step stepped with
  | skipped skips => exact readsCode_skipped (code depth reading) reached holds skips reading
  | buffered ready buffers =>
      cases buffers with
      | value activity nests plain =>
          cases reading
          exact readsCode_buffered (code _ activity) ready stepped
      | _ => cases reading
  | closingBlank ready activity blank => simp [activity] at reading
  | equals ready activity equals => exact readsCode_equalsStep reading
  | tagSlash ready activity slash bracket => exact absurd reading (resumed List.suffix_rfl)
  | closingBracket ready activity bracket =>
      exact absurd reading (resumed (List.drop_suffix _ _))
  | propertySlash ready activity slash bracket finishes =>
      have levels := (finishProperties_frame finishes).2.2.2
      exact absurd reading (resumed (by simp [levels]))
  | _ => cases reading

/-! ## What marks point at -/

/-- Whether a mark points at the start of an element at an offset: at its token, or, while the tag's
name is being read, at the place where the token will be cut. -/
inductive Points (scan : Scan) (mark : Nat) (offset : Nat) : Prop where
  | cut {start : Token} (found : scan.tokens.toList[mark]? = some start)
      (kind : start.kind = .elementStart) (starts : start.offset = offset)
  | pending (activity : scan.activity = .tag false) (levels : ¬ scan.AmongChildren)
      (last : mark = scan.tokens.size) (starts : scan.position = offset + scan.buffer.size)

/-- When the mark of the value being read is given up, all marks that are still held are below. -/
theorem lt_of_given {first : Nat}
    (activity : scan.activity = .properties (.braced depth (.elementsFirst first)))
    (given : next.activity = .tag false ∧ next.levels = .value depth .fragment :: scan.levels ∨
      next.activity = .properties (.outside false) ∧ next.levels = scan.levels)
    (descending : scan.marks.Pairwise (· > ·)) (held : mark ∈ next.marks) : mark < first := by
  have others : next.marks = scan.levels.flatMap Level.marks := by
    rcases given with ⟨activity, levels⟩ | ⟨activity, levels⟩ <;>
      simp [marks, activity, levels, Activity.marks, Level.marks, Content.marks]
  rw [others] at held
  rw [marks, activity] at descending
  exact (List.pairwise_cons.mp descending).1 mark held

/-- No token that stays marked is moved: tokens are added behind all tokens or at an inner mark. -/
theorem Adds.getElem_of_mem (adds : Adds scan next) (descending : scan.marks.Pairwise (· > ·))
    (held : mark ∈ next.marks) (inside : mark < scan.tokens.toList.length) :
    next.tokens.toList[mark]? = scan.tokens.toList[mark]? := by
  cases adds with
  | behind kept =>
      rcases kept with ⟨more, grown⟩
      rw [← grown, List.getElem?_append_left inside]
  | @before depth first token activity added given =>
      have below := lt_of_given activity given descending held
      have kept : mark < (scan.openFragmentAt first).tokens.toList.length :=
        Nat.lt_of_lt_of_le inside (scan.sublist_openFragmentAt first).length_le
      rw [added, List.getElem?_append_left kept]
      exact List.getElem?_insertIdx_of_lt below

theorem points_of_cut {start : Token} {more : List Token}
    (grown : next.tokens.toList = scan.tokens.toList ++ start :: more)
    (kind : start.kind = .elementStart) (starts : start.offset = offset) :
    next.advance.Points scan.tokens.size offset := by
  refine .cut ?_ kind starts
  change next.tokens.toList[scan.tokens.size]? = some start
  simp [grown]

/-- The token of an element is cut where it is awaited. -/
theorem points_of_pending {read : Text} (reads : Reads input scan character following next)
    (holds : scan.Holds text read (character :: following))
    (agrees : scan.Agrees (character :: following))
    (activity : scan.activity = .tag false) (levels : ¬ scan.AmongChildren)
    (last : mark = scan.tokens.size) (starts : scan.position = offset + scan.buffer.size) :
    next.advance.Points mark offset := by
  have ready : scan.skip = 0 := by
    by_contra skips
    rcases holds.tag activity with ⟨name, named, -⟩
    simp [Scan.text, holds.idle skips] at named
  have ownOffset : scan.offset scan.position = offset := by
    rw [Scan.offset, starts, Nat.add_sub_cancel]
  cases reads with
  | buffered _ buffers =>
      cases buffers with
      | slash _ first slash =>
          rw [Agrees, activity] at agrees
          exact absurd (agrees.2 first (by simp [ready, slash])) levels
      | name isName plain =>
          refine .pending (isName.symm.trans activity) levels last ?_
          simp only [advance, push, Array.size_push]
          omega
      | _ => simp_all
  | tagBracket _ _ bracket =>
      rw [last]
      refine points_of_cut (toList_tokens_flush (scan.push character) _) rfl ?_
      simp only [Scan.offset, push, Array.size_push]
      omega
  | tagBlank _ _ blank =>
      rw [last]
      exact points_of_cut (scan.toList_tokens_flush _) rfl ownOffset
  | tagSlash _ _ slash bracket =>
      let start : Token :=
        { kind := .elementStart, text := scan.text, offset := scan.offset scan.position }
      let stop : Token := { kind := .elementEnd, text := ['/', '>'], offset := scan.position }
      have grown : (scan.flush .elementStart scan.position).closeSelf.tokens.toList =
          scan.tokens.toList ++ [start, stop] := by
        simp only [closeSelf, tokens_resume, toList_tokens_emit, toList_tokens_flush,
          List.append_assoc]
        rfl
      rw [last]
      exact points_of_cut grown rfl ownOffset
  | _ => simp_all

/-- What is known of the marks that a scan holds, and of a value that has no mark yet. -/
structure Marking (input : ScanInput) (text : Text) (scan : Scan) (rest : Text) : Prop where
  descending : scan.marks.Pairwise (· > ·)
  shown : scan.Shown
  code (depth : Nat) : scan.activity = .properties (.braced depth .codeOnly) →
    ReadsCode input text depth scan rest
  first (depth mark : Nat) (outer : List Level) :
    .value depth (.elementsFirst mark) :: outer <:+ scan.stack →
    ∃ offset, FirstElement input text outer scan rest offset ∧ scan.Points mark offset

theorem mem_marks_of_held (held : .value depth (.elementsFirst mark) :: outer <:+ scan.stack) :
    mark ∈ scan.marks := by
  rw [marks_eq, List.mem_flatMap]
  exact ⟨_, held.subset List.mem_cons_self, List.mem_singleton_self mark⟩

/-- A mark is made for the element whose tag starts. -/
theorem first_of_startsFirst {read : Text}
    (holds : scan.Holds text read (character :: rest))
    (code : ReadsCode input text depth scan (character :: rest))
    (starts : scan.StartsFirst character rest depth next)
    (stepped : scan.step input character rest = .ok next) :
    ∃ offset, FirstElement input text scan.levels next.advance rest offset ∧
      next.advance.Points scan.tokens.size offset := by
  cases code with
  | opening outermost split skips => simp [starts.ready] at skips
  | @inside before inner opened ready split opens levels within =>
      rcases starts with ⟨-, activity, white, rfl, element, rfl⟩
      subst split
      have position : scan.position = before.length + 1 + scan.text.length := by
        have lengths := congrArg List.length (holds.split.symm.trans opens.split)
        simp only [List.length_append, List.length_cons] at lengths
        rw [holds.position]
        omega
      refine ⟨_, .intro opens levels white element (.step within stepped ?_), ?_⟩
      · exact ⟨depth, .elementsFirst scan.tokens.size, List.suffix_rfl⟩
      · refine .pending rfl ?_ rfl (congrArg (· + 1) position)
        rintro ⟨region, outer, isChild⟩
        cases isChild

theorem Marking.step (marking : Marking input text scan (character :: rest))
    (reached : Reaches input {} text scan (character :: rest)) (marked : scan.Marked)
    (stepped : scan.step input character rest = .ok next) :
    Marking input text next.advance rest := by
  have reads := reads_of_step stepped
  rcases reached.holds (holds_initial text) with ⟨read, holds⟩
  refine ⟨reads.descending marked marking.descending, reads.shown marking.shown,
    fun depth => readsCode_step reached holds marking.shown marking.code stepped,
    fun depth mark outer held => ?_⟩
  rcases reads.restacks.exists_of_held held with ⟨before, older⟩ | ⟨starts, rfl, rfl⟩
  · rcases marking.first before mark outer older with ⟨offset, first, points⟩
    refine ⟨offset, first.step stepped ⟨depth, _, held⟩, ?_⟩
    cases points with
    | cut found kind starts =>
        have inside := (List.getElem?_eq_some_iff.mp found).1
        have kept := reads.adds.getElem_of_mem marking.descending (mem_marks_of_held held) inside
        exact .cut (kept.trans found) kind starts
    | pending activity levels last starts =>
        have agrees := (reached.ordered (ordered_initial text)).agrees
        exact points_of_pending reads holds agrees activity levels last starts
  · exact first_of_startsFirst holds (marking.code depth starts.activity) starts stepped

theorem Reaches.marked (reached : Reaches input scan text next rest) (marked : scan.Marked) :
    next.Marked := by
  induction reached with
  | refl => exact marked
  | step before stepped induction => exact (reads_of_step stepped).marked induction

theorem marking_initial (input : ScanInput) (text : Text) : Marking input text {} text where
  descending := List.Pairwise.nil
  shown := by simp [Shown]
  code := by simp
  first := by simp [stack, Activity.level]

theorem marking_of_reaches (reached : Reaches input {} text scan rest) :
    Marking input text scan rest := by
  induction reached with
  | refl => exact marking_initial input text
  | step before stepped induction =>
      exact induction.step before (before.marked inOrder_initial.marked) stepped

/-- Whether the token at a mark starts the first element of the value that a scan is in. -/
structure MarksFirst (input : ScanInput) (text : Text) (outer : List Level) (scan : Scan)
    (rest : Text) (mark : Nat) (start : Token) : Prop where
  found : scan.tokens.toList[mark]? = some start
  kind : start.kind = .elementStart
  first : FirstElement input text outer scan rest start.offset

theorem Marking.exists_marksFirst (marking : Marking input text scan rest)
    (noTag : scan.activity ≠ .tag false)
    (held : .value depth (.elementsFirst mark) :: outer <:+ scan.stack) :
    ∃ start, MarksFirst input text outer scan rest mark start := by
  rcases marking.first depth mark outer held with ⟨offset, first, points⟩
  cases points with
  | @cut start found kind starts => exact ⟨start, found, kind, starts ▸ first⟩
  | pending activity levels last starts => exact absurd activity noTag

theorem toList_tokens_openFragmentAt {start : Token}
    (found : scan.tokens.toList[mark]? = some start) :
    (scan.openFragmentAt mark).tokens.toList =
      scan.tokens.toList.take mark ++
        { kind := .fragmentStart, text := [], offset := start.offset } ::
          scan.tokens.toList.drop mark := by
  have inside := (List.getElem?_eq_some_iff.mp found).1
  have length : (scan.tokens.toList.take mark).length = mark := by
    rw [List.length_take]
    omega
  have sameOffset : (scan.tokens[mark]?.map (·.offset)).getD 0 = start.offset := by
    rw [← Array.getElem?_toList, found]
    rfl
  have inserted := insertIdx_append_length (scan.tokens.toList.take mark)
    (scan.tokens.toList.drop mark) { kind := .fragmentStart, text := [], offset := start.offset }
  rw [length, List.take_append_drop] at inserted
  simp only [openFragmentAt, sameOffset]
  exact inserted

end Scan

/-- At every state of a scan, the marks of the values around what is being read stand one above the
other, each at the start of the first element of its value. A step adds its tokens behind all tokens,
or it puts the start of a region before the first element of the value being read. Then all marks
that are still held are below, and so is what they point at. -/
theorem regions_start_in_place {source : Text} {ceiling : Nat} {scan : Scan} {rest : Text}
    (reached : Scan.Reaches { source, ceiling } {} (Comment.strip source) scan rest) :
    scan.marks.Pairwise (· > ·) ∧
    (scan.activity ≠ .tag false → ∀ depth mark outer,
      .value depth (.elementsFirst mark) :: outer <:+ scan.stack →
        ∃ start, Scan.MarksFirst { source, ceiling } (Comment.strip source) outer scan rest
          mark start) ∧
    ∀ character following next, scan.step { source, ceiling } character following = .ok next →
      scan.tokens.toList <+: next.tokens.toList ∨
      ∃ depth mark start last,
        scan.activity = .properties (.braced depth (.elementsFirst mark)) ∧
        Scan.MarksFirst { source, ceiling } (Comment.strip source) scan.levels scan rest
          mark start ∧
        next.tokens.toList = scan.tokens.toList.take mark ++
          { kind := .fragmentStart, text := [], offset := start.offset } ::
            (scan.tokens.toList.drop mark ++ [last]) ∧
        ∀ other ∈ next.marks, other < mark ∧
          next.tokens.toList[other]? = scan.tokens.toList[other]? := by
  have marking := Scan.marking_of_reaches reached
  refine ⟨marking.descending, fun noTag depth mark outer => marking.exists_marksFirst noTag,
    fun character following next stepped => ?_⟩
  have adds := (Scan.reads_of_step stepped).adds
  cases adds with
  | behind kept => exact Or.inl kept
  | @before depth mark token activity added given =>
      have held : .value depth (.elementsFirst mark) :: scan.levels <:+ scan.stack := by
        simp [Scan.stack_of_value activity]
      rcases marking.exists_marksFirst (by simp [activity]) held with ⟨start, marks⟩
      refine Or.inr ⟨depth, mark, start, token, activity, marks, ?_, fun other isHeld => ?_⟩
      · rw [added, Scan.toList_tokens_openFragmentAt marks.found, List.append_assoc,
          List.cons_append]
      · have below := Scan.lt_of_given activity given marking.descending isHeld
        have inside := (List.getElem?_eq_some_iff.mp marks.found).1
        have kept := (Scan.Adds.before activity added given).getElem_of_mem marking.descending
          isHeld (Nat.lt_trans below inside)
        exact ⟨below, kept⟩

/-- Two values, one inside of the other, both with an element before their code. -/
theorem regions_start_in_place_nested :
    let source : Text := "<A x=\x7b<B y=\x7b<C/> z".toList
    let input : ScanInput := { source, ceiling := 3 }
    ∃ scan : Scan, Scan.Reaches input {} (Comment.strip source) scan [] ∧
      scan.marks = [4, 2] ∧ scan.marks.Pairwise (· > ·) ∧
      (∃ start, Scan.MarksFirst input (Comment.strip source) scan.levels scan [] 4 start) ∧
      ∃ start, Scan.MarksFirst input (Comment.strip source) [] scan [] 2 start := by
  intro source input
  have reached : Scan.Reaches input {} (Comment.strip source) _ [] := .of_run rfl
  rcases regions_start_in_place reached with ⟨descending, first, -⟩
  refine ⟨_, reached, rfl, descending, first (by decide) 0 4 _ ?_, first (by decide) 0 2 [] ?_⟩
  · exact List.suffix_rfl
  · exact List.suffix_cons _ _

end ElementScript
