import Mathlib.Data.List.InsertIdx
import ElementScript.Proofs.Scan.Rules

/-! # Tokens as slices of the scanned text

A scan records no offsets: a token is given the offset at which its text must have started, counted
back from its end. That offset is right as long as the buffered characters are the ones right before
the scan's position, at every character and through all elements nested in each other (`Holds`). So
every token that is cut from the buffer is a slice of the text (`Token.FitsIn`).

Text among the children of an element starts right after the `>` of a tag or the `}` of a region, and
it holds no opening brace.
-/

namespace ElementScript

/-- The kinds of tokens whose text is cut as it stands. -/
def Token.Kind.isSlice : Kind → Bool
  | .code | .elementStart | .childText | .childCode | .childWhitespace | .fragmentStart
  | .fragmentEnd => true
  | .elementEnd | .propertyName | .propertyValue => false

namespace Text

/-- Whether a part stands in a text at an offset. -/
def StandsAt (source part : Text) (offset : Nat) : Prop :=
  offset + part.length ≤ source.length ∧ (source.drop offset).take part.length = part

theorem standsAt_of_append {before part after : Text} :
    (before ++ part ++ after).StandsAt part before.length := by
  constructor
  · simp only [List.length_append]
    omega
  · rw [List.append_assoc, List.drop_left, List.take_left]

/-- What ends right before a position stands where its length says. -/
theorem standsAt_of_suffix {source read rest part : Text} (split : source = read ++ rest)
    (suffix : part <:+ read) : source.StandsAt part (read.length - part.length) := by
  rcases suffix with ⟨before, rfl⟩
  have offset : (before ++ part).length - part.length = before.length := by simp
  rw [split, offset]
  exact standsAt_of_append

/-- Whether a character that ends a tag or a braced region stands right before an offset. -/
def FollowsMarkup (source : Text) (offset : Nat) : Prop :=
  ∃ last, offset = last + 1 ∧ (source[last]? = some '>' ∨ source[last]? = some '}')

end Text

/-- What holds of every token that is cut from a text. -/
structure Token.FitsIn (source : Text) (token : Token) : Prop where
  inside : token.offset ≤ source.length
  slice : token.kind.isSlice → source.StandsAt token.text token.offset
  follows : token.kind = .childText → source.FollowsMarkup token.offset
  unbraced : token.kind = .childText → '{' ∉ token.text

namespace Scan

/-! ## What steps leave unchanged -/

section Frame

variable {input : ScanInput} (scan : Scan) (kind : Token.Kind) (stop : Nat)

@[simp] theorem position_flushSome : (scan.flushSome kind stop).position = scan.position := by
  unfold flushSome
  split <;> rfl

@[simp] theorem buffer_flushSome : (scan.flushSome kind stop).buffer = #[] := by
  unfold flushSome
  split
  · rename_i empty
    simpa using empty
  · rfl

@[simp] theorem position_flushSolid : (scan.flushSolid kind stop).position = scan.position := by
  unfold flushSolid
  split <;> rfl

@[simp] theorem buffer_flushSolid : (scan.flushSolid kind stop).buffer = #[] := by
  unfold flushSolid
  split <;> rfl

@[simp] theorem position_flushChild : (scan.flushChild kind stop).position = scan.position :=
  scan.position_flushSome _ stop

@[simp] theorem buffer_flushChild : (scan.flushChild kind stop).buffer = #[] :=
  scan.buffer_flushSome _ stop

@[simp] theorem skip_flushChild : (scan.flushChild kind stop).skip = scan.skip :=
  scan.skip_flushSome stop

@[simp] theorem position_resume (levels : List Level) :
    (scan.resume levels).position = scan.position := by
  rcases levels with _ | ⟨_ | _, levels⟩ <;> rfl

@[simp] theorem buffer_resume (levels : List Level) :
    (scan.resume levels).buffer = scan.buffer := by
  rcases levels with _ | ⟨_ | _, levels⟩ <;> rfl

@[simp] theorem skip_resume (levels : List Level) :
    (scan.resume levels).skip = scan.skip := by
  rcases levels with _ | ⟨_ | _, levels⟩ <;> rfl

@[simp] theorem tokens_resume (levels : List Level) :
    (scan.resume levels).tokens = scan.tokens := by
  rcases levels with _ | ⟨_ | _, levels⟩ <;> rfl

theorem activity_resume_ne_tag (levels : List Level) (closing : Bool) :
    (scan.resume levels).activity ≠ .tag closing := by
  rcases levels with _ | ⟨_ | _, levels⟩ <;> simp [resume]

@[simp] theorem position_closeValue (content : Content) :
    (scan.closeValue content).position = scan.position := by
  cases content with
  | codeOnly => simp [closeValue]
  | fragment => rfl
  | elementsFirst mark =>
      unfold closeValue
      simp only
      split <;> rfl

@[simp] theorem buffer_closeValue (content : Content) :
    (scan.closeValue content).buffer = #[] := by
  cases content with
  | codeOnly => simp [closeValue]
  | fragment => rfl
  | elementsFirst mark =>
      unfold closeValue
      simp only
      split <;> rfl

@[simp] theorem levels_closeValue (content : Content) :
    (scan.closeValue content).levels = scan.levels := by
  cases content with
  | codeOnly => simp [closeValue]
  | fragment => rfl
  | elementsFirst mark =>
      unfold closeValue
      simp only
      split <;> rfl

@[simp] theorem activity_closeValue (content : Content) :
    (scan.closeValue content).activity = .properties (.outside false) := rfl

@[simp] theorem position_cutBeforeElement (content : Content) :
    (scan.cutBeforeElement content).1.position = scan.position := by
  unfold cutBeforeElement
  split <;> cases content <;> rfl

variable {scan}

theorem finishProperties_frame {named : Bool} {finished : Scan}
    (ok : scan.finishProperties input named = .ok finished) :
    finished.position = scan.position ∧ finished.buffer = #[] ∧ finished.skip = scan.skip ∧
      finished.levels = scan.levels := by
  unfold finishProperties at ok
  simp only at ok
  split at ok
  · cases ok
    exact ⟨rfl, rfl, rfl, rfl⟩
  · split at ok
    · cases ok
      exact ⟨rfl, rfl, rfl, rfl⟩
    · cases ok

end Frame

/-- Places among the properties that are reached by an `=`. -/
def Properties.IsFresh : Properties → Prop
  | .outside _ | .quoted _ _ => True
  | .braced _ content => content = .codeOnly

theorem exists_equalsStep (scan : Scan) (named : Bool) (following : Text) :
    ∃ skip state, scan.equalsStep named following =
      { scan.flushSolid .propertyName scan.position with
        skip, activity := .properties state } ∧ state.IsFresh := by
  unfold equalsStep
  simp only
  split
  · split
    · exact ⟨_, _, rfl, trivial⟩
    · split
      · exact ⟨_, _, rfl, rfl⟩
      · exact ⟨_, _, rfl, trivial⟩
  · exact ⟨_, _, rfl, trivial⟩

/-! ## What is buffered -/

/-- The characters of a tag's name. -/
def isTagNameCharacter (character : Char) : Bool :=
  character ≠ '/' && character ≠ '>' && !Text.isBlank character

/-- What holds of the position and the buffer of a scan that has read the first part of a text. -/
structure Holds (source read rest : Text) (scan : Scan) : Prop where
  split : source = read ++ rest
  position : scan.position = read.length
  /-- The buffered characters are the last ones read. Only a closing tag leaves out its blanks. -/
  suffix : scan.activity ≠ .tag true → scan.text <:+ read
  bounded : scan.buffer.size ≤ read.length
  idle : scan.skip ≠ 0 → scan.buffer = #[]
  tag : scan.activity = .tag false →
    ∃ name, scan.text = '<' :: name ∧ ∀ character ∈ name, isTagNameCharacter character
  follows : scan.activity = .children .text →
    ∃ start, source.FollowsMarkup start ∧ start + scan.buffer.size = scan.position + scan.skip
  unbraced : scan.activity = .children .text → '{' ∉ scan.text

variable {input : ScanInput} {scan next : Scan} {character : Char} {source read following : Text}

namespace Holds

theorem getElem_read (holds : scan.Holds source read (character :: following)) :
    source[read.length]? = some character := by
  rw [holds.split]
  simp

theorem getElem_following (holds : scan.Holds source read (character :: following))
    {second : Char} (head : following.head? = some second) :
    source[read.length + 1]? = some second := by
  rw [holds.split]
  cases following with
  | nil => cases head
  | cons first rest =>
      cases head
      simp

theorem split_cons (holds : scan.Holds source read (character :: following)) :
    source = (read ++ [character]) ++ following := by
  rw [holds.split]
  simp

/-- A step that empties the buffer keeps everything. -/
theorem fresh (holds : scan.Holds source read (character :: following))
    (position : next.position = scan.position) (empty : next.buffer = #[])
    (noTag : ∀ closing, next.activity ≠ .tag closing)
    (follows : next.activity = .children .text →
      next.skip = 0 ∧ (character = '>' ∨ character = '}') ∨
        next.skip = 1 ∧ following.head? = some '>') :
    next.advance.Holds source (read ++ [character]) following where
  split := holds.split_cons
  position := by simp [advance, position, holds.position]
  suffix := by
    intro _
    change next.buffer.toList <:+ _
    simp [empty]
  bounded := by simp [advance, empty]
  idle := fun _ => empty
  tag := fun isTag => absurd isTag (noTag false)
  follows := by
    intro isText
    simp only [advance, empty, position, holds.position]
    rcases follows isText with ⟨skip, ends⟩ | ⟨skip, bracket⟩
    · refine ⟨read.length + 1, ⟨read.length, rfl, ?_⟩, by simp [skip]⟩
      rw [holds.getElem_read]
      rcases ends with rfl | rfl
      · exact Or.inl rfl
      · exact Or.inr rfl
    · exact ⟨read.length + 2, ⟨read.length + 1, rfl, Or.inl (holds.getElem_following bracket)⟩,
        by simp [skip]⟩
  unbraced := by simp [advance, text, empty]

theorem startTag (holds : scan.Holds source read (character :: following))
    (position : next.position = scan.position) (buffer : next.buffer = #['<'])
    (activity : next.activity = .tag false) (ready : next.skip = 0) (bracket : character = '<') :
    next.advance.Holds source (read ++ [character]) following where
  split := holds.split_cons
  position := by simp [advance, position, holds.position]
  suffix := by
    intro _
    change next.buffer.toList <:+ _
    rw [buffer, bracket]
    exact List.suffix_append read ['<']
  bounded := by simp [advance, buffer]
  idle := fun skips => absurd ready skips
  tag := by
    intro _
    refine ⟨[], ?_, by simp⟩
    change next.buffer.toList = _
    rw [buffer]
  follows := by
    intro isText
    change next.activity = _ at isText
    rw [activity] at isText
    cases isText
  unbraced := by simp [advance, text, buffer]

/-- Every buffered character is the last one read. -/
theorem push {activity : Activity} (holds : scan.Holds source read (character :: following))
    (ready : scan.skip = 0) (buffers : scan.Buffers character following activity) :
    ({ scan.push character with activity } : Scan).advance.Holds source (read ++ [character])
      following where
  split := holds.split_cons
  position := by simp [advance, Scan.push, holds.position]
  suffix := by
    intro opened
    have before : scan.activity ≠ .tag true := by
      intro closing
      cases buffers <;> simp_all [advance]
    rcases holds.suffix before with ⟨earlier, split⟩
    refine ⟨earlier, ?_⟩
    rw [← split]
    simp [Scan.push, advance, text]
  bounded := by
    have bounded := holds.bounded
    simp only [advance, Scan.push, Array.size_push, List.length_append, List.length_singleton]
    omega
  idle := fun skips => absurd ready skips
  tag := by
    intro isTag
    change activity = .tag false at isTag
    subst isTag
    cases buffers with
    | name isName plain =>
        rcases holds.tag isName with ⟨name, named, characters⟩
        refine ⟨name ++ [character], ?_, ?_⟩
        · rw [text] at named
          simp [Scan.push, advance, text, named]
        · simpa [or_imp, forall_and, isTagNameCharacter, plain] using characters
  follows := by
    intro isText
    change activity = .children .text at isText
    subst isText
    cases buffers with
    | text isText plain noTag =>
        rcases holds.follows isText with ⟨start, follows, counted⟩
        refine ⟨start, follows, ?_⟩
        simp only [advance, Scan.push, Array.size_push]
        omega
  unbraced := by
    intro isText
    change activity = .children .text at isText
    subst isText
    cases buffers with
    | text isText plain noTag =>
        have before := holds.unbraced isText
        simpa [advance, Scan.push, text, Ne.symm plain] using before

theorem skipped {skip : Nat} (holds : scan.Holds source read (character :: following))
    (skips : scan.skip = skip + 1) :
    ({ scan with skip } : Scan).advance.Holds source (read ++ [character]) following where
  split := holds.split_cons
  position := by simp [advance, holds.position]
  suffix := by
    intro _
    have empty := holds.idle (by omega)
    simp [advance, text, empty]
  bounded := by
    have empty := holds.idle (by omega)
    simp [advance, empty]
  idle := fun _ => holds.idle (by omega)
  tag := holds.tag
  follows := by
    intro isText
    rcases holds.follows isText with ⟨start, follows, counted⟩
    refine ⟨start, follows, ?_⟩
    simp only [advance]
    omega
  unbraced := holds.unbraced

/-- A blank in a closing tag is not buffered. -/
theorem closingBlank (holds : scan.Holds source read (character :: following))
    (ready : scan.skip = 0) (activity : scan.activity = .tag true) :
    scan.advance.Holds source (read ++ [character]) following where
  split := holds.split_cons
  position := by simp [advance, holds.position]
  suffix := fun opened => absurd activity opened
  bounded := by
    have bounded := holds.bounded
    simp only [advance, List.length_append]
    omega
  idle := fun skips => absurd ready skips
  tag := by simp [advance, activity]
  follows := by simp [advance, activity]
  unbraced := by simp [advance, activity]

end Holds

theorem holds_closeSelf (holds : scan.Holds source read (character :: following))
    (position : next.position = scan.position) (empty : next.buffer = #[])
    (bracket : following.head? = some '>') :
    next.closeSelf.advance.Holds source (read ++ [character]) following := by
  apply holds.fresh
  · simpa [closeSelf, emit] using position
  · simpa [closeSelf, emit] using empty
  · exact fun closing => activity_resume_ne_tag _ _ closing
  · exact fun _ => Or.inr ⟨rfl, bracket⟩

/-- Every step keeps the buffer in place. -/
theorem Reads.holds (reads : Reads input scan character following next)
    (holds : scan.Holds source read (character :: following)) :
    next.advance.Holds source (read ++ [character]) following := by
  cases reads with
  | skipped skips => exact holds.skipped skips
  | buffered ready buffers => exact holds.push ready buffers
  | closingBlank ready activity blank => exact holds.closingBlank ready activity
  | scriptTag ready activity bracket opens room =>
      exact holds.startTag (by simp [startTag]) rfl rfl (by simpa [startTag] using ready) bracket
  | valueTag ready activity bracket opens room =>
      exact holds.startTag (by simp [startTag]) rfl rfl
        (by simpa [startTag, skip_cutBeforeElement] using ready) bracket
  | textTag ready activity bracket opens =>
      exact holds.startTag (by simp [startChildTag, startTag]) rfl rfl
        (by simpa [startChildTag, startTag] using ready) bracket
  | firstTag ready activity bracket opens =>
      exact holds.startTag rfl rfl rfl ready bracket
  | furtherTag ready activity bracket opens =>
      exact holds.startTag (by simp [startChildTag, startTag]) rfl rfl
        (by simpa [startChildTag, startTag] using ready) bracket
  | tagBracket ready activity bracket =>
      exact holds.fresh rfl rfl (by simp) fun _ => Or.inl ⟨ready, Or.inl bracket⟩
  | tagBlank ready activity blank => exact holds.fresh rfl rfl (by simp) (by simp)
  | tagSlash ready activity slash bracket => exact holds_closeSelf holds rfl rfl bracket
  | closingBracket ready activity bracket =>
      apply holds.fresh
      · rw [position_resume]
        rfl
      · rw [buffer_resume]
        rfl
      · exact fun closing => activity_resume_ne_tag _ _ closing
      · intro _
        rw [skip_resume]
        exact Or.inl ⟨ready, Or.inl bracket⟩
  | @equals named ready activity equals =>
      rcases scan.exists_equalsStep named following with ⟨skip, state, result, -⟩
      rw [result]
      exact holds.fresh (by simp) (by simp) (by simp) (by simp)
  | propertyBlank ready activity blank => exact holds.fresh (by simp) (by simp) (by simp) (by simp)
  | propertySlash ready activity slash bracket finishes =>
      have frame := finishProperties_frame finishes
      exact holds_closeSelf holds frame.1 frame.2.1 bracket
  | propertyBracket ready activity bracket finishes =>
      have frame := finishProperties_frame finishes
      exact holds.fresh frame.1 frame.2.1 (by simp) fun _ =>
        Or.inl ⟨frame.2.2.1.trans ready, Or.inl bracket⟩
  | quotedEnd ready activity quote => exact holds.fresh rfl rfl (by simp) (by simp)
  | valueEnd ready activity brace => exact holds.fresh (by simp) (by simp) (by simp) (by simp)
  | codeStart ready activity brace => exact holds.fresh (by simp) (by simp) (by simp) (by simp)
  | codeEnd ready activity brace =>
      exact holds.fresh (by simp) (by simp) (by simp) fun _ =>
        Or.inl ⟨by simpa using ready, Or.inr brace⟩
  | regionEnd ready activity brace =>
      exact holds.fresh rfl rfl (by simp) fun _ => Or.inl ⟨ready, Or.inr brace⟩

/-! ## The tokens that are cut -/

/-- Whether every token that has been cut fits in the text. -/
def Fits (source : Text) (scan : Scan) : Prop :=
  ∀ token ∈ scan.tokens.toList, token.FitsIn source

theorem fits_of_tokens_eq (fits : scan.Fits source) (same : next.tokens = scan.tokens) :
    next.Fits source := by
  unfold Fits
  rw [same]
  exact fits

theorem fits_emit {kind : Token.Kind} {text : Text} {offset : Nat} (fits : scan.Fits source)
    (token : Token.FitsIn source { kind, text, offset }) :
    (scan.emit kind text offset).Fits source := by
  intro other member
  rw [toList_tokens_emit, List.mem_append, List.mem_singleton] at member
  rcases member with member | rfl
  · exact fits other member
  · exact token

/-- A token of a kind that is no slice only has to lie in the text. -/
theorem fitsIn_of_le {kind : Token.Kind} {text : Text} {offset : Nat}
    (other : kind.isSlice = false) (inside : offset ≤ source.length) :
    Token.FitsIn source { kind, text, offset } where
  inside := inside
  slice := by simp [other]
  follows := by
    rintro rfl
    cases other
  unbraced := by
    rintro rfl
    cases other

theorem isSlice_propertyKind (named : Bool) : (propertyKind named).isSlice = false := by
  cases named <;> rfl

variable {rest : Text} {kind : Token.Kind}

theorem Holds.offset_le (holds : scan.Holds source read rest) :
    scan.offset scan.position ≤ source.length := by
  rw [holds.split, List.length_append, offset, holds.position]
  omega

/-- What is buffered fits in the text where it is cut. -/
theorem fits_flush (fits : scan.Fits source) (holds : scan.Holds source read rest)
    (opened : scan.activity ≠ .tag true)
    (inText : kind = .childText → scan.activity = .children .text ∧ scan.skip = 0) :
    (scan.flush kind scan.position).Fits source := by
  have stands := Text.standsAt_of_suffix holds.split (holds.suffix opened)
  have offset : scan.offset scan.position = read.length - scan.text.length := by
    simp [Scan.offset, holds.position, text]
  refine fits_emit fits ⟨holds.offset_le, fun _ => ?_, fun isText => ?_,
    fun isText => holds.unbraced (inText isText).1⟩
  · rw [offset]
    exact stands
  · rcases inText isText with ⟨activity, ready⟩
    rcases holds.follows activity with ⟨start, follows, counted⟩
    have same : scan.offset scan.position = start := by
      rw [Scan.offset]
      omega
    rw [same]
    exact follows

/-- So does what is buffered together with the character being read. -/
theorem fits_flush_push (fits : scan.Fits source)
    (holds : scan.Holds source read (character :: following)) (opened : scan.activity ≠ .tag true)
    (noText : kind ≠ .childText) :
    ((scan.push character).flush kind (scan.position + 1)).Fits source := by
  have longer : (scan.push character).text <:+ read ++ [character] := by
    rcases holds.suffix opened with ⟨earlier, split⟩
    refine ⟨earlier, ?_⟩
    rw [← split]
    simp [Scan.push, text]
  have stands := Text.standsAt_of_suffix holds.split_cons longer
  have offset : (scan.push character).offset (scan.position + 1) =
      (read ++ [character]).length - (scan.push character).text.length := by
    simp [Scan.offset, holds.position, text]
  refine fits_emit fits ⟨?_, fun _ => ?_, fun isText => absurd isText noText,
    fun isText => absurd isText noText⟩
  · rw [offset]
    exact Nat.le_trans (Nat.le_add_right _ _) stands.1
  · rw [offset]
    exact stands

theorem fits_flushSome (fits : scan.Fits source) (holds : scan.Holds source read rest)
    (opened : scan.activity ≠ .tag true)
    (inText : kind = .childText → scan.activity = .children .text ∧ scan.skip = 0) :
    (scan.flushSome kind scan.position).Fits source := by
  unfold flushSome
  split
  · exact fits
  · exact fits_flush fits holds opened inText

theorem fits_flushSolid (fits : scan.Fits source) (holds : scan.Holds source read rest)
    (opened : scan.activity ≠ .tag true)
    (inText : kind = .childText → scan.activity = .children .text ∧ scan.skip = 0) :
    (scan.flushSolid kind scan.position).Fits source := by
  unfold flushSolid
  split
  · exact fits
  · exact fits_flush fits holds opened inText

theorem fits_flushChild (fits : scan.Fits source) (holds : scan.Holds source read rest)
    (opened : scan.activity ≠ .tag true)
    (inText : kind = .childText → scan.activity = .children .text ∧ scan.skip = 0) :
    (scan.flushChild kind scan.position).Fits source := by
  unfold flushChild
  split
  · exact fits_flushSome fits holds opened (by simp)
  · exact fits_flushSome fits holds opened inText

theorem fits_openFragmentAt (fits : scan.Fits source) (mark : Nat) :
    (scan.openFragmentAt mark).Fits source := by
  intro token member
  rcases List.eq_or_mem_of_mem_insertIdx (by simpa [openFragmentAt] using member) with
    rfl | member
  · have inside : (scan.tokens[mark]?.map (·.offset)).getD 0 ≤ source.length := by
      cases found : scan.tokens[mark]? with
      | none => exact Nat.zero_le _
      | some token =>
          exact (fits token (Array.mem_toList_iff.mpr (Array.mem_of_getElem? found))).inside
    exact ⟨inside, fun _ => ⟨inside, rfl⟩, by simp, by simp⟩
  · exact fits token member

theorem holds_openFragmentAt (holds : scan.Holds source read rest) (mark : Nat) :
    (scan.openFragmentAt mark).Holds source read rest :=
  ⟨holds.split, holds.position, holds.suffix, holds.bounded, holds.idle, holds.tag, holds.follows,
    holds.unbraced⟩

theorem fits_closeSelf (fits : scan.Fits source) (inside : scan.position ≤ source.length) :
    scan.closeSelf.Fits source := by
  have closed : (scan.emit .elementEnd ['/', '>'] scan.position).Fits source :=
    fits_emit fits (fitsIn_of_le rfl inside)
  exact fits_of_tokens_eq closed (tokens_resume _ _)

theorem fits_finishProperties {named : Bool} {finished : Scan} (fits : scan.Fits source)
    (inside : scan.offset scan.position ≤ source.length)
    (ok : scan.finishProperties input named = .ok finished) : finished.Fits source := by
  unfold finishProperties at ok
  simp only at ok
  split at ok
  · cases ok
    exact fits
  · split at ok
    · cases ok
      exact fits_emit fits (fitsIn_of_le (isSlice_propertyKind named) inside)
    · cases ok

theorem fits_closeValue {content : Content} (fits : scan.Fits source)
    (holds : scan.Holds source read rest) (opened : scan.activity ≠ .tag true) :
    (scan.closeValue content).Fits source := by
  cases content with
  | codeOnly => exact fits_flushSolid fits holds opened (by simp)
  | fragment => exact fits_flush fits holds opened (by simp)
  | elementsFirst mark =>
      unfold closeValue
      simp only
      split
      · exact fits
      · exact fits_flush (fits_openFragmentAt fits mark) (holds_openFragmentAt holds mark) opened
          (by simp)

theorem fits_cutBeforeElement {content : Content} (fits : scan.Fits source)
    (holds : scan.Holds source read rest) (opened : scan.activity ≠ .tag true) :
    (scan.cutBeforeElement content).1.Fits source := by
  unfold cutBeforeElement
  split
  · cases content <;> exact fits
  · cases content with
    | codeOnly => exact fits_flush fits holds opened (by simp)
    | fragment => exact fits_flush fits holds opened (by simp)
    | elementsFirst mark =>
        exact fits_flush (fits_openFragmentAt fits mark) (holds_openFragmentAt holds mark) opened
          (by simp)

/-- Every step cuts only tokens that fit. -/
theorem Reads.fits (reads : Reads input scan character following next)
    (holds : scan.Holds source read (character :: following)) (fits : scan.Fits source) :
    next.Fits source := by
  have inside : scan.position ≤ source.length := by
    rw [holds.split, holds.position]
    simp
  cases reads with
  | skipped skips => exact fits
  | buffered ready buffers => exact fits
  | closingBlank ready activity blank => exact fits
  | scriptTag ready activity bracket opens room =>
      exact fits_flushSome fits holds (by simp [activity]) (by simp)
  | valueTag ready activity bracket opens room =>
      exact fits_cutBeforeElement fits holds (by simp [activity])
  | textTag ready activity bracket opens =>
      exact fits_flushChild fits holds (by simp [activity]) fun _ => ⟨activity, ready⟩
  | firstTag ready activity bracket opens =>
      exact fits_flush fits holds (by simp [activity]) (by simp)
  | furtherTag ready activity bracket opens =>
      exact fits_flushSome fits holds (by simp [activity]) (by simp)
  | tagBracket ready activity bracket =>
      exact fits_flush_push fits holds (by simp [activity]) (by simp)
  | tagBlank ready activity blank => exact fits_flush fits holds (by simp [activity]) (by simp)
  | tagSlash ready activity slash bracket =>
      exact fits_closeSelf (fits_flush fits holds (by simp [activity]) (by simp)) inside
  | closingBracket ready activity bracket =>
      have closed : ((scan.push character).flush .elementEnd (scan.position + 1)).Fits source := by
        refine fits_emit fits (fitsIn_of_le rfl ?_)
        simp only [offset, Scan.push, Array.size_push]
        omega
      exact fits_of_tokens_eq closed (tokens_resume _ _)
  | @equals named ready activity equals =>
      rcases scan.exists_equalsStep named following with ⟨skip, state, result, -⟩
      rw [result]
      exact fits_flushSolid fits holds (by simp [activity]) (by simp)
  | @propertyBlank named ready activity blank =>
      exact fits_flushSolid fits holds (by simp [activity]) (by cases named <;> simp [propertyKind])
  | propertySlash ready activity slash bracket finishes =>
      apply fits_closeSelf (fits_finishProperties fits holds.offset_le finishes)
      rw [(finishProperties_frame finishes).1]
      exact inside
  | propertyBracket ready activity bracket finishes =>
      exact fits_of_tokens_eq (fits_finishProperties fits holds.offset_le finishes) rfl
  | @quotedEnd named mark ready activity quote =>
      exact fits_emit fits (fitsIn_of_le (isSlice_propertyKind named) holds.offset_le)
  | valueEnd ready activity brace => exact fits_closeValue fits holds (by simp [activity])
  | codeStart ready activity brace =>
      exact fits_flushChild fits holds (by simp [activity]) fun _ => ⟨activity, ready⟩
  | codeEnd ready activity brace => exact fits_flushChild fits holds (by simp [activity]) (by simp)
  | regionEnd ready activity brace => exact fits_flush fits holds (by simp [activity]) (by simp)

end Scan

end ElementScript
