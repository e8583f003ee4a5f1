import ElementScript.Proofs.Scan.Properties
import ElementScript.Proofs.Scan.Tiling

/-! # A scan always advances

A scan can be written as a loop whose turns are larger than a character: one turn takes the script
up to and with the `<` of the next element, and inside of elements a turn takes a character together
with the characters that its decision has consumed. `Scan.loop` is that loop, and it counts its turns
against a limit, so that a turn that takes nothing would be noticed.

No turn takes nothing, and none takes more than there is, because a step never skips more than what
follows it (`Reads.skip_le`, `turn_advances`). So there are no more turns than characters, the limit
is never passed, and the loop cuts the tokens of `tokenize` (`tokenize_always_advances`).
-/

namespace ElementScript

namespace Scan

/-! ## Reading some of a text -/

/-- Whether a scan that has a text before it comes, character by character, to another state that
has the rest of the text before it. -/
inductive Reaches (input : ScanInput) (scan : Scan) (text : Text) : Scan → Text → Prop where
  | refl : Reaches input scan text scan text
  | step {middle next : Scan} {character : Char} {rest : Text}
      (before : Reaches input scan text middle (character :: rest))
      (stepped : middle.step input character rest = .ok next) :
      Reaches input scan text next.advance rest

variable {input : ScanInput} {scan next : Scan} {character : Char} {text rest following : Text}

namespace Reaches

theorem trans {middle : Scan} {between : Text} (first : Reaches input scan text middle between)
    (second : Reaches input middle between next rest) : Reaches input scan text next rest := by
  induction second with
  | refl => exact first
  | step before stepped induction => exact .step induction stepped

theorem length_le (reaches : Reaches input scan text next rest) :
    rest.length ≤ text.length := by
  induction reaches with
  | refl => exact Nat.le_refl _
  | step before stepped induction => exact Nat.le_of_succ_le induction

/-- What is left to do is what is left of the text. -/
theorem run_eq (reaches : Reaches input scan text next rest) :
    scan.run input text = next.run input rest := by
  induction reaches with
  | refl => rfl
  | step before stepped induction => rw [induction, run, stepped]

theorem of_run (ran : scan.run input text = .ok next) : Reaches input scan text next [] := by
  induction text generalizing scan with
  | nil =>
      cases ran
      exact .refl
  | cons character following induction =>
      rw [run] at ran
      split at ran
      · cases ran
      · rename_i reached stepped
        exact (Reaches.step .refl stepped).trans (induction ran)

theorem ordered (reaches : Reaches input scan text next rest) (ordered : scan.Ordered text) :
    next.Ordered rest := by
  induction reaches with
  | refl => exact ordered
  | step before stepped induction => exact (ordered_step induction stepped).advance

theorem holds {source read : Text} (reaches : Reaches input scan text next rest)
    (holds : scan.Holds source read text) : ∃ read, next.Holds source read rest := by
  induction reaches with
  | refl => exact ⟨read, holds⟩
  | step before stepped induction =>
      rcases induction with ⟨read, holds⟩
      exact ⟨_, (reads_of_step stepped).holds holds⟩

end Reaches

/-! ## Turns of a loop -/

/-- The scan behind the characters that an earlier decision has consumed. -/
def jump (scan : Scan) : Scan :=
  { scan with position := scan.position + scan.skip, skip := 0 }

/-- Reads script up to and with the `<` of the next element, or all of it if there is none. -/
def scriptTurn (input : ScanInput) (scan : Scan) : Text → Except ScanError (Scan × Text)
  | [] => .ok (scan, [])
  | character :: rest =>
      match scan.step input character rest with
      | .error error => .error error
      | .ok next =>
          -- Only the `<` of an element leads out of script.
          match next.activity with
          | .code _ => scriptTurn input next.advance rest
          | _ => .ok (next.advance, rest)

/-- Reads a character of an element, and what else the decision at that character consumes. -/
def elementTurn (input : ScanInput) (scan : Scan) : Text → Except ScanError (Scan × Text)
  | [] => .ok (scan, [])
  | character :: rest =>
      match scan.step input character rest with
      | .error error => .error error
      | .ok next => .ok (next.advance.jump, rest.drop next.skip)

def turn (input : ScanInput) (scan : Scan) (text : Text) : Except ScanError (Scan × Text) :=
  match scan.activity with
  | .code _ => scan.scriptTurn input text
  | .tag _ | .properties _ | .children _ => scan.elementTurn input text

/-- Why a loop ends without tokens. -/
inductive LoopError where
  | scan (error : ScanError)
  /-- There were more turns than the limit allows. -/
  | endless (turns : Nat)
deriving DecidableEq, Repr

/-- Takes turns until there is no text left, and counts them against a limit. -/
def loop (input : ScanInput) (limit turns : Nat) (scan : Scan) (text : Text) :
    Except LoopError (Scan × Nat) :=
  if text.isEmpty then .ok (scan, turns)
  else if limit < turns + 1 then .error (.endless (turns + 1))
  else
    match scan.turn input text with
    | .error error => .error (.scan error)
    | .ok (next, rest) => loop input limit (turns + 1) next rest
termination_by limit - turns

/-- Whether a scan that has a text before it takes so many turns to come to another state. -/
inductive Turns (input : ScanInput) (scan : Scan) (text : Text) : Nat → Scan → Text → Prop where
  | start : Turns input scan text 0 scan text
  | turn {turns : Nat} {middle next : Scan} {between rest : Text}
      (before : Turns input scan text turns middle between) (more : between ≠ [])
      (turned : middle.turn input between = .ok (next, rest)) :
      Turns input scan text (turns + 1) next rest

/-! ## A step skips no more than there is -/

@[simp] theorem skip_closeValue (scan : Scan) (content : Content) :
    (scan.closeValue content).skip = scan.skip := by
  cases content with
  | codeOnly => simp [closeValue]
  | fragment => rfl
  | elementsFirst mark =>
      unfold closeValue
      simp only
      split <;> rfl

theorem Reads.skip_le (reads : Reads input scan character following next)
    (within : scan.skip ≤ following.length + 1) : next.skip ≤ following.length := by
  cases reads with
  | skipped skips =>
      simp only
      omega
  | buffered ready buffers => simp [push, ready]
  | closingBlank ready activity blank => simp [ready]
  | scriptTag ready activity bracket opens room => simp [startTag, ready]
  | valueTag ready activity bracket opens room => simp [startTag, skip_cutBeforeElement, ready]
  | textTag ready activity bracket opens => simp [startChildTag, startTag, ready]
  | firstTag ready activity bracket opens =>
      simp [startChildTag, startTag, flush, emit, clear, ready]
  | furtherTag ready activity bracket opens => simp [startChildTag, startTag, ready]
  | tagBracket ready activity bracket => simp [push, flush, emit, clear, ready]
  | tagBlank ready activity blank => simp [flush, emit, clear, ready]
  | tagSlash ready activity slash bracket =>
      exact List.length_pos_of_mem (List.mem_of_mem_head? bracket)
  | closingBracket ready activity bracket => simp [push, flush, emit, clear, ready]
  | @equals named ready activity equals =>
      rcases exists_equalsStep_flat scan named following ready with ⟨skip, state, step, fits, -⟩
      rw [step]
      exact fits
  | propertyBlank ready activity blank => simp [ready]
  | propertySlash ready activity slash bracket finishes =>
      exact List.length_pos_of_mem (List.mem_of_mem_head? bracket)
  | propertyBracket ready activity bracket finishes =>
      rw [(finishProperties_frame finishes).2.2.1, ready]
      exact Nat.zero_le _
  | quotedEnd ready activity quote => simp [emit, clear, ready]
  | valueEnd ready activity brace => simp [ready]
  | codeStart ready activity brace => simp [ready]
  | codeEnd ready activity brace => simp [ready]
  | regionEnd ready activity brace => simp [flush, emit, clear, ready]

/-- Script has no decision that consumes more than a character. -/
theorem Reads.ready_of_script {mark : Option Char}
    (reads : Reads input scan character following next) (ready : scan.skip = 0)
    (script : scan.activity = .code mark) : next.skip = 0 := by
  cases reads with
  | buffered _ buffers => exact ready
  | scriptTag _ activity bracket opens room => simp [startTag, ready]
  | _ => simp_all

theorem jump_of_ready (ready : scan.skip = 0) : scan.jump = scan := by
  cases scan
  simp_all [jump]

/-- The characters that have been consumed are read without a trace. -/
theorem reaches_jump (within : scan.skip ≤ text.length) :
    Reaches input scan text scan.jump (text.drop scan.skip) := by
  induction text generalizing scan with
  | nil =>
      rw [jump_of_ready (Nat.le_zero.mp within), List.drop_nil]
      exact .refl
  | cons character rest induction =>
      cases skips : scan.skip with
      | zero =>
          rw [jump_of_ready skips]
          exact .refl
      | succ skip =>
          have stepped : scan.step input character rest = .ok { scan with skip } := by
            simp [step, skips]
          have fewer : ({ scan with skip } : Scan).advance.skip ≤ rest.length := by
            rw [skips, List.length_cons] at within
            exact Nat.le_of_succ_le_succ within
          have same : ({ scan with skip } : Scan).advance.jump = scan.jump := by
            simp only [jump, advance, skips, Scan.mk.injEq, and_self, and_true]
            omega
          have later := induction fewer
          rw [same] at later
          exact (Reaches.step .refl stepped).trans later

/-! ## A turn advances -/

/-- Whether a turn goes on in a text, and leaves nothing that is consumed but not read. -/
structure Advances (input : ScanInput) (scan : Scan) (text : Text) (next : Scan) (rest : Text) :
    Prop where
  reaches : Reaches input scan text next rest
  ready : next.skip = 0
  shorter : text ≠ [] → rest.length < text.length

theorem scriptTurn_advances {mark : Option Char} (ready : scan.skip = 0)
    (script : scan.activity = .code mark)
    (turned : scan.scriptTurn input text = .ok (next, rest)) :
    Advances input scan text next rest := by
  induction text generalizing scan mark with
  | nil =>
      cases turned
      exact ⟨.refl, ready, by simp⟩
  | cons character following induction =>
      rw [scriptTurn] at turned
      split at turned
      · cases turned
      · rename_i reached stepped
        have readyNext : reached.advance.skip = 0 :=
          (reads_of_step stepped).ready_of_script ready script
        have first : Reaches input scan (character :: following) reached.advance following :=
          .step .refl stepped
        split at turned
        · rename_i after script
          rcases induction readyNext script turned with ⟨reaches, readyLast, -⟩
          exact ⟨first.trans reaches, readyLast, fun _ => Nat.lt_succ_of_le reaches.length_le⟩
        · cases turned
          exact ⟨first, readyNext, by simp⟩

theorem elementTurn_advances (ready : scan.skip = 0)
    (turned : scan.elementTurn input text = .ok (next, rest)) :
    Advances input scan text next rest := by
  cases text with
  | nil =>
      cases turned
      exact ⟨.refl, ready, by simp⟩
  | cons character following =>
      rw [elementTurn] at turned
      split at turned
      · cases turned
      · rename_i reached stepped
        cases turned
        have within : reached.advance.skip ≤ following.length :=
          (reads_of_step stepped).skip_le (by simp [ready])
        have first : Reaches input scan (character :: following) reached.advance following :=
          .step .refl stepped
        refine ⟨first.trans (reaches_jump within), rfl, fun _ => ?_⟩
        rw [List.length_drop, List.length_cons]
        omega

theorem turn_advances (ready : scan.skip = 0) (turned : scan.turn input text = .ok (next, rest)) :
    Advances input scan text next rest := by
  unfold turn at turned
  split at turned
  · rename_i mark script
    exact scriptTurn_advances ready script turned
  all_goals exact elementTurn_advances ready turned

theorem run_of_scriptTurn {error : ScanError}
    (turned : scan.scriptTurn input text = .error error) : scan.run input text = .error error := by
  induction text generalizing scan with
  | nil => cases turned
  | cons character following induction =>
      cases stepped : scan.step input character following with
      | error reason =>
          simp only [scriptTurn, stepped] at turned
          cases turned
          rw [run, stepped]
      | ok reached =>
          simp only [scriptTurn, stepped] at turned
          rw [run, stepped]
          split at turned
          · exact induction turned
          · cases turned

theorem run_of_elementTurn {error : ScanError}
    (turned : scan.elementTurn input text = .error error) :
    scan.run input text = .error error := by
  cases text with
  | nil => cases turned
  | cons character following =>
      cases stepped : scan.step input character following with
      | error reason =>
          simp only [elementTurn, stepped] at turned
          cases turned
          rw [run, stepped]
      | ok reached =>
          simp only [elementTurn, stepped] at turned
          cases turned

theorem run_of_turn {error : ScanError} (turned : scan.turn input text = .error error) :
    scan.run input text = .error error := by
  unfold turn at turned
  split at turned
  · exact run_of_scriptTurn turned
  all_goals exact run_of_elementTurn turned

/-! ## Whole loops -/

theorem Turns.reaches {turns : Nat} (taken : Turns input scan text turns next rest)
    (ready : scan.skip = 0) :
    Reaches input scan text next rest ∧ next.skip = 0 ∧ turns + rest.length ≤ text.length := by
  induction taken with
  | start => exact ⟨.refl, ready, by omega⟩
  | turn before more turned induction =>
      rcases induction with ⟨reaches, readyThen, counted⟩
      rcases turn_advances readyThen turned with ⟨further, readyNext, shorter⟩
      have fewer := shorter more
      exact ⟨reaches.trans further, readyNext, by omega⟩

/-- A loop whose limit is no less than the length of the text reads the text, in no more turns than
there are characters. -/
theorem exists_loop {scan : Scan} {text : Text} {limit turns : Nat} (ready : scan.skip = 0)
    (room : turns + text.length ≤ limit) :
    ∃ further ≤ text.length, scan.loop input limit turns text =
      ((scan.run input text).map (·, turns + further)).mapError .scan := by
  cases text with
  | nil =>
      refine ⟨0, Nat.le_refl 0, ?_⟩
      rw [loop]
      rfl
  | cons character following =>
      have free : ¬ limit < turns + 1 := by
        rw [List.length_cons] at room
        omega
      rw [loop, if_neg (by simp), if_neg free]
      split
      · rename_i error turned
        refine ⟨0, Nat.zero_le _, ?_⟩
        rw [run_of_turn turned]
        rfl
      · rename_i next rest turned
        rcases turn_advances ready turned with ⟨reaches, readyNext, shorter⟩
        have fewer := shorter (List.cons_ne_nil _ _)
        have left : turns + 1 + rest.length ≤ limit := by omega
        rcases exists_loop readyNext left with ⟨further, bounded, ends⟩
        refine ⟨1 + further, by omega, ?_⟩
        rw [reaches.run_eq, ends, Nat.add_assoc]
termination_by text.length

/-! ## Open elements -/

/-- Whether an element is open after some tokens: its start is among them, and what has started
since then has ended. As many elements are open around it as `levels` says. -/
def HasOpenElement (tokens : List Token) (levels : Nat) : Prop :=
  ∃ before start inside, tokens = before ++ start :: inside ∧ start.kind = .elementStart ∧
    before.countP (·.kind = .elementStart) = before.countP (·.kind = .elementEnd) + levels ∧
    inside.countP (·.kind = .elementStart) = inside.countP (·.kind = .elementEnd)

theorem Layout.hasOpenElement {span : Span} {outer : List Span} {tokens : List Token}
    (layout : Layout (span :: outer) tokens) : HasOpenElement tokens outer.length := by
  cases layout with
  | @element span outer before inside start around kind fits =>
      have counted := Protocol.run_length around.run
      have balanced := Protocol.run_length (fits.run [])
      simp only [List.length_map, List.length_nil, List.length_cons] at counted balanced
      exact ⟨before, start, inside, rfl, kind, by omega, by omega⟩

/-- A scan among children has an open element, whose children they are. -/
theorem Ordered.hasOpenElement {region : Region} (ordered : scan.Ordered text)
    (children : scan.activity = .children region) :
    HasOpenElement scan.tokens.toList scan.levels.length := by
  have layout : Layout (region.span :: scan.levels.map Level.span) scan.tokens.toList := by
    have spanned := ordered.layout
    rwa [spans, children] at spanned
  have opened := layout.hasOpenElement
  rwa [List.length_map] at opened

/-- A closing tag stands among the children of the element that it closes. -/
theorem Ordered.amongChildren (ordered : scan.Ordered text)
    (closing : scan.activity = .tag true) : scan.AmongChildren := by
  have agrees := ordered.agrees
  rwa [Agrees, closing] at agrees

end Scan

/-- The tokens of a source and the number of turns that it takes to cut them, by a loop that allows
no more turns than there are characters. -/
def tokenizeGuarded (source : Text) (ceiling : Nat) :
    Except Scan.LoopError (List Token × Nat) :=
  let text := Comment.strip source
  match Scan.loop { source, ceiling } text.length 0 {} text with
  | .error error => .error error
  | .ok (scan, turns) => .ok (scan.finish, turns)

theorem exists_tokenizeGuarded (source : Text) (ceiling : Nat) :
    ∃ turns ≤ source.length, tokenizeGuarded source ceiling =
      ((tokenize source ceiling).map (·, turns)).mapError .scan := by
  have room : 0 + (Comment.strip source).length ≤ (Comment.strip source).length := by omega
  have looped := @Scan.exists_loop { source, ceiling } {} (Comment.strip source) _ _ rfl room
  rcases looped with ⟨turns, bounded, ends⟩
  rw [Comment.length_strip] at bounded
  refine ⟨turns, bounded, ?_⟩
  simp only [tokenizeGuarded, tokenize, ends]
  cases Scan.run { source, ceiling } {} (Comment.strip source) with
  | error error => rfl
  | ok final => simp [Except.map, Except.mapError]

/-- A scan always advances. In every state that a loop of turns comes to, each further turn moves
the position on, and never past the end of the source; where children are read there is an open
element whose children they are, and a closing tag is among the children of such an element. There
have been no more turns than characters read. So a loop that allows as many turns as the source has
characters never runs out of turns: it cuts the tokens of the source, or fails as the scan does. -/
theorem tokenize_always_advances (source : Text) (ceiling : Nat) :
    (∀ turns scan rest,
      Scan.Turns { source, ceiling } {} (Comment.strip source) turns scan rest →
        turns ≤ scan.position ∧ scan.position + rest.length = source.length ∧
        (∀ region, scan.activity = .children region →
          Scan.HasOpenElement scan.tokens.toList scan.levels.length) ∧
        (scan.activity = .tag true → scan.AmongChildren) ∧
        ∀ next left, rest ≠ [] → scan.turn { source, ceiling } rest = .ok (next, left) →
          scan.position < next.position ∧ next.position ≤ source.length) ∧
    ∃ turns ≤ source.length, tokenizeGuarded source ceiling =
      ((tokenize source ceiling).map (·, turns)).mapError .scan := by
  have placed : ∀ {turns scan rest},
      Scan.Turns { source, ceiling } {} (Comment.strip source) turns scan rest →
        scan.position + rest.length = source.length := by
    intro turns scan rest taken
    rcases (taken.reaches rfl).1.holds (Scan.holds_initial _) with ⟨read, holds⟩
    rw [holds.position, ← List.length_append, ← holds.split, Comment.length_strip]
  refine ⟨?_, exists_tokenizeGuarded source ceiling⟩
  intro turns scan rest taken
  rcases taken.reaches rfl with ⟨reaches, ready, counted⟩
  have ordered := reaches.ordered (Scan.ordered_initial _)
  have position := placed taken
  rw [Comment.length_strip] at counted
  refine ⟨by omega, position, fun _ => ordered.hasOpenElement, ordered.amongChildren, ?_⟩
  intro next left more turned
  have later := placed (taken.turn more turned)
  have shorter := (Scan.turn_advances ready turned).shorter more
  constructor
  · omega
  · omega

/-- After four turns the children of the first element are being read, and the loop comes to the
end of the source. -/
theorem tokenize_always_advances_sample :
    let source : Text := "<a>x<b/>".toList
    (∃ scan, Scan.Turns { source, ceiling := 1 } {} (Comment.strip source) 4 scan "<b/>".toList ∧
      scan.activity = .children .text ∧ 4 ≤ scan.position ∧
      Scan.HasOpenElement scan.tokens.toList scan.levels.length) ∧
    ∃ turns ≤ source.length, tokenizeGuarded source 1 = .ok
      ([{ kind := .elementStart, text := "<a>".toList, offset := 0 },
        { kind := .childText, text := "x".toList, offset := 3 },
        { kind := .elementStart, text := "<b".toList, offset := 4 },
        { kind := .elementEnd, text := "/>".toList, offset := 6 }], turns) := by
  intro source
  have advances := tokenize_always_advances source 1
  constructor
  · have taken : ∃ scan, Scan.Turns { source, ceiling := 1 } {} (Comment.strip source) 4 scan
        "<b/>".toList ∧ scan.activity = .children .text :=
      ⟨_, .turn (.turn (.turn (.turn .start (List.cons_ne_nil _ _) rfl)
        (List.cons_ne_nil _ _) rfl) (List.cons_ne_nil _ _) rfl) (List.cons_ne_nil _ _) rfl, rfl⟩
    rcases taken with ⟨scan, turns, children⟩
    have reached := advances.1 4 scan _ turns
    exact ⟨scan, turns, children, reached.1, reached.2.2.1 _ children⟩
  · rcases advances.2 with ⟨turns, bounded, ends⟩
    exact ⟨turns, bounded, ends⟩

end ElementScript
