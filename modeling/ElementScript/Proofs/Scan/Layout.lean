import ElementScript.Proofs.Token.Protocol
import ElementScript.Scan.Run

/-! # How the tokens of a scan are laid out

Between two characters, the tokens that a scan has cut follow the protocol of tokens, and the
elements that are open in them are the ones that the scan knows as open. `Layout` says this by
cutting the tokens at the starts of the open elements: what stands between two starts belongs to the
outer of the two elements, and its `Span` is what the scan remembers of it.

The start of a region may be put in later, before an element that has been cut already. The span
`elements` records what makes this possible: since the mark there are complete elements and nothing
else, so they can stand in a region as well as outside of one.
-/

namespace ElementScript

namespace Protocol

/-- Sequences that leave the innermost open element as it is. -/
def Keeps (place : Bool) (tokens : List Token) : Prop :=
  ∀ outer, run (place :: outer) tokens = some (place :: outer)

/-- Sequences that leave all open elements as they are, wherever they stand. -/
def Neutral (tokens : List Token) : Prop :=
  ∀ places, run places tokens = some places

theorem keeps_nil (place : Bool) : Keeps place [] := fun _ => rfl

theorem keeps_singleton {place : Bool} {token : Token}
    (stays : ∀ outer, next (place :: outer) token.kind = some (place :: outer)) :
    Keeps place [token] := by
  intro outer
  rw [run, stays]
  rfl

theorem Keeps.append {place : Bool} {first second : List Token} (before : Keeps place first)
    (after : Keeps place second) : Keeps place (first ++ second) := by
  intro outer
  rw [run_append, before outer, Option.bind_some, after outer]

theorem Neutral.keeps {tokens : List Token} (neutral : Neutral tokens) (place : Bool) :
    Keeps place tokens := fun outer => neutral (place :: outer)

theorem Neutral.append {first second : List Token} (before : Neutral first)
    (after : Neutral second) : Neutral (first ++ second) := by
  intro places
  rw [run_append, before places, Option.bind_some, after places]

theorem keeps_of_kinds {place : Bool} {tokens : List Token}
    (stays : ∀ token ∈ tokens, ∀ outer,
      next (place :: outer) token.kind = some (place :: outer)) : Keeps place tokens := by
  induction tokens with
  | nil => exact keeps_nil place
  | cons token tokens induction =>
      have parts := List.forall_mem_cons.mp stays
      exact (keeps_singleton parts.1).append (induction parts.2)

/-- A complete element leaves everything around it as it is. -/
theorem neutral_element {place : Bool} {start stop : Token} {inside : List Token}
    (starts : start.kind = .elementStart)
    (ran : ∀ outer, run (false :: outer) inside = some (place :: outer))
    (ends : stop.kind = .elementEnd) : Neutral (start :: (inside ++ [stop])) := by
  intro places
  have opened : next places start.kind = some (false :: places) := by
    rw [starts]
    rfl
  have closed : next (place :: places) stop.kind = some places := by
    rw [ends]
    cases place <;> rfl
  rw [run, opened]
  change run (false :: places) (inside ++ [stop]) = some places
  rw [run_append, ran places, Option.bind_some, run, closed]
  rfl

end Protocol

namespace Scan

open Protocol (Keeps Neutral)

/-- The kinds of names, values and children that are no elements. -/
def isItem : Token.Kind → Bool
  | .propertyName | .propertyValue | .childText | .childCode | .childWhitespace => true
  | _ => false

theorem keeps_items {tokens : List Token} (items : ∀ token ∈ tokens, isItem token.kind) :
    Keeps false tokens := by
  refine Protocol.keeps_of_kinds fun token member outer => ?_
  have item := items token member
  cases kind : token.kind <;> simp_all [isItem, Protocol.next]

theorem keeps_parts {tokens : List Token} (parts : ∀ token ∈ tokens, token.kind.isPart) :
    Keeps true tokens := by
  refine Protocol.keeps_of_kinds fun token member outer => ?_
  have part := parts token member
  cases kind : token.kind <;> simp_all [Token.Kind.isPart, Protocol.next]

/-- What a scan knows of the tokens of an open element. -/
inductive Span where
  /-- Complete properties and children. -/
  | items
  /-- Complete properties and children, and complete elements from the mark on. -/
  | elements (mark : Nat)
  /-- An open region. -/
  | region

/-- Whether the tokens since the start of an element are as a span says, if `base` tokens stand
before them. -/
def Span.Fits (base : Nat) (inside : List Token) : Span → Prop
  | .items => Keeps false inside
  | .elements mark => ∃ items elements, inside = items ++ elements ∧ mark = base + items.length ∧
      Keeps false items ∧ Neutral elements
  | .region => ∀ outer, Protocol.run (false :: outer) inside = some (true :: outer)

/-- How tokens are laid out in open elements, innermost first. -/
inductive Layout : List Span → List Token → Prop where
  | script {tokens : List Token} (ran : Protocol.run [] tokens = some []) : Layout [] tokens
  | element {span : Span} {outer : List Span} {before inside : List Token} {start : Token}
      (around : Layout outer before) (kind : start.kind = .elementStart)
      (fits : span.Fits (before.length + 1) inside) :
      Layout (span :: outer) (before ++ start :: inside)

namespace Span

variable {span : Span} {base : Nat} {inside more : List Token}

/-- The place that a span ends at. -/
def place : Span → Bool
  | .items | .elements _ => false
  | .region => true

theorem Fits.run (fits : span.Fits base inside) (outer : List Bool) :
    Protocol.run (false :: outer) inside = some (span.place :: outer) := by
  cases span with
  | items => exact fits outer
  | elements mark =>
      rcases fits with ⟨items, elements, rfl, -, kept, neutral⟩
      exact (kept.append (neutral.keeps false)) outer
  | region => exact fits outer

theorem Fits.append_neutral (fits : span.Fits base inside) (neutral : Neutral more) :
    span.Fits base (inside ++ more) := by
  cases span with
  | items => exact Keeps.append fits (neutral.keeps false)
  | elements mark =>
      rcases fits with ⟨items, elements, rfl, marked, kept, others⟩
      exact ⟨items, elements ++ more, by simp, marked, kept, others.append neutral⟩
  | region =>
      intro outer
      rw [Protocol.run_append, fits outer]
      exact neutral (true :: outer)

end Span

namespace Layout

variable {span changed : Span} {outer spans : List Span} {tokens more : List Token}
  {token : Token}

/-- Tokens laid out in open elements follow the protocol. -/
theorem run (layout : Layout spans tokens) :
    Protocol.run [] tokens = some (spans.map Span.place) := by
  induction layout with
  | script ran => exact ran
  | @element span outer before inside start around kind fits induction =>
      rw [Protocol.run_append, induction, Option.bind_some, Protocol.run, kind]
      exact fits.run _

theorem append_neutral (layout : Layout spans tokens) (neutral : Neutral more) :
    Layout spans (tokens ++ more) := by
  cases layout with
  | script ran =>
      refine .script ?_
      rw [Protocol.run_append, ran]
      exact neutral []
  | element around kind fits =>
      rw [List.append_assoc, List.cons_append]
      exact .element around kind (fits.append_neutral neutral)

/-- The innermost open element grows, and what is known of it may change. -/
theorem extend (layout : Layout (span :: outer) tokens)
    (grows : ∀ base inside, span.Fits base inside → changed.Fits base (inside ++ more)) :
    Layout (changed :: outer) (tokens ++ more) := by
  cases layout with
  | element around kind fits =>
      rw [List.append_assoc, List.cons_append]
      exact .element around kind (grows _ _ fits)

theorem openElement (layout : Layout spans tokens) (kind : token.kind = .elementStart) :
    Layout (.items :: spans) (tokens ++ [token]) :=
  .element layout kind (Protocol.keeps_nil false)

/-- An element that ends is a complete element of the one around it. -/
theorem close (layout : Layout (span :: outer) tokens) (kind : token.kind = .elementEnd) :
    Layout outer (tokens ++ [token]) := by
  cases layout with
  | element around starts fits =>
      rw [List.append_assoc, List.cons_append]
      exact around.append_neutral (Protocol.neutral_element starts fits.run kind)

theorem append_item (layout : Layout (.items :: outer) tokens) (kept : Keeps false more) :
    Layout (.items :: outer) (tokens ++ more) :=
  layout.extend fun _ _ fits => Keeps.append fits kept

theorem append_part (layout : Layout (.region :: outer) tokens) (kept : Keeps true more) :
    Layout (.region :: outer) (tokens ++ more) := by
  refine layout.extend fun _ inside fits above => ?_
  rw [Protocol.run_append, fits above]
  exact kept above

theorem openRegion (layout : Layout (.items :: outer) tokens)
    (kind : token.kind = .fragmentStart) : Layout (.region :: outer) (tokens ++ [token]) := by
  refine layout.extend fun _ inside fits above => ?_
  rw [Protocol.run_append, fits above, Option.bind_some, Protocol.run, kind]
  rfl

theorem closeRegion (layout : Layout (.region :: outer) tokens)
    (kind : token.kind = .fragmentEnd) : Layout (.items :: outer) (tokens ++ [token]) := by
  refine layout.extend fun _ inside fits above => ?_
  rw [Protocol.run_append, fits above, Option.bind_some, Protocol.run, kind]
  rfl

/-- The marked elements are items like all others. -/
theorem forget {mark : Nat} (layout : Layout (.elements mark :: outer) tokens) :
    Layout (.items :: outer) tokens := by
  rw [← List.append_nil tokens]
  refine layout.extend fun base inside fits => ?_
  rw [List.append_nil]
  exact fits.run

/-- Elements are marked from here on. -/
theorem mark (layout : Layout (.items :: outer) tokens) :
    Layout (.elements tokens.length :: outer) tokens := by
  cases layout with
  | @element _ _ before inside start around kind fits =>
      refine .element around kind ⟨inside, [], by simp, ?_, fits, fun _ => rfl⟩
      rw [List.length_append, List.length_cons]
      omega

end Layout

theorem insertIdx_append_length {α : Type} (before after : List α) (value : α) :
    (before ++ after).insertIdx before.length value = before ++ value :: after := by
  induction before with
  | nil => rfl
  | cons head tail induction => simp [induction]

/-- A region may be opened in front of the marked elements. -/
theorem Layout.insertRegion {mark : Nat} {outer : List Span} {tokens : List Token}
    (layout : Layout (.elements mark :: outer) tokens) (start : Token)
    (kind : start.kind = .fragmentStart) :
    Layout (.region :: outer) (tokens.insertIdx mark start) := by
  cases layout with
  | @element _ _ before inside opening around starts fits =>
      rcases fits with ⟨items, elements, rfl, rfl, kept, neutral⟩
      have split : before ++ opening :: (items ++ elements) =
          (before ++ opening :: items) ++ elements := by simp
      have marked : before.length + 1 + items.length = (before ++ opening :: items).length := by
        rw [List.length_append, List.length_cons]
        omega
      rw [split, marked, insertIdx_append_length, List.append_assoc, List.cons_append]
      refine .element around starts fun above => ?_
      rw [Protocol.run_append, kept above, Option.bind_some, Protocol.run, kind]
      exact neutral (true :: above)

/-! ## What a scan knows as open -/

def Content.span : Content → Span
  | .codeOnly => .items
  | .elementsFirst mark => .elements mark
  | .fragment => .region

def Region.span : Region → Span
  | .text => .items
  | .code _ false => .items
  | .code _ true => .region

def Level.span : Level → Span
  | .children region => region.span
  | .value _ content => content.span

/-- The element whose properties or children are being read. A tag whose name is being read has cut
no token yet. -/
def Activity.spans : Activity → List Span
  | .code _ => []
  | .tag _ => []
  | .properties (.outside _) => [.items]
  | .properties (.quoted _ _) => [.items]
  | .properties (.braced _ content) => [content.span]
  | .children region => [region.span]

def spans (scan : Scan) : List Span :=
  scan.activity.spans ++ scan.levels.map Level.span

/-- Whether the scan is among the children of an element, so that a closing tag may start. -/
def AmongChildren (scan : Scan) : Prop :=
  ∃ region outer, scan.levels = .children region :: outer

/-- How the levels of a scan go with its activity. Outside of children no tag starts with a slash:
`rest` is the text to come. -/
def Agrees (scan : Scan) (rest : Text) : Prop :=
  match scan.activity with
  | .code _ => scan.levels = []
  | .tag true => scan.AmongChildren
  | .tag false => scan.buffer ≠ #[] ∧
      (scan.buffer = #['<'] → (rest.drop scan.skip).head? = some '/' → scan.AmongChildren)
  | .properties _ | .children _ => True

/-- What holds of a scan between two characters. -/
structure Ordered (scan : Scan) (rest : Text) : Prop where
  layout : Layout scan.spans scan.tokens.toList
  agrees : scan.Agrees rest

/-! ## Cutting tokens -/

section Cutting

variable (scan : Scan) {kind : Token.Kind} {place : Bool}

@[simp] theorem toList_tokens_emit (text : Text) (offset : Nat) :
    (scan.emit kind text offset).tokens.toList =
      scan.tokens.toList ++ [{ kind := kind, text := text, offset := offset }] := by
  simp [emit]

@[simp] theorem toList_tokens_flush (stop : Nat) :
    (scan.flush kind stop).tokens.toList =
      scan.tokens.toList ++ [{ kind, text := scan.text, offset := scan.offset stop }] :=
  scan.toList_tokens_emit _ _

@[simp] theorem levels_flushSome (stop : Nat) :
    (scan.flushSome kind stop).levels = scan.levels := by
  unfold flushSome
  split <;> rfl

@[simp] theorem skip_flushSome (stop : Nat) :
    (scan.flushSome kind stop).skip = scan.skip := by
  unfold flushSome
  split <;> rfl

@[simp] theorem levels_flushChild (stop : Nat) :
    (scan.flushChild kind stop).levels = scan.levels :=
  scan.levels_flushSome stop

@[simp] theorem levels_flushSolid (stop : Nat) :
    (scan.flushSolid kind stop).levels = scan.levels := by
  unfold flushSolid
  split <;> rfl

theorem exists_flushSome (kind : Token.Kind) (stop : Nat) :
    ∃ cut, (scan.flushSome kind stop).tokens.toList = scan.tokens.toList ++ cut ∧
      ∀ token ∈ cut, token.kind = kind := by
  unfold flushSome
  split
  · exact ⟨[], by simp, by simp⟩
  · exact ⟨_, scan.toList_tokens_flush stop, by simp⟩

theorem exists_flushSolid (kind : Token.Kind) (stop : Nat) :
    ∃ cut, (scan.flushSolid kind stop).tokens.toList = scan.tokens.toList ++ cut ∧
      ∀ token ∈ cut, token.kind = kind := by
  unfold flushSolid
  split
  · exact ⟨[], by simp [clear], by simp⟩
  · exact ⟨_, scan.toList_tokens_flush stop, by simp⟩

variable {scan} {outer : List Span}

theorem Layout.flushSome (layout : Layout (.items :: outer) scan.tokens.toList)
    (item : isItem kind) (stop : Nat) :
    Layout (.items :: outer) (scan.flushSome kind stop).tokens.toList := by
  rcases scan.exists_flushSome kind stop with ⟨cut, cutTokens, kinds⟩
  rw [cutTokens]
  refine layout.append_item (keeps_items fun token member => ?_)
  rw [kinds token member]
  exact item

theorem Layout.flushSolid (layout : Layout (.items :: outer) scan.tokens.toList)
    (item : isItem kind) (stop : Nat) :
    Layout (.items :: outer) (scan.flushSolid kind stop).tokens.toList := by
  rcases scan.exists_flushSolid kind stop with ⟨cut, cutTokens, kinds⟩
  rw [cutTokens]
  refine layout.append_item (keeps_items fun token member => ?_)
  rw [kinds token member]
  exact item

theorem Layout.flushChild (layout : Layout (.items :: outer) scan.tokens.toList)
    (item : isItem kind) (stop : Nat) :
    Layout (.items :: outer) (scan.flushChild kind stop).tokens.toList := by
  unfold Scan.flushChild
  split
  · exact layout.flushSome rfl stop
  · exact layout.flushSome item stop

theorem Layout.flushPart (layout : Layout (.region :: outer) scan.tokens.toList)
    (part : kind.isPart) (stop : Nat) :
    Layout (.region :: outer) (scan.flushSome kind stop).tokens.toList := by
  rcases scan.exists_flushSome kind stop with ⟨cut, cutTokens, kinds⟩
  rw [cutTokens]
  refine layout.append_part (keeps_parts fun token member => ?_)
  rw [kinds token member]
  exact part

theorem Layout.flushCode (layout : Layout [] scan.tokens.toList) (stop : Nat) :
    Layout [] (scan.flushSome .code stop).tokens.toList := by
  unfold Scan.flushSome
  split
  · exact layout
  · cases layout with
    | script ran =>
        refine .script ?_
        rw [toList_tokens_flush, Protocol.run_append, ran]
        rfl

end Cutting

/-! ## One character -/

section Steps

variable {input : ScanInput} {scan next : Scan} {character : Char} {following : Text}

theorem exists_of_bind {ε α β : Type} {action : Except ε α} {continuation : α → β} {result : β}
    (ok : (do let value ← action; return continuation value) = .ok result) :
    ∃ value, action = .ok value ∧ continuation value = result := by
  cases action with
  | error error => cases ok
  | ok value =>
      cases ok
      exact ⟨value, rfl, rfl⟩

theorem eq_of_enter {entered : Scan} (ok : scan.enter input = .ok entered) :
    entered = { scan with calls := scan.calls + 1 } := by
  unfold enter at ok
  split at ok
  · cases ok
  · cases ok
    rfl

/-- A `<` that opens an element outside of children is followed by no slash. -/
theorem agrees_startTag (skip : scan.skip = 0) (opens : Lookahead.opensElement following)
    (levels : List Level) : ({ scan.startTag with levels } : Scan).Agrees following := by
  refine ⟨by simp [startTag], fun _ slash => ?_⟩
  change (following.drop scan.skip).head? = some '/' at slash
  rw [skip, List.drop_zero] at slash
  cases following with
  | nil => cases slash
  | cons first rest =>
      cases slash
      simp [Lookahead.opensElement] at opens

/-- A scan that goes on with the innermost open element is ordered as soon as its tokens are laid
out in the open elements. -/
theorem ordered_resume {levels : List Level} {rest : Text} (skip : Nat)
    (layout : Layout (levels.map Level.span) scan.tokens.toList) :
    ({ scan.resume levels with skip } : Scan).Ordered rest := by
  cases levels with
  | nil => exact ⟨layout, rfl⟩
  | cons level outer =>
      cases level with
      | children region => exact ⟨layout, trivial⟩
      | value depth content => exact ⟨layout, trivial⟩

theorem ordered_closeSelf {span : Span} {rest : Text}
    (layout : Layout (span :: scan.levels.map Level.span) scan.tokens.toList) :
    scan.closeSelf.Ordered rest := by
  apply ordered_resume 1
  rw [toList_tokens_emit]
  exact layout.close rfl

theorem Ordered.advance {rest : Text} (ordered : scan.Ordered rest) :
    scan.advance.Ordered rest :=
  ⟨ordered.layout, ordered.agrees⟩

theorem agrees_of_properties {state : Properties} {rest : Text}
    (activity : scan.activity = .properties state) : scan.Agrees rest := by
  rw [Agrees, activity]
  trivial

theorem agrees_of_children {region : Region} {rest : Text}
    (activity : scan.activity = .children region) : scan.Agrees rest := by
  rw [Agrees, activity]
  trivial

theorem ordered_codeStep {mark : Option Char} (ordered : scan.Ordered (character :: following))
    (skip : scan.skip = 0) (activity : scan.activity = .code mark)
    (stepped : scan.codeStep input mark character following = .ok next) :
    next.Ordered following := by
  have outside : scan.levels = [] := by
    have agrees := ordered.agrees
    rwa [Agrees, activity] at agrees
  have layout : Layout [] scan.tokens.toList := by
    have layout := ordered.layout
    rwa [spans, activity, outside] at layout
  have pushed : ∀ mark, ({ scan.push character with activity := .code mark } : Scan).Ordered
      following := by
    intro mark
    refine ⟨?_, outside⟩
    simpa [spans, Activity.spans, push, outside] using layout
  cases mark with
  | some opened =>
      cases stepped
      exact pushed _
  | none =>
      simp only [codeStep] at stepped
      split at stepped
      · cases stepped
        exact pushed _
      · split at stepped
        · rename_i opens
          rcases exists_of_bind stepped with ⟨entered, enters, rfl⟩
          cases eq_of_enter enters
          refine ⟨?_, agrees_startTag (by simpa using skip) opens.2 _⟩
          simpa [spans, Activity.spans, startTag, outside] using layout.flushCode scan.position
        · cases stepped
          have same := pushed none
          rw [← activity] at same
          exact same

theorem ordered_tagStep {closing : Bool} (ordered : scan.Ordered (character :: following))
    (skip : scan.skip = 0) (activity : scan.activity = .tag closing)
    (stepped : scan.tagStep input closing character following = .ok next) :
    next.Ordered following := by
  have layout : Layout (scan.levels.map Level.span) scan.tokens.toList := by
    have layout := ordered.layout
    rwa [spans, activity] at layout
  have agrees := ordered.agrees
  rw [Agrees, activity] at agrees
  have opened : ∀ stop, Layout (.items :: scan.levels.map Level.span)
      (scan.flush .elementStart stop).tokens.toList := by
    intro stop
    rw [toList_tokens_flush]
    exact layout.openElement rfl
  unfold tagStep at stepped
  split at stepped
  · rename_i slash
    subst slash
    split at stepped
    · rename_i fresh
      cases stepped
      refine ⟨layout, ?_⟩
      cases closing with
      | true => exact agrees
      | false => exact agrees.2 fresh (by simp [skip])
    · split at stepped
      · cases stepped
        exact ordered_closeSelf (opened scan.position)
      · cases stepped
  · split at stepped
    · cases closing with
      | true =>
          cases stepped
          rcases agrees with ⟨region, outer, levels⟩
          rw [levels, List.drop_succ_cons, List.drop_zero]
          apply ordered_resume _
          rw [levels] at layout
          rw [toList_tokens_flush]
          exact layout.close rfl
      | false =>
          cases stepped
          refine ⟨?_, trivial⟩
          change Layout (.items :: scan.levels.map Level.span)
            ((scan.push character).flush .elementStart (scan.position + 1)).tokens.toList
          rw [toList_tokens_flush]
          exact layout.openElement rfl
    · split at stepped
      · cases closing with
        | true =>
            cases stepped
            refine ⟨ordered.layout, ?_⟩
            rw [Agrees, activity]
            exact agrees
        | false =>
            cases stepped
            exact ⟨opened scan.position, trivial⟩
      · cases stepped
        have same : (scan.push character).activity = .tag closing := activity
        refine ⟨ordered.layout, ?_⟩
        rw [Agrees, same]
        cases closing with
        | true => exact agrees
        | false =>
            refine ⟨by simp [push], fun single => absurd ?_ agrees.1⟩
            have size := congrArg Array.size single
            exact Array.eq_empty_of_size_eq_zero (by simpa [push] using size)

theorem isItem_propertyKind (named : Bool) : isItem (propertyKind named) := by
  cases named <;> rfl

theorem layout_finishProperties {named : Bool} {finished : Scan} {outer : List Span}
    (layout : Layout (.items :: outer) scan.tokens.toList)
    (ok : scan.finishProperties input named = .ok finished) :
    Layout (.items :: outer) finished.tokens.toList ∧ finished.levels = scan.levels := by
  unfold finishProperties at ok
  simp only at ok
  split at ok
  · cases ok
    exact ⟨layout, rfl⟩
  · split at ok
    · cases ok
      refine ⟨?_, rfl⟩
      change Layout _ (scan.emit _ _ _).tokens.toList
      rw [toList_tokens_emit]
      exact layout.append_item (keeps_items (by simpa using isItem_propertyKind named))
    · cases ok

theorem ordered_equalsStep {named : Bool} {rest : Text}
    (layout : Layout (.items :: scan.levels.map Level.span) scan.tokens.toList) :
    (scan.equalsStep named following).Ordered rest := by
  have cut : Layout (.items :: scan.levels.map Level.span)
      (scan.flushSolid .propertyName scan.position).tokens.toList :=
    layout.flushSolid rfl scan.position
  have spans_eq : ∀ (state : Properties) (skip : Nat),
      Activity.spans (.properties state) = [.items] →
      ({ scan.flushSolid .propertyName scan.position with
        skip, activity := .properties state } : Scan).Ordered rest := by
    intro state skip single
    refine ⟨?_, trivial⟩
    simpa [spans, single] using cut
  unfold equalsStep
  simp only
  split
  · split
    · exact spans_eq _ _ rfl
    · split
      · exact spans_eq _ _ rfl
      · exact spans_eq _ _ rfl
  · exact spans_eq _ _ rfl

theorem ordered_outsideStep {named : Bool} {rest : Text} (ordered : scan.Ordered rest)
    (activity : scan.activity = .properties (.outside named))
    (stepped : scan.outsideStep input named character following = .ok next) :
    next.Ordered following := by
  have layout : Layout (.items :: scan.levels.map Level.span) scan.tokens.toList := by
    have layout := ordered.layout
    rwa [spans, activity] at layout
  unfold outsideStep at stepped
  split at stepped
  · cases stepped
    exact ordered_equalsStep layout
  · split at stepped
    · cases stepped
      refine ⟨?_, trivial⟩
      simpa [spans, Activity.spans] using
        layout.flushSolid (isItem_propertyKind named) scan.position
    · split at stepped
      · rcases exists_of_bind stepped with ⟨finished, finishes, rfl⟩
        have parts := layout_finishProperties layout finishes
        rw [← parts.2] at parts
        exact ordered_closeSelf parts.1
      · split at stepped
        · rcases exists_of_bind stepped with ⟨finished, finishes, rfl⟩
          have parts := layout_finishProperties layout finishes
          rw [← parts.2] at parts
          exact ⟨parts.1, trivial⟩
        · cases stepped
          exact ⟨ordered.layout, agrees_of_properties activity⟩

theorem ordered_quotedStep {named : Bool} {mark : Char} {rest : Text}
    (ordered : scan.Ordered rest) (activity : scan.activity = .properties (.quoted named mark)) :
    (scan.quotedStep named mark character).Ordered following := by
  unfold quotedStep
  split
  · refine ⟨?_, trivial⟩
    have layout : Layout (.items :: scan.levels.map Level.span) scan.tokens.toList := by
      have layout := ordered.layout
      rwa [spans, activity] at layout
    change Layout (.items :: scan.levels.map Level.span) (scan.emit _ _ _).tokens.toList
    rw [toList_tokens_emit]
    exact layout.append_item (keeps_items (by simpa using isItem_propertyKind named))
  · exact ⟨ordered.layout, agrees_of_properties activity⟩

theorem layout_openFragmentAt {mark : Nat} {outer : List Span}
    (layout : Layout (.elements mark :: outer) scan.tokens.toList) :
    Layout (.region :: outer) (scan.openFragmentAt mark).tokens.toList := by
  have inserted := layout.insertRegion
    { kind := .fragmentStart, text := [], offset := (scan.tokens[mark]?.map (·.offset)).getD 0 } rfl
  simpa [openFragmentAt] using inserted

/-- At the end of its braces a value is complete, whatever the braces have shown. -/
theorem ordered_closeValue {content : Content} {rest : Text}
    (layout : Layout (content.span :: scan.levels.map Level.span) scan.tokens.toList) :
    (scan.closeValue content).Ordered rest := by
  cases content with
  | codeOnly =>
      have cut : Layout (.items :: scan.levels.map Level.span)
          (scan.flushSolid .propertyValue scan.position).tokens.toList :=
        Layout.flushSolid layout rfl scan.position
      refine ⟨?_, trivial⟩
      simpa [closeValue, spans, Activity.spans] using cut
  | fragment =>
      refine ⟨?_, trivial⟩
      change Layout (.items :: scan.levels.map Level.span)
        (scan.flush .fragmentEnd scan.position).tokens.toList
      rw [toList_tokens_flush]
      exact Layout.closeRegion layout rfl
  | elementsFirst mark =>
      unfold closeValue
      simp only
      split
      · exact ⟨Layout.forget layout, trivial⟩
      · refine ⟨?_, trivial⟩
        change Layout (.items :: scan.levels.map Level.span)
          ((scan.openFragmentAt mark).flush .fragmentEnd scan.position).tokens.toList
        rw [toList_tokens_flush]
        exact (layout_openFragmentAt layout).closeRegion rfl

theorem layout_cutBeforeElement {content : Content} {outer : List Span}
    (layout : Layout (content.span :: outer) scan.tokens.toList) :
    Layout ((scan.cutBeforeElement content).2.span :: outer)
      (scan.cutBeforeElement content).1.tokens.toList := by
  unfold cutBeforeElement
  split
  · cases content with
    | codeOnly =>
        have marked := Layout.mark layout
        rw [Array.length_toList] at marked
        exact marked
    | elementsFirst mark => exact layout
    | fragment => exact layout
  · cases content with
    | codeOnly =>
        change Layout (.region :: outer) (scan.flush .fragmentStart scan.position).tokens.toList
        rw [toList_tokens_flush]
        exact Layout.openRegion layout rfl
    | elementsFirst mark =>
        change Layout (.region :: outer)
          ((scan.openFragmentAt mark).flush .propertyValue scan.position).tokens.toList
        rw [toList_tokens_flush]
        exact (layout_openFragmentAt layout).append_part (keeps_parts (by simp [Token.Kind.isPart]))
    | fragment =>
        change Layout (.region :: outer) (scan.flush .propertyValue scan.position).tokens.toList
        rw [toList_tokens_flush]
        exact Layout.append_part layout (keeps_parts (by simp [Token.Kind.isPart]))

theorem skip_cutBeforeElement (content : Content) :
    (scan.cutBeforeElement content).1.skip = scan.skip := by
  unfold cutBeforeElement
  split <;> cases content <;> rfl

theorem ordered_bracedStep {depth : Nat} {content : Content} {rest : Text}
    (ordered : scan.Ordered rest) (skip : scan.skip = 0)
    (activity : scan.activity = .properties (.braced depth content))
    (stepped : scan.bracedStep input depth content character following = .ok next) :
    next.Ordered following := by
  have layout : Layout (content.span :: scan.levels.map Level.span) scan.tokens.toList := by
    have layout := ordered.layout
    rwa [spans, activity] at layout
  unfold bracedStep at stepped
  split at stepped
  · cases depth with
    | zero =>
        cases stepped
        exact ordered_closeValue layout
    | succ depth =>
        cases stepped
        exact ⟨layout, trivial⟩
  · split at stepped
    · cases stepped
      exact ⟨layout, trivial⟩
    · split at stepped
      · rename_i opens
        have cutLayout := layout_cutBeforeElement layout
        have cutSkip := (skip_cutBeforeElement content).trans skip
        generalize scan.cutBeforeElement content = result at stepped cutLayout cutSkip
        rcases result with ⟨cut, shown⟩
        rcases exists_of_bind stepped with ⟨entered, enters, rfl⟩
        cases eq_of_enter enters
        exact ⟨cutLayout, agrees_startTag cutSkip opens.2 _⟩
      · cases stepped
        exact ⟨ordered.layout, agrees_of_properties activity⟩

/-! ### Children -/

theorem ordered_startChildTag {region : Region} {rest : Text}
    (layout : Layout (region.span :: scan.levels.map Level.span) scan.tokens.toList) :
    (scan.startChildTag region).Ordered rest :=
  ⟨layout, by simp [startChildTag, startTag], fun _ _ => ⟨region, scan.levels, rfl⟩⟩

theorem ordered_childTextStep {rest : Text} (ordered : scan.Ordered rest)
    (activity : scan.activity = .children .text) :
    (scan.childTextStep character following).Ordered following := by
  have layout : Layout (.items :: scan.levels.map Level.span) scan.tokens.toList := by
    have layout := ordered.layout
    rwa [spans, activity] at layout
  have cut : Layout (.items :: (scan.flushChild .childText scan.position).levels.map Level.span)
      (scan.flushChild .childText scan.position).tokens.toList := by
    rw [levels_flushChild]
    exact layout.flushChild rfl scan.position
  unfold childTextStep
  split
  · exact ⟨cut, trivial⟩
  · split
    · exact ordered_startChildTag cut
    · exact ⟨ordered.layout, agrees_of_children activity⟩

theorem ordered_childCodeStep {depth : Nat} {holdsElements : Bool} {rest : Text}
    (ordered : scan.Ordered rest)
    (activity : scan.activity = .children (.code depth holdsElements)) :
    (scan.childCodeStep depth holdsElements character following).Ordered following := by
  have layout : Layout ((Region.code depth holdsElements).span :: scan.levels.map Level.span)
      scan.tokens.toList := by
    have layout := ordered.layout
    rwa [spans, activity] at layout
  unfold childCodeStep
  split
  · cases depth with
    | zero =>
        refine ⟨?_, trivial⟩
        cases holdsElements with
        | true =>
            change Layout (.items :: scan.levels.map Level.span)
              (scan.flush .fragmentEnd scan.position).tokens.toList
            rw [toList_tokens_flush]
            exact Layout.closeRegion layout rfl
        | false =>
            have cut : Layout (.items :: scan.levels.map Level.span)
                (scan.flushChild .childCode scan.position).tokens.toList :=
              Layout.flushChild layout rfl scan.position
            simpa [spans, Activity.spans, Region.span] using cut
    | succ depth =>
        refine ⟨?_, trivial⟩
        cases holdsElements <;> exact layout
  · split
    · refine ⟨?_, trivial⟩
      cases holdsElements <;> exact layout
    · split
      · apply ordered_startChildTag
        cases holdsElements with
        | true =>
            have cut : Layout (.region :: scan.levels.map Level.span)
                (scan.flushSome .childCode scan.position).tokens.toList :=
              Layout.flushPart layout rfl scan.position
            simpa [Region.span] using cut
        | false =>
            change Layout (.region :: scan.levels.map Level.span)
              (scan.flush .fragmentStart scan.position).tokens.toList
            rw [toList_tokens_flush]
            exact Layout.openRegion layout rfl
      · exact ⟨ordered.layout, agrees_of_children activity⟩

/-! ### Any character -/

theorem ordered_step (ordered : scan.Ordered (character :: following))
    (stepped : scan.step input character following = .ok next) : next.Ordered following := by
  unfold step at stepped
  split at stepped
  · rename_i skip skips
    cases stepped
    refine ⟨ordered.layout, ?_⟩
    have agrees := ordered.agrees
    unfold Agrees at *
    simpa [skips, AmongChildren] using agrees
  · rename_i skips
    split at stepped
    · exact ordered_codeStep ordered skips (by assumption) stepped
    · exact ordered_tagStep ordered skips (by assumption) stepped
    · exact ordered_outsideStep ordered (by assumption) stepped
    · cases stepped
      exact ordered_quotedStep ordered (by assumption)
    · exact ordered_bracedStep ordered skips (by assumption) stepped
    · cases stepped
      exact ordered_childTextStep ordered (by assumption)
    · cases stepped
      exact ordered_childCodeStep ordered (by assumption)

/-! ## Whole texts -/

theorem ordered_initial (rest : Text) : ({} : Scan).Ordered rest :=
  ⟨.script rfl, rfl⟩

theorem ordered_run {text : Text} (ordered : scan.Ordered text)
    (ran : scan.run input text = .ok next) : next.Ordered [] := by
  induction text generalizing scan with
  | nil =>
      cases ran
      exact ordered
  | cons character following induction =>
      rw [run] at ran
      split at ran
      · cases ran
      · rename_i reached stepped
        exact induction (ordered_step ordered stepped).advance ran

theorem protocol_finish (ordered : scan.Ordered []) :
    ∃ reached, Protocol.run [] scan.finish = some reached := by
  unfold finish
  split
  · rename_i mark activity
    have layout := ordered.layout
    have agrees := ordered.agrees
    rw [Agrees, activity] at agrees
    rw [spans, activity, agrees] at layout
    exact ⟨_, (layout.flushCode scan.position).run⟩
  · exact ⟨_, ordered.layout.run⟩

end Steps

end Scan

/-- The tokens of every source follow the protocol of tokens. -/
theorem protocol_tokenize {source : Text} {ceiling : Nat} {tokens : List Token}
    (tokenized : tokenize source ceiling = .ok tokens) :
    ∃ reached, Protocol.run [] tokens = some reached := by
  unfold tokenize at tokenized
  split at tokenized
  · cases tokenized
  · rename_i final ran
    cases tokenized
    exact Scan.protocol_finish (Scan.ordered_run (Scan.ordered_initial _) ran)

/-- In the tokens of a source, elements never end before they start, code stands outside of all
elements, and if the tokens form no tree then a closing tag has the wrong name, a value stands where
no property waits for one, an element ends inside its own region, or markup is left open. -/
theorem tokenize_in_order {source : Text} {ceiling : Nat} {tokens : List Token}
    (tokenized : tokenize source ceiling = .ok tokens) :
    (∀ before after, tokens = before ++ after →
      before.countP (·.kind = .elementEnd) ≤ before.countP (·.kind = .elementStart)) ∧
    (∀ before token after, tokens = before ++ token :: after → token.kind = .code →
      before.countP (·.kind = .elementStart) = before.countP (·.kind = .elementEnd)) ∧
    ∀ input : TreeInput, tokens.length ≤ input.ceiling →
      (∃ program, Program.ofTokens input tokens = .ok program) ∨
        ∃ error, Program.ofTokens input tokens = .error error ∧ error.IsOfProtocol := by
  rcases protocol_tokenize tokenized with ⟨reached, ran⟩
  refine ⟨?_, ?_, ?_⟩
  · rintro before after rfl
    exact Protocol.countP_elementEnd_le ran
  · rintro before token after rfl code
    exact Protocol.countP_eq_of_code ran code
  · intro input room
    exact Program.ofTokens_of_protocol ran room

/-- The tokens of a source whose last element ends inside of its own region. -/
theorem tokenize_in_order_region :
    let tokens : List Token :=
      [{ kind := .elementStart, text := "<a".toList, offset := 0 },
        { kind := .propertyName, text := "b".toList, offset := 3 },
        { kind := .fragmentStart, text := [], offset := 6 },
        { kind := .elementStart, text := "<c".toList, offset := 6 },
        { kind := .elementEnd, text := "/>".toList, offset := 8 },
        { kind := .fragmentEnd, text := " d".toList, offset := 10 },
        { kind := .fragmentStart, text := "e".toList, offset := 15 },
        { kind := .elementEnd, text := "</a>".toList, offset := 16 }]
    tokenize "<a b=\x7b<c/> d\x7d>\x7be</a>".toList 2 = .ok tokens ∧
      ∀ input : TreeInput, 8 ≤ input.ceiling →
        (∃ program, Program.ofTokens input tokens = .ok program) ∨
          ∃ error, Program.ofTokens input tokens = .error error ∧ error.IsOfProtocol := by
  intro tokens
  have tokenized : tokenize "<a b=\x7b<c/> d\x7d>\x7be</a>".toList 2 = .ok tokens := by
    rfl
  exact ⟨tokenized, (tokenize_in_order tokenized).2.2⟩

end ElementScript
