import ElementScript.Proofs.Tree.Rules

/-! # The language of trees

Which sequences of tokens form a tree. `Derives` is the grammar; a sequence of pieces derives at a
*place*, outside of every element, directly inside one, or inside one of its braced regions:

* a script is a sequence of code and elements;
* an element is a start, a sequence of properties, elements, regions and other children, and an end
  that names the element or nothing;
* a property is a name, perhaps with a value or code right after it;
* a region is a region start, a sequence of code and elements, and a region end.

`Program.ofTokens_succeeds_iff` says that a tree is built from exactly the sequences of this
language, if the ceiling allows for their pieces.
-/

namespace ElementScript

/-- Where the pieces of a sequence stand. -/
inductive Token.Place where
  | script
  | element
  | region
deriving DecidableEq, Repr

open Token (Place)

/-- The sequences of tokens that are sequences of complete pieces. -/
inductive Derives (fragment : Text) : Place → List Token → Prop where
  | done {place : Place} : Derives fragment place []
  | code {token : Token} {rest : List Token} (kind : token.kind = .code)
      (following : Derives fragment .script rest) :
      Derives fragment .script (token :: rest)
  | element {place : Place} {start stop : Token} {items rest : List Token}
      (kind : start.kind = .elementStart) (inside : Derives fragment .element items)
      (ends : stop.Ends (elementName fragment start)) (following : Derives fragment place rest) :
      Derives fragment place (start :: (items ++ stop :: rest))
  | property {name : Token} {rest : List Token} (kind : name.kind = .propertyName)
      (following : Derives fragment .element rest) :
      Derives fragment .element (name :: rest)
  | valuedProperty {name value : Token} {rest : List Token} (kind : name.kind = .propertyName)
      (valueKind : value.kind.isValue) (following : Derives fragment .element rest) :
      Derives fragment .element (name :: value :: rest)
  | child {token : Token} {rest : List Token} (kind : token.kind.isChild)
      (following : Derives fragment .element rest) :
      Derives fragment .element (token :: rest)
  | region {opening closing : Token} {parts rest : List Token}
      (kind : opening.kind = .fragmentStart) (inside : Derives fragment .region parts)
      (closes : closing.kind = .fragmentEnd) (following : Derives fragment .element rest) :
      Derives fragment .element (opening :: (parts ++ closing :: rest))
  | part {token : Token} {rest : List Token} (kind : token.kind.isPart)
      (following : Derives fragment .region rest) :
      Derives fragment .region (token :: rest)

/-! ## Pieces -/

/-- The number of code tokens outside of every element in a sequence that starts inside of `depth`
elements. -/
def scriptCodes : (depth : Nat) → List Token → Nat
  | _, [] => 0
  | depth, token :: rest =>
      match token.kind with
      | .code => (if depth = 0 then 1 else 0) + scriptCodes depth rest
      | .elementStart => scriptCodes (depth + 1) rest
      | .elementEnd => scriptCodes (depth - 1) rest
      | _ => scriptCodes depth rest

/-- The number of pieces that tree building counts in a sequence that starts inside of `depth`
elements: code outside of elements, elements and regions. -/
def pieces (depth : Nat) (tokens : List Token) : Nat :=
  scriptCodes depth tokens + tokens.countP (·.kind = .elementStart) +
    tokens.countP (·.kind = .fragmentStart)

namespace TreeBuilder

variable {input : TreeInput} {builder next : TreeBuilder} {token : Token} {rest : List Token}

/-- A builder with its count and the pieces to come is never better or worse off after a token. -/
theorem Reads.calls_add_pieces (reads : Reads input builder token next) (rest : List Token) :
    next.calls + pieces next.stack.length rest =
      builder.calls + pieces builder.stack.length (token :: rest) := by
  cases reads with
  | code outside kind room =>
      simp [pieces, scriptCodes, outside, kind]
      omega
  | start kind room =>
      simp [pieces, scriptCodes, kind]
      omega
  | region stack outside kind room =>
      simp [pieces, scriptCodes, stack, kind]
      omega
  | @close element outer stack outside ends =>
      cases outer <;> simp [pieces, scriptCodes, stack, ends.1, closeInnermost]
  | take stack taken =>
      cases taken with
      | name outside kind => simp [pieces, scriptCodes, stack, kind]
      | regionEnd inside kind => simp [pieces, scriptCodes, stack, kind]
      | value outside waiting kind =>
          cases shape : token.kind <;>
            simp_all [pieces, scriptCodes, Token.Kind.isValue]
      | child outside kind =>
          cases shape : token.kind <;>
            simp_all [pieces, scriptCodes, Token.Kind.isChild]
      | part inside kind =>
          cases shape : token.kind <;>
            simp_all [pieces, scriptCodes, Token.Kind.isPart]

theorem Counts.one_le_pieces (counts : builder.Counts token) (rest : List Token) :
    1 ≤ pieces builder.stack.length (token :: rest) := by
  rcases counts with kind | ⟨outside, kind⟩ | ⟨element, outer, stack, outside, kind⟩
  · simp [pieces, scriptCodes, kind]
    omega
  · simp [pieces, scriptCodes, outside, kind]
    omega
  · simp [pieces, scriptCodes, kind]
    omega

end TreeBuilder

/-! ## What completes a stack of open elements -/

/-- What the grammar has to know of an open element. -/
structure Frame where
  name : Text
  inRegion : Bool
deriving DecidableEq, Repr

def OpenElement.frame (element : OpenElement) : Frame :=
  { name := element.name, inRegion := element.region.isSome }

namespace OpenElement

variable (element : OpenElement)

@[simp] theorem name_addChild? (token : Token) :
    (element.addChild? token).name = element.name := by
  unfold addChild?
  split <;> rfl

@[simp] theorem name_attach (inner : Element) : (element.attach inner).name = element.name := by
  unfold attach
  split
  · rfl
  · split <;> rfl

@[simp] theorem name_attachRegion (region : OpenRegion) :
    (element.attachRegion region).name = element.name := by
  unfold attachRegion
  split <;> rfl

@[simp] theorem frame_settle : element.settle.frame = element.frame := by
  simp [frame]

@[simp] theorem frame_addChild? (token : Token) :
    (element.addChild? token).frame = element.frame := by
  rw [frame, frame, region_addChild?, name_addChild?]

@[simp] theorem frame_attach (inner : Element) : (element.attach inner).frame = element.frame := by
  rw [frame, frame, isSome_region_attach, name_attach]

theorem frame_of_region_eq_none (outside : element.region = none) :
    element.frame = ⟨element.name, false⟩ := by
  simp [frame, outside]

theorem frame_of_region_eq_some {region : OpenRegion} (inside : element.region = some region) :
    element.frame = ⟨element.name, true⟩ := by
  simp [frame, inside]

@[simp] theorem frame_openRegion (token : Token) :
    (element.openRegion token).frame = ⟨element.name, true⟩ := rfl

@[simp] theorem frame_attachRegion (region : OpenRegion) :
    (element.attachRegion region).frame = ⟨element.name, false⟩ := by
  rw [frame, region_attachRegion, name_attachRegion]
  rfl

end OpenElement

/-- The sequences that complete open elements, innermost first, and the script around them. -/
inductive Completes (fragment : Text) : List Frame → List Token → Prop where
  | script {tokens : List Token} (derives : Derives fragment .script tokens) :
      Completes fragment [] tokens
  | element {name : Text} {outer : List Frame} {items rest : List Token} {stop : Token}
      (derives : Derives fragment .element items) (ends : stop.Ends name)
      (following : Completes fragment outer rest) :
      Completes fragment (⟨name, false⟩ :: outer) (items ++ stop :: rest)
  | region {name : Text} {outer : List Frame} {parts rest : List Token} {closing : Token}
      (derives : Derives fragment .region parts) (closes : closing.kind = .fragmentEnd)
      (following : Completes fragment (⟨name, false⟩ :: outer) rest) :
      Completes fragment (⟨name, true⟩ :: outer) (parts ++ closing :: rest)

namespace Completes

variable {fragment name : Text} {frames outer : List Frame} {tokens items rest : List Token}
  {token start stop opening : Token}

theorem exists_of_element (completes : Completes fragment (⟨name, false⟩ :: outer) tokens) :
    ∃ items stop rest, tokens = items ++ stop :: rest ∧ Derives fragment .element items ∧
      stop.Ends name ∧ Completes fragment outer rest := by
  cases completes with
  | element derives ends following => exact ⟨_, _, _, rfl, derives, ends, following⟩

theorem exists_of_region (completes : Completes fragment (⟨name, true⟩ :: outer) tokens) :
    ∃ parts closing rest, tokens = parts ++ closing :: rest ∧ Derives fragment .region parts ∧
      closing.kind = .fragmentEnd ∧ Completes fragment (⟨name, false⟩ :: outer) rest := by
  cases completes with
  | region derives closes following => exact ⟨_, _, _, rfl, derives, closes, following⟩

/-- Nothing is left open where nothing is left to read. -/
theorem frames_eq_nil (completes : Completes fragment frames []) : frames = [] := by
  generalize empty : ([] : List Token) = tokens at completes
  cases completes with
  | script derives => rfl
  | element derives ends following => simp at empty
  | region derives closes following => simp at empty

/-- An element may stand first at every place. -/
theorem cons_element (kind : start.kind = .elementStart)
    (inside : Derives fragment .element items) (ends : stop.Ends (elementName fragment start))
    (following : Completes fragment frames rest) :
    Completes fragment frames (start :: (items ++ stop :: rest)) := by
  cases following with
  | script derives => exact .script (.element kind inside ends derives)
  | element derives ends' following =>
      have longer := Completes.element (.element kind inside ends derives) ends' following
      simpa using longer
  | region derives closes following =>
      have longer := Completes.region (.element kind inside ends derives) closes following
      simpa using longer

/-- A piece that may stand first in an element may stand first in what completes one. -/
theorem cons_item (inserted : List Token)
    (extends_ : ∀ {items}, Derives fragment .element items →
      Derives fragment .element (inserted ++ items))
    (following : Completes fragment (⟨name, false⟩ :: outer) rest) :
    Completes fragment (⟨name, false⟩ :: outer) (inserted ++ rest) := by
  cases following with
  | element derives ends following =>
      have longer := Completes.element (extends_ derives) ends following
      simpa using longer

theorem cons_part (kind : token.kind.isPart)
    (following : Completes fragment (⟨name, true⟩ :: outer) rest) :
    Completes fragment (⟨name, true⟩ :: outer) (token :: rest) := by
  cases following with
  | region derives closes following => exact .region (.part kind derives) closes following

/-- A region may be opened in an element, and what completes both has its end in it. -/
theorem cons_region (kind : opening.kind = .fragmentStart)
    (following : Completes fragment (⟨name, true⟩ :: outer) rest) :
    Completes fragment (⟨name, false⟩ :: outer) (opening :: rest) := by
  cases following with
  | region derives closes following =>
      cases following with
      | element derives' ends following =>
          have longer := Completes.element (.region kind derives closes derives') ends following
          simpa using longer

end Completes

namespace TreeBuilder

/-- The open elements as the grammar sees them. -/
def frames (stack : List OpenElement) : List Frame :=
  stack.map OpenElement.frame

theorem frames_cons (element : OpenElement) (outer : List OpenElement) :
    frames (element :: outer) = element.frame :: frames outer := rfl

/-- Whether a property waits for its value in the innermost open element. -/
def Waits (stack : List OpenElement) : Prop :=
  ∃ element outer name, stack = element :: outer ∧ element.region = none ∧
    element.pending = some name

/-- The sequences that can be read to the end of the script: those that complete the open elements,
perhaps after the value of a waiting property. -/
inductive Continues (fragment : Text) (stack : List OpenElement) : List Token → Prop where
  | plain {tokens : List Token} (completes : Completes fragment (frames stack) tokens) :
      Continues fragment stack tokens
  | value {value : Token} {rest : List Token} (waits : Waits stack) (kind : value.kind.isValue)
      (completes : Completes fragment (frames stack) rest) :
      Continues fragment stack (value :: rest)

variable {input : TreeInput} {builder next : TreeBuilder} {token : Token} {rest : List Token}
  {fragment : Text} {element : OpenElement} {stack outer : List OpenElement}

theorem Continues.completes_of_not_waits (continues : Continues fragment stack rest)
    (idle : ¬ Waits stack) : Completes fragment (frames stack) rest := by
  cases continues with
  | plain completes => exact completes
  | value waits kind completes => exact absurd waits idle

theorem not_waits_of_pending (idle : element.pending = none) : ¬ Waits (element :: outer) := by
  rintro ⟨other, above, name, stack, -, waiting⟩
  cases stack
  rw [idle] at waiting
  cases waiting

theorem not_waits_nil : ¬ Waits [] := by
  rintro ⟨other, above, name, stack, -⟩
  cases stack

theorem frames_closeInnermost :
    frames (builder.closeInnermost element outer).stack = frames outer := by
  cases outer <;> simp [closeInnermost, frames]

theorem not_waits_closeInnermost
    (settled : ∀ parent ∈ outer, parent.region ≠ none → parent.pending = none) :
    ¬ Waits (builder.closeInnermost element outer).stack := by
  cases outer with
  | nil => exact not_waits_nil
  | cons parent above =>
      exact not_waits_of_pending
        (OpenElement.pending_attach _ (settled parent List.mem_cons_self))

theorem continues_cons_of_takes {changed : OpenElement} (taken : element.Takes token changed)
    (settled : element.region ≠ none → element.pending = none)
    (continues : Continues fragment (changed :: outer) rest) :
    Continues fragment (element :: outer) (token :: rest) := by
  cases taken with
  | name outside kind =>
      have place : frames (element :: outer) = ⟨element.name, false⟩ :: frames outer := by
        simp [frames, OpenElement.frame, outside]
      have same : frames ({ element.settle with pending := some token.text } :: outer) =
          frames (element :: outer) := by
        simp [frames, OpenElement.frame]
      refine .plain ?_
      rw [place]
      cases continues with
      | plain completes =>
          rw [same, place] at completes
          exact .cons_item [token] (fun derives => .property kind derives) completes
      | @value value rest waits valueKind completes =>
          rw [same, place] at completes
          exact .cons_item [token, value] (fun derives => .valuedProperty kind valueKind derives)
            completes
  | value outside waiting kind =>
      have completes := continues.completes_of_not_waits (not_waits_of_pending rfl)
      exact .value ⟨element, outer, _, rfl, outside, waiting⟩ kind completes
  | child outside kind =>
      have idle : (element.settle.addChild? token).pending = none := by
        unfold OpenElement.addChild?
        split <;> simp [OpenElement.addChild]
      have completes := continues.completes_of_not_waits (not_waits_of_pending idle)
      rw [frames_cons, OpenElement.frame_addChild?, OpenElement.frame_settle,
        element.frame_of_region_eq_none outside] at completes
      refine .plain ?_
      rw [frames_cons, element.frame_of_region_eq_none outside]
      exact .cons_item [token] (fun derives => .child kind derives) completes
  | part inside kind =>
      have completes := continues.completes_of_not_waits
        (not_waits_of_pending (settled (by simp [inside])))
      rw [frames_cons, OpenElement.frame_of_region_eq_some _ rfl] at completes
      refine .plain ?_
      rw [frames_cons, element.frame_of_region_eq_some inside]
      exact .cons_part kind completes
  | regionEnd inside kind =>
      have completes := continues.completes_of_not_waits
        (not_waits_of_pending (OpenElement.pending_attachRegion (settled (by simp [inside])) _))
      rw [frames_cons, OpenElement.frame_attachRegion] at completes
      refine .plain ?_
      rw [frames_cons, element.frame_of_region_eq_some inside]
      exact .region .done kind completes

/-- What can be read after a token can, with the token before it, be read before the token. -/
theorem Reads.continues_cons (reads : Reads input builder token next)
    (coherent : builder.Coherent) (continues : Continues input.fragment next.stack rest) :
    Continues input.fragment builder.stack (token :: rest) := by
  have settled := coherent.settled
  cases reads with
  | code outside kind room =>
      rw [outside] at continues ⊢
      cases continues.completes_of_not_waits not_waits_nil with
      | script derives => exact .plain (.script (.code kind derives))
  | start kind room =>
      cases continues.completes_of_not_waits (not_waits_of_pending rfl) with
      | element derives ends following => exact .plain (.cons_element kind derives ends following)
  | take stack taken =>
      rw [stack] at settled ⊢
      exact continues_cons_of_takes taken (settled _ List.mem_cons_self) continues
  | @region element outer stack outside kind room =>
      have completes := continues.completes_of_not_waits (not_waits_of_pending rfl)
      refine .plain ?_
      rw [stack, frames_cons, element.frame_of_region_eq_none outside]
      exact .cons_region kind completes
  | @close element outer stack outside ends =>
      rw [stack] at settled
      have completes := continues.completes_of_not_waits
        (not_waits_closeInnermost (List.forall_mem_cons.mp settled).2)
      rw [frames_closeInnermost] at completes
      refine .plain ?_
      rw [stack, frames_cons, element.frame_of_region_eq_none outside]
      exact .element .done ends completes

theorem reads_in_script (outside : builder.stack = [])
    (derives : Derives input.fragment .script (token :: rest))
    (room : builder.Counts token → builder.calls < input.ceiling) :
    ∃ next, Reads input builder token next ∧ Continues input.fragment next.stack rest := by
  cases derives with
  | code kind following =>
      refine ⟨_, .code outside kind (room (Or.inr (Or.inl ⟨outside, kind⟩))), .plain ?_⟩
      rw [outside]
      exact .script following
  | element kind inside ends following =>
      refine ⟨_, .start kind (room (Or.inl kind)), .plain ?_⟩
      rw [outside]
      exact .element inside ends (.script following)

theorem reads_in_element (stack : builder.stack = element :: outer)
    (outside : element.region = none)
    (completes : Completes input.fragment (⟨element.name, false⟩ :: frames outer) (token :: rest))
    (room : builder.Counts token → builder.calls < input.ceiling) :
    ∃ next, Reads input builder token next ∧ Continues input.fragment next.stack rest := by
  rcases completes.exists_of_element with ⟨items, stop, following, split, derives, ends, beyond⟩
  have place := element.frame_of_region_eq_none outside
  cases items with
  | nil =>
      cases split
      refine ⟨_, .close stack outside ends, .plain ?_⟩
      rw [frames_closeInnermost]
      exact beyond
  | cons first items =>
      cases split
      cases derives with
      | element kind inside innerEnds derives =>
          refine ⟨_, .start kind (room (Or.inl kind)), .plain ?_⟩
          rw [stack, frames_cons, frames_cons, place, List.append_eq, List.append_assoc]
          exact .element inside innerEnds (.element derives ends beyond)
      | property kind derives =>
          refine ⟨_, .take stack (.name outside kind), .plain ?_⟩
          rw [frames_cons, OpenElement.frame_of_region_eq_none _ (by simp [outside])]
          simpa using Completes.element derives ends beyond
      | valuedProperty kind valueKind derives =>
          refine ⟨_, .take stack (.name outside kind), .value ?_ valueKind ?_⟩
          · exact ⟨_, outer, token.text, rfl, by simp [outside], rfl⟩
          · rw [frames_cons, OpenElement.frame_of_region_eq_none _ (by simp [outside])]
            simpa using Completes.element derives ends beyond
      | child kind derives =>
          refine ⟨_, .take stack (.child outside kind), .plain ?_⟩
          rw [frames_cons, OpenElement.frame_addChild?, OpenElement.frame_settle, place]
          exact .element derives ends beyond
      | region kind inside closes derives =>
          have counts : builder.Counts token :=
            Or.inr (Or.inr ⟨element, outer, stack, outside, kind⟩)
          refine ⟨_, .region stack outside kind (room counts), .plain ?_⟩
          rw [frames_cons, OpenElement.frame_openRegion, List.append_eq, List.append_assoc]
          exact .region inside closes (.element derives ends beyond)

theorem reads_in_region {region : OpenRegion} (stack : builder.stack = element :: outer)
    (inside : element.region = some region)
    (completes : Completes input.fragment (⟨element.name, true⟩ :: frames outer) (token :: rest))
    (room : builder.Counts token → builder.calls < input.ceiling) :
    ∃ next, Reads input builder token next ∧ Continues input.fragment next.stack rest := by
  rcases completes.exists_of_region with
    ⟨parts, closing, following, split, derives, closes, beyond⟩
  have place := element.frame_of_region_eq_some inside
  cases parts with
  | nil =>
      cases split
      refine ⟨_, .take stack (.regionEnd inside closes), .plain ?_⟩
      rw [frames_cons, OpenElement.frame_attachRegion]
      exact beyond
  | cons first parts =>
      cases split
      cases derives with
      | element kind inner ends derives =>
          refine ⟨_, .start kind (room (Or.inl kind)), .plain ?_⟩
          rw [stack, frames_cons, frames_cons, place, List.append_eq, List.append_assoc]
          exact .element inner ends (.region derives closes beyond)
      | part kind derives =>
          refine ⟨_, .take stack (.part inside kind), .plain ?_⟩
          rw [frames_cons, OpenElement.frame_of_region_eq_some _ rfl]
          exact .region derives closes beyond

/-- Conversely, a builder takes up the first token of every sequence that can be read, if the
ceiling allows, and then the rest can be read. -/
theorem reads_of_continues (continues : Continues input.fragment builder.stack (token :: rest))
    (room : builder.Counts token → builder.calls < input.ceiling) :
    ∃ next, Reads input builder token next ∧ Continues input.fragment next.stack rest := by
  cases continues with
  | value waits kind completes =>
      rcases waits with ⟨element, outer, name, stack, outside, waiting⟩
      refine ⟨_, .take stack (.value outside waiting kind), .plain ?_⟩
      rw [stack] at completes
      exact completes
  | plain completes =>
      cases stack : builder.stack with
      | nil =>
          rw [stack] at completes
          cases completes with
          | script derives => exact reads_in_script stack derives room
      | cons element outer =>
          rw [stack, frames_cons] at completes
          cases place : element.region with
          | none =>
              rw [element.frame_of_region_eq_none place] at completes
              exact reads_in_element stack place completes room
          | some region =>
              rw [element.frame_of_region_eq_some place] at completes
              exact reads_in_region stack place completes room

/-! ## Whole sequences -/

/-- A builder reads a sequence and ends outside of every element exactly if it can go on with the
sequence and the ceiling allows for the pieces. -/
theorem run_completes_iff (tokens : List Token) (coherent : builder.Coherent)
    (within : builder.calls ≤ input.ceiling) :
    (∃ final, builder.run input tokens = .ok final ∧ final.stack = []) ↔
      Continues input.fragment builder.stack tokens ∧
        builder.calls + pieces builder.stack.length tokens ≤ input.ceiling := by
  induction tokens generalizing builder with
  | nil =>
      constructor
      · rintro ⟨final, ran, outside⟩
        cases ran
        refine ⟨.plain ?_, by simpa [pieces, scriptCodes] using within⟩
        rw [outside]
        exact .script .done
      · rintro ⟨continues, -⟩
        refine ⟨builder, rfl, ?_⟩
        cases continues with
        | plain completes =>
            simpa [frames] using completes.frames_eq_nil
  | cons token tokens induction =>
      constructor
      · rintro ⟨final, ran, outside⟩
        rw [run] at ran
        split at ran
        · cases ran
        · rename_i next stepped
          have reads := step_eq_ok_iff.mp stepped
          have account := reads.calls_add_pieces tokens
          have reached := (induction (reads.coherent coherent).advance
            (reads.calls_le within)).mp ⟨final, ran, outside⟩
          refine ⟨reads.continues_cons coherent reached.1, ?_⟩
          rw [← account]
          exact reached.2
      · rintro ⟨continues, enough⟩
        have room : builder.Counts token → builder.calls < input.ceiling := by
          intro counts
          have := counts.one_le_pieces tokens
          omega
        rcases reads_of_continues continues room with ⟨next, reads, following⟩
        have account := reads.calls_add_pieces tokens
        have reached := (induction (reads.coherent coherent).advance
          (reads.calls_le within)).mpr ⟨following, account ▸ enough⟩
        rw [run, step_eq_ok_iff.mpr reads]
        exact reached

theorem finish_succeeds_iff (coherent : builder.Coherent) :
    (∃ program, builder.finish input = .ok program) ↔ builder.stack = [] := by
  have balanced := coherent.balanced
  constructor
  · rintro ⟨program, finished⟩
    unfold finish at finished
    split at finished
    · cases finished
    · split at finished
      · cases finished
      · rename_i equal
        exact List.length_eq_zero_iff.mp (by omega)
  · intro outside
    rw [outside, List.length_nil] at balanced
    refine ⟨{ body := builder.body.toList }, ?_⟩
    simp [finish, outside, balanced]

end TreeBuilder

namespace Program

theorem ofTokens_eq_ok_iff {input : TreeInput} {tokens : List Token} {program : Program} :
    ofTokens input tokens = .ok program ↔
      ∃ final, ({} : TreeBuilder).run input tokens = .ok final ∧
        final.finish input = .ok program := by
  unfold ofTokens
  cases ran : ({} : TreeBuilder).run input tokens <;> simp

/-- A tree is built from exactly the sequences of the grammar whose pieces the ceiling allows for:
the code tokens outside of every element, the element starts and the region starts. -/
theorem ofTokens_succeeds_iff (input : TreeInput) (tokens : List Token) :
    (∃ program, ofTokens input tokens = .ok program) ↔
      Derives input.fragment .script tokens ∧
        scriptCodes 0 tokens + tokens.countP (·.kind = .elementStart) +
          tokens.countP (·.kind = .fragmentStart) ≤ input.ceiling := by
  have completes := TreeBuilder.run_completes_iff tokens TreeBuilder.coherent_initial
    (Nat.zero_le input.ceiling)
  have script : TreeBuilder.Continues input.fragment [] tokens ↔
      Derives input.fragment .script tokens := by
    constructor
    · intro continues
      cases continues.completes_of_not_waits TreeBuilder.not_waits_nil with
      | script derives => exact derives
    · exact fun derives => .plain (.script derives)
  calc (∃ program, ofTokens input tokens = .ok program)
      ↔ ∃ final, ({} : TreeBuilder).run input tokens = .ok final ∧ final.stack = [] := by
        constructor
        · rintro ⟨program, built⟩
          rcases ofTokens_eq_ok_iff.mp built with ⟨final, ran, finished⟩
          have coherent := TreeBuilder.run_coherent TreeBuilder.coherent_initial ran
          exact ⟨final, ran, (TreeBuilder.finish_succeeds_iff coherent).mp ⟨program, finished⟩⟩
        · rintro ⟨final, ran, outside⟩
          have coherent := TreeBuilder.run_coherent TreeBuilder.coherent_initial ran
          rcases (TreeBuilder.finish_succeeds_iff coherent).mpr outside with ⟨program, finished⟩
          exact ⟨program, ofTokens_eq_ok_iff.mpr ⟨final, ran, finished⟩⟩
    _ ↔ TreeBuilder.Continues input.fragment [] tokens ∧
        0 + pieces 0 tokens ≤ input.ceiling := completes
    _ ↔ _ := by rw [script, Nat.zero_add, pieces]

end Program

end ElementScript
