import ElementScript.Proofs.Text.Braces
import ElementScript.Proofs.Tree.Contents

/-! # The braces of a tree

The code of a region is cut into several tokens, with whole elements between them, and each of these
elements may have regions of its own. `Braces` is a machine that counts the braces of every open
region along a sequence of tokens. It stops where code closes a brace that is not open in its
region, where a region ends with an open brace, and where code that is a child of its own is not
balanced.

What the machine does not stop at leads to a tree in which every region is balanced
(`Program.ofTokens_braced`). The elements of a region do not matter for its count: what spells an
element leaves all counts around it as they are.
-/

namespace ElementScript

/-! ## Counting along tokens -/

namespace Braces

/-- The count of an open element after a token in it: the open braces of its region, if any. -/
def after (token : Token) : Option Nat → Option (Option Nat)
  | none =>
      match token.kind with
      | .fragmentStart => (token.text.nesting 0).map some
      | .childCode => if token.text.nesting 0 = some 0 then some none else none
      | _ => some none
  | some depth =>
      match token.kind with
      | .childCode | .propertyValue => (token.text.nesting depth).map some
      | .fragmentEnd => if token.text.nesting depth = some 0 then some none else none
      | _ => some (some depth)

/-- The counts of the open elements after a token, innermost first. -/
def next (counts : List (Option Nat)) (token : Token) : Option (List (Option Nat)) :=
  match token.kind, counts with
  | .elementStart, _ => some (none :: counts)
  | .elementEnd, _ => some counts.tail
  | _, [] => some []
  | _, count :: outer => (after token count).map (· :: outer)

/-- The counts of the open elements after a sequence of tokens. -/
def run (counts : List (Option Nat)) (tokens : List Token) : Option (List (Option Nat)) :=
  tokens.foldlM next counts

variable {counts reached outer : List (Option Nat)} {token : Token} {first second : List Token}

@[simp] theorem run_nil : run counts [] = some counts := rfl

theorem run_cons_eq_some_iff :
    run counts (token :: second) = some reached ↔
      ∃ middle, next counts token = some middle ∧ run middle second = some reached := by
  rw [run, List.foldlM_cons]
  exact Option.bind_eq_some_iff

theorem run_append_eq_some_iff :
    run counts (first ++ second) = some reached ↔
      ∃ middle, run counts first = some middle ∧ run middle second = some reached := by
  rw [run, List.foldlM_append]
  exact Option.bind_eq_some_iff

theorem run_snoc_eq_some_iff :
    run counts (first ++ [token]) = some reached ↔
      ∃ middle, run counts first = some middle ∧ next middle token = some reached := by
  simp [run_append_eq_some_iff, run_cons_eq_some_iff]

theorem run_snoc_of_eq_some (ran : run counts first = some reached) :
    run counts (first ++ [token]) = next reached token := by
  rw [run, List.foldlM_append]
  change (run counts first).bind _ = _
  rw [ran, Option.bind_some, List.foldlM_cons]
  cases next reached token <;> rfl

theorem next_of_elementStart (kind : token.kind = .elementStart) :
    next counts token = some (none :: counts) := by
  simp [next, kind]

theorem next_of_elementEnd (kind : token.kind = .elementEnd) :
    next counts token = some counts.tail := by
  simp [next, kind]

theorem next_of_code (kind : token.kind = .code) : next counts token = some counts := by
  rcases counts with _ | ⟨_ | depth, outer⟩ <;> simp [next, after, kind]

theorem next_cons {count : Option Nat} (noStart : token.kind ≠ .elementStart)
    (noEnd : token.kind ≠ .elementEnd) :
    next (count :: outer) token = (after token count).map (· :: outer) := by
  unfold next
  cases kind : token.kind <;> simp_all

/-! Outside of regions, code that is a child has to be balanced, and nothing else is counted. -/

/-- The kinds of tokens that count nothing outside of regions. -/
def isUncounted : Token.Kind → Bool
  | .propertyName | .propertyValue | .code | .childText | .childWhitespace => true
  | _ => false

theorem isUncounted_of_isValue {kind : Token.Kind} (value : kind.isValue) : isUncounted kind := by
  cases kind <;> simp_all [Token.Kind.isValue, isUncounted]

theorem next_of_isUncounted (kind : isUncounted token.kind) :
    next (none :: outer) token = some (none :: outer) := by
  cases shape : token.kind <;> simp_all [next, after, isUncounted]

theorem next_childCode (kind : token.kind = .childCode) :
    next (none :: outer) token =
      if token.text.nesting 0 = some 0 then some (none :: outer) else none := by
  simp only [next, after, kind]
  split <;> rfl

/-! In a region, all code is counted from where the code before it has left off. -/

theorem next_fragmentStart (kind : token.kind = .fragmentStart) :
    next (none :: outer) token =
      (token.text.nesting 0).map fun depth => some depth :: outer := by
  simp [next, after, kind, Function.comp_def]

theorem next_of_isPart {base : Nat} (part : token.kind.isPart) :
    next (some base :: outer) token =
      (token.text.nesting base).map fun depth => some depth :: outer := by
  cases shape : token.kind <;> simp_all [next, after, Token.Kind.isPart, Function.comp_def]

theorem next_fragmentEnd {base : Nat} (kind : token.kind = .fragmentEnd) :
    next (some base :: outer) token =
      if token.text.nesting base = some 0 then some (none :: outer) else none := by
  simp only [next, after, kind]
  split <;> rfl

end Braces

/-! ## Regions -/

section Regions

variable {ε : Type}

def Part.text : Part ε → Text
  | .code piece => piece.text
  | .element _ => []

/-- The code of a region without its elements. -/
def regionText (parts : List (Part ε)) : Text :=
  parts.flatMap Part.text

end Regions

/-- Whether the regions of an element are balanced, and its code children too before their ends were
removed, if they come from these tokens. -/
structure Braced (tokens : List Token) (properties : List (Property Element))
    (children : List (Child Element)) : Prop where
  values : ∀ property ∈ properties, ∀ parts, property.value = some (.fragment parts) →
    (regionText parts).IsBalanced
  regions : ∀ parts, Child.expression parts ∈ children → (regionText parts).IsBalanced
  codes : ∀ text, Child.code text ∈ children → ∃ token ∈ tokens, token.kind = .childCode ∧
    token.text.IsBalanced ∧ text = stripBraces token.text.trim

namespace Braced

variable {tokens more : List Token} {properties : List (Property Element)}
  {children added : List (Child Element)}

theorem nil : Braced tokens [] [] := ⟨by simp, by simp, by simp⟩

theorem mono (braced : Braced tokens properties children) (within : tokens ⊆ more) :
    Braced more properties children where
  values := braced.values
  regions := braced.regions
  codes := by
    intro text member
    rcases braced.codes text member with ⟨token, among, found⟩
    exact ⟨token, within among, found⟩

theorem addProperty {property : Property Element} (braced : Braced tokens properties children)
    (region : ∀ parts, property.value = some (.fragment parts) → (regionText parts).IsBalanced) :
    Braced (tokens ++ more) (properties ++ [property]) children where
  values := by
    intro other member
    rcases List.mem_append.mp member with member | member
    · exact braced.values other member
    · cases List.mem_singleton.mp member
      exact region
  regions := braced.regions
  codes := (braced.mono (List.subset_append_left tokens more)).codes

theorem addChildren (braced : Braced tokens properties children)
    (brings : Braced more properties added) :
    Braced (tokens ++ more) properties (children ++ added) where
  values := braced.values
  regions := by
    intro parts member
    rcases List.mem_append.mp member with member | member
    · exact braced.regions parts member
    · exact brings.regions parts member
  codes := by
    intro text member
    rcases List.mem_append.mp member with member | member
    · exact (braced.mono (List.subset_append_left tokens more)).codes text member
    · exact (brings.mono (List.subset_append_right tokens more)).codes text member

end Braced

/-! ## Where a tree leads the counts -/

/-- What the tokens of a part of a tree do to the counts of the open elements. -/
def Piece.Leads (tokens : List Token) (counts reached : List (Option Nat)) : Piece → Prop
  | .script _ | .element _ => reached = counts
  | .items _ properties children => ∀ outer, counts = none :: outer →
      reached = counts ∧ Braced tokens properties children
  | .region _ inside => ∀ outer, counts = none :: outer →
      reached = counts ∧ (regionText inside).IsBalanced
  | .parts _ inside => ∀ base outer, counts = some base :: outer →
      ∃ depth, (regionText inside).nesting base = some depth ∧ reached = some depth :: outer

theorem Token.kind_of_child?_eq_code {token : Token} {text : Text}
    (child : token.child? = some (.code text)) :
    token.kind = .childCode ∧ text = stripBraces token.text.trim := by
  unfold Token.child? at child
  split at child <;> simp_all

theorem Token.child?_ne_expression (token : Token) (parts : List (Part Element)) :
    token.child? ≠ some (.expression parts) := by
  unfold Token.child?
  split <;> simp

/-- What spells a part of a tree leads the counts as the part says. -/
theorem Spells.leads {fragment : Text} {tokens : List Token} {piece : Piece}
    {counts reached : List (Option Nat)} (spells : Spells fragment tokens piece)
    (ran : Braces.run counts tokens = some reached) : piece.Leads tokens counts reached := by
  induction spells generalizing counts reached with
  | noScript =>
      cases ran
      rfl
  | code before kind induction =>
      rcases Braces.run_snoc_eq_some_iff.mp ran with ⟨middle, ran, last⟩
      cases induction ran
      rw [Braces.next_of_code kind] at last
      exact (Option.some.inj last).symm
  | scriptElement before inner depth induction inside =>
      rcases Braces.run_append_eq_some_iff.mp ran with ⟨middle, ran, last⟩
      cases induction ran
      exact inside last
  | @element start stop tokens depth properties children kind inside ends induction =>
      rcases Braces.run_cons_eq_some_iff.mp ran with ⟨opened, first, ran⟩
      rcases Braces.run_snoc_eq_some_iff.mp ran with ⟨filled, ran, last⟩
      rw [Braces.next_of_elementStart kind] at first
      cases first
      rw [Braces.next_of_elementEnd ends.1, (induction ran counts rfl).1] at last
      exact (Option.some.inj last).symm
  | noItems =>
      rintro outer rfl
      cases ran
      exact ⟨rfl, .nil⟩
  | bareProperty before kind induction =>
      rintro outer rfl
      rcases Braces.run_snoc_eq_some_iff.mp ran with ⟨middle, ran, last⟩
      rcases induction ran outer rfl with ⟨rfl, braced⟩
      rw [Braces.next_of_isUncounted (by simp [kind, Braces.isUncounted])] at last
      cases last
      exact ⟨rfl, braced.addProperty (by simp)⟩
  | @valuedProperty read depth properties children name value before kind valueKind induction =>
      rintro outer rfl
      rcases Braces.run_append_eq_some_iff.mp ran with ⟨middle, ran, others⟩
      rcases induction ran outer rfl with ⟨rfl, braced⟩
      rcases Braces.run_cons_eq_some_iff.mp others with ⟨named, first, last⟩
      rw [Braces.next_of_isUncounted (by simp [kind, Braces.isUncounted])] at first
      cases first
      rcases Braces.run_cons_eq_some_iff.mp last with ⟨valued, second, last⟩
      rw [Braces.next_of_isUncounted (Braces.isUncounted_of_isValue valueKind)] at second
      cases second
      cases last
      exact ⟨rfl, braced.addProperty (by simp)⟩
  | elementProperty before kind inner deeper induction inside =>
      rintro outer rfl
      rcases Braces.run_append_eq_some_iff.mp ran with ⟨middle, ran, others⟩
      rcases induction ran outer rfl with ⟨rfl, braced⟩
      rcases Braces.run_cons_eq_some_iff.mp others with ⟨named, first, last⟩
      rw [Braces.next_of_isUncounted (by simp [kind, Braces.isUncounted])] at first
      cases first
      exact ⟨inside last, braced.addProperty (by simp)⟩
  | regionProperty before kind inner induction inside =>
      rintro outer rfl
      rcases Braces.run_append_eq_some_iff.mp ran with ⟨middle, ran, others⟩
      rcases induction ran outer rfl with ⟨rfl, braced⟩
      rcases Braces.run_cons_eq_some_iff.mp others with ⟨named, first, last⟩
      rw [Braces.next_of_isUncounted (by simp [kind, Braces.isUncounted])] at first
      cases first
      rcases inside last outer rfl with ⟨same, balanced⟩
      refine ⟨same, braced.addProperty ?_⟩
      rintro parts ⟨⟩
      exact balanced
  | @child read depth properties children token before kind induction =>
      rintro outer rfl
      rcases Braces.run_snoc_eq_some_iff.mp ran with ⟨middle, ran, last⟩
      rcases induction ran outer rfl with ⟨rfl, braced⟩
      have kept : reached = none :: outer ∧ (token.kind = .childCode → token.text.IsBalanced) := by
        cases shape : token.kind <;> simp_all [Token.Kind.isChild, Braces.next_childCode,
          Braces.next_of_isUncounted, Braces.isUncounted, Text.isBalanced_iff]
      refine ⟨kept.1, braced.addChildren ⟨braced.values, ?_, ?_⟩⟩
      · intro parts member
        exact absurd (Option.mem_toList.mp member) (token.child?_ne_expression parts)
      · intro text member
        have found := Token.kind_of_child?_eq_code (Option.mem_toList.mp member)
        exact ⟨token, by simp, found.1, kept.2 found.1, found.2⟩
  | childElement before unnamed inner deeper induction inside =>
      rintro outer rfl
      rcases Braces.run_append_eq_some_iff.mp ran with ⟨middle, ran, last⟩
      rcases induction ran outer rfl with ⟨rfl, braced⟩
      exact ⟨inside last, braced.addChildren ⟨braced.values, by simp, by simp⟩⟩
  | childRegion before unnamed inner induction inside =>
      rintro outer rfl
      rcases Braces.run_append_eq_some_iff.mp ran with ⟨middle, ran, last⟩
      rcases induction ran outer rfl with ⟨rfl, braced⟩
      rcases inside last outer rfl with ⟨same, balanced⟩
      exact ⟨same, braced.addChildren ⟨braced.values, by simpa using balanced, by simp⟩⟩
  | @region opening closing tokens depth parts kind inside closes induction =>
      rintro outer rfl
      -- The three parts of a region are counted one after the other, from none open to none open.
      rcases Braces.run_cons_eq_some_iff.mp ran with ⟨opened, first, ran⟩
      rw [Braces.next_fragmentStart kind, Option.map_eq_some_iff] at first
      rcases first with ⟨base, start, rfl⟩
      rcases Braces.run_snoc_eq_some_iff.mp ran with ⟨filled, ran, last⟩
      rcases induction ran base outer rfl with ⟨reached, middle, rfl⟩
      rw [Braces.next_fragmentEnd closes, Option.ite_none_right_eq_some] at last
      rcases last with ⟨stop, last⟩
      cases last
      refine ⟨rfl, ?_⟩
      have split : regionText (.code (opening.toCode depth) ::
          (parts ++ [.code (closing.toCode depth)])) =
          opening.text ++ (regionText parts ++ closing.text) := by
        simp [regionText, Part.text, Token.toCode]
      rw [Text.isBalanced_iff, split, Text.nesting_append_of_eq_some start,
        Text.nesting_append_of_eq_some middle, stop]
  | noParts =>
      rintro base outer rfl
      cases ran
      exact ⟨base, rfl, rfl⟩
  | @part read depth parts token before kind induction =>
      rintro base outer rfl
      rcases Braces.run_snoc_eq_some_iff.mp ran with ⟨middle, ran, last⟩
      rcases induction ran base outer rfl with ⟨reached, counted, rfl⟩
      rw [Braces.next_of_isPart kind, Option.map_eq_some_iff] at last
      rcases last with ⟨longer, nests, rfl⟩
      refine ⟨longer, ?_, rfl⟩
      rw [regionText, List.flatMap_append, ← regionText, Text.nesting_append_of_eq_some counted]
      simpa [Part.text, Token.toCode] using nests
  | @partElement read tokens depth parts element before inner deeper induction inside =>
      rintro base outer rfl
      rcases Braces.run_append_eq_some_iff.mp ran with ⟨middle, ran, last⟩
      rcases induction ran base outer rfl with ⟨reached, counted, rfl⟩
      refine ⟨reached, ?_, inside last⟩
      simpa [regionText, Part.text] using counted

/-! ## Whole trees -/

/-- Where the count of braces finds nothing wrong in the tokens, every region of the tree is
balanced, and every code child was before its ends were removed. -/
theorem Program.ofTokens_braced {input : TreeInput} {tokens : List Token} {program : Program}
    {reached : List (Option Nat)} (built : Program.ofTokens input tokens = .ok program)
    (ran : Braces.run [] tokens = some reached) {element : Element}
    (member : element ∈ program.elements) :
    Braced tokens element.properties element.children := by
  have stands := (Program.ofTokens_spells built).standsIn member
  rcases stands with ⟨start, inside, stop, ⟨before, following, rfl⟩, kind, -, -, -, spells⟩
  rcases Braces.run_append_eq_some_iff.mp ran with ⟨_, ran, -⟩
  rcases Braces.run_append_eq_some_iff.mp ran with ⟨counts, -, ran⟩
  rcases Braces.run_cons_eq_some_iff.mp ran with ⟨opened, first, ran⟩
  rcases Braces.run_snoc_eq_some_iff.mp ran with ⟨filled, ran, -⟩
  rw [Braces.next_of_elementStart kind] at first
  cases first
  refine (spells.leads ran counts rfl).2.mono fun token among => ?_
  simp [among]

end ElementScript
