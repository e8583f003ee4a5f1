import ElementScript.Proofs.Scan.Reading
import ElementScript.Proofs.Scan.Slices

/-! # Reading the properties of a tag

Among the properties of a tag, a text without `/`, `<` and `>` is read to its end, be it well-formed
or not: nothing in it ends the tag, opens an element or is refused (`Scan.exists_run_properties`).
Where the scan is then depends on the text and not on how the tag ends. What the scan has cut is the
start of the tag, with names and values of properties after it.
-/

namespace ElementScript

/-- The kinds of tokens among the properties of a tag, apart from those of elements in them. -/
def Token.Kind.isProperty : Kind → Bool
  | .propertyName | .propertyValue => true
  | _ => false

/-- Whether tokens are the start of a tag and names and values of properties after it. -/
def Token.BeginsTag (start : Token) (tokens : List Token) : Prop :=
  ∃ added : List Token, tokens = start :: added ∧ ∀ token ∈ added, token.kind.isProperty

theorem Token.BeginsTag.concat {start token : Token} {tokens : List Token}
    (begins : start.BeginsTag tokens) (kind : token.kind.isProperty) :
    start.BeginsTag (tokens ++ [token]) := by
  rcases begins with ⟨added, rfl, properties⟩
  refine ⟨added ++ [token], by simp, ?_⟩
  intro other member
  rcases List.mem_append.mp member with earlier | last
  · exact properties other earlier
  · rwa [List.mem_singleton.mp last]

namespace Scan

variable {start : Token} {scan : Scan} {character : Char} {following : Text} {named : Bool}

theorem isProperty_propertyKind (named : Bool) : (propertyKind named).isProperty := by
  cases named <;> rfl

/-- A place among properties outside of the elements in them. -/
def Properties.IsFlat : Properties → Prop
  | .outside _ => True
  | .quoted _ mark => mark = '"' ∨ mark = '\''
  | .braced _ content => content = .codeOnly

/-- Whether a scan is among the properties of a tag of the script, outside of the elements in
them. -/
structure InProperties (start : Token) (scan : Scan) : Prop where
  activity : ∃ state : Properties, scan.activity = .properties state ∧ state.IsFlat
  levels : scan.levels = []
  begins : start.BeginsTag scan.tokens.toList

@[simp] theorem skip_flushSolid (scan : Scan) (kind : Token.Kind) (stop : Nat) :
    (scan.flushSolid kind stop).skip = scan.skip := by
  unfold flushSolid
  split <;> rfl

theorem InProperties.push (inside : scan.InProperties start) (character : Char) :
    (scan.push character).InProperties start :=
  ⟨inside.activity, inside.levels, inside.begins⟩

theorem begins_emit (begins : start.BeginsTag scan.tokens.toList) {kind : Token.Kind}
    (property : kind.isProperty) (text : Text) (offset : Nat) :
    start.BeginsTag (scan.emit kind text offset).tokens.toList := by
  rw [toList_tokens_emit]
  exact begins.concat property

theorem begins_flushSolid (begins : start.BeginsTag scan.tokens.toList) {kind : Token.Kind}
    (property : kind.isProperty) (stop : Nat) :
    start.BeginsTag (scan.flushSolid kind stop).tokens.toList := by
  unfold flushSolid
  split
  · exact begins
  · exact begins_emit begins property _ _

/-! ## What ends a tag opens no value -/

/-- An `=` is read in the same way before every character that separates nothing and opens no
value. -/
theorem equalsStep_append {ending : Char} {others : Text} (solid : Text.isBlank ending = false)
    (opens : ending ≠ '"' ∧ ending ≠ '\'' ∧ ending ≠ '{') :
    scan.equalsStep named (following ++ ending :: others) = scan.equalsStep named following := by
  have blanks : (following ++ ending :: others).takeWhile Text.isBlank =
      following.takeWhile Text.isBlank := Text.takeWhile_before solid
  have within : (following.takeWhile Text.isBlank).length ≤ following.length :=
    (List.takeWhile_sublist _).length_le
  unfold equalsStep
  simp only [blanks, List.drop_append_of_le_length within]
  cases following.drop (following.takeWhile Text.isBlank).length with
  | nil => simp [opens]
  | cons opener rest => rfl

/-- Whether a text begins with a character that ends the properties of a tag. -/
def EndsProperties (rest : Text) : Prop :=
  ∃ others, rest = '/' :: others ∨ rest = '>' :: others

theorem equalsStep_before_end {rest : Text} (ends : EndsProperties rest) :
    scan.equalsStep named (following ++ rest) = scan.equalsStep named following := by
  rcases ends with ⟨others, rfl | rfl⟩
  · exact equalsStep_append (by decide) (by decide)
  · exact equalsStep_append (by decide) (by decide)

/-- An `=` skips no more than there is. -/
theorem exists_equalsStep_flat (scan : Scan) (named : Bool) (following : Text)
    (ready : scan.skip = 0) :
    ∃ skip state, scan.equalsStep named following =
        { scan.flushSolid .propertyName scan.position with
          skip, activity := .properties state } ∧
      skip ≤ following.length ∧ state.IsFlat := by
  have kept : (scan.flushSolid .propertyName scan.position).skip = 0 := by simp [ready]
  unfold equalsStep
  simp only
  split
  · rename_i opener opened
    have within : (following.takeWhile Text.isBlank).length < following.length := by
      rw [List.head?_drop] at opened
      exact (List.getElem?_eq_some_iff.mp opened).1
    split
    · rename_i quote
      exact ⟨_, _, rfl, within, quote⟩
    · split
      · exact ⟨_, _, rfl, within, rfl⟩
      · exact ⟨_, _, rfl, by omega, trivial⟩
  · exact ⟨_, _, rfl, by omega, trivial⟩

/-! ## One character -/

theorem exists_step_outside (inside : scan.InProperties start)
    (activity : scan.activity = .properties (.outside named)) (ready : scan.skip = 0)
    (plain : character ≠ '/' ∧ character ≠ '<' ∧ character ≠ '>') :
    ∃ next : Scan, next.InProperties start ∧ next.skip ≤ following.length ∧
      ∀ input rest, EndsProperties rest →
        scan.step input character (following ++ rest) = .ok next := by
  by_cases equals : character = '='
  · rcases scan.exists_equalsStep_flat named following ready with ⟨skip, state, read, within, flat⟩
    refine ⟨scan.equalsStep named following, ?_, ?_, ?_⟩
    · rw [read]
      exact ⟨⟨state, rfl, flat⟩, by simp [inside.levels], begins_flushSolid inside.begins rfl _⟩
    · rw [read]
      exact within
    · intro input rest ends
      simp [step, ready, activity, outsideStep, equals, equalsStep_before_end ends]
  · by_cases blank : Text.isBlank character
    · refine ⟨{ scan.flushSolid (propertyKind named) scan.position with
        activity := .properties (.outside (named && scan.text.isAllWhitespace)) }, ?_, ?_, ?_⟩
      · exact ⟨⟨_, rfl, trivial⟩, by simp [inside.levels],
          begins_flushSolid inside.begins (isProperty_propertyKind named) _⟩
      · simp [ready]
      · intro input rest ends
        simp [step, ready, activity, outsideStep, equals, blank]
    · refine ⟨scan.push character, inside.push character, ?_, ?_⟩
      · simp [push, ready]
      · intro input rest ends
        simp [step, ready, activity, outsideStep, equals, blank, plain]

theorem exists_step_quoted {mark : Char} (inside : scan.InProperties start)
    (activity : scan.activity = .properties (.quoted named mark)) (ready : scan.skip = 0) :
    ∃ next : Scan, next.InProperties start ∧ next.skip ≤ following.length ∧
      ∀ input rest, EndsProperties rest →
        scan.step input character (following ++ rest) = .ok next := by
  refine ⟨scan.quotedStep named mark character, ?_, ?_, ?_⟩
  · unfold quotedStep
    split
    · exact ⟨⟨_, rfl, trivial⟩, inside.levels,
        begins_emit inside.begins (isProperty_propertyKind named) _ _⟩
    · exact inside.push character
  · unfold quotedStep
    split <;> simp [push, emit, clear, ready]
  · intro input rest ends
    simp [step, ready, activity]

theorem exists_step_braced {depth : Nat} (inside : scan.InProperties start)
    (activity : scan.activity = .properties (.braced depth .codeOnly)) (ready : scan.skip = 0)
    (plain : character ≠ '/' ∧ character ≠ '<' ∧ character ≠ '>') :
    ∃ next : Scan, next.InProperties start ∧ next.skip ≤ following.length ∧
      ∀ input rest, EndsProperties rest →
        scan.step input character (following ++ rest) = .ok next := by
  by_cases closing : character = '}'
  · cases depth with
    | zero =>
        refine ⟨scan.closeValue .codeOnly, ?_, by simp [closeValue, ready], ?_⟩
        · exact ⟨⟨_, rfl, trivial⟩, by simp [inside.levels],
            begins_flushSolid inside.begins rfl _⟩
        · intro input rest ends
          simp [step, ready, activity, bracedStep, closing]
    | succ depth =>
        refine ⟨{ scan.push character with activity := .properties (.braced depth .codeOnly) },
          ⟨⟨_, rfl, rfl⟩, inside.levels, inside.begins⟩, by simp [push, ready], ?_⟩
        intro input rest ends
        simp [step, ready, activity, bracedStep, closing]
  · by_cases opening : character = '{'
    · refine ⟨{ scan.push character with
        activity := .properties (.braced (depth + 1) .codeOnly) },
        ⟨⟨_, rfl, rfl⟩, inside.levels, inside.begins⟩, by simp [push, ready], ?_⟩
      intro input rest ends
      simp [step, ready, activity, bracedStep, opening]
    · refine ⟨scan.push character, inside.push character, by simp [push, ready], ?_⟩
      intro input rest ends
      simp [step, ready, activity, bracedStep, closing, opening, plain]

theorem exists_step_properties (inside : scan.InProperties start)
    (within : scan.skip ≤ following.length + 1)
    (plain : character ≠ '/' ∧ character ≠ '<' ∧ character ≠ '>') :
    ∃ next : Scan, next.InProperties start ∧ next.skip ≤ following.length ∧
      ∀ input rest, EndsProperties rest →
        scan.step input character (following ++ rest) = .ok next := by
  cases ready : scan.skip with
  | succ skip =>
      refine ⟨{ scan with skip }, ⟨inside.activity, inside.levels, inside.begins⟩, ?_, ?_⟩
      · change skip ≤ following.length
        omega
      · intro input rest ends
        simp [step, ready]
  | zero =>
      rcases inside.activity with ⟨_ | _ | ⟨depth, content⟩, activity, flat⟩
      · exact exists_step_outside inside activity ready plain
      · exact exists_step_quoted inside activity ready
      · cases flat
        exact exists_step_braced inside activity ready plain

/-! ## Whole texts -/

/-- Property text is read to its end, and it is read in the same way whatever ends the tag. -/
theorem exists_run_properties {text : Text} (inside : scan.InProperties start)
    (within : scan.skip ≤ text.length)
    (plain : ∀ character ∈ text, character ≠ '/' ∧ character ≠ '<' ∧ character ≠ '>') :
    ∃ final : Scan, final.InProperties start ∧ final.skip = 0 ∧
      ∀ input rest, EndsProperties rest →
        scan.run input (text ++ rest) = final.run input rest := by
  induction text generalizing scan with
  | nil => exact ⟨scan, inside, Nat.le_zero.mp within, fun _ _ _ => rfl⟩
  | cons character text induction =>
      have parts := List.forall_mem_cons.mp plain
      rcases exists_step_properties inside within parts.1 with ⟨next, nextInside, skip, stepped⟩
      rcases @induction next.advance ⟨nextInside.activity, nextInside.levels, nextInside.begins⟩
        skip parts.2 with ⟨final, finalInside, ready, ran⟩
      refine ⟨final, finalInside, ready, fun input rest ends => ?_⟩
      rw [List.cons_append, run_cons_of_step (stepped input rest ends), ran input rest ends]

end Scan

end ElementScript
