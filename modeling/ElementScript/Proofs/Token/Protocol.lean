import ElementScript.Proofs.Tree.Rules

/-! # The order in which tokens come from a source

`Protocol` is a machine over kinds of tokens. It remembers of every open element whether a braced
region that holds elements is open in it. It asks less than the grammar of trees: names are not
compared, a value may stand where no property waits for one, and an element may end inside its own
region. Its sequences are the ones that a scan cuts, so what they cannot do, no source can.

Elements never end more often than they start (`countP_elementEnd_le`), code stands only where all
have ended (`countP_eq_of_code`), and of the reasons why tokens do not form a tree only a few are
left (`Program.ofTokens_of_protocol`).
-/

namespace ElementScript

namespace Protocol

/-- The open elements after a token of this kind, innermost first: whether each has an open
region. -/
def next : List Bool → Token.Kind → Option (List Bool)
  | places, .elementStart => some (false :: places)
  | [], .code => some []
  | _ :: outer, .elementEnd => some outer
  | false :: outer, .fragmentStart => some (true :: outer)
  | true :: outer, .fragmentEnd => some (false :: outer)
  | place :: outer, .propertyValue => some (place :: outer)
  | place :: outer, .childCode => some (place :: outer)
  | false :: outer, .propertyName => some (false :: outer)
  | false :: outer, .childText => some (false :: outer)
  | false :: outer, .childWhitespace => some (false :: outer)
  | _, _ => none

/-- The open elements after a sequence of tokens. -/
def run (places : List Bool) : List Token → Option (List Bool)
  | [] => some places
  | token :: tokens =>
      match next places token.kind with
      | none => none
      | some reached => run reached tokens

theorem run_append (places : List Bool) (first second : List Token) :
    run places (first ++ second) = (run places first).bind fun reached => run reached second := by
  induction first generalizing places with
  | nil => rfl
  | cons token tokens induction =>
      rw [List.cons_append, run, run]
      cases next places token.kind with
      | none => rfl
      | some reached => exact induction reached

theorem run_cons_eq_some_iff {places reached : List Bool} {token : Token} {tokens : List Token} :
    run places (token :: tokens) = some reached ↔
      ∃ middle, next places token.kind = some middle ∧ run middle tokens = some reached := by
  rw [run]
  cases next places token.kind <;> simp

/-! ## Counting starts and ends -/

/-- The number of open elements is the number of starts less the number of ends. -/
theorem next_length {places reached : List Bool} {token : Token}
    (moved : next places token.kind = some reached) :
    reached.length + [token].countP (·.kind = .elementEnd) =
      places.length + [token].countP (·.kind = .elementStart) := by
  cases kind : token.kind <;> rcases places with _ | ⟨_ | _, outer⟩ <;>
    simp_all [next] <;> subst moved <;> rfl

theorem run_length {places reached : List Bool} {tokens : List Token}
    (ran : run places tokens = some reached) :
    reached.length + tokens.countP (·.kind = .elementEnd) =
      places.length + tokens.countP (·.kind = .elementStart) := by
  induction tokens generalizing places with
  | nil =>
      cases ran
      rfl
  | cons token tokens induction =>
      rcases run_cons_eq_some_iff.mp ran with ⟨middle, moved, ran⟩
      have first := next_length moved
      have others := induction ran
      rw [← List.singleton_append, List.countP_append, List.countP_append]
      omega

theorem exists_run_of_append {places reached : List Bool} {before after : List Token}
    (ran : run places (before ++ after) = some reached) :
    ∃ middle, run places before = some middle ∧ run middle after = some reached := by
  rw [run_append] at ran
  exact Option.bind_eq_some_iff.mp ran

/-- Elements never end more often than they have started. -/
theorem countP_elementEnd_le {reached : List Bool} {before after : List Token}
    (ran : run [] (before ++ after) = some reached) :
    before.countP (·.kind = .elementEnd) ≤ before.countP (·.kind = .elementStart) := by
  rcases exists_run_of_append ran with ⟨middle, ran, -⟩
  have counted := run_length ran
  rw [List.length_nil] at counted
  omega

/-- Code stands only where all elements have ended. -/
theorem countP_eq_of_code {reached : List Bool} {before after : List Token} {token : Token}
    (ran : run [] (before ++ token :: after) = some reached) (code : token.kind = .code) :
    before.countP (·.kind = .elementStart) = before.countP (·.kind = .elementEnd) := by
  rcases exists_run_of_append ran with ⟨middle, ran, rest⟩
  rcases run_cons_eq_some_iff.mp rest with ⟨others, moved, -⟩
  have outside : middle = [] := by
    rw [code] at moved
    cases middle with
    | nil => rfl
    | cons place outer => cases place <;> cases moved
  have counted := run_length ran
  rw [outside, List.length_nil] at counted
  omega

end Protocol

/-! ## Building a tree -/

/-- The errors that are left when tokens follow the protocol and the ceiling is out of reach. -/
inductive TreeError.IsOfProtocol : TreeError → Prop where
  | mismatchedClosingTag (expected found : Text) (index : Nat) (location : Location) :
      IsOfProtocol (.mismatchedClosingTag expected found index location)
  | unexpectedValue (index : Nat) (location : Location) :
      IsOfProtocol (.unexpectedToken .propertyValue index location)
  | elementEndInRegion (index : Nat) (location : Location) :
      IsOfProtocol (.unexpectedRegionToken .elementEnd index location)
  | unterminatedRegion (location : Location) : IsOfProtocol (.unterminatedRegion location)
  | unbalancedElements (starts ends : Nat) : IsOfProtocol (.unbalancedElements starts ends)

theorem OpenElement.Takes.places {token : Token} {element changed : OpenElement}
    {outer reached : List Bool} (taken : element.Takes token changed)
    (moved : Protocol.next (element.region.isSome :: outer) token.kind = some reached) :
    changed.region.isSome :: outer = reached := by
  cases taken with
  | name outside kind =>
      simp_all [Protocol.next]
  | value outside waiting kind =>
      cases shape : token.kind <;>
        simp_all [Protocol.next, Token.Kind.isValue, OpenElement.addProperty]
  | child outside kind =>
      cases shape : token.kind <;> simp_all [Protocol.next, Token.Kind.isChild]
  | part inside kind =>
      cases shape : token.kind <;> simp_all [Protocol.next, Token.Kind.isPart]
  | regionEnd inside kind => simp_all [Protocol.next]

namespace TreeBuilder

variable {input : TreeInput} {builder next : TreeBuilder} {token : Token} {error : TreeError}
  {reached : List Bool}

/-- The open elements as the protocol sees them. -/
def places (builder : TreeBuilder) : List Bool :=
  builder.stack.map (·.region.isSome)

/-- Tree building keeps step with the protocol as long as it succeeds. -/
theorem Reads.places (reads : Reads input builder token next)
    (moved : Protocol.next builder.places token.kind = some reached) : next.places = reached := by
  unfold TreeBuilder.places at *
  cases reads with
  | code outside kind room =>
      simp only [outside, kind, List.map_nil, Protocol.next] at moved ⊢
      exact Option.some.inj moved
  | start kind room =>
      simp only [kind, Protocol.next] at moved ⊢
      exact Option.some.inj moved
  | region stack outside kind room =>
      simp only [stack, outside, kind, List.map_cons, Option.isSome_none, Protocol.next] at moved
      exact Option.some.inj moved
  | @close element outer stack outside ends =>
      simp only [stack, ends.1, List.map_cons, Protocol.next] at moved
      have same : (builder.closeInnermost element outer).stack.map (·.region.isSome) =
          outer.map (·.region.isSome) := by
        cases outer <;> simp [closeInnermost]
      exact same.trans (Option.some.inj moved)
  | take stack taken =>
      rw [stack, List.map_cons] at moved
      exact taken.places moved

/-- A token that follows the protocol is rejected for one of a few reasons. -/
theorem Rejects.isOfProtocol (rejects : Rejects input builder token error)
    (room : builder.calls < input.ceiling)
    (moved : Protocol.next builder.places token.kind = some reached) : error.IsOfProtocol := by
  unfold TreeBuilder.places at moved
  cases rejects with
  | full counts full => omega
  | outside outside kind =>
      rw [outside] at moved
      cases shape : token.kind <;> simp_all [Protocol.next]
  | element stack outside kind =>
      simp only [stack, outside, List.map_cons, Option.isSome_none] at moved
      rcases kind with kind | ⟨idle, kind⟩
      · simp [kind, Protocol.next] at moved
      · cases shape : token.kind <;> simp_all [Protocol.next, Token.Kind.isValue]
        exact .unexpectedValue _ _
  | region stack inside kind =>
      simp only [stack, inside, List.map_cons, Option.isSome_some] at moved
      cases shape : token.kind <;> simp_all [Protocol.next, Token.Kind.isPart]
      exact .elementEndInRegion _ _
  | mismatch stack outside kind differs => exact .mismatchedClosingTag _ _ _ _

theorem Reads.calls_le_succ (reads : Reads input builder token next) :
    next.calls ≤ builder.calls + 1 := by
  cases reads with
  | @close element outer stack outside ends => cases outer <;> exact Nat.le_succ _
  | _ => simp

/-- A builder that reads tokens of the protocol fails for one of a few reasons or not at all. -/
theorem error_of_run {tokens : List Token} (room : builder.calls + tokens.length ≤ input.ceiling)
    (moved : Protocol.run builder.places tokens = some reached)
    (failed : builder.run input tokens = .error error) : error.IsOfProtocol := by
  induction tokens generalizing builder with
  | nil => cases failed
  | cons token tokens induction =>
      rcases Protocol.run_cons_eq_some_iff.mp moved with ⟨middle, first, others⟩
      rw [List.length_cons] at room
      rw [run] at failed
      split at failed
      · rename_i reason stepped
        cases failed
        exact (step_eq_error_iff.mp stepped).isOfProtocol (by omega) first
      · rename_i following stepped
        have reads := step_eq_ok_iff.mp stepped
        have counted := reads.calls_le_succ
        refine induction ?_ ?_ failed
        · change following.calls + tokens.length ≤ input.ceiling
          omega
        · change Protocol.run following.places tokens = some reached
          rw [reads.places first]
          exact others

theorem error_of_finish (failed : builder.finish input = .error error) : error.IsOfProtocol := by
  unfold finish at failed
  split at failed
  · cases failed
    exact .unterminatedRegion _
  · split at failed
    · cases failed
      exact .unbalancedElements _ _
    · cases failed

end TreeBuilder

/-- A sequence of the protocol forms a tree or fails to for one of a few reasons. -/
theorem Program.ofTokens_of_protocol {input : TreeInput} {tokens : List Token}
    {reached : List Bool} (moved : Protocol.run [] tokens = some reached)
    (room : tokens.length ≤ input.ceiling) :
    (∃ program, Program.ofTokens input tokens = .ok program) ∨
      ∃ error, Program.ofTokens input tokens = .error error ∧ error.IsOfProtocol := by
  unfold Program.ofTokens
  cases ran : ({} : TreeBuilder).run input tokens with
  | error error =>
      have start : ({} : TreeBuilder).calls + tokens.length ≤ input.ceiling := by simpa using room
      exact Or.inr ⟨error, rfl, TreeBuilder.error_of_run start moved ran⟩
  | ok final =>
      cases finished : final.finish input with
      | error error => exact Or.inr ⟨error, finished, TreeBuilder.error_of_finish finished⟩
      | ok program => exact Or.inl ⟨program, finished⟩

end ElementScript
