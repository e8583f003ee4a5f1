import ElementScript.Proofs.Tree.Rules

/-! # Stages of tree building

How a builder goes on depends on its body, its stack and the number of pieces it has counted, and on
nothing else. A `Stage` is these three. `Stage.Reaches` says that tokens lead from one stage to
another; such statements are composed along the tokens, and the tree of a whole source is read off
the last stage.
-/

namespace ElementScript

structure Stage where
  body : Array Node
  /-- The open elements, innermost first. -/
  stack : List OpenElement
  /-- The number of pieces counted against the ceiling. -/
  calls : Nat

def TreeBuilder.stage (builder : TreeBuilder) : Stage :=
  { body := builder.body, stack := builder.stack, calls := builder.calls }

theorem TreeBuilder.run_append {input : TreeInput} {builder between : TreeBuilder}
    {first second : List Token} (ran : builder.run input first = .ok between) :
    builder.run input (first ++ second) = between.run input second := by
  induction first generalizing builder with
  | nil =>
      cases ran
      rfl
  | cons token tokens induction =>
      rw [run] at ran
      rw [List.cons_append, run]
      split at ran
      · cases ran
      · exact induction ran

namespace Stage

open TreeBuilder (Reads innerDepth)

/-- The stage with a finished element in the place that expects it. -/
def receive (stage : Stage) (element : Element) : Stage :=
  match stage.stack with
  | [] => { stage with body := stage.body.push (.element element) }
  | parent :: above => { stage with stack := parent.attach element :: above }

theorem receive_nil {body : Array Node} {calls : Nat} (element : Element) :
    receive { body, stack := [], calls } element =
      { body := body.push (.element element), stack := [], calls } := rfl

theorem receive_cons {body : Array Node} {parent : OpenElement} {above : List OpenElement}
    {calls : Nat} (element : Element) :
    receive { body, stack := parent :: above, calls } element =
      { body, stack := parent.attach element :: above, calls } := rfl

/-- Whether tokens lead from one stage to another. -/
def Reaches (input : TreeInput) (tokens : List Token) (before after : Stage) : Prop :=
  ∀ builder : TreeBuilder, builder.stage = before →
    ∃ next, builder.run input tokens = .ok next ∧ next.stage = after

variable {input : TreeInput} {body : Array Node} {element next : OpenElement}
  {stack outer : List OpenElement} {calls : Nat} {token : Token}

theorem Reaches.refl (stage : Stage) : Reaches input [] stage stage := by
  intro builder staged
  exact ⟨builder, rfl, staged⟩

theorem Reaches.append {first second : List Token} {before middle after : Stage}
    (reachesMiddle : Reaches input first before middle)
    (reachesAfter : Reaches input second middle after) :
    Reaches input (first ++ second) before after := by
  intro builder staged
  rcases reachesMiddle builder staged with ⟨between, ran, stagedBetween⟩
  rcases reachesAfter between stagedBetween with ⟨next, ranOn, stagedNext⟩
  exact ⟨next, (TreeBuilder.run_append ran).trans ranOn, stagedNext⟩

theorem Reaches.cons {tokens : List Token} {before middle after : Stage}
    (reachesMiddle : Reaches input [token] before middle)
    (reachesAfter : Reaches input tokens middle after) :
    Reaches input (token :: tokens) before after :=
  reachesMiddle.append reachesAfter

theorem Reaches.congr {tokens otherTokens : List Token} {before after other : Stage}
    (reaches : Reaches input tokens before after) (sameTokens : tokens = otherTokens)
    (same : after = other) : Reaches input otherTokens before other := by
  subst sameTokens same
  exact reaches

/-! ## One token -/

private theorem reaches_of_reads {before after : Stage}
    (reads : ∀ builder : TreeBuilder, builder.stage = before →
      ∃ next, Reads input builder token next ∧ next.stage = after) :
    Reaches input [token] before after := by
  intro builder staged
  rcases reads builder staged with ⟨next, read, stagedNext⟩
  refine ⟨next.advance, ?_, stagedNext⟩
  rw [TreeBuilder.run, TreeBuilder.step_eq_ok_iff.mpr read]
  rfl

theorem reaches_code (kind : token.kind = .code) (room : calls < input.ceiling) :
    Reaches input [token] { body, stack := [], calls }
      { body := body.push (.code (token.toCode 0)), stack := [], calls := calls + 1 } := by
  apply reaches_of_reads
  rintro ⟨index, calls, starts, ends, body, stack⟩ staged
  cases staged
  exact ⟨_, .code rfl kind room, rfl⟩

theorem reaches_start (kind : token.kind = .elementStart) (room : calls < input.ceiling) :
    Reaches input [token] { body, stack, calls }
      { body
        stack :=
          { name := elementName input.fragment token
            depth := innerDepth stack
            offset := token.offset } :: stack
        calls := calls + 1 } := by
  apply reaches_of_reads
  rintro ⟨index, calls, starts, ends, body, stack⟩ staged
  cases staged
  exact ⟨_, .start kind room, rfl⟩

theorem reaches_take (taken : element.Takes token next) :
    Reaches input [token] { body, stack := element :: outer, calls }
      { body, stack := next :: outer, calls } := by
  apply reaches_of_reads
  rintro ⟨index, calls, starts, ends, body, stack⟩ staged
  cases staged
  exact ⟨_, .take rfl taken, rfl⟩

theorem reaches_region (outside : element.region = none) (kind : token.kind = .fragmentStart)
    (room : calls < input.ceiling) :
    Reaches input [token] { body, stack := element :: outer, calls }
      { body, stack := element.openRegion token :: outer, calls := calls + 1 } := by
  apply reaches_of_reads
  rintro ⟨index, calls, starts, ends, body, stack⟩ staged
  cases staged
  exact ⟨_, .region rfl outside kind room, rfl⟩

theorem reaches_close (outside : element.region = none) (ends : token.Ends element.name) :
    Reaches input [token] { body, stack := element :: outer, calls }
      (receive { body, stack := outer, calls } element.settle.close) := by
  apply reaches_of_reads
  rintro ⟨index, calls, starts, ended, body, stack⟩ staged
  cases staged
  refine ⟨_, .close rfl outside ends, ?_⟩
  cases outer <;> rfl

end Stage

/-! ## Whole sources -/

/-- Tokens that leave no element open form a tree. -/
theorem Program.ofTokens_of_reaches {input : TreeInput} {tokens : List Token}
    {body : Array Node} {calls : Nat}
    (reaches : Stage.Reaches input tokens { body := #[], stack := [], calls := 0 }
      { body, stack := [], calls }) :
    Program.ofTokens input tokens = .ok { body := body.toList } := by
  rcases reaches {} rfl with ⟨builder, ran, staged⟩
  have coherent := TreeBuilder.run_coherent TreeBuilder.coherent_initial ran
  have closed : builder.stack = [] := congrArg Stage.stack staged
  have built : builder.body = body := congrArg Stage.body staged
  have balanced : builder.starts = builder.ends := by
    simpa [closed] using coherent.balanced
  rw [Program.ofTokens, ran]
  simp [TreeBuilder.finish, closed, built, balanced]

/-- The tokens of an element with a single child that is no element. -/
theorem Program.ofTokens_single {input : TreeInput} {start inner stop : Token}
    {child : Child Element} (room : 1 ≤ input.ceiling) (starts : start.kind = .elementStart)
    (kind : inner.kind.isChild) (stands : inner.child? = some child)
    (ends : stop.Ends (elementName input.fragment start)) :
    Program.ofTokens input [start, inner, stop] = .ok
      { body := [.element
          { name := elementName input.fragment start
            isComponent := isComponentName (elementName input.fragment start)
            properties := []
            children := [child]
            depth := 0
            offset := start.offset }] } := by
  let opening : OpenElement :=
    { name := elementName input.fragment start, depth := 0, offset := start.offset }
  have opens := @Stage.reaches_start input #[] [] 0 start starts room
  have taken : opening.Takes inner (opening.addChild child) := by
    have taken : opening.Takes inner _ := .child rfl kind
    rwa [OpenElement.addChild?, stands] at taken
  have takes := @Stage.reaches_take input #[] opening _ [] 1 inner taken
  have closes := @Stage.reaches_close input #[] (opening.addChild child) [] 1 stop rfl ends
  exact Program.ofTokens_of_reaches (opens.cons (takes.cons closes))

end ElementScript
