import Mathlib.Data.List.Infix
import ElementScript.Text.Basic

/-! # Patterns and the ways to take them

A pattern says what may be taken from the start of a text: a fixed text, a run of characters of a
class, one of two alternatives, or one pattern and then another. Where a text can be read in more
than one way, the ways have an order. The first alternative is preferred to the second, a longer run
to a shorter one, and what is decided earlier counts more. A search goes to the leftmost place where
there is a way at all, and takes the first way there (`Pattern.captured?`).

Which texts a pattern takes does not depend on the order (`Pattern.mem_ways_iff`), and so the place
that a search finds does not either.
-/

namespace ElementScript

inductive Pattern where
  | exactly (text : Text)
  | run (accepts : Char → Bool)
  | either (preferred other : Pattern)
  | sequence (front back : Pattern)

namespace Pattern

/-- A text that is taken apart: what is taken from its start, and the rest. -/
structure Way where
  taken : Text
  rest : Text

/-- The ways to take a run from the start of a text, the longest first. -/
def runs (accepts : Char → Bool) : Text → List Way
  | [] => []
  | first :: rest =>
      if accepts first then
        (runs accepts rest).map (fun way => ⟨first :: way.taken, way.rest⟩) ++ [⟨[first], rest⟩]
      else []

/-- The ways to take a pattern from the start of a text, the preferred ones first. -/
def ways : Pattern → Text → List Way
  | exactly text, source => (Text.after? text source).toList.map fun rest => ⟨text, rest⟩
  | run accepts, source => runs accepts source
  | either preferred other, source => preferred.ways source ++ other.ways source
  | sequence front back, source =>
      (front.ways source).flatMap fun first =>
        (back.ways first.rest).map fun second => ⟨first.taken ++ second.taken, second.rest⟩

example : (run Char.isDigit).ways ['1', '2', 'a'] =
    [⟨['1', '2'], ['a']⟩, ⟨['1'], ['2', 'a']⟩] := rfl

/-- Whether a pattern takes a text as a whole. -/
def Takes : Pattern → Text → Prop
  | exactly text, taken => taken = text
  | run accepts, taken => taken ≠ [] ∧ ∀ character ∈ taken, accepts character
  | either preferred other, taken => preferred.Takes taken ∨ other.Takes taken
  | sequence front back, taken =>
      ∃ first second, taken = first ++ second ∧ front.Takes first ∧ back.Takes second

/-- Whether a text goes on with a character outside of a class, or is at its end. -/
def Stops (accepts : Char → Bool) (text : Text) : Prop :=
  ∀ next ∈ text.head?, accepts next = false

/-- What is found behind a pattern, for one way to take it after the other. -/
def behind (pattern : Pattern) (next : Text → List Way) (source : Text) : List Way :=
  (pattern.ways source).flatMap fun way => next way.rest

/-- What the marked part takes, where it stands behind another part at the start of a text. -/
def capturedAt? (front marked : Pattern) (source : Text) : Option Text :=
  (front.behind marked.ways source).head?.map Way.taken

/-- What the marked part takes at the leftmost place where it stands behind another part. -/
def captured? (front marked : Pattern) (source : Text) : Option Text :=
  source.tails.findSome? (capturedAt? front marked)

/-! ## Which texts are taken -/

section Ways

variable {pattern front marked : Pattern} {accepts : Char → Bool} {source : Text} {way : Way}

/-- A run is its first character alone, or it goes on with a run of the others. -/
theorem mem_runs_cons {taken rest others : Text} {first : Char} :
    ⟨taken, rest⟩ ∈ runs accepts (first :: others) ↔
      accepts first ∧ ((∃ more, taken = first :: more ∧ ⟨more, rest⟩ ∈ runs accepts others) ∨
        taken = [first] ∧ rest = others) := by
  by_cases accepted : accepts first
  · simp only [runs, accepted, if_true, true_and, List.mem_append, List.mem_map,
      List.mem_singleton, Way.mk.injEq]
    constructor
    · intro either
      rcases either with ⟨⟨more, others⟩, member, rfl, rfl⟩ | alone
      · exact Or.inl ⟨more, rfl, member⟩
      · exact Or.inr alone
    · intro either
      rcases either with ⟨more, rfl, member⟩ | alone
      · exact Or.inl ⟨⟨more, rest⟩, member, rfl, rfl⟩
      · exact Or.inr alone
  · simp [runs, accepted]

theorem mem_runs_iff :
    way ∈ runs accepts source ↔
      source = way.taken ++ way.rest ∧ way.taken ≠ [] ∧
        ∀ character ∈ way.taken, accepts character := by
  rcases way with ⟨taken, rest⟩
  induction source generalizing taken with
  | nil =>
      constructor
      · intro member
        cases member
      · intro parts
        rcases parts with ⟨split, nonempty, -⟩
        exact absurd (List.append_eq_nil_iff.mp split.symm).1 nonempty
  | cons first others induction =>
      rw [mem_runs_cons]
      constructor
      · intro parts
        rcases parts with ⟨accepted, ⟨more, rfl, member⟩ | ⟨rfl, rfl⟩⟩
        · rcases (induction more).mp member with ⟨equal, -, all⟩
          exact ⟨congrArg (first :: ·) equal, by simp, List.forall_mem_cons.mpr ⟨accepted, all⟩⟩
        · exact ⟨rfl, by simp, by simpa using accepted⟩
      · intro parts
        rcases parts with ⟨equal, nonempty, all⟩
        cases taken with
        | nil => exact absurd rfl nonempty
        | cons character more =>
            rcases List.cons.inj equal with ⟨rfl, rfl⟩
            rcases List.forall_mem_cons.mp all with ⟨accepted, others⟩
            refine ⟨accepted, ?_⟩
            cases more with
            | nil => exact Or.inr ⟨rfl, rfl⟩
            | cons second more =>
                exact Or.inl ⟨second :: more, rfl, (induction _).mpr ⟨rfl, by simp, others⟩⟩

/-- The first run is the longest one. -/
theorem head?_runs :
    (runs accepts source).head? =
      if source.takeWhile accepts = [] then none
      else some ⟨source.takeWhile accepts, source.dropWhile accepts⟩ := by
  induction source with
  | nil => rfl
  | cons first others induction =>
      by_cases accepted : accepts first
      · rw [runs, if_pos accepted, List.head?_append, List.head?_map, induction]
        by_cases alone : others.takeWhile accepts = []
        · have stays : others.dropWhile accepts = others := by
            simpa [alone] using List.takeWhile_append_dropWhile (p := accepts) (l := others)
          simp [accepted, alone, stays]
        · simp [accepted, alone]
      · simp [runs, accepted]

theorem stops_dropWhile (text : Text) : Stops accepts (text.dropWhile accepts) := by
  intro next member
  have stopped := List.head?_dropWhile_not accepts text
  rw [Option.mem_def.mp member] at stopped
  simpa using stopped

/-- The ways to take a pattern from a text are the splits of the text whose first part the pattern
takes. -/
theorem mem_ways_iff :
    way ∈ pattern.ways source ↔ source = way.taken ++ way.rest ∧ pattern.Takes way.taken := by
  induction pattern generalizing source way with
  | exactly text =>
      simp only [ways, Takes, List.mem_map, Option.mem_toList, Text.after?_eq_some_iff]
      constructor
      · intro found
        rcases found with ⟨rest, rfl, rfl⟩
        exact ⟨rfl, rfl⟩
      · intro parts
        rcases parts with ⟨rfl, rfl⟩
        exact ⟨way.rest, rfl, rfl⟩
  | run accepts => exact mem_runs_iff
  | either preferred other preferredInduction otherInduction =>
      simp only [ways, Takes, List.mem_append, preferredInduction, otherInduction, and_or_left]
  | sequence front back frontInduction backInduction =>
      simp only [ways, Takes, List.mem_flatMap, List.mem_map, frontInduction, backInduction]
      constructor
      · intro found
        rcases found with ⟨⟨first, between⟩, ⟨rfl, taken⟩, ⟨second, rest⟩, ⟨rfl, takenBehind⟩, rfl⟩
        exact ⟨(List.append_assoc _ _ _).symm, first, second, rfl, taken, takenBehind⟩
      · intro parts
        rcases parts with ⟨split, first, second, parts, taken, takenBehind⟩
        refine ⟨⟨first, second ++ way.rest⟩, ⟨?_, taken⟩, ⟨second, way.rest⟩, ⟨rfl, takenBehind⟩,
          ?_⟩
        · rw [split, parts, List.append_assoc]
        · rw [← parts]

theorem mem_behind_iff :
    way ∈ front.behind marked.ways source ↔
      ∃ first, source = first ++ (way.taken ++ way.rest) ∧ front.Takes first ∧
        marked.Takes way.taken := by
  simp only [behind, List.mem_flatMap, mem_ways_iff]
  constructor
  · intro found
    rcases found with ⟨⟨first, between⟩, ⟨rfl, taken⟩, rfl, takenBehind⟩
    exact ⟨first, rfl, taken, takenBehind⟩
  · intro parts
    rcases parts with ⟨first, rfl, taken, takenBehind⟩
    exact ⟨⟨first, way.taken ++ way.rest⟩, ⟨rfl, taken⟩, rfl, takenBehind⟩

theorem capturedAt?_eq_none_iff :
    capturedAt? front marked source = none ↔
      ∀ first taken rest, source = first ++ (taken ++ rest) → front.Takes first →
        ¬ marked.Takes taken := by
  rw [capturedAt?, Option.map_eq_none_iff, List.head?_eq_none_iff, List.eq_nil_iff_forall_not_mem]
  constructor
  · intro none first taken rest split takes takesBehind
    exact none ⟨taken, rest⟩ (mem_behind_iff.mpr ⟨first, split, takes, takesBehind⟩)
  · intro none way member
    rcases mem_behind_iff.mp member with ⟨first, split, takes, takesBehind⟩
    exact none first way.taken way.rest split takes takesBehind

/-- A run that is captured goes as far as it can. -/
theorem exists_of_capturedAt?_run {taken : Text}
    (captured : capturedAt? front (.run accepts) source = some taken) :
    ∃ first rest, source = first ++ (taken ++ rest) ∧ front.Takes first ∧
      (run accepts).Takes taken ∧ Stops accepts rest := by
  rcases Option.map_eq_some_iff.mp captured with ⟨way, found, rfl⟩
  rw [behind, List.head?_flatMap] at found
  rcases List.exists_of_findSome?_eq_some found with ⟨before, member, first⟩
  rcases mem_ways_iff.mp member with ⟨split, takes⟩
  rw [ways, head?_runs] at first
  split at first
  · cases first
  · rename_i nonempty
    cases first
    refine ⟨before.taken, before.rest.dropWhile accepts, ?_, takes, ⟨nonempty, ?_⟩, ?_⟩
    · rw [List.takeWhile_append_dropWhile, split]
    · exact List.all_eq_true.mp List.all_takeWhile
    · exact stops_dropWhile before.rest

end Ways

/-! ## Where a run ends -/

section Stopping

variable {accepts : Char → Bool} {text one other oneRest otherRest : Text}

theorem stops_append (nonempty : text ≠ [])
    (outside : ∀ character ∈ text, accepts character = false) (rest : Text) :
    Stops accepts (text ++ rest) := by
  cases text with
  | nil => exact absurd rfl nonempty
  | cons first others =>
      intro next member
      cases member
      exact outside first List.mem_cons_self

/-- A run is found again in front of what stops it. -/
theorem takeWhile_append_of_stops (inside : ∀ character ∈ one, accepts character)
    (stops : Stops accepts oneRest) : (one ++ oneRest).takeWhile accepts = one := by
  rw [List.takeWhile_append_of_pos inside]
  cases oneRest with
  | nil => simp
  | cons next others => simp [stops next rfl]

/-- A text is split in one way only where a run ends. -/
theorem eq_of_append_eq (inside : ∀ character ∈ one, accepts character)
    (stops : Stops accepts oneRest) (otherInside : ∀ character ∈ other, accepts character)
    (otherStops : Stops accepts otherRest) (equal : one ++ oneRest = other ++ otherRest) :
    one = other ∧ oneRest = otherRest := by
  have same : one = other := by
    rw [← takeWhile_append_of_stops inside stops, equal,
      takeWhile_append_of_stops otherInside otherStops]
  subst same
  exact ⟨rfl, List.append_cancel_left equal⟩

end Stopping

/-! ## What comes behind a pattern -/

section Behind

variable {next : Text → List Way} {source : Text}

theorem behind_exactly (text : Text) :
    (exactly text).behind next source = (Text.after? text source).toList.flatMap next := by
  rw [behind, ways, List.flatMap_map]

theorem behind_either (preferred other : Pattern) :
    (either preferred other).behind next source =
      preferred.behind next source ++ other.behind next source :=
  List.flatMap_append

theorem behind_sequence (front back : Pattern) :
    (sequence front back).behind next = front.behind (back.behind next) := by
  funext source
  simp only [behind, ways, List.flatMap_assoc, List.flatMap_map]

/-- Where nothing can come behind a run that stops early, the whole run is taken. -/
theorem behind_run {accepts : Char → Bool}
    (stuck : ∀ {first}, accepts first → ∀ rest, next (first :: rest) = []) :
    (run accepts).behind next source =
      if source.takeWhile accepts = [] then [] else next (source.dropWhile accepts) := by
  rw [behind, ways]
  induction source with
  | nil => rfl
  | cons first others induction =>
      by_cases accepted : accepts first
      · rw [runs, if_pos accepted, List.flatMap_append, List.flatMap_map, induction]
        cases others with
        | nil => simp [accepted]
        | cons second others =>
            by_cases goesOn : accepts second
            · simp [accepted, goesOn, stuck goesOn others]
            · simp [accepted, goesOn]
      · simp [runs, accepted]

theorem head?_flatMap_toList {α β : Type} (found : Option α) (more : α → List β) :
    (found.toList.flatMap more).head? = found.bind fun value => (more value).head? := by
  cases found <;> simp

end Behind

/-! ## The leftmost place -/

section Search

variable {α : Type} {here : Text → Option α} {source : Text}

theorem findSome?_tails_eq_none_iff :
    source.tails.findSome? here = none ↔ ∀ position, here (source.drop position) = none := by
  rw [List.findSome?_eq_none_iff]
  constructor
  · intro none position
    exact none _ ((List.mem_tails _ _).mpr (List.drop_suffix position source))
  · intro none text member
    rcases (List.mem_tails _ _).mp member with ⟨before, rfl⟩
    simpa using none before.length

theorem findSome?_tails_eq_some_iff {found : α} :
    source.tails.findSome? here = some found ↔
      ∃ position, here (source.drop position) = some found ∧
        ∀ earlier < position, here (source.drop earlier) = none := by
  induction source with
  | nil =>
      constructor
      · intro found
        exact ⟨0, by simpa using found, by simp⟩
      · intro found
        rcases found with ⟨position, found, -⟩
        simpa using found
  | cons first others induction =>
      rw [List.tails_cons, List.findSome?_cons]
      cases at_start : here (first :: others) with
      | some value =>
          constructor
          · intro same
            cases same
            exact ⟨0, at_start, by simp⟩
          · intro leftmost
            rcases leftmost with ⟨_ | position, at_position, none⟩
            · rw [List.drop_zero, at_start] at at_position
              exact at_position
            · have absent := none 0 (Nat.succ_pos position)
              rw [List.drop_zero, at_start] at absent
              cases absent
      | none =>
          change others.tails.findSome? here = some found ↔ _
          rw [induction]
          constructor
          · intro leftmost
            rcases leftmost with ⟨position, at_position, none⟩
            refine ⟨position + 1, at_position, ?_⟩
            intro earlier below
            cases earlier with
            | zero => exact at_start
            | succ earlier => exact none earlier (Nat.lt_of_succ_lt_succ below)
          · intro leftmost
            rcases leftmost with ⟨_ | position, at_position, none⟩
            · rw [List.drop_zero, at_start] at at_position
              cases at_position
            · exact ⟨position, at_position, fun earlier below =>
                none (earlier + 1) (Nat.succ_lt_succ below)⟩

end Search

end Pattern

end ElementScript
