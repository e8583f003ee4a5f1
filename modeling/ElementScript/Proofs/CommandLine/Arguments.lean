import ElementScript.CommandLine.Arguments

/-! # Command lines that differ in the command

The commands take the same flags and the same path, except that only one of them can be given an
output. So in a command line without an output the name of the command can be exchanged for any
other, and an output can be added for the command that takes one
(`exists_exchange_of_readFrom`).
-/

namespace ElementScript.CommandLine

/-! ## Looking up flags -/

namespace Flag

variable {flag : Flag} {command other : CommandName}

theorem mem_all (flag : Flag) : flag ∈ all := by
  cases flag <;> decide

/-- No two flags have the same name. -/
theorem eq_of_long {first second : Flag} (same : first.long = second.long) : first = second := by
  cases first <;> cases second <;> simp_all [long]

/-- No two flags have the same letter. -/
theorem eq_of_short? {letter : Char} {first second : Flag} (one : first.short? = some letter)
    (two : second.short? = some letter) : first = second := by
  cases first <;> cases one <;> cases second <;> simp_all [short?]

/-- All flags but the output may stand after one command if they may stand after another. -/
theorem allowedAfter_of_ne (allowed : flag.allowedAfter (some command)) (different : flag ≠ .output) :
    flag.allowedAfter (some other) := by
  cases flag <;> simp_all [allowedAfter]

/-- A flag is found under what only it is called by if it may stand there. -/
theorem find?_eq_some_iff {isCalled : Flag → Prop} [DecidablePred isCalled]
    (unique : ∀ first second, isCalled first → isCalled second → first = second)
    {place : Option CommandName} :
    (all.find? fun flag => isCalled flag ∧ flag.allowedAfter place) = some flag ↔
      isCalled flag ∧ flag.allowedAfter place := by
  constructor
  · intro found
    simpa using List.find?_some found
  · intro called
    cases search : all.find? fun flag => isCalled flag ∧ flag.allowedAfter place with
    | none =>
        have missing := List.find?_eq_none.mp search flag (mem_all flag)
        exact absurd (by simpa using called) missing
    | some found =>
        have alike : isCalled found ∧ found.allowedAfter place := by
          simpa using List.find?_some search
        rw [unique found flag alike.1 called.1]

/-- What a command finds under a name, every other command finds, unless it is the output. -/
theorem find?_of_ne {isCalled : Flag → Prop} [DecidablePred isCalled]
    (unique : ∀ first second, isCalled first → isCalled second → first = second)
    (found : (all.find? fun flag => isCalled flag ∧ flag.allowedAfter (some command)) = some flag)
    (different : flag ≠ .output) (other : CommandName) :
    (all.find? fun flag => isCalled flag ∧ flag.allowedAfter (some other)) = some flag := by
  have called := (find?_eq_some_iff unique).mp found
  exact (find?_eq_some_iff unique).mpr ⟨called.1, allowedAfter_of_ne called.2 different⟩

end Flag

/-! ## Reading arguments without an output -/

namespace Settings

variable {settings next : Settings} {flag : Flag} {value text name letters : Text}
  {given : Option Text} {command : CommandName}

/-- Whether no output is set and no flag waits for one. -/
structure LacksOutput (settings : Settings) : Prop where
  unset : settings.output = none
  idle : settings.waiting ≠ some .output

/-- The settings with another output. -/
def withOutput (settings : Settings) (output : Option Text) : Settings :=
  { settings with output }

@[simp] theorem waiting_withOutput (settings : Settings) (output : Option Text) :
    (settings.withOutput output).waiting = settings.waiting := rfl

@[simp] theorem path_withOutput (settings : Settings) (output : Option Text) :
    (settings.withOutput output).path = settings.path := rfl

@[simp] theorem flagsEnded_withOutput (settings : Settings) (output : Option Text) :
    (settings.withOutput output).flagsEnded = settings.flagsEnded := rfl

/-! ### One flag -/

/-- What a flag with a value sets. Each can be set only once. -/
inductive Gives (settings : Settings) (value : Text) : Flag → Settings → Prop where
  | factory (unset : settings.factory = none) :
      Gives settings value .factory { settings with waiting := none, factory := some value }
  | fragment (unset : settings.fragment = none) :
      Gives settings value .fragment { settings with waiting := none, fragment := some value }
  | ceiling {number : Nat} (unset : settings.ceiling = none)
      (denotes : ceilingOfText? value = some number) :
      Gives settings value .ceiling { settings with waiting := none, ceiling := some number }
  | output {path : Text} (unset : settings.output = none) (isPath : pathOfText? value = some path) :
      Gives settings value .output { settings with waiting := none, output := some path }

/-- What a flag without a value sets. -/
inductive Raises (settings : Settings) : Flag → Settings → Prop where
  | strict (unset : settings.strict = false) :
      Raises settings .strict { settings with strict := true }
  | noSkipCompiled (unset : settings.noSkipCompiled = false) :
      Raises settings .noSkipCompiled { settings with noSkipCompiled := true }
  | verbose : Raises settings .verbose { settings with verbosity := settings.verbosity + 1 }

theorem exists_of_once {α : Type} {current new result : Option α}
    (set : once current new = .ok result) :
    current = none ∧ ∃ value, new = some value ∧ result = some value := by
  cases current with
  | some old => cases set
  | none =>
      cases new with
      | none => cases set
      | some value =>
          cases set
          exact ⟨rfl, value, rfl, rfl⟩

theorem exists_of_bind_once {α : Type} {current new : Option α} {set : Option α → Settings}
    (ok : (do return set (← once current new)) = (.ok next : Except Stop Settings)) :
    current = none ∧ ∃ value, new = some value ∧ next = set (some value) := by
  cases found : once current new with
  | error stop =>
      rw [found] at ok
      cases ok
  | ok result =>
      rw [found] at ok
      rcases exists_of_once found with ⟨unset, value, given, rfl⟩
      cases ok
      exact ⟨unset, value, given, rfl⟩

theorem give_eq_ok_iff : settings.give flag value = .ok next ↔ settings.Gives value flag next := by
  constructor
  · intro gave
    cases flag with
    | factory =>
        rcases exists_of_bind_once gave with ⟨unset, given, same, rfl⟩
        cases same
        exact .factory unset
    | fragment =>
        rcases exists_of_bind_once gave with ⟨unset, given, same, rfl⟩
        cases same
        exact .fragment unset
    | ceiling =>
        rcases exists_of_bind_once gave with ⟨unset, number, denotes, rfl⟩
        exact .ceiling unset denotes
    | output =>
        rcases exists_of_bind_once gave with ⟨unset, path, isPath, rfl⟩
        exact .output unset isPath
    | strict | noSkipCompiled | verbose | version | help => cases gave
  · intro gives
    cases gives with
    | factory unset =>
        simp only [give, once, unset]
        rfl
    | fragment unset =>
        simp only [give, once, unset]
        rfl
    | ceiling unset denotes =>
        simp only [give, once, unset, denotes]
        rfl
    | output unset isPath =>
        simp only [give, once, unset, isPath]
        rfl

theorem raise_eq_ok_iff : settings.raise flag = .ok next ↔ settings.Raises flag next := by
  constructor
  · intro raised
    cases flag with
    | strict =>
        cases unset : settings.strict <;> simp only [raise, unset] at raised <;> cases raised
        exact .strict unset
    | noSkipCompiled =>
        cases unset : settings.noSkipCompiled <;> simp only [raise, unset] at raised <;>
          cases raised
        exact .noSkipCompiled unset
    | verbose =>
        cases raised
        exact .verbose
    | factory | fragment | ceiling | output | version | help => cases raised
  · intro raises
    cases raises with
    | strict unset => simp [raise, unset]
    | noSkipCompiled unset => simp [raise, unset]
    | verbose => rfl

/-- Only the flag for the output sets the output, and it does so once. -/
theorem Gives.unset (gives : settings.Gives value flag next) (unset : next.output = none) :
    flag ≠ .output ∧ settings.output = none := by
  cases gives <;> simp_all

theorem Gives.withOutput (gives : settings.Gives value flag next) (other : flag ≠ .output)
    (output : Option Text) :
    (settings.withOutput output).Gives value flag (next.withOutput output) := by
  cases gives with
  | factory unset => exact .factory unset
  | fragment unset => exact .fragment unset
  | ceiling unset denotes => exact .ceiling unset denotes
  | output unset isPath => exact absurd rfl other

theorem Raises.output_eq (raises : settings.Raises flag next) :
    next.output = settings.output := by
  cases raises <;> rfl

theorem Raises.ne_output (raises : settings.Raises flag next) : flag ≠ .output := by
  cases raises <;> simp

theorem Raises.withOutput (raises : settings.Raises flag next) (output : Option Text) :
    (settings.withOutput output).Raises flag (next.withOutput output) := by
  cases raises with
  | strict unset => exact .strict unset
  | noSkipCompiled unset => exact .noSkipCompiled unset
  | verbose => exact .verbose

/-! ### One argument -/

/-- Whether settings could also be read to the next ones after any other command and with any
output. -/
structure Exchanges (read : CommandName → Settings → Except Stop Settings)
    (settings next : Settings) : Prop where
  unset : settings.output = none
  exchange (other : CommandName) (output : Option Text) :
    read other (settings.withOutput output) = .ok (next.withOutput output)

theorem exchanges_give (gave : settings.give flag value = .ok next) (unset : next.output = none) :
    flag ≠ .output ∧ Exchanges (fun _ settings => settings.give flag value) settings next := by
  have gives := give_eq_ok_iff.mp gave
  have lacks := gives.unset unset
  exact ⟨lacks.1, lacks.2, fun _ output => give_eq_ok_iff.mpr (gives.withOutput lacks.1 output)⟩

theorem exchanges_raise (raised : settings.raise flag = .ok next) (unset : next.output = none) :
    flag ≠ .output ∧ Exchanges (fun _ settings => settings.raise flag) settings next := by
  have raises := raise_eq_ok_iff.mp raised
  exact ⟨raises.ne_output, raises.output_eq ▸ unset,
    fun _ output => raise_eq_ok_iff.mpr (raises.withOutput output)⟩

theorem exchanges_wait (lacks : ({ settings with waiting := some flag } : Settings).LacksOutput) :
    flag ≠ .output ∧
      Exchanges (fun _ settings => .ok { settings with waiting := some flag }) settings
        { settings with waiting := some flag } :=
  ⟨fun same => lacks.idle (congrArg some same), lacks.unset, fun _ _ => rfl⟩

theorem exchanges_readLong (ok : settings.readLong (some command) name given = .ok next)
    (lacks : next.LacksOutput) :
    Exchanges (fun command settings => settings.readLong (some command) name given)
      settings next := by
  have unique : ∀ first second : Flag, first.long.toList = name → second.long.toList = name →
      first = second :=
    fun first second one two => Flag.eq_of_long (String.toList_injective (one.trans two.symm))
  cases found : Flag.all.find? fun flag =>
      flag.long.toList = name ∧ flag.allowedAfter (some command) with
  | none =>
      simp only [readLong, found] at ok
      cases ok
  | some flag =>
      simp only [readLong, found] at ok
      cases given with
      | some value =>
          rcases exchanges_give ok lacks.unset with ⟨different, unset, exchange⟩
          refine ⟨unset, fun other output => ?_⟩
          simp only [readLong, Flag.find?_of_ne unique found different other]
          exact exchange other output
      | none =>
          by_cases valued : flag.hasValue = true
          · simp only [valued, if_true] at ok
            cases ok
            rcases exchanges_wait lacks with ⟨different, unset, exchange⟩
            refine ⟨unset, fun other output => ?_⟩
            simp only [readLong, Flag.find?_of_ne unique found different other, valued, if_true]
            exact exchange other output
          · simp only [valued] at ok
            rcases exchanges_raise ok lacks.unset with ⟨different, unset, exchange⟩
            refine ⟨unset, fun other output => ?_⟩
            simp only [readLong, Flag.find?_of_ne unique found different other, valued]
            exact exchange other output

/-- A letter whose flag has a value takes the letters after it as the value. -/
theorem exists_readLetters_eq_give (valued : flag.hasValue = true) (letter first : Char)
    (rest : Text) : ∃ value, ∀ (settings : Settings) (place : Option CommandName),
      (Flag.all.find? fun flag => flag.short? = some letter ∧ flag.allowedAfter place) =
          some flag →
        settings.readLetters place (letter :: first :: rest) = settings.give flag value := by
  by_cases equals : first = '='
  · refine ⟨rest, fun settings place found => ?_⟩
    simp only [readLetters, found, valued, if_true, equals]
  · refine ⟨first :: rest, fun settings place found => ?_⟩
    simp only [readLetters, found, valued, if_true]
    split
    · rename_i sameList
      cases sameList
    · rename_i sameList
      exact absurd (List.cons.inj sameList).1 equals
    · rfl

theorem exchanges_readLetters (ok : settings.readLetters (some command) letters = .ok next)
    (lacks : next.LacksOutput) :
    Exchanges (fun command settings => settings.readLetters (some command) letters)
      settings next := by
  induction letters generalizing settings with
  | nil =>
      cases ok
      exact ⟨lacks.unset, fun _ _ => rfl⟩
  | cons letter rest induction =>
      cases found : Flag.all.find? fun flag =>
          flag.short? = some letter ∧ flag.allowedAfter (some command) with
      | none =>
          simp only [readLetters, found] at ok
          cases ok
      | some flag =>
          have foundAfter := Flag.find?_of_ne (fun _ _ => Flag.eq_of_short?) found
          by_cases valued : flag.hasValue = true
          · cases rest with
            | nil =>
                simp only [readLetters, found, valued, if_true] at ok
                cases ok
                rcases exchanges_wait lacks with ⟨different, unset, exchange⟩
                refine ⟨unset, fun other output => ?_⟩
                simp only [readLetters, foundAfter different other, valued, if_true]
                exact exchange other output
            | cons first others =>
                rcases exists_readLetters_eq_give valued letter first others with ⟨value, gives⟩
                rw [gives settings _ found] at ok
                rcases exchanges_give ok lacks.unset with ⟨different, unset, exchange⟩
                refine ⟨unset, fun other output => ?_⟩
                rw [gives _ _ (foundAfter different other)]
                exact exchange other output
          · simp only [readLetters, found, valued] at ok
            cases raised : settings.raise flag with
            | error stop =>
                rw [raised] at ok
                cases ok
            | ok between =>
                rw [raised] at ok
                have later := induction ok
                rcases exchanges_raise raised later.unset with ⟨different, unset, exchange⟩
                refine ⟨unset, fun other output => ?_⟩
                simp only [readLetters, foundAfter different other, valued, exchange other output]
                exact later.exchange other output

theorem exchanges_readPlain (ok : settings.readPlain text = .ok next) (lacks : next.LacksOutput) :
    settings.LacksOutput ∧ Exchanges (fun _ settings => settings.readPlain text) settings next := by
  cases waits : settings.waiting with
  | some flag =>
      simp only [readPlain, waits] at ok
      rcases exchanges_give ok lacks.unset with ⟨different, unset, exchange⟩
      refine ⟨⟨unset, by simp [waits, different]⟩, unset, fun other output => ?_⟩
      simp only [readPlain, waiting_withOutput, waits]
      exact exchange other output
  | none =>
      simp only [readPlain, waits] at ok
      rcases exists_of_bind_once ok with ⟨free, path, isPath, rfl⟩
      refine ⟨⟨lacks.unset, by simp [waits]⟩, lacks.unset, fun other output => ?_⟩
      simp only [readPlain, waiting_withOutput, path_withOutput, waits, free, isPath]
      rfl

/-- No flag is read while another waits for its value. -/
theorem waiting_of_readFlag {argument : Argument}
    (ok : settings.readFlag (some command) argument = .ok next)
    (isFlag : ∀ text, argument ≠ .plain text) : settings.waiting = none := by
  cases waits : settings.waiting with
  | none => rfl
  | some flag =>
      cases argument with
      | plain text => exact absurd rfl (isFlag text)
      | endOfFlags | long name given | letters letters => simp [readFlag, waits] at ok

theorem exchanges_readFlag {argument : Argument}
    (ok : settings.readFlag (some command) argument = .ok next) (lacks : next.LacksOutput) :
    settings.LacksOutput ∧
      Exchanges (fun command settings => settings.readFlag (some command) argument)
        settings next := by
  cases argument with
  | plain text => exact exchanges_readPlain ok lacks
  | endOfFlags =>
      have waits := waiting_of_readFlag ok (by simp)
      simp only [readFlag, waits] at ok
      cases ok
      refine ⟨⟨lacks.unset, by simp [waits]⟩, lacks.unset, fun other output => ?_⟩
      simp only [readFlag, waiting_withOutput, waits]
      rfl
  | long name given =>
      have waits := waiting_of_readFlag ok (by simp)
      simp only [readFlag, waits] at ok
      rcases exchanges_readLong ok lacks with ⟨unset, exchange⟩
      refine ⟨⟨unset, by simp [waits]⟩, unset, fun other output => ?_⟩
      simp only [readFlag, waiting_withOutput, waits]
      exact exchange other output
  | letters letters =>
      have waits := waiting_of_readFlag ok (by simp)
      simp only [readFlag, waits] at ok
      rcases exchanges_readLetters ok lacks with ⟨unset, exchange⟩
      refine ⟨⟨unset, by simp [waits]⟩, unset, fun other output => ?_⟩
      simp only [readFlag, waiting_withOutput, waits]
      exact exchange other output

/-- An argument that sets no output can be read after any other command and with any output. -/
theorem exchanges_read (ok : settings.read (some command) text = .ok next)
    (lacks : next.LacksOutput) :
    settings.LacksOutput ∧
      Exchanges (fun command settings => settings.read (some command) text) settings next := by
  cases ended : settings.flagsEnded with
  | true =>
      simp only [read, ended, if_true] at ok
      rcases exchanges_readPlain ok lacks with ⟨before, unset, exchange⟩
      refine ⟨before, unset, fun other output => ?_⟩
      simp only [read, flagsEnded_withOutput, ended, if_true]
      exact exchange other output
  | false =>
      simp only [read, ended] at ok
      rcases exchanges_readFlag ok lacks with ⟨before, unset, exchange⟩
      refine ⟨before, unset, fun other output => ?_⟩
      simp only [read, flagsEnded_withOutput, ended]
      exact exchange other output

/-! ### All arguments of a command -/

/-- Arguments that set no output can be read after any other command and with any output. -/
theorem exchanges_readAll {arguments : List Text}
    (ok : settings.readAll command arguments = .ok next) (unset : next.output = none) :
    settings.LacksOutput ∧
      Exchanges (fun command settings => settings.readAll command arguments) settings next := by
  induction arguments generalizing settings with
  | nil =>
      cases waits : settings.waiting with
      | some flag => simp [readAll, waits] at ok
      | none =>
          simp only [readAll, waits] at ok
          cases ok
          refine ⟨⟨unset, by simp [waits]⟩, unset, fun other output => ?_⟩
          simp only [readAll, waiting_withOutput, waits]
          rfl
  | cons argument rest induction =>
      cases first : settings.read (some command) argument with
      | error stop =>
          simp only [readAll, first] at ok
          cases ok
      | ok between =>
          simp only [readAll, first] at ok
          rcases induction ok with ⟨lacks, later⟩
          rcases exchanges_read first lacks with ⟨before, now⟩
          refine ⟨before, now.unset, fun other output => ?_⟩
          simp only [readAll, now.exchange other output]
          exact later.exchange other output

/-- The flag for the output sets the output of the command that takes one. -/
theorem read_output {output : Text} (nonempty : output ≠ []) :
    ({} : Settings).read (some .build) ("--output=".toList ++ output) =
      .ok (({} : Settings).withOutput (some output)) := by
  have looks : Argument.ofText ("--output=".toList ++ output) =
      .long "output".toList (some output) := rfl
  have found : (Flag.all.find? fun flag => flag.long.toList = "output".toList ∧
      flag.allowedAfter (some .build)) = some .output := by decide
  have isPath : pathOfText? output = some output := by simp [pathOfText?, nonempty]
  simp only [read, looks, readFlag, readLong, found]
  exact give_eq_ok_iff.mpr (.output rfl isPath)

end Settings

/-! ## Whole command lines -/

theorem CommandName.ofText?_name (command : CommandName) :
    CommandName.ofText? command.name.toList = some command := by
  cases command <;> decide

theorem CommandName.name_of_ofText? {text : Text} {command : CommandName}
    (named : CommandName.ofText? text = some command) : text = command.name.toList := by
  have same := List.find?_some named
  exact (of_decide_eq_true same).symm

variable {before : Settings} {argument : Text} {arguments : List Text} {invocation : Invocation}

/-- The command that an argument names, which it can do only where it is no flag's value and the
flags have not ended. -/
def namedAt (before : Settings) (argument : Text) : Option CommandName :=
  if before.waiting.isSome ∨ before.flagsEnded then none else CommandName.ofText? argument

theorem readFrom_of_named {command : CommandName} (named : namedAt before argument = some command)
    (others : List Text) :
    readFrom before (argument :: others) =
      match ({} : Settings).readAll command others with
      | .error stop => .error stop
      | .ok after => Invocation.ofSettings command before after := by
  simp only [namedAt] at named
  cases read : ({} : Settings).readAll command others with
  | error stop => simp only [readFrom, named, read]
  | ok after => simp only [readFrom, named, read]

/-- An argument that names no command and does not ask for help is read as a setting. -/
theorem exists_readFrom_of_unnamed (unnamed : namedAt before argument = none)
    (parsed : readFrom before (argument :: arguments) = .ok invocation) :
    ∃ next, ∀ others, readFrom before (argument :: others) = readFrom next others := by
  simp only [namedAt] at unnamed
  simp only [readFrom, unnamed] at parsed ⊢
  split at parsed
  · cases parsed
  · rename_i noHelp
    simp only [if_neg noHelp]
    split at parsed
    · cases parsed
    · rename_i next read
      split at parsed
      · cases parsed
      · rename_i noPath
        refine ⟨next, fun others => ?_⟩
        simp only [noPath]
        rfl

/-- Where one command can be named, so can every other. -/
theorem namedAt_name {command : CommandName} (named : namedAt before argument = some command)
    (other : CommandName) : namedAt before other.name.toList = some other := by
  unfold namedAt at named ⊢
  split at named
  · cases named
  · rename_i free
    rw [if_neg free, CommandName.ofText?_name]

theorem name_of_namedAt {command : CommandName} (named : namedAt before argument = some command) :
    argument = command.name.toList := by
  unfold namedAt at named
  split at named
  · cases named
  · exact CommandName.name_of_ofText? named

theorem ofSettings_eq_ok {command : CommandName} {after : Settings}
    (made : Invocation.ofSettings command before after = .ok invocation) :
    invocation.command = command ∧ invocation.output = after.output ∧
      ∀ other output, Invocation.ofSettings other before (after.withOutput output) =
        .ok { invocation with command := other, output } := by
  cases path : after.path with
  | none =>
      simp only [Invocation.ofSettings, path] at made
      cases made
  | some path =>
      simp only [Invocation.ofSettings, path] at made
      cases made
      refine ⟨rfl, rfl, fun other output => ?_⟩
      simp only [Invocation.ofSettings, Settings.path_withOutput, path]
      rfl

/-- The name of the command in a command line without an output can be exchanged for that of any
other command, and an output can be added for the command that takes one. -/
theorem exists_exchange_of_readFrom (parsed : readFrom before arguments = .ok invocation)
    (unset : invocation.output = none) :
    ∃ left right, arguments = left ++ invocation.command.name.toList :: right ∧
      (∀ command : CommandName, readFrom before (left ++ command.name.toList :: right) =
        .ok { invocation with command }) ∧
      ∀ output ≠ [], readFrom before
          (left ++ CommandName.build.name.toList :: ("--output=".toList ++ output) :: right) =
        .ok { invocation with command := .build, output := some output } := by
  -- Induction on the arguments: those before the command's name are read alike in all three.
  induction arguments generalizing before with
  | nil => cases parsed
  | cons argument rest induction =>
      cases named : namedAt before argument with
      | none =>
          rcases exists_readFrom_of_unnamed named parsed with ⟨next, reads⟩
          rw [reads] at parsed
          rcases induction parsed with ⟨left, right, rfl, exchanged, written⟩
          refine ⟨argument :: left, right, rfl, fun command => ?_, fun output nonempty => ?_⟩
          · exact (reads _).trans (exchanged command)
          · exact (reads _).trans (written output nonempty)
      | some command =>
          rw [readFrom_of_named named] at parsed
          split at parsed
          · cases parsed
          · rename_i after read
            rcases ofSettings_eq_ok parsed with ⟨same, outputs, remake⟩
            have nowhere : after.output = none := outputs ▸ unset
            have exchange := (Settings.exchanges_readAll read nowhere).2.exchange
            refine ⟨[], rest, by simp [same, name_of_namedAt named], fun other => ?_,
              fun output nonempty => ?_⟩
            · have readOther : ({} : Settings).readAll other rest = .ok (after.withOutput none) :=
                exchange other none
              simp only [List.nil_append, readFrom_of_named (namedAt_name named other), readOther,
                remake, unset]
            · have readOutput : (({} : Settings).withOutput (some output)).readAll .build rest =
                  .ok (after.withOutput (some output)) := exchange .build (some output)
              simp only [List.nil_append, readFrom_of_named (namedAt_name named .build),
                Settings.readAll, Settings.read_output nonempty, readOutput, remake]

end ElementScript.CommandLine
