import ElementScript.CommandLine.Arguments

/-!
What a run depends on besides its arguments and the files: the clock, what the environment asks of
the log, and texts that are laid out elsewhere.

The log goes to the error output, ahead of what the command itself says there. Each of its lines
starts with the time at which it is written, so no two runs need to have the same log.
-/

namespace ElementScript.CommandLine

/-- What the log shows, if it shows anything. -/
inductive LogFilter where
  | debug
  | trace
  /-- What the environment asks for. -/
  | directives (text : String)
deriving DecidableEq, Repr

/-- The lines that the log shows of the program's work, each without the time that it starts with.
What there is to show of a stage depends on nothing but the options and the source. -/
structure Log where
  ofOptions : LogFilter → Options → List String := fun _ _ => []
  ofCompile : LogFilter → Options → Text → List String := fun _ _ _ => []
  ofTokens : LogFilter → Options → Text → List String := fun _ _ _ => []
  ofParse : LogFilter → Options → Text → List String := fun _ _ _ => []

structure Surroundings where
  log : Log := {}
  /-- What the environment asks the log to show, if it asks for anything that can be read. -/
  directives : Option String := none
  /-- How the lines of the log start, one after the other. -/
  clock : Nat → String := fun _ => ""
  /-- What is said of a command line that breaks the grammar. -/
  usage : List Text → String := fun _ => ""
  /-- What a command line that asks for help is answered. -/
  help : List Text → String := fun _ => ""

/-- What the log shows. Without flags and without a word from the environment that is warnings, of
which there are none. -/
def Surroundings.filter? (surroundings : Surroundings) (verbosity : Nat) : Option LogFilter :=
  match verbosity with
  | 0 => surroundings.directives.map .directives
  | 1 => some .debug
  | _ => some .trace

/-- What a command has the log show. Both commands that make a script compile the source in the same
way. -/
def Log.ofCommand (log : Log) (filter : LogFilter) (options : Options) (source : Text) :
    CommandName → List String
  | .build | .check => log.ofCompile filter options source
  | .tokens => log.ofTokens filter options source
  | .tree => log.ofParse filter options source

/-- What the log shows of a command and of its source, which it may not have been able to read. -/
def Surroundings.lines (surroundings : Surroundings) (invocation : Invocation)
    (source : Option Text) : List String :=
  match surroundings.filter? invocation.verbosity with
  | none => []
  | some filter =>
      surroundings.log.ofOptions filter invocation.options ++
        match source with
        | none => []
        | some source =>
            surroundings.log.ofCommand filter invocation.options source invocation.command

/-- Lines, each after the time at which it is written. -/
def stamped (clock : Nat → String) : List String → String
  | [] => ""
  | line :: lines => clock 0 ++ line ++ stamped (fun index => clock (index + 1)) lines

end ElementScript.CommandLine
