import ElementScript.Options

/-!
The grammar of the command line.

A command line is a sequence of global flags, the name of a command, and the command's own arguments
among further global flags. A global flag may stand once before the command and once after it, and
the later one wins. Only the verbosity flag may be repeated.

A value follows its flag as the next argument or after an equals sign; after a one-letter flag it may
also follow directly. An argument that looks like a flag is never taken as the value of another. Two
hyphens end the flags.
-/

namespace ElementScript.CommandLine

/-! ## Flags and commands -/

inductive Flag where
  | factory
  | fragment
  | ceiling
  | strict
  | noSkipCompiled
  | verbose
  | output
  | version
  | help
deriving DecidableEq, Repr

inductive CommandName where
  | build
  | check
  | tokens
  | tree
deriving DecidableEq, Repr

namespace Flag

def all : List Flag :=
  [.factory, .fragment, .ceiling, .strict, .noSkipCompiled, .verbose, .output, .version, .help]

def long : Flag → String
  | .factory => "factory"
  | .fragment => "fragment"
  | .ceiling => "max-recursion-calls"
  | .strict => "use-strict"
  | .noSkipCompiled => "no-skip-compiled"
  | .verbose => "verbose"
  | .output => "output"
  | .version => "version"
  | .help => "help"

def short? : Flag → Option Char
  | .verbose => some 'v'
  | .output => some 'o'
  | .version => some 'V'
  | .help => some 'h'
  | _ => none

def hasValue : Flag → Bool
  | .factory | .fragment | .ceiling | .output => true
  | .strict | .noSkipCompiled | .verbose | .version | .help => false

/-- Whether a flag may stand after a command, or before one if there is none yet. The output belongs
to a single command and the version to none. -/
def allowedAfter (flag : Flag) (command : Option CommandName) : Bool :=
  match flag with
  | .output => command = some .build
  | .version => command = none
  | _ => true

end Flag

namespace CommandName

def all : List CommandName := [.build, .check, .tokens, .tree]

def name : CommandName → String
  | .build => "build"
  | .check => "check"
  | .tokens => "tokens"
  | .tree => "ast"

end CommandName

/-- Why a command line asks for no command. -/
inductive Stop where
  /-- The command line breaks the grammar. -/
  | usage
  | version
  | help
deriving DecidableEq, Repr

/-- What a command is asked to do. -/
structure Invocation where
  command : CommandName
  path : Text
  output : Option Text
  options : Options
  verbosity : Nat
deriving DecidableEq, Repr

/-! ## One argument -/

inductive Argument where
  /-- The two hyphens that end the flags. -/
  | endOfFlags
  | long (name : Text) (value : Option Text)
  /-- Letters of one-letter flags, the last of which may be followed by its value. -/
  | letters (letters : Text)
  | plain (text : Text)
deriving DecidableEq, Repr

/-- What an argument looks like. A lone hyphen is plain. -/
def Argument.ofText : Text → Argument
  | ['-', '-'] => .endOfFlags
  | '-' :: '-' :: rest =>
      let name := rest.takeWhile (· ≠ '=')
      match rest.drop name.length with
      | [] => .long name none
      | _ :: value => .long name (some value)
  | '-' :: letter :: rest => .letters (letter :: rest)
  | text => .plain text

/-- The ceiling that a text denotes: decimal digits, perhaps after a plus sign. -/
def ceilingOfText? (text : Text) : Option Nat :=
  let digits := if text.head? = some '+' then text.drop 1 else text
  if digits.isEmpty = false ∧ digits.all Char.isDigit then
    let value := digits.foldl (fun value digit => 10 * value + (digit.toNat - 48)) 0
    if value < Options.ceilingBound then some value else none
  else none

/-! ## The arguments before or after a command's name -/

/-- What the flags on one side of the command's name have set. -/
structure Settings where
  factory : Option Text := none
  fragment : Option Text := none
  ceiling : Option Nat := none
  strict : Bool := false
  noSkipCompiled : Bool := false
  verbosity : Nat := 0
  output : Option Text := none
  path : Option Text := none
  /-- A flag whose value is the next argument. -/
  waiting : Option Flag := none
  flagsEnded : Bool := false
deriving DecidableEq, Repr

namespace Settings

/-- Sets something that may be set only once. -/
def once {α : Type} (current : Option α) (value : Option α) : Except Stop (Option α) :=
  match current, value with
  | none, some value => .ok (some value)
  | _, _ => .error .usage

/-- A path, which has at least one character. -/
def pathOfText? (text : Text) : Option Text :=
  if text.isEmpty then none else some text

def give (settings : Settings) (flag : Flag) (value : Text) : Except Stop Settings := do
  let settings := { settings with waiting := none }
  match flag with
  | .factory => return { settings with factory := ← once settings.factory (some value) }
  | .fragment => return { settings with fragment := ← once settings.fragment (some value) }
  | .ceiling =>
      return { settings with ceiling := ← once settings.ceiling (ceilingOfText? value) }
  | .output => return { settings with output := ← once settings.output (pathOfText? value) }
  | .strict | .noSkipCompiled | .verbose | .version | .help => .error .usage

def raise (settings : Settings) (flag : Flag) : Except Stop Settings :=
  match flag with
  | .strict => if settings.strict then .error .usage else .ok { settings with strict := true }
  | .noSkipCompiled =>
      if settings.noSkipCompiled then .error .usage
      else .ok { settings with noSkipCompiled := true }
  | .verbose => .ok { settings with verbosity := settings.verbosity + 1 }
  | .version => .error .version
  | .help => .error .help
  | .factory | .fragment | .ceiling | .output => .error .usage

def readLong (settings : Settings) (command : Option CommandName) (name : Text)
    (value : Option Text) : Except Stop Settings :=
  match Flag.all.find? fun flag => flag.long.toList = name ∧ flag.allowedAfter command with
  | none => .error .usage
  | some flag =>
      match value with
      | some value => settings.give flag value
      | none =>
          if flag.hasValue then .ok { settings with waiting := some flag }
          else settings.raise flag

/-- Reads one-letter flags that stand together. -/
def readLetters (settings : Settings) (command : Option CommandName) : Text → Except Stop Settings
  | [] => .ok settings
  | letter :: rest =>
      match Flag.all.find? fun flag => flag.short? = some letter ∧ flag.allowedAfter command with
      | none => .error .usage
      | some flag =>
          if flag.hasValue then
            match rest with
            | [] => .ok { settings with waiting := some flag }
            | '=' :: value => settings.give flag value
            | value => settings.give flag value
          else
            match settings.raise flag with
            | .error stop => .error stop
            | .ok raised => raised.readLetters command rest

/-- Reads an argument that is no flag: a flag's value, if one waits, or the path. -/
def readPlain (settings : Settings) (text : Text) : Except Stop Settings :=
  match settings.waiting with
  | some flag => settings.give flag text
  | none => do return { settings with path := ← once settings.path (pathOfText? text) }

/-- Reads an argument that is one if the flags have not ended. -/
def readFlag (settings : Settings) (command : Option CommandName) :
    Argument → Except Stop Settings
  | .plain text => settings.readPlain text
  | argument =>
      if settings.waiting.isSome then .error .usage
      else
        match argument with
        | .endOfFlags => .ok { settings with flagsEnded := true }
        | .long name value => settings.readLong command name value
        | .letters letters => settings.readLetters command letters
        | .plain text => settings.readPlain text

/-- Reads an argument before or after a command's name. -/
def read (settings : Settings) (command : Option CommandName) (argument : Text) :
    Except Stop Settings :=
  if settings.flagsEnded then settings.readPlain argument
  else settings.readFlag command (.ofText argument)

def readAll (settings : Settings) (command : CommandName) : List Text → Except Stop Settings
  | [] => if settings.waiting.isSome then .error .usage else .ok settings
  | argument :: rest =>
      match settings.read (some command) argument with
      | .error stop => .error stop
      | .ok next => next.readAll command rest

end Settings

/-! ## Whole command lines -/

/-- The invocation that the settings before and after a command's name make up. -/
def Invocation.ofSettings (command : CommandName) (before after : Settings) :
    Except Stop Invocation :=
  match after.path with
  | none => .error .usage
  | some path =>
      let default : Options := {}
      .ok {
        command
        path
        output := after.output
        options :=
          { factory := (after.factory.or before.factory).getD default.factory
            fragment := (after.fragment.or before.fragment).getD default.fragment
            ceiling := (after.ceiling.or before.ceiling).getD default.ceiling
            strict := before.strict || after.strict
            skipCompiled := !(before.noSkipCompiled || after.noSkipCompiled) }
        verbosity := if after.verbosity = 0 then before.verbosity else after.verbosity }

def CommandName.ofText? (text : Text) : Option CommandName :=
  CommandName.all.find? fun command => command.name.toList = text

/-- The word that asks for help in place of a command. -/
def helpWord : Text := "help".toList

/-- What the word for help asks for, given the arguments after it: help on the whole, or on the one
command or word that they name. -/
def helpOn : List Text → Stop
  | [] => .help
  | [topic] =>
      if topic = helpWord ∨ (CommandName.ofText? topic).isSome then .help else .usage
  | _ :: _ :: _ => .usage

/-- Reads a command line, given the settings of the flags before. An argument is the name of a
command unless it is the value of a flag. -/
def readFrom (before : Settings) : List Text → Except Stop Invocation
  | [] => .error .usage
  | argument :: rest =>
      let named := if before.waiting.isSome ∨ before.flagsEnded then none
        else CommandName.ofText? argument
      match named with
      | some command =>
          match ({} : Settings).readAll command rest with
          | .error stop => .error stop
          | .ok after => Invocation.ofSettings command before after
      | none =>
          if argument = helpWord ∧ before.waiting = none ∧ before.flagsEnded = false then
            .error (helpOn rest)
          else
            match before.read none argument with
            | .error stop => .error stop
            | .ok next => if next.path.isSome then .error .usage else readFrom next rest

def parseArguments (arguments : List Text) : Except Stop Invocation :=
  readFrom {} arguments

end ElementScript.CommandLine
