import ElementScript.CommandLine.FileSystem
import ElementScript.CommandLine.Surroundings
import ElementScript.Compile
import ElementScript.Json.Listing

/-!
Running a command.

Every command reads one file and works on its text. Only `build` writes a file, and only after
everything else has succeeded, so a command that fails changes nothing.

A command is carried out in any monad that can read and write files (`respond`). The program does so
on the files of the machine, and `run` on a `FileSystem`.
-/

namespace ElementScript.CommandLine

/-- Why a command fails. -/
inductive Failure where
  | missing (path : Text)
  | reading (path : Text) (error : FileError)
  | compiling (path : Text) (error : CompileError)
  | writing (path : Text) (error : FileError)
deriving DecidableEq, Repr

def Failure.message : Failure → String
  | .missing path =>
      let name := String.ofList path
      s!"Error: file not found: {name}\n"
  | .reading path error =>
      let name := String.ofList path
      let reason := error.reason
      s!"Error reading {name}: {reason}\n"
  | .compiling path error =>
      let name := String.ofList path
      let message := error.message
      s!"{name}: {message}\n"
  | .writing path error =>
      let name := String.ofList path
      let reason := error.reason
      s!"Error writing {name}: {reason}\n"

/-- What a command makes of a source. -/
structure Product where
  stdout : String := ""
  stderr : String := ""
  /-- A file to write. -/
  file : Option (Text × String) := none
deriving DecidableEq, Repr

namespace Invocation

variable (invocation : Invocation)

/-- The failure to read the source file. A file that cannot be found is told apart from one that
cannot be read. -/
def readFailure (error : FileError) : Failure :=
  match error with
  | .notFound | .notDirectory | .unreachable _ => .missing invocation.path
  | .isDirectory | .notText | .other _ => .reading invocation.path error

/-- The text of the source file. -/
def sourceOf (contents : Except FileError ByteArray) : Except Failure Text :=
  match contents with
  | .error error => .error (invocation.readFailure error)
  | .ok bytes =>
      match String.fromUTF8? bytes with
      | some text => .ok text.toList
      | none => .error (invocation.readFailure .notText)

def compiled (source : Text) : Except Failure String :=
  match invocation.options.compile source with
  | .error error => .error (.compiling invocation.path error)
  | .ok script => .ok (String.ofList script)

def listing {α : Type} (toJson : α → Json) (result : Except CompileError α) :
    Except Failure Product :=
  match result with
  | .error error => .error (.compiling invocation.path error)
  | .ok value =>
      let document := String.ofList (toJson value).render
      .ok { stdout := s!"{document}\n" }

/-- What the command makes of a source. -/
def product (source : Text) : Except Failure Product :=
  match invocation.command with
  | .build =>
      match invocation.compiled source with
      | .error failure => .error failure
      | .ok script =>
          match invocation.output with
          | none => .ok { stdout := script }
          | some output =>
              let name := String.ofList output
              .ok { stderr := s!"Built: {name}\n", file := some (output, script) }
  | .check =>
      match invocation.compiled source with
      | .error failure => .error failure
      | .ok _ =>
          let name := String.ofList invocation.path
          .ok { stderr := s!"OK: {name}\n" }
  | .tokens => invocation.listing Json.ofTokens (invocation.options.tokens source)
  | .tree => invocation.listing Program.toJson (invocation.options.parse source)

end Invocation

/-! ## Reports -/

/-- What a run says and how it ends. -/
structure Report where
  code : Nat := 0
  stdout : String := ""
  stderr : String := ""
deriving DecidableEq, Repr

def versionLine : String := "jsxc 0.3.0\n"

def Stop.report (surroundings : Surroundings) (arguments : List Text) : Stop → Report
  | .usage => { code := 2, stderr := surroundings.usage arguments }
  | .version => { stdout := versionLine }
  | .help => { stdout := surroundings.help arguments }

def Failure.report (failure : Failure) : Report :=
  { code := 1, stderr := failure.message }

def Product.report (product : Product) : Report :=
  { stdout := product.stdout, stderr := product.stderr }

/-- A report with a log ahead of what it says on the error output. -/
def Report.after (report : Report) (log : String) : Report :=
  { report with stderr := log ++ report.stderr }

/-! ## Runs -/

/-- How files are read and written. -/
structure FileOperations (m : Type → Type) where
  read (name : Text) : m (Except FileError ByteArray)
  write (name : Text) (contents : ByteArray) : m (Except FileError Unit)

section

variable {m : Type → Type} [Monad m] (operations : FileOperations m) (surroundings : Surroundings)

/-- Writes the file of a product, if there is one. -/
def Product.deliver (product : Product) : m Report :=
  match product.file with
  | none => return product.report
  | some (name, text) => do
      match ← operations.write name text.toUTF8 with
      | .error error => return (Failure.writing name error).report
      | .ok () => return product.report

/-- Carries out a command. -/
def Invocation.perform (invocation : Invocation) : m Report := do
  let source := invocation.sourceOf (← operations.read invocation.path)
  let report ←
    match source.bind invocation.product with
    | .error failure => pure failure.report
    | .ok product => product.deliver operations
  return report.after
    (stamped surroundings.clock (surroundings.lines invocation source.toOption))

/-- Answers a command line. -/
def respond (arguments : List Text) : m Report :=
  match parseArguments arguments with
  | .error stop => return stop.report surroundings arguments
  | .ok invocation => invocation.perform operations surroundings

end

/-- Reads and writes below the working directory. A file that cannot be written is left as it is. -/
def FileSystem.operations : FileOperations (StateM FileSystem) where
  read name := fun system => (system.read name, system)
  write name contents := fun system =>
    match system.write name contents with
    | .error error => (.error error, system)
    | .ok written => (.ok (), written)

/-- What a run leaves behind. -/
structure Outcome extends Report where
  system : FileSystem

/-- Runs a command line against the files below the working directory. -/
def run (system : FileSystem) (arguments : List Text) (surroundings : Surroundings := {}) :
    Outcome :=
  let (report, after) := (respond FileSystem.operations surroundings arguments).run system
  { toReport := report, system := after }

end ElementScript.CommandLine
