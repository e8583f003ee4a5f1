import ElementScript.CommandLine.Run
import ElementScript.Proofs.CommandLine.Arguments
import ElementScript.Proofs.CommandLine.FileSystem

/-! # Commands that agree

`check` and `build` make the same script of a source file (`Invocation.script`) and differ in what
they do with it. So they fail on the same files for the same reasons, and what `build` writes to a
file is what it prints without one. A file is written last, when nothing else can fail, so a run
that fails leaves the files as they were.

What a command comes to depends on the files alone (`Invocation.result`), and a run reports it after
the log (`Invocation.run_perform`). Both commands log the same lines of the same work, but each line
starts with its time, so two runs that fail need not say the same (`failures_differ_in_times`).
-/

namespace ElementScript.CommandLine

variable {system written : FileSystem} {arguments : List Text} {invocation : Invocation}
  {surroundings : Surroundings} {product : Product} {failure : Failure}

/-! ## What a run comes to -/

namespace FileSystem

variable {α : Type} {name : Text} {contents : ByteArray}

theorem run_read_bind (next : Except FileError ByteArray → StateM FileSystem α) :
    (operations.read name >>= next).run system = (next (system.read name)).run system := rfl

theorem run_write_bind (next : Except FileError Unit → StateM FileSystem α) :
    (operations.write name contents >>= next).run system =
      match system.write name contents with
      | .error error => (next (.error error)).run system
      | .ok written => (next (.ok ())).run written := by
  have wrote : (operations.write name contents).run system =
      match system.write name contents with
      | .error error => (.error error, system)
      | .ok written => (.ok (), written) := rfl
  rw [StateT.run_bind, wrote]
  cases system.write name contents <;> rfl

end FileSystem

/-- A product and the files once its own is written, or the failure to write it. -/
def Product.delivered (system : FileSystem) (product : Product) :
    Except Failure (Product × FileSystem) :=
  match product.file with
  | none => .ok (product, system)
  | some (name, text) =>
      match system.write name text.toUTF8 with
      | .error error => .error (.writing name error)
      | .ok written => .ok (product, written)

theorem Product.run_deliver (system : FileSystem) (product : Product) :
    (product.deliver FileSystem.operations).run system =
      match product.delivered system with
      | .error failure => (failure.report, system)
      | .ok (product, written) => (product.report, written) := by
  unfold deliver delivered
  cases product.file with
  | none => rfl
  | some file =>
      rcases file with ⟨name, text⟩
      simp only [FileSystem.run_write_bind]
      cases system.write name text.toUTF8 <;> rfl

namespace Invocation

/-- What a command comes to: its product with the files after it, or why it fails. -/
def result (system : FileSystem) (invocation : Invocation) :
    Except Failure (Product × FileSystem) :=
  match (invocation.sourceOf (system.read invocation.path)).bind invocation.product with
  | .error failure => .error failure
  | .ok product => product.delivered system

/-- The text of the source file, if it can be read. -/
def source? (system : FileSystem) (invocation : Invocation) : Option Text :=
  (invocation.sourceOf (system.read invocation.path)).toOption

/-- The log of a command. -/
def log (system : FileSystem) (surroundings : Surroundings) (invocation : Invocation) : String :=
  stamped surroundings.clock (surroundings.lines invocation (invocation.source? system))

/-- A command reports what it comes to, after its log. -/
theorem run_perform (system : FileSystem) (surroundings : Surroundings) (invocation : Invocation) :
    (invocation.perform FileSystem.operations surroundings).run system =
      match invocation.result system with
      | .error failure => (failure.report.after (invocation.log system surroundings), system)
      | .ok (product, written) =>
          (product.report.after (invocation.log system surroundings), written) := by
  simp only [perform, FileSystem.run_read_bind, log, source?, result]
  cases (invocation.sourceOf (system.read invocation.path)).bind invocation.product with
  | error failure => rfl
  | ok product =>
      simp only [StateT.run_bind, Product.run_deliver]
      cases product.delivered system <;> rfl

end Invocation

open Invocation

theorem run_of_failed (parsed : parseArguments arguments = .ok invocation)
    (failed : invocation.result system = .error failure) (surroundings : Surroundings) :
    run system arguments surroundings =
      { toReport := failure.report.after (invocation.log system surroundings), system } := by
  simp only [run, respond, parsed, run_perform, failed]

theorem run_of_done (parsed : parseArguments arguments = .ok invocation)
    (done : invocation.result system = .ok (product, written)) (surroundings : Surroundings) :
    run system arguments surroundings =
      { toReport := product.report.after (invocation.log system surroundings),
        system := written } := by
  simp only [run, respond, parsed, run_perform, done]

/-- What a command that fails says, after the lines of its log. -/
theorem stderr_of_failed (parsed : parseArguments arguments = .ok invocation)
    (failed : invocation.result system = .error failure) (surroundings : Surroundings) :
    (run system arguments surroundings).stderr =
      stamped surroundings.clock (surroundings.lines invocation (invocation.source? system)) ++
        failure.message := by
  rw [run_of_failed parsed failed]
  rfl

/-- A run that fails leaves the files as they were. -/
theorem system_of_run (failed : (run system arguments surroundings).code ≠ 0) :
    (run system arguments surroundings).system = system := by
  cases parsed : parseArguments arguments with
  | error stop =>
      simp only [run, respond, parsed]
      rfl
  | ok invocation =>
      cases came : invocation.result system with
      | error failure => rw [run_of_failed parsed came]
      | ok done =>
          rw [run_of_done parsed came] at failed
          exact absurd rfl failed

/-- A command that succeeds has a product. -/
theorem result_of_code (parsed : parseArguments arguments = .ok invocation)
    (succeeded : (run system arguments surroundings).code = 0) :
    ∃ product, invocation.result system =
      .ok (product, (run system arguments surroundings).system) := by
  cases came : invocation.result system with
  | error failure =>
      rw [run_of_failed parsed came] at succeeded
      cases succeeded
  | ok done =>
      rw [run_of_done parsed came]
      exact ⟨done.1, rfl⟩

/-! ## The script that a command makes -/

namespace Invocation

/-- The script made of the source file. It does not depend on the command. -/
def script (system : FileSystem) (invocation : Invocation) : Except Failure String :=
  match invocation.sourceOf (system.read invocation.path) with
  | .error failure => .error failure
  | .ok source => invocation.compiled source

theorem exists_source_of_script {text : String} (made : invocation.script system = .ok text) :
    ∃ source, invocation.sourceOf (system.read invocation.path) = .ok source ∧
      invocation.compiled source = .ok text := by
  unfold script at made
  split at made
  · cases made
  · rename_i source read
    exact ⟨source, read, made⟩

theorem result_of_read {source : Text}
    (read : invocation.sourceOf (system.read invocation.path) = .ok source) :
    invocation.result system =
      match invocation.product source with
      | .error failure => .error failure
      | .ok product => product.delivered system := by
  rw [result, read]
  rfl

/-- Both commands that make a script fail if it cannot be made, and for the same reason. -/
theorem result_of_script_failed (failed : invocation.script system = .error failure)
    (scripting : invocation.command = .check ∨ invocation.command = .build) :
    invocation.result system = .error failure := by
  unfold script at failed
  split at failed
  · rename_i stop unread
    cases failed
    rw [result, unread]
    rfl
  · rename_i source read
    rw [result_of_read read]
    rcases scripting with isCheck | isBuild
    · simp only [product, isCheck, failed]
    · simp only [product, isBuild, failed]

variable {text : String} {output : Text}

theorem result_check (made : invocation.script system = .ok text)
    (isCheck : invocation.command = .check) :
    ∃ product, invocation.result system = .ok (product, system) := by
  rcases exists_source_of_script made with ⟨source, read, compiles⟩
  simp only [result_of_read read, product, isCheck, compiles]
  exact ⟨_, rfl⟩

theorem result_build (made : invocation.script system = .ok text)
    (isBuild : invocation.command = .build) (unset : invocation.output = none) :
    invocation.result system = .ok ({ stdout := text }, system) := by
  rcases exists_source_of_script made with ⟨source, read, compiles⟩
  simp only [result_of_read read, product, isBuild, compiles, unset]
  rfl

/-- A `build` with an output succeeds only by writing the script there. -/
theorem exists_write_of_result_build
    (done : invocation.result system = .ok (product, written))
    (isBuild : invocation.command = .build) (set : invocation.output = some output) :
    ∃ text, invocation.script system = .ok text ∧
      system.write output text.toUTF8 = .ok written := by
  cases made : invocation.script system with
  | error failure =>
      rw [result_of_script_failed made (.inr isBuild)] at done
      cases done
  | ok text =>
      rcases exists_source_of_script made with ⟨source, read, compiles⟩
      simp only [result_of_read read, Invocation.product, isBuild, compiles, set,
        Product.delivered] at done
      split at done
      · cases done
      · rename_i after writes
        cases done
        exact ⟨text, rfl, writes⟩

end Invocation

/-! ## Command lines that agree -/

/-- Nothing is logged if neither a flag nor the environment asks for it. -/
theorem lines_of_quiet (quiet : invocation.verbosity = 0) (unasked : surroundings.directives = none)
    (source : Option Text) : surroundings.lines invocation source = [] := by
  simp only [Surroundings.lines, Surroundings.filter?, quiet, unasked]
  rfl

/-- A command that fails changes no file. `check` and `build` fail alike, and what they say then
differs only in the times that start the lines of a log, so not at all if no log is asked for. What
`build` writes to an output is what it prints without one. Any command line without an output can be
turned into one for each of these. -/
theorem commands_agree (system : FileSystem) :
    (∀ arguments surroundings, (run system arguments surroundings).code ≠ 0 →
      (run system arguments surroundings).system = system) ∧
    (∀ (invocation : Invocation) checking building,
      parseArguments checking = .ok { invocation with command := .check, output := none } →
      parseArguments building = .ok { invocation with command := .build, output := none } →
      (∀ one other, (run system checking one).code = 0 ↔ (run system building other).code = 0) ∧
      ∀ surroundings, (run system checking surroundings).code ≠ 0 →
        ∃ lines message,
          (invocation.verbosity = 0 → surroundings.directives = none → lines = []) ∧
          ∀ clock,
            (run system checking { surroundings with clock }).stderr =
              stamped clock lines ++ message ∧
            (run system building { surroundings with clock }).stderr =
              stamped clock lines ++ message) ∧
    (∀ (invocation : Invocation) output writing building,
      parseArguments writing = .ok { invocation with command := .build, output := some output } →
      parseArguments building = .ok { invocation with command := .build, output := none } →
      ∀ one other, (run system writing one).code = 0 →
        (run system building other).code = 0 ∧
        (run system writing one).system.contentsAt? output =
          some (run system building other).stdout.toUTF8) ∧
    (∀ arguments invocation, parseArguments arguments = .ok invocation →
      invocation.output = none →
      ∃ left right, arguments = left ++ invocation.command.name.toList :: right ∧
        (∀ command : CommandName, parseArguments (left ++ command.name.toList :: right) =
          .ok { invocation with command }) ∧
        ∀ output ≠ [], parseArguments
            (left ++ "build".toList :: ("--output=".toList ++ output) :: right) =
          .ok { invocation with command := .build, output := some output }) := by
  refine ⟨fun _ _ => system_of_run, fun invocation checking building checks builds => ?_,
    fun invocation output writing building writes builds one other succeeded => ?_,
    fun arguments invocation parsed unset => exists_exchange_of_readFrom parsed unset⟩
  · cases made : invocation.script system with
    | error failure =>
        have checkFails : Invocation.result system
            { invocation with command := .check, output := none } = .error failure :=
          result_of_script_failed made (.inl rfl)
        have buildFails : Invocation.result system
            { invocation with command := .build, output := none } = .error failure :=
          result_of_script_failed made (.inr rfl)
        refine ⟨fun one other => ?_, fun surroundings _ => ?_⟩
        · rw [run_of_failed checks checkFails, run_of_failed builds buildFails]
          rfl
        · refine ⟨surroundings.lines { invocation with command := .check, output := none }
            (invocation.source? system), failure.message, fun quiet unasked => ?_, fun clock => ?_⟩
          · refine lines_of_quiet ?_ unasked _
            exact quiet
          · -- Both commands compile the source, so their logs have the same lines.
            exact ⟨stderr_of_failed checks checkFails { surroundings with clock },
              stderr_of_failed builds buildFails { surroundings with clock }⟩
    | ok text =>
        have checkMade : ∃ product, Invocation.result system
            { invocation with command := .check, output := none } = .ok (product, system) :=
          result_check made rfl
        rcases checkMade with ⟨product, checkDone⟩
        have checkSucceeds := run_of_done checks checkDone
        have buildSucceeds := run_of_done builds (result_build made rfl rfl)
        refine ⟨fun one other => by rw [checkSucceeds, buildSucceeds]; rfl,
          fun surroundings failed => ?_⟩
        rw [checkSucceeds] at failed
        exact absurd rfl failed
  · rcases result_of_code writes succeeded with ⟨product, done⟩
    rcases exists_write_of_result_build done rfl rfl with ⟨text, made, wrote⟩
    rw [run_of_done builds (result_build made rfl rfl)]
    exact ⟨rfl, FileSystem.contentsAt?_of_write wrote⟩

/-- A single file that holds one element, beside a place that no file can be written to. -/
def elementFile : FileSystem :=
  { files := [(["in".toList], "<a/>".toUTF8)]
    refusal := fun access path =>
      if access = .write ∧ path = ["locked".toList] then some "Permission denied (os error 13)"
      else none }

/-- A command on a file that is not there, with a log. -/
def absent (command : CommandName) : Invocation :=
  { command, path := "gone".toList, output := none, options := {}, verbosity := 1 }

def absentLine (command : CommandName) : List Text :=
  ["-v".toList, command.name.toList, "gone".toList]

/-- A log with the one line that there is before the source is read, if no flag sets an option. -/
def optionsLog (time : String) : Surroundings :=
  { log :=
      { ofOptions := fun _ _ =>
          [" DEBUG jsxc: compiler options options=CompileOptions \x7b " ++
            "factory_identifier: \"React.createElement\", " ++
            "fragment_identifier: \"React.Fragment\", max_recursion_calls: 1000, " ++
            "prepend_strict_mode: false, skip_if_already_compiled: true \x7d\n"] }
    clock := fun _ => time }

theorem commands_agree_element :
    (run elementFile ["build".toList, "in".toList, "-olocked".toList]).system = elementFile ∧
    ((run elementFile ["check".toList, "in".toList]).code = 0 ↔
      (run elementFile ["build".toList, "in".toList]).code = 0) ∧
    (∃ lines message, ∀ clock,
      (run elementFile (absentLine .check) { optionsLog "" with clock }).stderr =
        stamped clock lines ++ message ∧
      (run elementFile (absentLine .build) { optionsLog "" with clock }).stderr =
        stamped clock lines ++ message) ∧
    (run elementFile ["build".toList, "in".toList, "-oout".toList]).system.contentsAt?
        "out".toList =
      some (run elementFile ["build".toList, "in".toList]).stdout.toUTF8 := by
  rcases commands_agree elementFile with ⟨failing, checking, writing, -⟩
  let present : Invocation :=
    { command := .build, path := "in".toList, output := none, options := {}, verbosity := 0 }
  have logged := (checking (absent .check) (absentLine .check) (absentLine .build) rfl rfl).2
    (optionsLog "") (by decide +kernel)
  rcases logged with ⟨lines, message, -, alike⟩
  exact ⟨failing ["build".toList, "in".toList, "-olocked".toList] {} (by decide +kernel),
    (checking present ["check".toList, "in".toList] ["build".toList, "in".toList] rfl rfl).1 {} {},
    ⟨lines, message, alike⟩,
    (writing present "out".toList ["build".toList, "in".toList, "-oout".toList]
      ["build".toList, "in".toList] rfl rfl {} {} (by decide +kernel)).2⟩

/-- A `check` and a `build` of the same file and with the same flags do not say the same when they
fail, if they log something at different times. -/
theorem failures_differ_in_times :
    parseArguments (absentLine .check) = .ok (absent .check) ∧
    parseArguments (absentLine .build) = .ok (absent .build) ∧
    (run { files := [] } (absentLine .check) (optionsLog "2024-05-01T12:00:00.000000Z")).code = 1 ∧
    (run { files := [] } (absentLine .build) (optionsLog "2024-05-01T12:00:01.000000Z")).code = 1 ∧
    (run { files := [] } (absentLine .check) (optionsLog "2024-05-01T12:00:00.000000Z")).stderr ≠
      (run { files := [] } (absentLine .build) (optionsLog "2024-05-01T12:00:01.000000Z")).stderr :=
  ⟨rfl, rfl, by decide +kernel, by decide +kernel, by decide +kernel⟩

end ElementScript.CommandLine
