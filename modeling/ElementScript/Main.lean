import ElementScript.CommandLine.Run

/-!
The command-line program: answers a command line on the files of the machine.
-/

namespace ElementScript.CommandLine

/-- The file error that an error of the operating system stands for. Some of its calls report the
code of an error and some the negated code. -/
def fileErrorOf : IO.Error → FileError
  | .noFileOrDirectory .. => .notFound
  | .inappropriateType _ code _ =>
      if code = 20 ∨ code + 20 = 0 then .notDirectory else .isDirectory
  | .permissionDenied .. => .other "Permission denied (os error 13)"
  | error => .other error.toString

/-- The contents of a file. One whose directory may not be entered cannot be told from one that is
missing. -/
def readBytes (name : Text) : IO (Except FileError ByteArray) := do
  try
    let file := (← IO.currentDir) / String.ofList name
    if !(← file.pathExists) then return .error .notFound
    return .ok (← IO.FS.readBinFile file)
  catch error =>
    return .error (fileErrorOf error)

def writeBytes (name : Text) (contents : ByteArray) : IO (Except FileError Unit) := do
  try
    IO.FS.writeBinFile (String.ofList name) contents
    return .ok ()
  catch error =>
    return .error (fileErrorOf error)

/-- Reads and writes the files of the machine. -/
def machineOperations : FileOperations IO where
  read := readBytes
  write := writeBytes

def start (surroundings : Surroundings) (arguments : List String) : IO UInt32 := do
  let report ← respond machineOperations surroundings (arguments.map String.toList)
  (← IO.getStdout).putStr report.stdout
  (← IO.getStderr).putStr report.stderr
  return report.code.toUInt32

end ElementScript.CommandLine

/-- The program without a log and without the texts that are laid out elsewhere. -/
def main (arguments : List String) : IO UInt32 :=
  ElementScript.CommandLine.start {} arguments
