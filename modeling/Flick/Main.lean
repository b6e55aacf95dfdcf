import Flick.Command.Run

/-!
# The command

Reads the named file, runs `Command.run` on what it finds, and writes the
texts of the outcome.  There are no sockets here, so an address is never
granted.
-/

namespace Flick

/-- The failure that the system reported. -/
def SystemError.ofReport (report : IO.Error) : SystemError :=
  match report with
  | .noFileOrDirectory .. => .noSuchFile
  | .inappropriateType _ code _ => if code = 21 then .isADirectory else .notADirectory
  | report => .other report.toString

/-- Tries to read the file at a path. -/
def readFile (path : String) : IO (Except SystemError SourceFile) := do
  try
    let bytes ← IO.FS.readBinFile path
    match String.fromUTF8? bytes with
    | some text => return .ok ⟨bytes.size, .ok text⟩
    | none => return .ok ⟨bytes.size, .error .invalidText⟩
  catch report =>
    match SystemError.ofReport report with
    | .isADirectory => return .ok Entry.directory.toSourceFile
    | reason => return .error reason

end Flick

open Flick in
/-- Runs the command with the arguments of the process. -/
def main (arguments : List String) : IO UInt32 := do
  let path :=
    match Options.ofArguments arguments with
    | .ok options => options.file
    | .error _ => none
  let file ←
    match path with
    | some path => readFile path
    | none => pure (.error .noSuchFile)
  let outcome := Command.run ⟨fun _ => file, fun _ => .error .unsupported⟩ arguments
  IO.print outcome.stdout
  IO.eprint outcome.stderr
  return outcome.exitCode.toUInt32
