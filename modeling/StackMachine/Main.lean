import StackMachine.Command.Line

/-!
# The program

Reads the file that the command line names, if it names one, writes the report, and
exits with its code.
-/

namespace StackMachine.CommandLine

/-- The reason why a file cannot be read, as the operating system words it. -/
def readFailure : IO.Error → String
  | .noFileOrDirectory .. => "No such file or directory (os error 2)"
  | .permissionDenied .. => "Permission denied (os error 13)"
  | .inappropriateType .. => "Is a directory (os error 21)"
  | e => toString e

/-- The text of a file, or the reason why it cannot be read. -/
def readFile (path : String) : IO (Except String String) := do
  try
    let bytes ← IO.FS.readBinFile path
    match String.fromUTF8? bytes with
    | some text => return .ok text
    | none => return .error "stream did not contain valid UTF-8"
  catch e => return .error (readFailure e)

/-- The file that a command line names. -/
def fileOf (args : List String) : Option String :=
  match read args with
  | .ok (_, .run path _ _) => some path
  | _ => none

end StackMachine.CommandLine

open StackMachine in
/-- Run the workbench. -/
def main (args : List String) : IO UInt32 := do
  let text ← match CommandLine.fileOf args with
    | some path => CommandLine.readFile path
    | none => pure (.error "")
  let report := CommandLine.report (fun _ => text) args
  IO.print report.out
  IO.eprint report.err
  return .ofNat report.code
