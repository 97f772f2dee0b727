import FrontEnd.CommandLine.Report

/-!
# The command

Reads the file that the arguments name and prints the report on it.
-/

namespace FrontEnd.CommandLine

/-- Why reading a file failed. -/
def ReadFailure.ofError : IO.Error → ReadFailure
  | .noFileOrDirectory .. => .missing
  | .inappropriateType .. => .isADirectory
  | e => .other (toString e)

/-- The text of the file at a path. -/
def readText (path : String) : IO (Except ReadFailure String) := do
  try
    let bytes ← IO.FS.readBinFile path
    match String.fromUTF8? bytes with
    | some text => return .ok text
    | none => return .error .notText
  catch e =>
    return .error (.ofError e)

/-- Prints a report; the exit code is left. -/
def Report.print (r : Report) : IO UInt32 := do
  (← IO.getStdout).putStr (printed r.output)
  (← IO.getStderr).putStr (printed r.errors)
  return r.exitCode.toUInt32

end FrontEnd.CommandLine

open FrontEnd.CommandLine in
/-- Checks the file that the arguments name. -/
def main (arguments : List String) : IO UInt32 := do
  match Invocation.of arguments with
  | .version => Report.ofVersion.print
  | .refused =>
    (← IO.getStderr).putStr "error: the arguments are not understood\n"
    return refusedCode.toUInt32
  | .compile path options =>
    (Report.ofFile options path (← readText path)).print
