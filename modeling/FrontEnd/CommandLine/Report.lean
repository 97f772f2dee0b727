import FrontEnd.CommandLine.Arguments

/-!
# What the command prints

Tokens and trace come first, if asked for; then the diagnostics, on the error stream; then a line
for the parser and one for the checker if they accepted the text, and the symbols, if asked for.
The exit code is zero exactly if the compilation succeeded.
-/

namespace FrontEnd.CommandLine

/-- Why a file could not be read as text. -/
inductive ReadFailure where
  | missing
  | notADirectory
  | isADirectory
  | notText
  | other (reason : String)

/-- The wording of a file that could not be read. -/
def ReadFailure.text : ReadFailure → String
  | missing => "No such file or directory (os error 2)"
  | notADirectory => "Not a directory (os error 20)"
  | isADirectory => "Is a directory (os error 21)"
  | notText => "stream did not contain valid UTF-8"
  | other reason => reason

/-- What a command leaves behind. -/
structure Report where
  exitCode : Nat
  /-- The lines on the standard stream. -/
  output : List String
  /-- The lines on the error stream. -/
  errors : List String

/-- The line that says which version this is. -/
def versionLine : String := "conso 0.1.0"

/-- The exit code for arguments that are refused. -/
def refusedCode : Nat := 2

/-- Lines that are printed only if asked for. -/
def linesIf (asked : Bool) (lines : Unit → List String) : List String :=
  if asked then lines () else []

/-- The lines on the standard stream for a compilation. -/
def outputLines (o : Options) (c : Compilation) : List String :=
  linesIf o.dumpTokens (fun _ => c.scan.tokens.map Token.listing)
    ++ linesIf o.trace
      (fun _ => ((c.parse.map Parse.trace).getD []).map TraceEvent.text)
    ++ linesIf (c.parse.any Parse.accepted) (fun _ => [Parse.acceptedMessage])
    ++ linesIf (c.analysis.any Analysis.accepted) (fun _ => [Analysis.acceptedMessage])
    ++ linesIf o.dumpSymbols
      (fun _ => (c.analysis.map fun a => a.symbols.arena.lines).getD [])

/-- The report on a compilation. -/
def Report.ofCompilation (o : Options) (c : Compilation) : Report :=
  ⟨if c.succeeded then 0 else 1, outputLines o c, c.diagnostics⟩

/-- The report on the file at a path, given its text or why there is none. -/
def Report.ofFile (o : Options) (path : String) : Except ReadFailure String → Report
  | .ok source => .ofCompilation o (compile o.settings source)
  | .error failure =>
    ⟨1, [], ["error: could not read file " ++ Text.quoted path ++ ": " ++ failure.text]⟩

/-- The report on a request for the version. -/
def Report.ofVersion : Report := ⟨0, [versionLine], []⟩

/-- Lines as they are printed, each one ended. -/
def printed (lines : List String) : String :=
  String.join (lines.map fun line => line ++ "\n")

end FrontEnd.CommandLine
