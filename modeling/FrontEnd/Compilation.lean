import FrontEnd.Check.Program
import FrontEnd.Parse.Machine
import FrontEnd.Scan

/-!
# Compiling a text

The three stages one after the other: scanning, parsing, checking.  Two settings say when to stop
early: lexical errors normally keep the text from being parsed, and a text that the parser refuses
is normally not checked.  A compilation succeeds only if all three stages ran and none found fault.
-/

namespace FrontEnd

/-- The limits of a compilation and when it stops early. -/
structure Settings where
  /-- The longest word that is not reserved. -/
  wordLimit : Nat
  limits : Limits
  /-- The most steps of the parser. -/
  stepLimit : Nat
  /-- Whether lexical errors stop the compilation. -/
  haltOnLexicalErrors : Bool
  /-- Whether a text that the parser refused is checked. -/
  analyzeRejected : Bool

/-- The usual settings. -/
def Settings.default : Settings :=
  ⟨Scan.defaultWordLimit, .default, Parse.defaultStepLimit, true, false⟩

/-- What the stages of a compilation found.  A stage that did not run has no result. -/
structure Compilation where
  scan : Scan
  parse : Option Parse
  analysis : Option Analysis

namespace Compilation

/-- Whether all stages ran and none found fault. -/
def succeeded (c : Compilation) : Bool :=
  c.scan.clean && c.parse.any Parse.accepted && c.analysis.any Analysis.accepted

/-- The diagnostics of all stages that ran, in their order. -/
def diagnostics (c : Compilation) : List String :=
  c.scan.errors.map LexicalError.message
    ++ ((c.parse.bind Parse.error).map SyntaxError.message).toList
    ++ ((c.analysis.bind Analysis.error).map SemanticError.message).toList

end Compilation

/-- Compiles a text. -/
def compile (settings : Settings) (source : String) : Compilation :=
  let scan := scan settings.wordLimit source
  if !scan.clean && settings.haltOnLexicalErrors then
    ⟨scan, none, none⟩
  else
    let parse := parse settings.stepLimit scan.tokens
    if !parse.accepted && !settings.analyzeRejected then
      ⟨scan, some parse, none⟩
    else
      ⟨scan, some parse, some (analyze settings.limits scan.tokens)⟩

end FrontEnd
