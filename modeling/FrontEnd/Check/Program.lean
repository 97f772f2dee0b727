import FrontEnd.Check.Header
import FrontEnd.Check.Statement
import FrontEnd.Scope.Table

/-!
# Checking a program

A program is checked in two walks.  The first records the headers.  The second goes through the
text in order: function bodies in the scopes of their functions, everything else in the global
scope.  The result is the first violation, if there is one, the symbol table as it was then, and
the warnings given on the way.
-/

namespace FrontEnd

/-- The result of checking a program. -/
structure Analysis where
  /-- The first violation, if there is one. -/
  error : Option SemanticError
  symbols : SymbolTable
  /-- Reads of names that may have no value yet, in the order met. -/
  warnings : List Warning

namespace Analysis

/-- What is said of an accepted program. -/
def acceptedMessage : String := "Semantic analysis completed successfully."

/-- Whether no rule is broken. -/
def accepted (a : Analysis) : Bool :=
  a.error.isNone

/-- What is said of the program. -/
def message (a : Analysis) : String :=
  match a.error with
  | none => acceptedMessage
  | some e => e.message

end Analysis

namespace Check

/-- Passes over a struct, which the headers recorded. -/
def skipStruct : Check Unit := do
  roundsWhile (return !(← next? .leftBrace)) (fun _ => do
    if ← atEnd then violate .unexpectedEnd
    discard advance
    return .yield ()) ()
  moveTo ((← matchingClose (← here)) + 1)
  discard <| expectMark .semicolon

/-- The recorded signature of a function. -/
def signature (name : String) : Check (FunctionInfo × Position) := do
  match (← get).arena.lookup 0 name with
  | some symbol =>
    match symbol.functionInfo? with
    | some info => return (info, symbol.position)
    | none => violate (.lost (.noSignature name))
  | none => violate (.lost (.noSignature name))

/-- The context inside the body of a function. -/
def inFunction (name : String) (info : FunctionInfo) (c : Context) : Context :=
  { c with scope := info.scope, function := some ⟨name, info.returns, info.isEntryPoint⟩ }

/-- Checks the statements of a body up to its closing brace. -/
def bodyStatements (name : String) (info : FunctionInfo) : Check Unit := do
  let levels := (← read).limits.nesting
  withReader (inFunction name info) do
    modify fun s => { s with position := info.body.start, sawReturn := false }
    discard <| statementsUntil (statement levels) [.rightBrace]
    if (← here) ≠ info.body.stop then violate (.lost (.bodyEndedEarly name))

/-- Records in the symbol of a function whether its body had a return statement. -/
def recordReturn (name : String) (sawReturn : Bool) : Check Unit :=
  modify fun s => { s with arena := s.arena.modify 0 name (Symbol.withReturn sawReturn) }

/-- Checks the body of a recorded function and goes on after it. -/
def functionBody (name : String) : Check Unit := do
  let (info, position) ← signature name
  bodyStatements name info
  moveTo (info.body.stop + 1)
  let sawReturn := (← get).sawReturn
  recordReturn name sawReturn
  if !info.isEntryPoint && info.returns ≠ .void && !sawReturn then
    refuse ⟨.missingReturn name info.returns, position⟩

/-- One round of the walk over a program. -/
def programRound : Check Unit := do
  match ← peekKind with
  | .functionWord | .mainWord =>
    match (← get).headers.lookup (← here) with
    | some name => functionBody name
    | none => violate (.lost .bodyNotRecorded)
  | .structWord => skipStruct
  | _ => discard <| statement (← read).limits.nesting

/-- Checks a program. -/
def program : Check Unit := do
  if (← read).tokens.isEmpty then violate .unexpectedEnd
  headers
  moveTo 0
  roundsWhile (return !(← atEnd)) (fun _ => do programRound; return .yield ()) ()

end Check

/-- Checks a sequence of tokens under limits. -/
def analyze (limits : Limits) (tokens : List Token) : Analysis :=
  let (result, s) := Check.program.runFrom (.top limits tokens) .initial
  let error := match result with
    | .ok _ => none
    | .error e => some e
  ⟨error, ⟨s.arena, s.functions⟩, s.warnings.toList⟩

end FrontEnd
