import FrontEnd.Check.Declaration

/-!
# Headers

Before any body is checked, one walk over the top of the program records every function, the entry
point and every struct, so that they can be used before the text reaches them.  Bodies and other
braces are passed over as a whole.  A recorded function gets its scope, with its parameters in it,
and a symbol in the global scope.
-/

namespace FrontEnd.Check

/-- Whether a function of a name was recorded. -/
def isRecorded (name : String) : Check Bool := do
  return ((← get).functions.lookup name).isSome

/-- Checks that a name is free in the global scope. -/
def requireFree (what : Redeclared) (name : Token) : Check Unit := do
  if (← get).arena.declaredHere 0 name.lexeme then
    violateAt (.redeclaration what name.lexeme) name

/-- Declares a symbol whose name was free in the global scope. -/
def declareGlobal (symbol : Symbol) (name : Token) : Check Unit := do
  unless ← insertSymbol 0 symbol do
    violateAt (.lost (.declaredTwice symbol.name)) name

/-- Opens the scope of a function: its index. -/
def openFunctionScope (label : String) : Check Nat :=
  modifyGet fun s => (s.arena.size, { s with arena := s.arena.push 0 label })

/-- Reads a type and a name. -/
def typedName (wantedType wantedName : Wanted) : Check TypedName := do
  let type ← typeWord wantedType
  let name ← expect .identifier wantedName
  return ⟨name.lexeme, type, name.position⟩

/-- One round of a list of parameters. -/
def parameterRound (scope : Nat) (before : List TypedName) :
    Check (ForInStep (List TypedName)) := do
  let p ← typedName .parameterType .parameterName
  unless ← insertSymbol scope (Symbol.ofVariable p.name p.type p.position).withValue do
    refuse ⟨.redeclaration .parameter p.name, p.position⟩
  let parameters := before ++ [p]
  if ← next? .comma then
    discard advance
    return .yield parameters
  else
    return .done parameters

/-- Reads the parameters of a function and declares them in its scope. -/
def parameters (scope : Nat) : Check (List TypedName) := do
  if ← next? .rightParen then return []
  rounds (parameterRound scope) []

/-- Passes over a body: the tokens between its braces. -/
def bodyRange : Check BodyRange := do
  unless ← next? .leftBrace do discard <| expectMark .leftBrace
  let opening ← here
  let close ← matchingClose opening
  moveTo (close + 1)
  return ⟨opening + 1, close⟩

/-- A state with a function recorded whose header starts at an index, and whether its name was free
for its symbol. -/
def recording (keyword : Nat) (name : Token) (info : FunctionInfo) (s : State) : Bool × State :=
  let s := { s with
    functions := (name.lexeme, info.scope) :: s.functions
    headers := (keyword, name.lexeme) :: s.headers }
  match s.arena.insert 0 (.ofFunction name.lexeme info name.position) with
  | some arena => (true, { s with arena := arena })
  | none => (false, s)

/-- Records a function whose header starts at an index, and declares it. -/
def recordFunction (keyword : Nat) (name : Token) (info : FunctionInfo) : Check Unit := do
  unless ← modifyGet (recording keyword name info) do
    violateAt (.lost (.declaredTwice name.lexeme)) name

/-- Reads the header of a function and passes over its body. -/
def functionHeader : Check Unit := do
  let keyword ← here
  discard advance
  let typeToken ← advance
  match DataType.ofWord? typeToken.kind with
  | none => violateAt (.invalidReturnType typeToken.lexeme) typeToken
  | some returns =>
    let name ← expect .identifier .functionName
    requireFree .function name
    let scope ← openFunctionScope ("function " ++ name.lexeme)
    discard <| expectMark .leftParen
    let parameters ← parameters scope
    discard <| expectMark .rightParen
    let body ← bodyRange
    recordFunction keyword name ⟨returns, parameters, scope, body, false, false⟩

/-- The name the entry point is known by. -/
def entryPointName : String := "mn"

/-- Reads the header of the entry point and passes over its body. -/
def entryPointHeader : Check Unit := do
  let keyword ← here
  let name ← advance
  if ← isRecorded entryPointName then violateAt .duplicateEntryPoint name
  let scope ← openFunctionScope "entry point mn"
  discard <| expectMark .leftParen
  discard <| expectMark .rightParen
  let body ← bodyRange
  recordFunction keyword name ⟨.void, [], scope, body, false, true⟩

/-- One round of the members of a struct. -/
def memberRound (structName : String) (before : List TypedName) :
    Check (ForInStep (List TypedName)) := do
  let m ← typedName .memberType .memberName
  if before.any fun other => other.name == m.name then
    refuse ⟨.duplicateMember structName m.name, m.position⟩
  discard <| expectMark .semicolon
  return .yield (before ++ [m])

/-- Reads a struct. -/
def structHeader : Check Unit := do
  discard advance
  let name ← expect .identifier .structName
  requireFree .struct name
  discard <| expectMark .leftBrace
  let members ← roundsWhile (return !(← next? .rightBrace)) (memberRound name.lexeme) []
  discard <| expectMark .rightBrace
  discard <| expectMark .semicolon
  declareGlobal (.ofStruct name.lexeme members name.position) name

/-- One round of the walk over the top of a program. -/
def headerRound : Check Unit := do
  match ← peekKind with
  | .functionWord => functionHeader
  | .mainWord => entryPointHeader
  | .structWord => structHeader
  | .leftBrace => moveTo ((← matchingClose (← here)) + 1)
  | _ => moveTo ((← here) + 1)

/-- Records all headers of a program, which must have an entry point. -/
def headers : Check Unit := do
  roundsWhile (return !(← atEnd)) (fun _ => do headerRound; return .yield ()) ()
  unless ← isRecorded entryPointName do violate .missingEntryPoint

end FrontEnd.Check
