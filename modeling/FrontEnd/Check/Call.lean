import FrontEnd.Builtin
import FrontEnd.Check.Place

/-!
# Calls

A call is a name and its arguments between parentheses.  A declared name hides a built-in function;
what is declared must be a function.  The arguments are separated by commas, and each is an
expression of exactly the type of its parameter.
-/

namespace FrontEnd.Check

/-- What a call calls. -/
inductive Callee where
  | declared (info : FunctionInfo)
  | builtin (b : Builtin)

/-- The function a name stands for. -/
def callee (name : Token) : Check Callee := do
  match ← resolve name.lexeme with
  | some symbol =>
    match symbol.functionInfo? with
    | some info => return .declared info
    | none => violateAt (.notAFunction name.lexeme) name
  | none =>
    match Builtin.ofName? name.lexeme with
    | some b => return .builtin b
    | none => violateAt (.undefinedFunction name.lexeme) name

/-- An argument: its type and its first token. -/
abbrev Argument := DataType × Token

/-- One round of a list of arguments. -/
def argumentRound (operand : Nat → Check DataType) (close : Nat) (before : List Argument) :
    Check (ForInStep (List Argument)) := do
  let first ← peek
  let stop := min (← expressionEnd [.comma]) close
  let type ← expressionWith operand stop
  let arguments := before ++ [(type, first)]
  if (← here) = close then return .done arguments
  discard <| expect .comma (.eitherMark .comma .rightParen)
  return .yield arguments

/-- Reads the arguments up to the closing parenthesis at an index. -/
def arguments (operand : Nat → Check DataType) (close : Nat) : Check (List Argument) := do
  if (← here) = close then return []
  rounds (argumentRound operand close) []

/-- Checks the number of arguments. -/
def checkArity (name : Token) (function : String) (expected found : Nat) : Check Unit := do
  if found ≠ expected then violateAt (.argumentCount function expected found) name

/-- Checks the types of arguments against those of the parameters, counted from an index. -/
def checkTypes : Nat → List Argument → List DataType → Check Unit
  | index, (found, first) :: arguments, expected :: parameters => do
    if found ≠ expected then violateAt (.argumentType index expected found) first
    checkTypes (index + 1) arguments parameters
  | _, _, _ => return

/-- The rest of a call of a declared function after its opening parenthesis. -/
def declaredCall (operand : Nat → Check DataType) (info : FunctionInfo) (name : Token)
    (close : Nat) : Check DataType := do
  let arguments ← arguments operand close
  discard <| expectMark .rightParen
  checkArity name name.lexeme info.parameters.length arguments.length
  checkTypes 1 arguments (info.parameters.map TypedName.type)
  return info.returns

/-- Whether the arguments are the name of an array and nothing else. -/
def wholeArray (close : Nat) : Check Bool := do
  let t ← peek
  if close = (← here) + 1 && t.kind = .identifier then
    return (← resolve t.lexeme).any Symbol.isArray
  else
    return false

/-- The rest of a call of a built-in function after its opening parenthesis.  The length may be
taken of a whole array, which is not an expression. -/
def builtinCall (operand : Nat → Check DataType) (b : Builtin) (name : Token) (close : Nat) :
    Check DataType := do
  if b = .len && (← wholeArray close) then
    discard advance
    discard <| expectMark .rightParen
  else
    let arguments ← arguments operand close
    discard <| expectMark .rightParen
    checkArity name b.name b.arity arguments.length
    checkTypes 1 arguments <| match b with
      | .len => [.string]
      | .scan => []
  return b.returns

/-- Reads a call: what it returns. -/
def call (operand : Nat → Check DataType) : Check DataType := do
  let name ← expect .identifier .functionName
  let callee ← callee name
  let close ← matchingClose (← here)
  discard advance
  match callee with
  | .declared info => declaredCall operand info name close
  | .builtin b => builtinCall operand b name close

end FrontEnd.Check
