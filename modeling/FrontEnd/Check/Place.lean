import FrontEnd.Check.Expression
import FrontEnd.Check.Names

/-!
# Elements, members and targets

What may follow a name: indices after an array, a member after an instance of a struct.  A target
is a name that may be written to, with what follows it.

Indices are expressions one level deeper; their operands are a parameter.
-/

namespace FrontEnd

/-- The part of a symbol that a target stands for. -/
inductive Part where
  | whole
  | element
  | member (name : String)

/-- A name that may be written to. -/
structure Target where
  name : String
  /-- The type of what is written. -/
  type : DataType
  part : Part
  /-- Whether a value was given before. -/
  initialized : Bool
  /-- The token of the name. -/
  token : Token

namespace Check

/-- Checks a literal index against a literal size. -/
def checkLiteralIndex (index : Token) (size : Dimension) : Check Unit := do
  match size with
  | .named _ => return
  | .literal size =>
    if index.kind = .intLit || index.kind = .negIntLit then
      match Text.integer? index.lexeme with
      | none => return
      | some value =>
        if value < 0 || value ≥ (size : Int) then violateAt (.indexOutOfBounds value size) index

/-- Reads the index of one dimension, brackets included. -/
def oneIndex (operand : Nat → Check DataType) (size : Dimension) : Check Unit := do
  let close ← matchingClose (← here)
  discard advance
  let index ← peek
  if close = (← here) + 1 then checkLiteralIndex index size
  let found ← expressionWith operand close
  if found ≠ .int then violateAt (.indexType found) index
  discard advance

/-- Reads one index for each dimension. -/
def indices (operand : Nat → Check DataType) (wrongCount : Check Unit) :
    List Dimension → Check Unit
  | [] => return
  | size :: sizes => do
    unless ← next? .leftBracket do wrongCount
    oneIndex operand size
    indices operand wrongCount sizes

/-- Reads the indices after the name of an array: the type of the element. -/
def elementType (operand : Nat → Check DataType) (symbol : Symbol) (name : Token) :
    Check DataType := do
  match symbol.array with
  | none => violateAt (.notAnArray symbol.name) name
  | some sizes =>
    let wrongCount : Check Unit :=
      violateAt (.wrongIndexCount symbol.name sizes.length) name
    indices operand wrongCount sizes
    if ← next? .leftBracket then wrongCount
    return symbol.type

/-- A member that was found after an instance of a struct. -/
structure Member where
  name : String
  type : DataType
  /-- Whether the member was given a value. -/
  initialized : Bool

/-- Reads the member after the name of an instance.  The struct is found by its name from here. -/
def member (symbol : Symbol) (name : Token) : Check Member := do
  match symbol.kind with
  | .structInstance structName initializedMembers =>
    discard <| expectMark .dot
    let t ← expect .identifier .memberName
    match (← resolve structName).map Symbol.kind with
    | some (.struct members) =>
      match members.find? fun m => m.name == t.lexeme with
      | some m => return ⟨t.lexeme, m.type, initializedMembers.contains t.lexeme⟩
      | none => violateAt (.noSuchMember structName t.lexeme) t
    | _ => violateAt (.undefinedStruct structName) name
  | _ => violateAt (.notAStructInstance symbol.name) name

/-- The symbol of a name that may be written to. -/
def writable (t : Token) : Check Symbol := do
  match ← resolve t.lexeme with
  | none => violateAt (.undefinedVariable t.lexeme) t
  | some symbol =>
    if !symbol.isValue then violateAt (.notAVariable symbol.name) t
    if symbol.isConstant then violateAt (.constantReassignment symbol.name) t
    return symbol

/-- Reads a target: a variable, an element of an array or a member of an instance. -/
def target (operand : Nat → Check DataType) : Check Target := do
  let t ← expect .identifier .name
  let symbol ← writable t
  match ← peekKind with
  | .leftBracket =>
    return ⟨symbol.name, ← elementType operand symbol t, .element, symbol.initialized, t⟩
  | .dot =>
    let m ← member symbol t
    return ⟨symbol.name, m.type, .member m.name, m.initialized, t⟩
  | _ =>
    if symbol.isArray then violateAt (.arrayWithoutIndex symbol.name) t
    return ⟨symbol.name, symbol.type, .whole, symbol.initialized, t⟩

/-- Checks that a target can be counted up or down. -/
def requireInt (t : Target) : Check Unit := do
  if t.type ≠ .int then violateAt (.countRequiresInt t.type) t.token

/-- Records that a target was given a value. -/
def markInitialized (t : Target) : Check Unit :=
  modifySymbol t.name <| match t.part with
    | .member name => Symbol.withMember name
    | _ => Symbol.withValue

end Check

end FrontEnd
