import FrontEnd.Check.Operand

/-!
# Assignments

What may stand after a target: a plain assignment of an expression or of input, a compound
assignment, or a count.  A value must have exactly the type of the target.  A plain assignment
gives the target a value only once its right side is checked; a compound assignment reads the
target first and gives it none.
-/

namespace FrontEnd.Check

/-- Reads input for a target of a type. -/
def inputValue (type : DataType) : Check Unit := do
  let input ← advance
  unless type.isPrimitive do violateAt (.inputTarget type) input
  discard <| expectMark .leftParen
  discard <| expect .stringLit .promptString
  discard <| expectMark .rightParen

/-- Checks that a value may go where a type is wanted. -/
def requireType (wanted value : DataType) (place : Token) : Check Unit := do
  if value ≠ wanted then violateAt (.assignMismatch wanted value) place

/-- The right side of a plain assignment, after its sign. -/
def plainAssignment (levels : Nat) (terminators : List Kind) (t : Target) (sign : Token) :
    Check Unit := do
  if ← next? .inputWord then
    inputValue t.type
  else
    requireType t.type (← valueType levels terminators) sign
  markInitialized t

/-- The right side of a compound assignment, after its sign. -/
def compoundAssignment (levels : Nat) (terminators : List Kind) (op : Operator) (t : Target)
    (sign : Token) : Check Unit := do
  unless t.type.isNumeric do violateAt (.compoundRequiresNumeric sign.kind t.type) sign
  if op.isDivision && (← peek).isZeroLiteral then violate .divisionByZero
  unless t.initialized do warn t.name t.token
  requireType t.type (← valueType levels terminators) sign

/-- Reads what follows a target.  The value ends at a semicolon or at a terminator. -/
def assignmentTail (levels : Nat) (terminators : List Kind) (t : Target) : Check Unit := do
  let sign ← peek
  match sign.kind with
  | .assign =>
    discard advance
    plainAssignment levels terminators t sign
  | .increment | .decrement =>
    discard advance
    requireInt t
  | kind =>
    match Operator.ofCompound? kind with
    | some op =>
      discard advance
      compoundAssignment levels terminators op t sign
    | none => violate (.expectedToken .assignmentOperator sign.lexeme)

end FrontEnd.Check
