import FrontEnd.Check.Brackets
import FrontEnd.Check.Rounds
import FrontEnd.Text.Number

/-!
# Typing a chain of operands

An expression stands on a stretch of tokens that ends at a known index.  It is a chain of operands
joined by binary operators, typed in one walk: every operator is applied as soon as its right side
is complete, and the right side takes in only operators that bind more tightly.

Operands are a parameter here: what an operand is may involve further expressions, one level of
nesting deeper.
-/

namespace FrontEnd

/-- Whether a token is a literal zero.  A negative literal is none: scanning writes zero without a
sign. -/
def Token.isZeroLiteral (t : Token) : Bool :=
  match t.kind with
  | .intLit => t.lexeme == "0"
  | .doubleLit => Text.isZeroDecimal t.lexeme
  | _ => false

namespace Check

/-- Reads the operator at the next token, unless it binds more loosely than the floor, and checks
that an operand other than a zero to divide by follows. -/
def operator? (stop floor : Nat) : Check (Option (Operator × Token)) := do
  let t ← peek
  match Operator.ofKind? t.kind with
  | none => return none
  | some op =>
    if op.precedence < floor then return none
    discard advance
    if (← here) ≥ stop then violateAt (.missingRightOperand op) t
    if op.isDivision && (← peek).isZeroLiteral then violate .divisionByZero
    return some (op, t)

/-- Applies an operator, which stands at a token, to operands of two types. -/
def apply (op : Operator) (t : Token) (left right : DataType) : Check DataType :=
  match op.resultType left right with
  | some result => return result
  | none => violateAt (.operatorMismatch op left right) t

/-- One round of a chain: an operator and its right side, for operators that bind at least as
tightly as the floor. -/
def chainRound (rightSide : Nat → Check DataType) (stop floor : Nat) (left : DataType) :
    Check (ForInStep DataType) := do
  match ← operator? stop floor with
  | none => return .done left
  | some (op, t) =>
    let right ← rightSide (op.precedence + 1)
    return .yield (← apply op t left right)

/-- Types a chain up to an index, taking in the operators that bind at least as tightly as the
floor.  There are at most `levels` precedences from the floor on. -/
def chain (operand : Nat → Check DataType) (stop : Nat) : (levels floor : Nat) → Check DataType
  | 0, floor => do
    roundsWhile (return (← here) < stop) (chainRound (fun _ => operand stop) stop floor)
      (← operand stop)
  | levels + 1, floor => do
    roundsWhile (return (← here) < stop) (chainRound (chain operand stop levels) stop floor)
      (← operand stop)

/-- The type of the expression that ends just before an index.  On success the walk is at that
index or, if an operand reached past it, beyond. -/
def expressionWith (operand : Nat → Check DataType) (stop : Nat) : Check DataType := do
  if (← here) ≥ stop then violate .incompleteExpression
  let type ← chain operand stop (Operator.maxPrecedence + 1) 0
  if (← here) < stop then
    let t ← peek
    if t.kind = .rightParen then violate .unexpectedClosingParenthesis
    else violate (.unexpectedToken t.lexeme .expression)
  return type

end Check

end FrontEnd
