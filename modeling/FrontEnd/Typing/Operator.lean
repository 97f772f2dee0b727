import FrontEnd.Typing.DataType

/-!
# Binary operators

The operators that join two operands, how tightly they bind and what they give.  Arithmetic and
comparison take any two numbers, and the result of arithmetic is a double as soon as one of the
two is; everything else wants operands of one type.  Compound assignments stand for the arithmetic
operator in front of their equals sign.
-/

namespace FrontEnd

/-- The operators that may join operands. -/
inductive Operator where
  | add | sub | mul | div | rem | concat
  | equal | notEqual | less | greater | lessEqual | greaterEqual
  | both | either
  deriving DecidableEq

namespace Operator

/-- The operator a token stands for between two operands. -/
def ofKind? : Kind → Option Operator
  | .plus => some add
  | .minus => some sub
  | .star => some mul
  | .slash => some div
  | .percent => some rem
  | .concat => some concat
  | .equal => some equal
  | .notEqual => some notEqual
  | .less => some less
  | .greater => some greater
  | .lessEqual => some lessEqual
  | .greaterEqual => some greaterEqual
  | .both => some both
  | .either => some either
  | _ => none

/-- The operator behind a compound assignment. -/
def ofCompound? : Kind → Option Operator
  | .plusAssign => some add
  | .minusAssign => some sub
  | .starAssign => some mul
  | .slashAssign => some div
  | .percentAssign => some rem
  | _ => none

/-- How an operator is written. -/
def symbol : Operator → String
  | add => "+"
  | sub => "-"
  | mul => "*"
  | div => "/"
  | rem => "%"
  | concat => "`"
  | equal => "=="
  | notEqual => "!="
  | less => "<"
  | greater => ">"
  | lessEqual => "<="
  | greaterEqual => ">="
  | both => "&&"
  | either => "||"

/-- How tightly an operator binds, from one for the loosest to six. -/
def precedence : Operator → Nat
  | either => 1
  | both => 2
  | equal | notEqual => 3
  | less | greater | lessEqual | greaterEqual => 4
  | add | sub | concat => 5
  | mul | div | rem => 6

/-- The tightest binding. -/
def maxPrecedence : Nat := 6

theorem precedence_le (op : Operator) : op.precedence ≤ maxPrecedence := by
  cases op <;> decide

theorem one_le_precedence (op : Operator) : 1 ≤ op.precedence := by
  cases op <;> decide

/-- Whether a zero on the right is refused. -/
def isDivision : Operator → Bool
  | div | rem => true
  | _ => false

/-- The type of an operator applied to operands of two types, if they fit. -/
def resultType (op : Operator) (left right : DataType) : Option DataType :=
  let numbers := left.isNumeric && right.isNumeric
  match op with
  | add | sub | mul | div | rem =>
    if !numbers then none
    else if left = .double || right = .double then some .double
    else some .int
  | concat => if left = .string && right = .string then some .string else none
  | less | greater | lessEqual | greaterEqual => if numbers then some .bool else none
  | equal | notEqual =>
    if numbers || (left = right && left.isPrimitive) then some .bool else none
  | both | either => if left = .bool && right = .bool then some .bool else none

end Operator

end FrontEnd
