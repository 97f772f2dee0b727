import FrontEnd.Typing.DataType

/-!
# Built-in functions

The functions every program may call without declaring them.
-/

namespace FrontEnd

/-- A built-in function. -/
inductive Builtin where
  /-- The length of a string or an array. -/
  | len
  /-- A line of input. -/
  | scan
  deriving DecidableEq

namespace Builtin

/-- The built-in function of a name. -/
def ofName? : String → Option Builtin
  | "len" => some len
  | "scan" => some scan
  | _ => none

/-- The name it is called by. -/
def name : Builtin → String
  | len => "len"
  | scan => "scan"

/-- How many arguments it takes. -/
def arity : Builtin → Nat
  | len => 1
  | scan => 0

/-- What it returns. -/
def returns : Builtin → DataType
  | len => .int
  | scan => .string

end Builtin

end FrontEnd
