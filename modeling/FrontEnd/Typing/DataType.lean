import FrontEnd.Token.Kind

/-!
# Data types

There are five primitive types, the type without values that a function may return, and one type
for every struct.  Nothing converts from one declared type to another.
-/

namespace FrontEnd

/-- The type of a symbol or of an expression. -/
inductive DataType where
  | int | double | bool | char | string | void
  /-- The instances of the struct of a name. -/
  | struct (name : String)
  deriving DecidableEq, Inhabited

namespace DataType

/-- How a type is written. -/
def text : DataType → String
  | int => "nt"
  | double => "dbl"
  | bool => "bln"
  | char => "chr"
  | string => "strng"
  | void => "vd"
  | struct name => name

/-- The type a word names. -/
def ofWord? : Kind → Option DataType
  | .intWord => some int
  | .doubleWord => some double
  | .boolWord => some bool
  | .charWord => some char
  | .stringWord => some string
  | .voidWord => some void
  | _ => none

/-- The type of a literal.  The null literal has none. -/
def ofLiteral? : Kind → Option DataType
  | .intLit | .negIntLit => some int
  | .doubleLit | .negDoubleLit => some double
  | .stringLit => some string
  | .charLit => some char
  | .boolLit => some bool
  | _ => none

/-- Whether the values of a type are numbers. -/
def isNumeric : DataType → Bool
  | int | double => true
  | _ => false

/-- Whether a type is one of the five primitive ones. -/
def isPrimitive : DataType → Bool
  | void | struct _ => false
  | _ => true

end DataType

end FrontEnd
