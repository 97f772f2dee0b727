import FrontEnd.Position
import FrontEnd.Typing.DataType

/-!
# Symbols

A symbol is a declared name: a variable, a constant, a function, a struct type or an instance of
one.  What they share is a name, a type, a place, an optional array shape and the mark that a value
was given; what differs is their kind.
-/

namespace FrontEnd

/-- A dimension of an array: a literal size or the name of the variable that holds it. -/
inductive Dimension where
  | literal (size : Nat)
  | named (variableName : String)
  deriving DecidableEq

/-- How a dimension is written between brackets. -/
def Dimension.text : Dimension → String
  | literal size => toString size
  | named variableName => variableName

/-- A parameter of a function or a member of a struct. -/
structure TypedName where
  name : String
  type : DataType
  position : Position
  deriving DecidableEq

/-- A type followed by the name it is given to. -/
def TypedName.text (n : TypedName) : String :=
  n.type.text ++ " " ++ n.name

/-- The tokens of a function's body: from the one after the opening brace up to the closing
brace. -/
structure BodyRange where
  start : Nat
  stop : Nat
  deriving DecidableEq

/-- What is known of a function or of the entry point. -/
structure FunctionInfo where
  returns : DataType
  parameters : List TypedName
  /-- The scope of the parameters and outermost local names. -/
  scope : Nat
  body : BodyRange
  /-- Whether the body, once checked, held a return statement. -/
  hasReturn : Bool
  isEntryPoint : Bool
  deriving DecidableEq

/-- What a name was declared as. -/
inductive SymbolKind where
  | var
  | const
  | function (info : FunctionInfo)
  | struct (members : List TypedName)
  /-- An instance of a struct, with the members that were given a value. -/
  | structInstance (structName : String) (initializedMembers : List String)
  deriving DecidableEq

/-- The word for a kind of symbol in listings. -/
def SymbolKind.label : SymbolKind → String
  | var => "variable"
  | const => "constant"
  | function _ => "function"
  | struct _ => "struct"
  | structInstance _ _ => "struct instance"

/-- A declared name. -/
structure Symbol where
  name : String
  kind : SymbolKind
  type : DataType
  /-- Whether a value was given. -/
  initialized : Bool
  /-- The dimensions, for an array. -/
  array : Option (List Dimension)
  position : Position
  deriving DecidableEq

namespace Symbol

/-- A variable that was given no value yet. -/
def ofVariable (name : String) (type : DataType) (p : Position) : Symbol :=
  ⟨name, .var, type, false, none, p⟩

/-- A constant. -/
def ofConstant (name : String) (type : DataType) (p : Position) : Symbol :=
  ⟨name, .const, type, true, none, p⟩

/-- A function: its type is what it returns. -/
def ofFunction (name : String) (info : FunctionInfo) (p : Position) : Symbol :=
  ⟨name, .function info, info.returns, true, none, p⟩

/-- A struct type: its type is the type of its instances. -/
def ofStruct (name : String) (members : List TypedName) (p : Position) : Symbol :=
  ⟨name, .struct members, .struct name, true, none, p⟩

/-- An instance of a struct, with no member given a value yet. -/
def ofInstance (name structName : String) (p : Position) : Symbol :=
  ⟨name, .structInstance structName [], .struct structName, true, none, p⟩

/-- What is known of a symbol that is a function. -/
def functionInfo? (s : Symbol) : Option FunctionInfo :=
  match s.kind with
  | .function info => some info
  | _ => none

/-- Whether the symbol is a constant. -/
def isConstant (s : Symbol) : Bool :=
  s.kind = .const

/-- Whether the symbol is an array. -/
def isArray (s : Symbol) : Bool :=
  s.array.isSome

/-- Members in the order they stand in the text. -/
def sortedMembers (members : List TypedName) : List TypedName :=
  members.mergeSort fun a b => a.position.le b.position

/-- What a listing adds after the type. -/
def remark (s : Symbol) : String :=
  match s.kind with
  | .function info => " (" ++ ", ".intercalate (info.parameters.map TypedName.text) ++ ")"
  | .struct members =>
    " \x7b " ++ "; ".intercalate ((sortedMembers members).map TypedName.text) ++ " \x7d"
  | .var => if s.initialized then "" else " (uninitialized)"
  | _ => ""

/-- The line that lists a symbol. -/
def text (s : Symbol) : String :=
  let shape := (s.array.getD []).map fun d => "[" ++ d.text ++ "]"
  s.kind.label ++ " " ++ s.name ++ ": " ++ s.type.text ++ String.join shape ++ s.remark
    ++ " @ " ++ s.position.text

end Symbol

end FrontEnd
