import FrontEnd.Check.Assignment

/-!
# Declarations

Variables, constants, arrays and instances of structs.  One declaration names several things,
separated by commas.  A name becomes visible after its own initializer was checked, and before
anything else of its declarator is read it must be free in the innermost scope.

An array has one or two dimensions.  A literal size is at least one and bounds the initializer: it
may not be exceeded, and a constant must fill it.
-/

namespace FrontEnd.Check

/-- The primitive type a token names. -/
def primitiveType? (t : Token) : Option DataType :=
  (DataType.ofWord? t.kind).filter DataType.isPrimitive

/-- Reads the word of a primitive type. -/
def typeWord (wanted : Wanted) : Check DataType := do
  let t ← advance
  match primitiveType? t with
  | some type => return type
  | none => violateAt (.expectedToken wanted t.lexeme) t

/-- Reads the mark after a declarator: whether another one follows. -/
def another : Check Bool := do
  if ← next? .comma then
    discard advance
    return true
  else
    discard <| expect .semicolon (.eitherMark .comma .semicolon)
    return false

/-- Reads a list of declarators, each with the given check. -/
def declarators (one : Check Unit) : Check Unit :=
  rounds (fun _ => do
    one
    return if ← another then .yield () else .done ()) ()

/-! ### Array shapes -/

/-- Reads the literal size of a dimension at a token. -/
def literalSize (t : Token) : Check Dimension := do
  match Text.natural? t.lexeme with
  | none => violateAt (.arraySizeInvalid t.lexeme) t
  | some size =>
    if size = 0 then violateAt (.arraySizeNotPositive t.lexeme) t
    return .literal size

/-- Reads the variable that holds the size of a dimension at a token. -/
def namedSize (t : Token) : Check Dimension := do
  match ← resolve t.lexeme with
  | none => violateAt (.undefinedVariable t.lexeme) t
  | some symbol =>
    if !symbol.isScalar || symbol.type ≠ .int then
      violateAt (.arraySizeType symbol.name symbol.type) t
    unless symbol.initialized do violateAt (.arraySizeUninitialized symbol.name) t
    return .named symbol.name

/-- Reads the size of a dimension. -/
def arraySize : Check Dimension := do
  let t ← advance
  match t.kind with
  | .intLit => literalSize t
  | .negIntLit => violateAt (.arraySizeNotPositive t.lexeme) t
  | .identifier => namedSize t
  | _ => violateAt (.arraySizeInvalid t.lexeme) t

/-- Reads one dimension, brackets included. -/
def dimension : Check Dimension := do
  discard advance
  let size ← arraySize
  discard <| expectMark .rightBracket
  return size

/-- The shape of an array. -/
inductive Shape where
  | row (size : Dimension)
  | table (rows columns : Dimension)

/-- The dimensions of a shape. -/
def Shape.dimensions : Shape → List Dimension
  | row size => [size]
  | table rows columns => [rows, columns]

/-- Reads the shape of an array, the first bracket being the next token. -/
def arrayShape (name : Token) : Check Shape := do
  let first ← dimension
  unless ← next? .leftBracket do return .row first
  let second ← dimension
  if ← next? .leftBracket then violate (.tooManyDimensions name.lexeme)
  return .table first second

/-! ### Array initializers -/

/-- Reads an element: a literal or a scalar that was given a value. -/
def element (type : DataType) : Check Unit := do
  let t ← advance
  match DataType.ofLiteral? t.kind with
  | some found =>
    if found ≠ type then violateAt (.arrayElementType type found.text) t
  | none =>
    if t.kind ≠ .identifier then violateAt (.arrayElementType type t.lexeme) t
    match ← resolve t.lexeme with
    | none => violateAt (.undefinedVariable t.lexeme) t
    | some symbol =>
      if !symbol.isScalar || symbol.type ≠ type then
        violateAt (.arrayElementType type symbol.type.text) t
      unless symbol.initialized do violateAt (.arrayElementUninitialized symbol.name) t

/-- Reads a row of elements between braces: how many there are. -/
def row (type : DataType) : Check Nat := do
  discard <| expectMark .leftBrace
  let mut count := 0
  unless ← next? .rightBrace do
    count ← rounds (fun count => do
      element type
      if ← next? .comma then
        discard advance
        return .yield (count + 1)
      else
        return .done (count + 1)) 0
  discard <| expectMark .rightBrace
  return count

/-- Checks a count against a declared size. -/
def checkCount (size : Dimension) (isConstant : Bool) (count : Nat) (place : Token)
    (tooMany : Nat → Nat → Violation) : Check Unit := do
  match size with
  | .named _ => return
  | .literal size =>
    if count > size then violateAt (tooMany count size) place
    if isConstant && count < size then violateAt (.incompleteConstantArray count size) place

/-- Reads the rows of a table between braces, the opening one being read: how many there are. -/
def rows (type : DataType) (columns : Dimension) (isConstant : Bool) : Check Nat :=
  roundsWhile (return !(← next? .rightBrace)) (fun count => do
    let first ← peek
    let length ← row type
    checkCount columns isConstant length first (.rowTooLong (count + 1))
    if ← next? .comma then
      discard advance
      return .yield (count + 1)
    else
      return .done (count + 1)) 0

/-- Reads the initializer of an array. -/
def arrayInitializer (type : DataType) (isConstant : Bool) : Shape → Check Unit
  | .row size => do
    let first ← peek
    let count ← row type
    checkCount size isConstant count first .tooManyElements
  | .table rowCount columns => do
    let first ← expectMark .leftBrace
    let count ← rows type columns isConstant
    discard <| expectMark .rightBrace
    checkCount rowCount isConstant count first .tooManyRows

/-! ### Declarators -/

/-- Reads the initializer of a variable or constant after its sign. -/
def initializer (levels : Nat) (type : DataType) (sign : Token) : Check Unit := do
  if ← next? .inputWord then
    inputValue type
  else
    requireType type (← valueType levels [.comma]) sign

/-- Reads the shape and initializer of an array: its shape and whether it has a value. -/
def arrayDeclarator (type : DataType) (isConstant : Bool) (name : Token) :
    Check (Shape × Bool) := do
  let shape ← arrayShape name
  if ← next? .assign then
    discard advance
    arrayInitializer type isConstant shape
    return (shape, true)
  else
    if isConstant then violateAt (.constantWithoutInitializer name.lexeme) name
    return (shape, false)

/-- The symbol a declarator declares before its shape and initializer are known. -/
def bareSymbol (type : DataType) (isConstant : Bool) (name : Token) : Symbol :=
  if isConstant then .ofConstant name.lexeme type name.position
  else .ofVariable name.lexeme type name.position

/-- Reads a declarator of a variable or constant. -/
def declarator (levels : Nat) (type : DataType) (isConstant : Bool) : Check Unit := do
  let name ← expect .identifier .name
  if ← declaredHere name.lexeme then violateAt (.redeclaration .var name.lexeme) name
  let bare := bareSymbol type isConstant name
  if ← next? .leftBracket then
    let (shape, initialized) ← arrayDeclarator type isConstant name
    declare { bare with array := some shape.dimensions, initialized := initialized } name
  else if ← next? .assign then
    let sign ← advance
    initializer levels type sign
    declare bare.withValue name
  else
    if isConstant then violateAt (.constantWithoutInitializer name.lexeme) name
    declare bare name

/-- Reads a declaration of variables, from the word of their type. -/
def variableDeclaration (levels : Nat) : Check Unit := do
  let type ← typeWord .dataType
  declarators (declarator levels type false)

/-- Reads a declaration of constants, from the word that makes them constant. -/
def constantDeclaration (levels : Nat) : Check Unit := do
  discard advance
  let type ← typeWord .dataType
  declarators (declarator levels type true)

/-- Reads a declaration of instances of a struct. -/
def instanceDeclaration : Check Unit := do
  discard advance
  let structName ← expect .identifier .structTypeName
  match (← resolve structName.lexeme).map Symbol.kind with
  | some (.struct _) =>
    declarators do
      let name ← expect .identifier .name
      declare (.ofInstance name.lexeme structName.lexeme name.position) name
  | _ => violateAt (.undefinedStruct structName.lexeme) structName

end FrontEnd.Check
