import FrontEnd.Check.Call

/-!
# Operands and expressions

An operand is a literal, a name with what may follow it, a call, a parenthesised expression, a
negation or a count before or after a name.  Whatever an operand contains is one level of nesting
deeper, so `operand` recurses on the number of levels that may still be opened.
-/

namespace FrontEnd.Check

/-- The symbol of a name that stands as an operand. -/
def valueSymbol (t : Token) : Check Symbol := do
  match ← resolve t.lexeme with
  | some symbol =>
    match symbol.kind with
    | .function _ => violateAt (.functionWithoutCall symbol.name) t
    | .struct _ => violateAt (.structTypeAsValue symbol.name) t
    | _ => return symbol
  | none =>
    if (Builtin.ofName? t.lexeme).isSome then violateAt (.functionWithoutCall t.lexeme) t
    else violateAt (.undefinedVariable t.lexeme) t

/-- The type of a name that stands as an operand, with the kind of token after it. -/
def nameType (operand : Nat → Check DataType) (symbol : Symbol) (t : Token) (after : Kind) :
    Check DataType := do
  match after with
  | .leftBracket => elementType operand symbol t
  | .dot =>
    let m ← member symbol t
    unless m.initialized do warn (symbol.name ++ "." ++ m.name) t
    return m.type
  | .increment | .decrement =>
    if symbol.isConstant then violateAt (.constantReassignment symbol.name) t
    if symbol.isArray || symbol.type ≠ .int then violateAt (.countRequiresInt symbol.type) t
    discard advance
    return .int
  | _ =>
    if symbol.isArray then violateAt (.arrayWithoutIndex symbol.name) t
    unless symbol.initialized do warn symbol.name t
    return symbol.type

/-- Types an operand that starts with a name. -/
def nameOperand (operand : Nat → Check DataType) (stop : Nat) (t : Token) : Check DataType := do
  let after ← if (← here) + 1 < stop then secondKind else pure .eof
  if after = .leftParen then
    let type ← call operand
    if type = .void then violateAt (.voidInExpression t.lexeme) t
    return type
  else
    let symbol ← valueSymbol t
    discard advance
    nameType operand symbol t after

/-- Types a parenthesised expression. -/
def parenthesised (operand : Nat → Check DataType) (stop : Nat) : Check DataType := do
  let close ← matchingClose (← here)
  if close ≥ stop then violate (.unclosed .leftParen)
  discard advance
  let type ← expressionWith operand close
  discard advance
  return type

/-- Types the operand at the next token of an expression that ends at an index.  What it contains
is typed with the given function. -/
def operandWith (operand : Nat → Check DataType) (stop : Nat) : Check DataType := do
  if (← here) ≥ stop then violate .incompleteExpression
  let t ← peek
  match DataType.ofLiteral? t.kind with
  | some type =>
    discard advance
    return type
  | none =>
    match t.kind with
    | .leftParen => parenthesised operand stop
    | .negation =>
      discard advance
      let found ← operand stop
      if found ≠ .bool then violateAt (.notRequiresBool found) t
      return .bool
    | .increment | .decrement =>
      discard advance
      requireInt (← target operand)
      return .int
    | .identifier => nameOperand operand stop t
    | .rightParen => violate .unexpectedClosingParenthesis
    | .inputWord => violate .inputInExpression
    | _ => violate (.unexpectedToken t.lexeme .expression)

/-- Stops because blocks or expressions are nested too deeply. -/
def tooDeep {α : Type} : Check α := do
  violate (.nestingLimit (← read).limits.nesting)

/-- Types an operand that opens a level of nesting, with a number of levels left. -/
def operand : (levels : Nat) → (stop : Nat) → Check DataType
  | 0, _ => tooDeep
  | levels + 1, stop => operandWith (operand levels) stop

/-- The type of the expression that ends just before an index, with a number of levels left. -/
def expressionType (levels stop : Nat) : Check DataType :=
  expressionWith (operand levels) stop

/-- The type of the expression at the next token, which ends at a terminator. -/
def valueType (levels : Nat) (terminators : List Kind) : Check DataType := do
  expressionType levels (← expressionEnd terminators)

end FrontEnd.Check
