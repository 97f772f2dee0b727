import FrontEnd.Position
import FrontEnd.Text.Layout
import FrontEnd.Typing.Operator

/-!
# Violations

Every rule a program can break after scanning, as a cause with the names, types and counts its
wording needs.  A check stops at the first violation; `SemanticError` is a violation at a place.

Three causes are not about the program: the limits on rounds of one loop and on nesting, and the
faults of a check that lost its way, which no scanned program causes.
-/

namespace FrontEnd

/-- What a token should have been. -/
inductive Wanted where
  /-- One mark or word. -/
  | mark (k : Kind)
  /-- One of two marks. -/
  | eitherMark (j k : Kind)
  | functionName | parameterType | parameterName
  | structName | memberType | memberName | structTypeName
  | name | dataType | promptString | assignmentOperator
  deriving DecidableEq

/-- The wording of what was wanted. -/
def Wanted.text : Wanted → String
  | mark k => Text.quoted k.spelling
  | eitherMark j k => Text.quoted j.spelling ++ " or " ++ Text.quoted k.spelling
  | functionName => "a function name"
  | parameterType => "a parameter type"
  | parameterName => "a parameter name"
  | structName => "a struct name"
  | memberType => "a member type"
  | memberName => "a member name"
  | structTypeName => "a struct type name"
  | name => "an identifier"
  | dataType => "a data type"
  | promptString => "a prompt string"
  | assignmentOperator => "an assignment operator"

/-- What a name was declared as a second time. -/
inductive Redeclared where
  | function | parameter | struct | var
  deriving DecidableEq

/-- The word for a declaration made twice. -/
def Redeclared.text : Redeclared → String
  | function => "Function"
  | parameter => "Parameter"
  | struct => "Struct"
  | var => "Variable"

/-- A statement that is guarded by a condition. -/
inductive Guarded where
  | ifBlock | elseIfBlock | whileLoop | doLoop
  deriving DecidableEq

/-- The word for a guarded statement. -/
def Guarded.text : Guarded → String
  | ifBlock => "f"
  | elseIfBlock => "lsf"
  | whileLoop => "whl"
  | doLoop => "d-whl"

/-- The two clauses of a loop header that name a variable. -/
inductive ForClause where
  | start | update
  deriving DecidableEq

/-- The word for a clause of a loop header. -/
def ForClause.text : ForClause → String
  | start => "initialization"
  | update => "update"

/-- A block of a switch. -/
inductive CaseBlock where
  | labelled (label : String)
  | default
  deriving DecidableEq

/-- The wording of a block of a switch. -/
def CaseBlock.text : CaseBlock → String
  | labelled label => "case '" ++ label ++ "'"
  | default => "default case"

/-- Where a token does not belong. -/
inductive Setting where
  | expression | statement | switchBody | forHeader
  deriving DecidableEq

/-- The wording of a setting. -/
def Setting.text : Setting → String
  | expression => "expression"
  | statement => "statement"
  | switchBody => "switch body"
  | forHeader => "for loop header"

/-- How a check can lose its way. -/
inductive Lost where
  /-- A closing bracket was looked for where none is open. -/
  | noBracket (index : Nat)
  /-- A global name that was free is taken. -/
  | declaredTwice (name : String)
  /-- A function stands where the headers recorded none. -/
  | bodyNotRecorded
  /-- A recorded function has no symbol. -/
  | noSignature (name : String)
  /-- A body stopped before its closing brace. -/
  | bodyEndedEarly (name : String)
  deriving DecidableEq

/-- The wording of a check that lost its way. -/
def Lost.text : Lost → String
  | noBracket index => "no bracket at token " ++ toString index
  | declaredTwice name => "global '" ++ name ++ "' was declared twice"
  | bodyNotRecorded => "function body was not recorded"
  | noSignature name => "no signature for '" ++ name ++ "'"
  | bodyEndedEarly name => "body of '" ++ name ++ "' ended early"

/-- A rule that is broken. -/
inductive Violation where
  -- declarations
  | redeclaration (what : Redeclared) (name : String)
  | duplicateMember (structName member : String)
  | duplicateEntryPoint
  | missingEntryPoint
  | invalidReturnType (found : String)
  | constantWithoutInitializer (name : String)
  | structOutsideGlobal
  | functionOutsideGlobal
  -- references
  | undefinedVariable (name : String)
  | undefinedFunction (name : String)
  | undefinedStruct (name : String)
  | notAFunction (name : String)
  | notAVariable (name : String)
  | notAnArray (name : String)
  | notAStructInstance (name : String)
  | noSuchMember (structName member : String)
  | functionWithoutCall (name : String)
  | structTypeAsValue (name : String)
  | arrayWithoutIndex (name : String)
  | wrongIndexCount (name : String) (dimensions : Nat)
  | argumentCount (function : String) (expected found : Nat)
  | argumentType (index : Nat) (expected found : DataType)
  -- types
  | assignMismatch (target value : DataType)
  | operatorMismatch (operator : Operator) (left right : DataType)
  | notRequiresBool (found : DataType)
  | voidInExpression (name : String)
  | conditionType (construct : Guarded) (found : DataType)
  | forConditionType (found : DataType)
  | forVariableType (clause : ForClause) (found : DataType)
  | forUpdate
  | constantReassignment (name : String)
  | countRequiresInt (found : DataType)
  | compoundRequiresNumeric (operator : Kind) (found : DataType)
  | inputTarget (found : DataType)
  | inputInExpression
  | divisionByZero
  -- arrays
  | arraySizeInvalid (found : String)
  | arraySizeType (name : String) (found : DataType)
  | arraySizeUninitialized (name : String)
  | arraySizeNotPositive (size : String)
  | tooManyDimensions (name : String)
  | arrayElementType (expected : DataType) (found : String)
  | arrayElementUninitialized (name : String)
  | tooManyElements (count size : Nat)
  | rowTooLong (row count size : Nat)
  | tooManyRows (count rows : Nat)
  | incompleteConstantArray (count size : Nat)
  | indexType (found : DataType)
  | indexOutOfBounds (index : Int) (size : Nat)
  -- control flow
  | conditionalWithoutIf (keyword : Kind)
  | switchSelectorType (found : DataType)
  | caseLabelType (expected : DataType) (found : String)
  | duplicateCaseLabel (label : String)
  | missingBreak (block : CaseBlock)
  | multipleDefaults
  | nestedSwitch
  | caseOutsideSwitch (keyword : Kind)
  | breakOutsideLoop
  | continueOutsideLoop
  | continueInSwitch
  | returnOutsideFunction
  | voidReturnsValue (function : String)
  | missingReturnValue (function : String) (expected : DataType)
  | returnTypeMismatch (expected found : DataType)
  | missingReturn (function : String) (expected : DataType)
  | entryPointReturn
  | misplacedEnd
  -- structure
  | expectedToken (wanted : Wanted) (found : String)
  | unexpectedToken (found : String) (setting : Setting)
  | unexpectedClosingParenthesis
  | unclosed (delimiter : Kind)
  | incompleteExpression
  | missingRightOperand (operator : Operator)
  | unexpectedEnd
  -- limits
  | scanLimit (limit : Nat)
  | nestingLimit (limit : Nat)
  | lost (how : Lost)
  deriving DecidableEq

namespace Violation

open Text (quoted)

/-- The wording of a violation. -/
def message : Violation → String
  | redeclaration what name => what.text ++ " " ++ quoted name ++ " already declared"
  | duplicateMember structName member =>
    "Duplicate member " ++ quoted member ++ " in struct " ++ quoted structName
  | duplicateEntryPoint => "Entry point 'mn' already declared"
  | missingEntryPoint => "Missing entry point 'mn'"
  | invalidReturnType found => "Expected return type or 'vd', got " ++ quoted found
  | constantWithoutInitializer name => "Constant " ++ quoted name ++ " must be initialized"
  | structOutsideGlobal => "Struct declarations are only allowed at global scope"
  | functionOutsideGlobal => "Functions can only be declared at global scope"
  | undefinedVariable name => "Undefined variable " ++ quoted name
  | undefinedFunction name => "Undefined function " ++ quoted name
  | undefinedStruct name => "Undefined struct type " ++ quoted name
  | notAFunction name => quoted name ++ " is not a function"
  | notAVariable name => quoted name ++ " is not a variable"
  | notAnArray name => "Variable " ++ quoted name ++ " is not an array"
  | notAStructInstance name => "Variable " ++ quoted name ++ " is not a struct instance"
  | noSuchMember structName member =>
    "Struct " ++ quoted structName ++ " has no member " ++ quoted member
  | functionWithoutCall name => "Function " ++ quoted name ++ " used without parentheses"
  | structTypeAsValue name => "Struct type " ++ quoted name ++ " cannot be used as a value"
  | arrayWithoutIndex name => "Array " ++ quoted name ++ " used without an index"
  | wrongIndexCount name dimensions =>
    "Array " ++ quoted name ++ " has " ++ toString dimensions ++ " dimension(s)"
  | argumentCount function expected found =>
    "Function " ++ quoted function ++ " expects " ++ toString expected ++ " arguments, got "
      ++ toString found
  | argumentType index expected found =>
    "Argument " ++ toString index ++ " type mismatch: expected " ++ quoted expected.text
      ++ ", got " ++ quoted found.text
  | assignMismatch target value =>
    "Type mismatch: Cannot assign " ++ quoted value.text ++ " to " ++ quoted target.text
  | operatorMismatch operator left right =>
    "Type mismatch: Cannot apply " ++ quoted operator.symbol ++ " to " ++ quoted left.text
      ++ " and " ++ quoted right.text
  | notRequiresBool found =>
    "Type mismatch: Cannot apply '!' to non-boolean type " ++ quoted found.text
  | voidInExpression name =>
    "Void function " ++ quoted name ++ " cannot be used in an expression"
  | conditionType construct found =>
    "Condition in " ++ quoted construct.text ++ " statement must be of type 'bln' or 'nt', got "
      ++ quoted found.text
  | forConditionType found =>
    "For loop condition must be of type 'bln', got " ++ quoted found.text
  | forVariableType clause found =>
    "Variable in for loop " ++ clause.text ++ " must be of type 'nt', got " ++ quoted found.text
  | forUpdate => "Expected increment, decrement or compound assignment in for loop update"
  | constantReassignment name => "Cannot reassign constant " ++ quoted name
  | countRequiresInt found =>
    "Increment/decrement operators can only be applied to 'nt' variables, not "
      ++ quoted found.text
  | compoundRequiresNumeric operator found =>
    "Shortcut assignment operator " ++ quoted operator.spelling
      ++ " can only be applied to numeric types, not " ++ quoted found.text
  | inputTarget found =>
    "Input can only be assigned to a primitive target, not " ++ quoted found.text
  | inputInExpression => "'npt' can only be used as the value of an assignment"
  | divisionByZero => "Division by zero"
  | arraySizeInvalid found =>
    "Array size must be an integer literal or variable, got " ++ quoted found
  | arraySizeType name found =>
    "Array size variable " ++ quoted name ++ " must be of type 'nt', got " ++ quoted found.text
  | arraySizeUninitialized name =>
    "Uninitialized variable " ++ quoted name ++ " used as array size"
  | arraySizeNotPositive size => "Array size must be positive, got " ++ size
  | tooManyDimensions name => "Array " ++ quoted name ++ " may have at most 2 dimensions"
  | arrayElementType expected found =>
    "Type mismatch: Array element must be " ++ quoted expected.text ++ ", got " ++ quoted found
  | arrayElementUninitialized name =>
    "Uninitialized variable " ++ quoted name ++ " used as array element"
  | tooManyElements count size =>
    "Array initialization has " ++ toString count ++ " elements, but array size is "
      ++ toString size
  | rowTooLong row count size =>
    "Row " ++ toString row ++ " has " ++ toString count
      ++ " elements, but array column size is " ++ toString size
  | tooManyRows count rows =>
    "Array initialization has " ++ toString count ++ " rows, but array row size is "
      ++ toString rows
  | incompleteConstantArray count size =>
    "Constant array must initialize all " ++ toString size ++ " elements, but only "
      ++ toString count ++ " provided"
  | indexType found => "Array index must be of type 'nt', got " ++ quoted found.text
  | indexOutOfBounds index size =>
    "Array index " ++ toString index ++ " out of bounds (size " ++ toString size ++ ")"
  | conditionalWithoutIf keyword => quoted keyword.spelling ++ " without a matching 'f'"
  | switchSelectorType found =>
    "Switch expression must be of type 'nt' or 'chr', got " ++ quoted found.text
  | caseLabelType expected found =>
    "Case label must be of type " ++ quoted expected.text ++ ", got " ++ quoted found
  | duplicateCaseLabel label => "Duplicate case label " ++ quoted label
  | missingBreak block => "Missing 'brk' statement at end of " ++ block.text
  | multipleDefaults => "Multiple default cases are not allowed"
  | nestedSwitch => "Nested switch statements are not allowed"
  | caseOutsideSwitch keyword => quoted keyword.spelling ++ " outside of a 'swtch' body"
  | breakOutsideLoop => "'brk' statement outside of a loop or switch"
  | continueOutsideLoop => "'cntn' statement outside of a loop"
  | continueInSwitch => "'cntn' cannot be used directly inside a 'swtch'"
  | returnOutsideFunction => "'rtrn' statement outside of a function body"
  | voidReturnsValue function => "Void function " ++ quoted function ++ " cannot return a value"
  | missingReturnValue function expected =>
    "Function " ++ quoted function ++ " with return type " ++ quoted expected.text
      ++ " must return a value"
  | returnTypeMismatch expected found =>
    "Return type mismatch: expected " ++ quoted expected.text ++ ", got " ++ quoted found.text
  | missingReturn function expected =>
    "Function " ++ quoted function ++ " with return type " ++ quoted expected.text
      ++ " must have a return statement"
  | entryPointReturn => "'mn' may only return 0 or nothing"
  | misplacedEnd => "'end' is only allowed as the last statement of 'mn'"
  | expectedToken wanted found => "Expected " ++ wanted.text ++ ", got " ++ quoted found
  | unexpectedToken found setting => "Unexpected token " ++ quoted found ++ " in " ++ setting.text
  | unexpectedClosingParenthesis => "Unexpected closing parenthesis"
  | unclosed delimiter => "Unclosed " ++ quoted delimiter.spelling
  | incompleteExpression => "Incomplete expression: expecting operand"
  | missingRightOperand operator =>
    "Incomplete expression: missing right operand for " ++ quoted operator.symbol
  | unexpectedEnd => "Unexpected end of input"
  | scanLimit limit =>
    "Internal error: scan limit of " ++ toString limit ++ " iterations exceeded"
  | nestingLimit limit =>
    "Internal error: nesting deeper than " ++ toString limit ++ " levels"
  | lost how => "Internal error: " ++ how.text

end Violation

/-- A violation at a place. -/
structure SemanticError where
  /-- The rule that is broken. -/
  violation : Violation
  /-- Where. -/
  position : Position
  deriving DecidableEq

/-- The diagnostic for a violation. -/
def SemanticError.message (e : SemanticError) : String :=
  "Semantic Error at " ++ e.position.text ++ ": " ++ e.violation.message

end FrontEnd
