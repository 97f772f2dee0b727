import FrontEnd.Token.Kind

/-!
# Nonterminals of the grammar

The syntactic categories.  Those that exist once for every primitive type, such as the initializer
of a variable or the elements of an array, take the type as a parameter.  Each category has a name
in angle brackets, which the syntax trace and diagnostics show; no two share one.
-/

namespace FrontEnd

/-- The five primitive types, as the grammar tells declarations apart. -/
inductive Primitive where
  | int | double | bool | char | string
  deriving DecidableEq

namespace Primitive

/-- Every primitive type. -/
def all : List Primitive := [int, double, bool, char, string]

/-- The part of a category's name that tells the type. -/
def tag : Primitive → String
  | int => "nt"
  | double => "dbl"
  | bool => "bln"
  | char => "chr"
  | string => "str"

/-- The reserved word of the type. -/
def word : Primitive → Kind
  | int => .intWord
  | double => .doubleWord
  | bool => .boolWord
  | char => .charWord
  | string => .stringWord

/-- The literals of the type. -/
def literals : Primitive → List Kind
  | int => [.intLit, .negIntLit]
  | double => [.doubleLit, .negDoubleLit]
  | bool => [.boolLit]
  | char => [.charLit]
  | string => [.stringLit]

end Primitive

/-- The syntactic categories. -/
inductive Nonterminal where
  | program | globalDeclarations | declarations | typedVariables
  | value (t : Primitive) | moreValues (t : Primitive)
  | boolValue | charValue | stringValue
  | intArithmetic | intOperand | intLiteral | doubleLiteral | moreIntArithmetic
  | countedName | countedNameTail | countSign
  | arithmeticOperator | logicalOperator | relationalOperator
  | nameUse | nameUseTail | place | placeTail
  | arrayAccess | index | secondIndex | memberAccess
  | call | arguments | argument | moreArguments
  | expression | operandChain | operand | operandTail
  | doubleArithmetic | numericOperand | moreDoubleArithmetic
  | concatenation | concatenated | moreConcatenation
  | arraySize
  | arrayDeclaration (t : Primitive) | arrayInitializer (t : Primitive)
  | elements (t : Primitive) | element (t : Primitive) | moreElements (t : Primitive)
  | rowsInitializer (t : Primitive) | rows (t : Primitive) | moreRows (t : Primitive)
  | constants | typedConstants | constantSize
  | constantInitializer (t : Primitive) | constantValue (t : Primitive)
  | moreConstants (t : Primitive)
  | constantArray (t : Primitive) | constantArrayInitializer (t : Primitive)
  | moreInstances | structDeclaration | structBody | structMember | moreMembers
  | functions | returnType | dataType | parameters | moreParameters | localVariables
  | statements | nameStatement | nameStatementTail | assignment | assignOperator
  | assignedValue | assignedValueOrInput | inputCall | countStatement
  | output | outputValue | moreOutput
  | conditional | condition | elseIfBlocks | elseBlock
  | switchBody | cases | caseLabel | moreCases | defaultCase
  | forLoop | forStart | forCondition | forStep | forStepTail | forStepBefore | forStepValue
  | doLoop | whileLoop
  | returnStatement | returnValue | jump
  deriving DecidableEq

namespace Nonterminal

/-- The name of a category, in angle brackets. -/
def name : Nonterminal → String
  | program => "<program>"
  | globalDeclarations => "<global_declaration>"
  | declarations => "<declaration>"
  | typedVariables => "<var_dec>"
  | value t => "<" ++ t.tag ++ "_value>"
  | moreValues t => "<" ++ t.tag ++ "_value_next>"
  | boolValue => "<equals_bln_val>"
  | charValue => "<equals_chr_val>"
  | stringValue => "<equals_str_val>"
  | intArithmetic => "<arithmetic_nt>"
  | intOperand => "<nt_math_val>"
  | intLiteral => "<ntliterals>"
  | doubleLiteral => "<dblliterals>"
  | moreIntArithmetic => "<arithmetic_nt_next>"
  | countedName => "<unary_entities>"
  | countedNameTail => "<unary_next>"
  | countSign => "<unary_inc/dec>"
  | arithmeticOperator => "<arithmetic_operator>"
  | logicalOperator => "<logical_operator>"
  | relationalOperator => "<relational_operator>"
  | nameUse => "<entities>"
  | nameUseTail => "<id_entity_next>"
  | place => "<id_build>"
  | placeTail => "<id_next>"
  | arrayAccess => "<array_access>"
  | index => "<index>"
  | secondIndex => "<index_next>"
  | memberAccess => "<strct_elem_access>"
  | call => "<function_call>"
  | arguments => "<arguments>"
  | argument => "<args_value>"
  | moreArguments => "<args_next>"
  | expression => "<expression>"
  | operandChain => "<rel_arith_logic_expr>"
  | operand => "<operands>"
  | operandTail => "<operand_next>"
  | doubleArithmetic => "<arithmetic>"
  | numericOperand => "<math_value>"
  | moreDoubleArithmetic => "<arithmetic_next>"
  | concatenation => "<strng_concat>"
  | concatenated => "<strng_concat_val>"
  | moreConcatenation => "<strng_concat_next>"
  | arraySize => "<array_size>"
  | arrayDeclaration t => "<" ++ t.tag ++ "_array_dec>"
  | arrayInitializer t => "<" ++ t.tag ++ "_array_initializer>"
  | elements t => "<" ++ t.tag ++ "_array_elem>"
  | element t => "<" ++ t.tag ++ "_array_elem_val>"
  | moreElements t => "<" ++ t.tag ++ "_array_init_next>"
  | rowsInitializer t => "<" ++ t.tag ++ "_2d_init>"
  | rows t => "<" ++ t.tag ++ "_array2d_elem>"
  | moreRows t => "<" ++ t.tag ++ "_array_elem_next>"
  | constants => "<cnst_dec>"
  | typedConstants => "<cnst_dec_data_type>"
  | constantSize => "<cnst_array_size>"
  | constantInitializer t => "<" ++ t.tag ++ "_cnst_initializer>"
  | constantValue t => "<" ++ t.tag ++ "_cnst_init_val>"
  | moreConstants t => "<" ++ t.tag ++ "_cnst_next>"
  | constantArray t => "<cnst_" ++ t.tag ++ "_array_dec>"
  | constantArrayInitializer t => "<cnst_" ++ t.tag ++ "_array_initializer>"
  | moreInstances => "<strct_init_next>"
  | structDeclaration => "<strct_declaration>"
  | structBody => "<strct_body>"
  | structMember => "<strct_var_dec>"
  | moreMembers => "<var_dec_next>"
  | functions => "<function_definition>"
  | returnType => "<func_type>"
  | dataType => "<data_type>"
  | parameters => "<parameter>"
  | moreParameters => "<parameter_next>"
  | localVariables => "<func_var_dec>"
  | statements => "<statement>"
  | nameStatement => "<id_build_statements>"
  | nameStatementTail => "<id_build_statement_next>"
  | assignment => "<assignment_statement>"
  | assignOperator => "<assign_operator>"
  | assignedValue => "<assignment_value>"
  | assignedValueOrInput => "<assignment_value_input>"
  | inputCall => "<input_statement_value>"
  | countStatement => "<unary_pre_statement>"
  | output => "<output_statement>"
  | outputValue => "<output_value>"
  | moreOutput => "<output_next>"
  | conditional => "<conditional_statement>"
  | condition => "<condition>"
  | elseIfBlocks => "<lsf_statement>"
  | elseBlock => "<ls_statement>"
  | switchBody => "<swtch_body>"
  | cases => "<cs>"
  | caseLabel => "<swtch_value>"
  | moreCases => "<cs_next>"
  | defaultCase => "<dflt>"
  | forLoop => "<fr_statement>"
  | forStart => "<initialization>"
  | forCondition => "<fr_condi>"
  | forStep => "<inc/dec>"
  | forStepTail => "<inc/dec_next>"
  | forStepBefore => "<fr_unary>"
  | forStepValue => "<inc/dec_value>"
  | doLoop => "<d-whl_statement>"
  | whileLoop => "<whl_statement>"
  | returnStatement => "<rtrn_statement>"
  | returnValue => "<rtrn_value>"
  | jump => "<control_statements>"

/-- The categories that exist once. -/
def plain : List Nonterminal :=
  [program, globalDeclarations, declarations, typedVariables, boolValue, charValue, stringValue,
   intArithmetic, intOperand, intLiteral, doubleLiteral, moreIntArithmetic,
   countedName, countedNameTail, countSign,
   arithmeticOperator, logicalOperator, relationalOperator,
   nameUse, nameUseTail, place, placeTail, arrayAccess, index, secondIndex, memberAccess,
   call, arguments, argument, moreArguments,
   expression, operandChain, operand, operandTail,
   doubleArithmetic, numericOperand, moreDoubleArithmetic,
   concatenation, concatenated, moreConcatenation, arraySize,
   constants, typedConstants, constantSize,
   moreInstances, structDeclaration, structBody, structMember, moreMembers,
   functions, returnType, dataType, parameters, moreParameters, localVariables,
   statements, nameStatement, nameStatementTail, assignment, assignOperator,
   assignedValue, assignedValueOrInput, inputCall, countStatement,
   output, outputValue, moreOutput,
   conditional, condition, elseIfBlocks, elseBlock,
   switchBody, cases, caseLabel, moreCases, defaultCase,
   forLoop, forStart, forCondition, forStep, forStepTail, forStepBefore, forStepValue,
   doLoop, whileLoop, returnStatement, returnValue, jump]

/-- The categories that exist once for every primitive type. -/
def families : List (Primitive → Nonterminal) :=
  [value, moreValues, arrayDeclaration, arrayInitializer, elements, element, moreElements,
   rowsInitializer, rows, moreRows, constantInitializer, constantValue, moreConstants,
   constantArray, constantArrayInitializer]

/-- Every category. -/
def all : List Nonterminal :=
  plain ++ families.flatMap fun family => Primitive.all.map family

theorem mem_all (A : Nonterminal) : A ∈ all := by
  cases A
  case value t | moreValues t | arrayDeclaration t | arrayInitializer t | elements t | element t
    | moreElements t | rowsInitializer t | rows t | moreRows t | constantInitializer t
    | constantValue t | moreConstants t | constantArray t | constantArrayInitializer t =>
    cases t <;> decide +kernel
  all_goals decide +kernel

/-- The category with a given name. -/
def ofName? (s : String) : Option Nonterminal :=
  all.find? fun A => A.name == s

end Nonterminal

end FrontEnd
