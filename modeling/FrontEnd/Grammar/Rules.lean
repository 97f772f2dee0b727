import FrontEnd.Grammar.Nonterminal

/-!
# The grammar

Every category has a few rules.  A rule is chosen by the next terminal: it says for which
lookaheads it applies and what the category is replaced by, a row of terminals and categories; an
empty row makes the category vanish.  The lookaheads of the rules of one category do not overlap,
so at most one rule applies and the grammar is parsed without backtracking.

`production A k` is the row for category `A` before terminal `k`; `expected A` lists the terminals
that have one.
-/

namespace FrontEnd

/-- A terminal or a category, in a rule or on the parse stack. -/
inductive GrammarSymbol where
  | terminal (k : Kind)
  | nonterminal (A : Nonterminal)
  deriving DecidableEq

instance : Coe Kind GrammarSymbol := ⟨.terminal⟩
instance : Coe Nonterminal GrammarSymbol := ⟨.nonterminal⟩

/-- The wording of a grammar symbol: a spelling or a name in angle brackets. -/
def GrammarSymbol.text : GrammarSymbol → String
  | terminal k => k.spelling
  | nonterminal A => A.name

/-- A rule of one category. -/
structure Rule where
  /-- The terminals before which the rule applies. -/
  lookaheads : List Kind
  /-- What the category is replaced by. -/
  body : List GrammarSymbol

namespace Grammar

open Kind Nonterminal

/-- The words of the primitive types. -/
def typeWords : List Kind := [intWord, doubleWord, boolWord, charWord, stringWord]

/-- What an expression may begin with. -/
def expressionStart : List Kind :=
  [leftParen, doubleLit, negDoubleLit, intLit, negIntLit, increment, decrement, identifier,
   charLit, negation, stringLit, boolLit]

/-- What a statement may begin with. -/
def statementStart : List Kind :=
  [identifier, increment, decrement, printWord, ifWord, switchWord, forWord, doWord, whileWord,
   returnWord, breakWord, continueWord]

/-- The arithmetic operators of the grammar. -/
def arithmeticSigns : List Kind := [plus, minus, star, slash, percent]

/-- The relational operators. -/
def relationalSigns : List Kind := [equal, notEqual, lessEqual, greaterEqual, less, greater]

/-- The logical operators. -/
def logicalSigns : List Kind := [both, either]

/-- What may come after an operand. -/
def operandFollow : List Kind :=
  arithmeticSigns ++ [comma, semicolon, rightParen, rightBracket] ++ logicalSigns
    ++ relationalSigns

/-- The compound assignments of the grammar. -/
def compoundSigns : List Kind := [plusAssign, minusAssign, starAssign, slashAssign]

/-- The two signs that count by one. -/
def countSigns : List Kind := [increment, decrement]

/-- What an integer expression may begin with. -/
def intStart : List Kind := [intLit, negIntLit, leftParen, increment, decrement, identifier]

/-- What a numeric operand may begin with. -/
def numericStart : List Kind :=
  [doubleLit, negDoubleLit, intLit, negIntLit, increment, decrement, identifier]

/-- The category that replaces a literal of a type, or the literal itself. -/
def literal : Primitive → GrammarSymbol
  | .int => intLiteral
  | .double => doubleLiteral
  | .bool => boolLit
  | .char => charLit
  | .string => stringLit

/-- The category of the value a variable of a type is declared with. -/
def initialValue : Primitive → Nonterminal
  | .int => intArithmetic
  | .double => doubleArithmetic
  | .bool => boolValue
  | .char => charValue
  | .string => stringValue

/-- One rule for each terminal of a list: the category is replaced by that terminal. -/
def eachItself (ks : List Kind) : List Rule :=
  ks.map fun k => ⟨[k], [k]⟩

/-- One rule for each primitive type, before its word. -/
def eachType (body : Primitive → List GrammarSymbol) : List Rule :=
  Primitive.all.map fun t => ⟨[t.word], body t⟩

/-- The rules of a category. -/
def rules : Nonterminal → List Rule
  | program =>
    [⟨typeWords ++ [constWord, instanceWord, structWord, functionWord, mainWord],
      [globalDeclarations, functions, mainWord, leftParen, rightParen, leftBrace, declarations,
       statements, endWord, semicolon, rightBrace]⟩]
  | globalDeclarations =>
    [⟨[structWord], [structDeclaration, globalDeclarations]⟩,
     ⟨typeWords, [typedVariables, semicolon, globalDeclarations]⟩,
     ⟨[constWord], [constants, semicolon, globalDeclarations]⟩,
     ⟨[instanceWord],
      [instanceWord, identifier, identifier, moreInstances, semicolon, globalDeclarations]⟩,
     ⟨[functionWord, mainWord], []⟩]
  | declarations =>
    [⟨[constWord], [constants, semicolon, declarations]⟩,
     ⟨[instanceWord],
      [instanceWord, identifier, identifier, moreInstances, semicolon, declarations]⟩,
     ⟨typeWords, [typedVariables, semicolon, declarations]⟩,
     ⟨statementStart ++ [endWord], []⟩]
  | typedVariables => eachType fun t => [t.word, identifier, value t, moreValues t]
  | value t =>
    [⟨[assign], [assign, initialValue t]⟩,
     ⟨[leftBracket], [arrayDeclaration t]⟩,
     ⟨[comma, semicolon], []⟩]
  | moreValues t =>
    [⟨[comma], [comma, identifier, value t, moreValues t]⟩,
     ⟨[semicolon], []⟩]
  | boolValue => [⟨expressionStart, [operandChain]⟩]
  | charValue => [⟨[identifier], [nameUse]⟩, ⟨[charLit], [charLit]⟩]
  | stringValue => [⟨[identifier], [nameUse]⟩, ⟨[stringLit], [concatenation]⟩]
  | intArithmetic => [⟨intStart, [intOperand, moreIntArithmetic]⟩]
  | intOperand =>
    [⟨[leftParen], [leftParen, intArithmetic, rightParen]⟩,
     ⟨[intLit, negIntLit], [intLiteral]⟩,
     ⟨[increment, decrement, identifier], [countedName]⟩]
  | intLiteral => eachItself [intLit, negIntLit]
  | doubleLiteral => eachItself [doubleLit, negDoubleLit]
  | moreIntArithmetic =>
    [⟨arithmeticSigns, [arithmeticOperator, intOperand, moreIntArithmetic]⟩,
     ⟨[comma, rightParen, rightBracket, semicolon], []⟩]
  | countedName =>
    [⟨[identifier], [identifier, countedNameTail]⟩,
     ⟨countSigns, [countSign, identifier]⟩]
  | countedNameTail =>
    [⟨countSigns, [countSign]⟩,
     ⟨[leftBracket, dot, leftParen], [nameUseTail]⟩,
     ⟨operandFollow, []⟩]
  | countSign => eachItself countSigns
  | arithmeticOperator => eachItself arithmeticSigns
  | logicalOperator => eachItself logicalSigns
  | relationalOperator => eachItself relationalSigns
  | nameUse => [⟨[identifier], [identifier, nameUseTail]⟩]
  | nameUseTail =>
    [⟨[leftParen], [call]⟩,
     ⟨[leftBracket, dot], [placeTail]⟩,
     ⟨operandFollow, []⟩]
  | place => [⟨[identifier], [identifier, placeTail]⟩]
  | placeTail =>
    [⟨[leftBracket], [arrayAccess]⟩,
     ⟨[dot], [memberAccess]⟩,
     ⟨operandFollow ++ assign :: compoundSigns, []⟩]
  | arrayAccess => [⟨[leftBracket], [leftBracket, index, rightBracket, secondIndex]⟩]
  | index => [⟨intStart, [intArithmetic]⟩]
  | secondIndex =>
    [⟨[leftBracket], [leftBracket, index, rightBracket]⟩,
     ⟨operandFollow ++ assign :: compoundSigns, []⟩]
  | memberAccess => [⟨[dot], [dot, identifier]⟩]
  | call => [⟨[leftParen], [leftParen, arguments, rightParen]⟩]
  | arguments => [⟨expressionStart, [argument, moreArguments]⟩, ⟨[rightParen], []⟩]
  | argument => [⟨expressionStart, [expression]⟩]
  | moreArguments => [⟨[comma], [comma, argument, moreArguments]⟩, ⟨[rightParen], []⟩]
  | expression => [⟨expressionStart, [operandChain]⟩]
  | operandChain => [⟨expressionStart, [operand, operandTail]⟩]
  | operand =>
    [⟨[leftParen], [leftParen, operandChain, rightParen]⟩,
     ⟨numericStart, [numericOperand]⟩,
     ⟨[charLit], [charLit]⟩,
     ⟨[negation], [negation, operand]⟩,
     ⟨[stringLit], [concatenation]⟩,
     ⟨[boolLit], [boolLit]⟩]
  | operandTail =>
    [⟨arithmeticSigns, [arithmeticOperator, operandChain]⟩,
     ⟨relationalSigns, [relationalOperator, operandChain]⟩,
     ⟨logicalSigns, [logicalOperator, operandChain]⟩,
     ⟨[comma, semicolon, rightParen], []⟩]
  | doubleArithmetic => [⟨numericStart, [numericOperand, moreDoubleArithmetic]⟩]
  | numericOperand =>
    [⟨[doubleLit, negDoubleLit], [doubleLiteral]⟩,
     ⟨[intLit, negIntLit], [intLiteral]⟩,
     ⟨[increment, decrement, identifier], [countedName]⟩]
  | moreDoubleArithmetic =>
    [⟨arithmeticSigns, [arithmeticOperator, doubleArithmetic]⟩,
     ⟨[comma, semicolon, rightParen], []⟩]
  | concatenation => [⟨[stringLit], [concatenated, moreConcatenation]⟩]
  | concatenated => [⟨[stringLit], [stringLit]⟩]
  | moreConcatenation =>
    [⟨[Kind.concat], [Kind.concat, concatenated, moreConcatenation]⟩,
     ⟨relationalSigns ++ logicalSigns ++ arithmeticSigns ++ [comma, semicolon, rightParen], []⟩]
  | arraySize => eachItself [intLit, identifier]
  | arrayDeclaration t =>
    [⟨[leftBracket], [leftBracket, arraySize, rightBracket, arrayInitializer t]⟩]
  | arrayInitializer t =>
    [⟨[assign], [assign, leftBrace, elements t, rightBrace]⟩,
     ⟨[leftBracket], [leftBracket, arraySize, rightBracket, rowsInitializer t]⟩,
     ⟨[comma, semicolon], []⟩]
  | elements t => [⟨t.literals, [element t, moreElements t]⟩]
  | element t => [⟨t.literals, [literal t]⟩]
  | moreElements t =>
    [⟨[comma], [comma, element t, moreElements t]⟩, ⟨[rightBrace], []⟩]
  | rowsInitializer t =>
    [⟨[assign], [assign, leftBrace, rows t, rightBrace]⟩, ⟨[comma, semicolon], []⟩]
  | rows t => [⟨[leftBrace], [leftBrace, elements t, rightBrace, moreRows t]⟩]
  | moreRows t => [⟨[comma], [comma, rows t]⟩, ⟨[rightBrace], []⟩]
  | constants => [⟨[constWord], [constWord, typedConstants]⟩]
  | typedConstants => eachType fun t => [t.word, identifier, constantInitializer t]
  | constantSize => [⟨[intLit, negIntLit], [intLiteral]⟩]
  | constantInitializer t =>
    [⟨[assign], [assign, constantValue t]⟩, ⟨[leftBracket], [constantArray t]⟩]
  | constantValue t => [⟨t.literals, [literal t, moreConstants t]⟩]
  | moreConstants t =>
    [⟨[comma], [comma, identifier, constantInitializer t]⟩, ⟨[semicolon], []⟩]
  | constantArray t =>
    [⟨[leftBracket], [leftBracket, constantSize, rightBracket, constantArrayInitializer t]⟩]
  | constantArrayInitializer t =>
    [⟨[assign], [assign, leftBrace, elements t, rightBrace]⟩,
     ⟨[leftBracket], [leftBracket, arraySize, rightBracket, rowsInitializer t]⟩]
  | moreInstances => [⟨[comma], [comma, identifier, moreInstances]⟩, ⟨[semicolon], []⟩]
  | structDeclaration =>
    [⟨[structWord], [structWord, identifier, leftBrace, structBody, rightBrace, semicolon]⟩]
  | structBody => [⟨typeWords, [structMember, semicolon, moreMembers]⟩]
  | structMember => eachType fun t => [t.word, identifier]
  | moreMembers => [⟨typeWords, [structBody]⟩, ⟨[rightBrace], []⟩]
  | functions =>
    [⟨[functionWord],
      [functionWord, returnType, identifier, leftParen, parameters, rightParen, leftBrace,
       localVariables, statements, rightBrace, functions]⟩,
     ⟨[mainWord], []⟩]
  | returnType => [⟨[voidWord], [voidWord]⟩, ⟨typeWords, [dataType]⟩]
  | dataType => eachItself typeWords
  | parameters => [⟨typeWords, [dataType, identifier, moreParameters]⟩, ⟨[rightParen], []⟩]
  | moreParameters => [⟨[comma], [comma, parameters]⟩, ⟨[rightParen], []⟩]
  | localVariables =>
    [⟨typeWords, [typedVariables, semicolon, localVariables]⟩,
     ⟨statementStart ++ [rightBrace], []⟩]
  | statements =>
    [⟨[identifier], [nameStatement, statements]⟩,
     ⟨[printWord], [output, statements]⟩,
     ⟨[forWord], [forLoop, statements]⟩,
     ⟨[doWord], [doLoop, statements]⟩,
     ⟨[whileWord], [whileLoop, statements]⟩,
     ⟨[returnWord], [returnStatement, statements]⟩,
     ⟨countSigns, [countStatement, statements]⟩,
     ⟨[ifWord, switchWord], [conditional, statements]⟩,
     ⟨[breakWord, continueWord], [jump, statements]⟩,
     ⟨[endWord, rightBrace, elseIfWord, elseWord, caseWord, defaultWord], []⟩]
  | nameStatement => [⟨[identifier], [identifier, nameStatementTail]⟩]
  | nameStatementTail =>
    [⟨[leftParen], [call, semicolon]⟩,
     ⟨[leftBracket, dot], [placeTail, assignment]⟩,
     ⟨compoundSigns ++ [assign], [assignment]⟩,
     ⟨countSigns, [countSign, semicolon]⟩]
  | assignment =>
    [⟨[assign], [assign, assignedValueOrInput]⟩,
     ⟨compoundSigns, [assignOperator, assignedValue]⟩]
  | assignOperator => eachItself compoundSigns
  | assignedValue => [⟨expressionStart, [expression, semicolon]⟩]
  | assignedValueOrInput =>
    [⟨expressionStart, [assignedValue]⟩, ⟨[inputWord], [inputCall]⟩]
  | inputCall => [⟨[inputWord], [inputWord, leftParen, stringLit, rightParen, semicolon]⟩]
  | countStatement => [⟨countSigns, [countSign, identifier, semicolon]⟩]
  | output =>
    [⟨[printWord], [printWord, leftParen, outputValue, moreOutput, rightParen, semicolon]⟩]
  | outputValue => [⟨expressionStart, [expression]⟩]
  | moreOutput => [⟨[comma], [comma, outputValue, moreOutput]⟩, ⟨[rightParen], []⟩]
  | conditional =>
    [⟨[ifWord],
      [ifWord, leftParen, condition, rightParen, leftBrace, statements, elseIfBlocks, elseBlock,
       rightBrace, elseIfBlocks, elseBlock]⟩,
     ⟨[switchWord],
      [switchWord, leftParen, identifier, rightParen, leftBrace, switchBody, rightBrace]⟩]
  | condition => [⟨expressionStart, [operandChain]⟩]
  | elseIfBlocks =>
    [⟨[elseIfWord],
      [elseIfWord, leftParen, condition, rightParen, leftBrace, statements, rightBrace,
       elseIfBlocks]⟩,
     ⟨statementStart ++ [elseWord, rightBrace, endWord, caseWord, defaultWord], []⟩]
  | elseBlock =>
    [⟨[elseWord], [elseWord, leftBrace, statements, rightBrace]⟩,
     ⟨statementStart ++ [rightBrace, endWord, caseWord, defaultWord], []⟩]
  | switchBody => [⟨[caseWord], [cases, defaultCase]⟩]
  | cases =>
    [⟨[caseWord], [caseWord, caseLabel, colon, statements, moreCases]⟩,
     ⟨[defaultWord, rightBrace], []⟩]
  | caseLabel => [⟨[charLit], [charLit]⟩, ⟨[intLit, negIntLit], [intLiteral]⟩]
  | moreCases => [⟨[caseWord], [cases, moreCases]⟩, ⟨[defaultWord, rightBrace], []⟩]
  | defaultCase => [⟨[defaultWord], [defaultWord, colon, statements]⟩, ⟨[rightBrace], []⟩]
  | forLoop =>
    [⟨[forWord],
      [forWord, leftParen, forStart, semicolon, forCondition, semicolon, forStep, rightParen,
       leftBrace, statements, rightBrace]⟩]
  | forStart => [⟨[identifier], [place, assign, intArithmetic]⟩]
  | forCondition => [⟨expressionStart, [condition]⟩]
  | forStep => [⟨[identifier], [identifier, forStepTail]⟩, ⟨countSigns, [forStepBefore]⟩]
  | forStepTail => [⟨compoundSigns, [assignOperator, forStepValue]⟩, ⟨countSigns, [countSign]⟩]
  | forStepBefore => [⟨countSigns, [countSign, identifier]⟩]
  | forStepValue => [⟨[identifier], [place]⟩, ⟨[intLit, negIntLit], [intLiteral]⟩]
  | doLoop =>
    [⟨[doWord],
      [doWord, leftBrace, statements, rightBrace, whileWord, leftParen, condition, rightParen,
       semicolon]⟩]
  | whileLoop =>
    [⟨[whileWord],
      [whileWord, leftParen, condition, rightParen, leftBrace, statements, rightBrace]⟩]
  | returnStatement => [⟨[returnWord], [returnWord, returnValue, semicolon]⟩]
  | returnValue => [⟨expressionStart, [expression]⟩, ⟨[semicolon], []⟩]
  | jump => [⟨[breakWord], [breakWord, semicolon]⟩, ⟨[continueWord], [continueWord, semicolon]⟩]

/-- What a category is replaced by before a terminal, if it has a rule there. -/
def production (A : Nonterminal) (k : Kind) : Option (List GrammarSymbol) :=
  ((rules A).find? fun r => r.lookaheads.contains k).map Rule.body

/-- The terminals before which a category has a rule, in the order of their spellings. -/
def expected (A : Nonterminal) : List Kind :=
  ((rules A).flatMap Rule.lookaheads).mergeSort fun j k => j.spelling ≤ k.spelling

/-- The row of a category: every terminal with a rule and what the category becomes there. -/
def row (A : Nonterminal) : List (Kind × List GrammarSymbol) :=
  (rules A).flatMap fun r => r.lookaheads.map fun k => (k, r.body)

/-- How many pairs of a category and a terminal have a rule. -/
def entryCount : Nat :=
  (Nonterminal.all.flatMap row).length

end Grammar

end FrontEnd
