import FrontEnd.Check.Declaration

/-!
# Statements

Blocks, conditionals, switches, loops and jumps.  A statement reports whether it was a `brk`, since
every block of a switch must end with one.

A block is one level of nesting deeper than the statement it belongs to, so `statementsBelow`
recurses on the number of levels that may still be opened; a statement gets the check of the
statements one level down as a parameter.
-/

namespace FrontEnd.Check

/-- How a statement ended. -/
inductive Ending where
  | jumpOut | other
  deriving DecidableEq

/-- The check of the statements of a block up to a terminator: how the last one ended. -/
abbrev Inner := List Kind → Check (Option Ending)

/-- Reads statements, each with the given check, up to a terminator, which is left: how the last
one ended. -/
def statementsUntil (statement : Check Ending) (terminators : List Kind) :
    Check (Option Ending) :=
  rounds (fun last => do
    let kind ← peekKind
    if terminators.contains kind then return .done last
    if kind = .eof then violate .unexpectedEnd
    return .yield (some (← statement))) none

/-- Reads a block between braces. -/
def block (inner : Inner) (label : String) : Check Unit := do
  discard <| expectMark .leftBrace
  discard <| inScope label (inner [.rightBrace])
  discard <| expectMark .rightBrace

/-! ### Simple statements -/

/-- Reads a statement that starts with a name: a call or an assignment. -/
def nameStatement (levels : Nat) : Check Unit := do
  if (← secondKind) = .leftParen then
    discard <| call (operand levels)
  else
    assignmentTail levels [] (← target (operand levels))
  discard <| expectMark .semicolon

/-- Reads a statement that counts a target up or down, from its sign. -/
def countStatement (levels : Nat) : Check Unit := do
  discard advance
  requireInt (← target (operand levels))
  discard <| expectMark .semicolon

/-- Reads a statement that prints values. -/
def printStatement (levels : Nat) : Check Unit := do
  discard advance
  let opening ← here
  discard <| expectMark .leftParen
  let close ← matchingClose opening
  discard <| arguments (operand levels) close
  discard <| expectMark .rightParen
  discard <| expectMark .semicolon

/-! ### Conditionals -/

/-- Reads an expression between parentheses: its type and the opening parenthesis. -/
def inParentheses (levels : Nat) : Check (DataType × Token) := do
  let opening ← here
  let t ← expectMark .leftParen
  let close ← matchingClose opening
  let type ← expressionType levels close
  discard <| expectMark .rightParen
  return (type, t)

/-- Reads the condition of a guarded statement. -/
def condition (levels : Nat) (construct : Guarded) : Check Unit := do
  let (found, t) ← inParentheses levels
  if found ≠ .bool && found ≠ .int then violateAt (.conditionType construct found) t

/-- Reads a conditional with its further branches. -/
def ifStatement (levels : Nat) (inner : Inner) : Check Unit := do
  discard advance
  condition levels .ifBlock
  block inner "if block"
  roundsWhile (next? .elseIfWord) (fun _ => do
    discard advance
    condition levels .elseIfBlock
    block inner "else-if block"
    return .yield ()) ()
  if ← next? .elseWord then
    discard advance
    block inner "else block"

/-- Reads the statements of a block of a switch, which must end with a jump out of it. -/
def caseBlock (inner : Inner) (keyword : Token) (which : CaseBlock) : Check Unit := do
  discard <| expectMark .colon
  let ending ← inScope "case block" <| inBlock .case <|
    inner [.caseWord, .defaultWord, .rightBrace]
  if ending ≠ some .jumpOut then violateAt (.missingBreak which) keyword

/-- The kinds of label a selector admits. -/
def labelKinds : DataType → List Kind
  | .int => [.intLit, .negIntLit]
  | _ => [.charLit]

/-- Reads the label of a case, which none of those before may repeat. -/
def caseLabel (selector : DataType) (labels : List String) : Check Token := do
  let label ← advance
  unless (labelKinds selector).contains label.kind do
    let found := ((DataType.ofLiteral? label.kind).map DataType.text).getD label.lexeme
    violateAt (.caseLabelType selector found) label
  if labels.contains label.lexeme then violateAt (.duplicateCaseLabel label.lexeme) label
  return label

/-- What a switch has had so far. -/
structure SwitchSoFar where
  labels : List String
  hadDefault : Bool

/-- One round of the body of a switch: a case, the default or the end. -/
def switchRound (inner : Inner) (selector : DataType) (soFar : SwitchSoFar) :
    Check (ForInStep SwitchSoFar) := do
  let t ← peek
  match t.kind with
  | .rightBrace => return .done soFar
  | .caseWord =>
    discard advance
    let label ← caseLabel selector soFar.labels
    caseBlock inner t (.labelled label.lexeme)
    return .yield { soFar with labels := label.lexeme :: soFar.labels }
  | .defaultWord =>
    if soFar.hadDefault then violateAt .multipleDefaults t
    discard advance
    caseBlock inner t .default
    return .yield { soFar with hadDefault := true }
  | .eof => violate .unexpectedEnd
  | _ => violate (.unexpectedToken t.lexeme .switchBody)

/-- Reads a switch. -/
def switchStatement (levels : Nat) (inner : Inner) : Check Unit := do
  let keyword ← advance
  if (← read).blocks.contains .switch then violateAt .nestedSwitch keyword
  let (selector, t) ← inParentheses levels
  if selector ≠ .int && selector ≠ .char then violateAt (.switchSelectorType selector) t
  discard <| expectMark .leftBrace
  discard <| inBlock .switch <| rounds (switchRound inner selector) ⟨[], false⟩
  discard <| expectMark .rightBrace

/-! ### Loops -/

/-- Reads a loop with its condition in front. -/
def whileStatement (levels : Nat) (inner : Inner) : Check Unit := do
  discard advance
  condition levels .whileLoop
  inBlock .loop <| block inner "while block"

/-- Reads a loop with its condition behind. -/
def doStatement (levels : Nat) (inner : Inner) : Check Unit := do
  discard advance
  inBlock .loop <| block inner "do block"
  discard <| expectMark .whileWord
  condition levels .doLoop
  discard <| expectMark .semicolon

/-- Checks that a clause of a loop header names an integer. -/
def requireForVariable (clause : ForClause) (t : Target) : Check Unit := do
  if t.type ≠ .int then violateAt (.forVariableType clause t.type) t.token

/-- Reads the first clause of a loop header with its semicolon. -/
def forStart (levels : Nat) : Check Unit := do
  let t ← target (operand levels)
  requireForVariable .start t
  let sign ← expectMark .assign
  requireType .int (← valueType levels []) sign
  markInitialized t
  discard <| expectMark .semicolon

/-- Reads the second clause of a loop header with its semicolon. -/
def forCondition (levels : Nat) : Check Unit := do
  let found ← valueType levels []
  if found ≠ .bool then violate (.forConditionType found)
  discard <| expectMark .semicolon

/-- Whether a sign may follow the variable in the last clause of a loop header. -/
def updates (k : Kind) : Bool :=
  k == .increment || k == .decrement || (Operator.ofCompound? k).isSome

/-- Reads the last clause of a loop header. -/
def forUpdate (levels : Nat) : Check Unit := do
  match ← peekKind with
  | .increment | .decrement =>
    discard advance
    requireForVariable .update (← target (operand levels))
  | .identifier =>
    let t ← target (operand levels)
    requireForVariable .update t
    if updates (← peekKind) then assignmentTail levels [.rightParen] t
    else violate .forUpdate
  | _ => violate .forUpdate

/-- Reads a counted loop. -/
def forStatement (levels : Nat) (inner : Inner) : Check Unit := do
  discard advance
  let opening ← here
  discard <| expectMark .leftParen
  let close ← matchingClose opening
  forStart levels
  forCondition levels
  forUpdate levels
  if (← here) ≠ close then
    violate (.unexpectedToken (← peek).lexeme .forHeader)
  discard <| expectMark .rightParen
  inBlock .loop <| block inner "for block"

/-! ### Jumps -/

/-- The nearest loop or case around. -/
def jumpTarget? (blocks : List BlockKind) : Option BlockKind :=
  blocks.find? fun kind => kind != .switch

/-- Reads a jump out of a loop or case. -/
def breakStatement : Check Unit := do
  let keyword ← advance
  if (jumpTarget? (← read).blocks).isNone then violateAt .breakOutsideLoop keyword
  discard <| expectMark .semicolon

/-- Reads a jump to the next round of a loop. -/
def continueStatement : Check Unit := do
  let keyword ← advance
  match jumpTarget? (← read).blocks with
  | some .loop => discard <| expectMark .semicolon
  | some _ => violateAt .continueInSwitch keyword
  | none => violateAt .continueOutsideLoop keyword

/-- Reads what the entry point returns: nothing or a literal zero. -/
def entryPointReturn (keyword : Token) : Check Unit := do
  unless ← next? .semicolon do
    let value ← peek
    if value.kind = .intLit && value.lexeme == "0" && (← secondKind) == .semicolon then
      discard advance
    else
      violateAt .entryPointReturn keyword

/-- Reads what a function without a value returns: nothing. -/
def voidReturn (f : FunctionContext) (keyword : Token) : Check Unit := do
  unless ← next? .semicolon do violateAt (.voidReturnsValue f.name) keyword

/-- Reads what a function with a value returns. -/
def valueReturn (levels : Nat) (f : FunctionContext) (keyword : Token) : Check Unit := do
  if ← next? .semicolon then violateAt (.missingReturnValue f.name f.returns) keyword
  let found ← valueType levels []
  if found ≠ f.returns then violateAt (.returnTypeMismatch f.returns found) keyword

/-- Reads a return. -/
def returnStatement (levels : Nat) : Check Unit := do
  let keyword ← advance
  match (← read).function with
  | none => violateAt .returnOutsideFunction keyword
  | some f =>
    if f.isEntryPoint then entryPointReturn keyword
    else if f.returns = .void then voidReturn f keyword
    else valueReturn levels f keyword
    modify fun s => { s with sawReturn := true }
    discard <| expectMark .semicolon

/-- Reads the end of the program, the last statement at the top of the entry point. -/
def endStatement : Check Unit := do
  let keyword ← advance
  let c ← read
  unless c.function.any FunctionContext.isEntryPoint && c.blockDepth == 0 do
    violateAt .misplacedEnd keyword
  discard <| expectMark .semicolon
  unless ← next? .rightBrace do violateAt .misplacedEnd keyword

/-! ### All statements -/

/-- Reads a statement other than a jump out of a block. -/
def ordinaryStatement (levels : Nat) (inner : Inner) (t : Token) : Check Unit := do
  match t.kind with
  | .intWord | .doubleWord | .stringWord | .boolWord | .charWord => variableDeclaration levels
  | .constWord => constantDeclaration levels
  | .instanceWord => instanceDeclaration
  | .identifier => nameStatement levels
  | .increment | .decrement => countStatement levels
  | .printWord => printStatement levels
  | .ifWord => ifStatement levels inner
  | .switchWord => switchStatement levels inner
  | .forWord => forStatement levels inner
  | .whileWord => whileStatement levels inner
  | .doWord => doStatement levels inner
  | .returnWord => returnStatement levels
  | .continueWord => continueStatement
  | .endWord => endStatement
  | .structWord => violate .structOutsideGlobal
  | .functionWord | .mainWord => violate .functionOutsideGlobal
  | .elseWord | .elseIfWord => violate (.conditionalWithoutIf t.kind)
  | .caseWord | .defaultWord => violate (.caseOutsideSwitch t.kind)
  | .eof => violate .unexpectedEnd
  | _ => violate (.unexpectedToken t.lexeme .statement)

/-- Reads a statement: how it ended. -/
def statementWith (levels : Nat) (inner : Inner) : Check Ending := do
  let t ← peek
  if t.kind = .breakWord then
    breakStatement
    return .jumpOut
  else
    ordinaryStatement levels inner t
    return .other

/-- Reads the statements of a block that opens a level of nesting, with a number of levels left. -/
def statementsBelow : (levels : Nat) → Inner
  | 0, _ => tooDeep
  | levels + 1, terminators =>
    statementsUntil (statementWith levels (statementsBelow levels)) terminators

/-- Reads a statement with a number of levels left. -/
def statement (levels : Nat) : Check Ending :=
  statementWith levels (statementsBelow levels)

end FrontEnd.Check
