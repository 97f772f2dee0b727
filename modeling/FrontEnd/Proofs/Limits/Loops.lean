import FrontEnd.Check.Program

/-!
# The counted loops of the checks

Every counted loop a check runs, as whether a round is due and what a round does: `CountedLoop`.
Rounds that the checks write in place have a name here, and each check is the loop over them by
definition (`declarators_eq` and the like).

The walk over a program is not among them: what a round of it does depends on what the headers have
recorded.
-/

namespace FrontEnd

namespace Check

/-! ### Rounds that are written in place -/

/-- One round of a list of declarators. -/
def declaratorRound (one : Check Unit) (_ : Unit) : Check (ForInStep Unit) := do
  one
  return if ← another then .yield () else .done ()

theorem declarators_eq (one : Check Unit) : declarators one = rounds (declaratorRound one) () :=
  rfl

/-- Reads an instance of a struct. -/
def instanceDeclarator (structName : Token) : Check Unit := do
  let name ← expect .identifier .name
  declare (.ofInstance name.lexeme structName.lexeme name.position) name

/-- One round of a row of elements. -/
def elementRound (type : DataType) (count : Nat) : Check (ForInStep Nat) := do
  element type
  if ← next? .comma then
    discard advance
    return .yield (count + 1)
  else
    return .done (count + 1)

/-- One round of the rows of a table. -/
def rowRound (type : DataType) (columns : Dimension) (isConstant : Bool) (count : Nat) :
    Check (ForInStep Nat) := do
  let first ← peek
  let length ← row type
  checkCount columns isConstant length first (.rowTooLong (count + 1))
  if ← next? .comma then
    discard advance
    return .yield (count + 1)
  else
    return .done (count + 1)

theorem rows_eq (type : DataType) (columns : Dimension) (isConstant : Bool) :
    rows type columns isConstant =
      roundsWhile (return !(← next? .rightBrace)) (rowRound type columns isConstant) 0 :=
  rfl

/-- One round of the statements of a block. -/
def statementRound (statement : Check Ending) (terminators : List Kind) (last : Option Ending) :
    Check (ForInStep (Option Ending)) := do
  let kind ← peekKind
  if terminators.contains kind then return .done last
  if kind = .eof then violate .unexpectedEnd
  return .yield (some (← statement))

theorem statementsUntil_eq (statement : Check Ending) (terminators : List Kind) :
    statementsUntil statement terminators = rounds (statementRound statement terminators) none :=
  rfl

/-- One round of the further branches of a conditional. -/
def elseIfRound (levels : Nat) (inner : Inner) (_ : Unit) : Check (ForInStep Unit) := do
  discard advance
  condition levels .elseIfBlock
  block inner "else-if block"
  return .yield ()

/-- One round of the walk over the headers. -/
def headersRound (_ : Unit) : Check (ForInStep Unit) := do
  headerRound
  return .yield ()

/-- One round of the search for the body of a struct. -/
def structRound (_ : Unit) : Check (ForInStep Unit) := do
  if ← atEnd then violate .unexpectedEnd
  discard advance
  return .yield ()

end Check

open Check

/-- The counted loops of the checks of some tokens: whether a round is due, and the rounds. -/
inductive CountedLoop (tokens : Array Token) :
    {σ : Type} → Check Bool → (σ → Check (ForInStep σ)) → Prop
  /-- The operators of an expression and their right sides. -/
  | chain (levels precedences floor : Nat) {stop : Nat} (h : stop ≤ tokens.size) :
    CountedLoop tokens (do return (← here) < stop)
      (chainRound (chain (operand levels) stop precedences) stop floor)
  /-- The operators that bind most tightly. -/
  | tightest (levels floor : Nat) {stop : Nat} (h : stop ≤ tokens.size) :
    CountedLoop tokens (do return (← here) < stop)
      (chainRound (fun _ ↦ operand levels stop) stop floor)
  | arguments (levels close : Nat) :
    CountedLoop tokens (return true) (argumentRound (operand levels) close)
  | declarators (levels : Nat) (type : DataType) (isConstant : Bool) :
    CountedLoop tokens (return true) (declaratorRound (declarator levels type isConstant))
  | instances (structName : Token) :
    CountedLoop tokens (return true) (declaratorRound (instanceDeclarator structName))
  | elements (type : DataType) : CountedLoop tokens (return true) (elementRound type)
  | rows (type : DataType) (columns : Dimension) (isConstant : Bool) :
    CountedLoop tokens (return !(← next? .rightBrace)) (rowRound type columns isConstant)
  | statements (levels : Nat) (terminators : List Kind) :
    CountedLoop tokens (return true) (statementRound (statement levels) terminators)
  | elseIfs (levels : Nat) :
    CountedLoop tokens (next? .elseIfWord) (elseIfRound levels (statementsBelow levels))
  | cases (levels : Nat) (selector : DataType) :
    CountedLoop tokens (return true) (switchRound (statementsBelow levels) selector)
  | parameters (scope : Nat) : CountedLoop tokens (return true) (parameterRound scope)
  | members (structName : String) :
    CountedLoop tokens (return !(← next? .rightBrace)) (memberRound structName)
  | headers : CountedLoop tokens (return !(← atEnd)) headersRound
  | structs : CountedLoop tokens (return !(← next? .leftBrace)) structRound

end FrontEnd
