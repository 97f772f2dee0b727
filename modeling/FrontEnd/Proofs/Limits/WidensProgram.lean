import FrontEnd.Check.Program
import FrontEnd.Proofs.Limits.WidensExpression
import FrontEnd.Scan

/-!
# Limits only cut an analysis short

Statements, headers and programs under wider limits, and what follows for an analysis: as long as it
does not end at a limit, wider limits change nothing of its result (`analyze_eq_of_limits_le`).
-/

namespace FrontEnd

open Check

namespace Widens

variable {limits : Limits}

/-! ### Statements without blocks -/

theorem statementsUntil {statement statement' : Check Ending}
    (hstatement : Widens limits statement statement') (terminators : List Kind) :
    Widens limits (Check.statementsUntil statement terminators)
      (Check.statementsUntil statement' terminators) :=
  rounds (fun _ ↦ peekKind.next fun _ ↦ ite (pure _) <| guard (violate _) <|
    hstatement.next fun _ ↦ pure _) none

theorem breakStatement : Widens limits Check.breakStatement Check.breakStatement :=
  advance.next fun _ ↦ read fun _ _ ↦ guard (violateAt _ _) (expectMark .semicolon).discard

theorem continueStatement : Widens limits Check.continueStatement Check.continueStatement := by
  refine advance.next fun _ ↦ read fun c _ ↦ ?_
  have hblocks : (c.within limits).blocks = c.blocks := rfl
  rw [hblocks]
  split
  · exact (expectMark .semicolon).discard
  · exact violateAt _ _
  · exact violateAt _ _

theorem endStatement : Widens limits Check.endStatement Check.endStatement :=
  advance.next fun _ ↦ read fun _ _ ↦ otherwise (violateAt _ _) <|
    (expectMark .semicolon).discard.next fun _ ↦ (next? .rightBrace).next fun _ ↦
      ite (pure _) (violateAt _ _)

theorem entryPointReturn (t : Token) :
    Widens limits (Check.entryPointReturn t) (Check.entryPointReturn t) :=
  (next? .semicolon).next fun _ ↦ ite (pure _) <| peek.next fun _ ↦ secondKind.next fun _ ↦
    ite advance.discard (violateAt _ _)

theorem voidReturn (f : FunctionContext) (t : Token) :
    Widens limits (Check.voidReturn f t) (Check.voidReturn f t) :=
  (next? .semicolon).next fun _ ↦ ite (pure _) (violateAt _ _)

theorem requireForVariable (clause : ForClause) (target : Target) :
    Widens limits (Check.requireForVariable clause target)
      (Check.requireForVariable clause target) :=
  ite (violateAt _ _) (pure _)

theorem caseLabel (selector : DataType) (labels : List String) :
    Widens limits (Check.caseLabel selector labels) (Check.caseLabel selector labels) :=
  advance.next fun _ ↦ otherwise (violateAt _ _) (guard (violateAt _ _) (pure _))

section

variable {levels more : Nat} (hle : levels ≤ more)

include hle

theorem nameStatement : Widens limits (Check.nameStatement levels) (Check.nameStatement more) :=
  secondKind.next fun _ ↦ ite
    ((call (operand hle)).discard.next fun _ ↦ (expectMark .semicolon).discard)
    ((target (operand hle)).next fun t ↦ (assignmentTail hle [] t).next fun _ ↦
      (expectMark .semicolon).discard)

theorem countStatement : Widens limits (Check.countStatement levels) (Check.countStatement more) :=
  advance.discard.next fun _ ↦ (target (operand hle)).next fun t ↦ (requireInt t).next fun _ ↦
    (expectMark .semicolon).discard

theorem printStatement : Widens limits (Check.printStatement levels) (Check.printStatement more) :=
  advance.discard.next fun _ ↦ here.next fun _ ↦ (expectMark .leftParen).discard.next fun _ ↦
    (matchingClose _).next fun close ↦ (arguments (operand hle) close).discard.next fun _ ↦
      (expectMark .rightParen).discard.next fun _ ↦ (expectMark .semicolon).discard

theorem inParentheses : Widens limits (Check.inParentheses levels) (Check.inParentheses more) :=
  here.next fun _ ↦ (expectMark .leftParen).next fun _ ↦ (matchingClose _).next fun close ↦
    (expressionType hle close).next fun _ ↦ (expectMark .rightParen).discard.next fun _ ↦ pure _

theorem condition (construct : Guarded) :
    Widens limits (Check.condition levels construct) (Check.condition more construct) :=
  (inParentheses hle).next fun _ ↦ ite (violateAt _ _) (pure _)

theorem valueReturn (f : FunctionContext) (t : Token) :
    Widens limits (Check.valueReturn levels f t) (Check.valueReturn more f t) :=
  (next? .semicolon).next fun _ ↦ guard (violateAt _ _) <| (valueType hle []).next fun _ ↦
    ite (violateAt _ _) (pure _)

theorem returnStatement :
    Widens limits (Check.returnStatement levels) (Check.returnStatement more) := by
  refine advance.next fun t ↦ read fun c _ ↦ ?_
  have hmark : Widens limits
      (do
        (MonadState.modifyGet fun s ↦ ((), { s with sawReturn := true }) : Check Unit)
        Functor.discard (Check.expectMark .semicolon))
      (do
        (MonadState.modifyGet fun s ↦ ((), { s with sawReturn := true }) : Check Unit)
        Functor.discard (Check.expectMark .semicolon)) :=
    (modify _).next fun _ ↦ (expectMark .semicolon).discard
  have hfunction : (c.within limits).function = c.function := rfl
  rw [hfunction]
  cases c.function with
  | none => exact violateAt _ _
  | some f =>
    exact ite ((entryPointReturn t).next fun _ ↦ hmark) <|
      ite ((voidReturn f t).next fun _ ↦ hmark) ((valueReturn hle f t).next fun _ ↦ hmark)

theorem forStart : Widens limits (Check.forStart levels) (Check.forStart more) :=
  (target (operand hle)).next fun t ↦ (requireForVariable .start t).next fun _ ↦
    (expectMark .assign).next fun _ ↦ (valueType hle []).next fun _ ↦
      (requireType _ _ _).next fun _ ↦ (markInitialized t).next fun _ ↦
        (expectMark .semicolon).discard

theorem forCondition : Widens limits (Check.forCondition levels) (Check.forCondition more) :=
  (valueType hle []).next fun _ ↦ guard (violate _) (expectMark .semicolon).discard

theorem forUpdate : Widens limits (Check.forUpdate levels) (Check.forUpdate more) := by
  refine peekKind.next fun _ ↦ ?_
  split
  · exact advance.discard.next fun _ ↦ (target (operand hle)).next (requireForVariable .update)
  · exact advance.discard.next fun _ ↦ (target (operand hle)).next (requireForVariable .update)
  · exact (target (operand hle)).next fun t ↦ (requireForVariable .update t).next fun _ ↦
      peekKind.next fun _ ↦ ite (assignmentTail hle _ t) (violate _)
  · exact violate _

end

/-! ### Statements with blocks -/

section

variable {levels more : Nat} {inner inner' : Inner} (hle : levels ≤ more)
  (hinner : ∀ terminators, Widens limits (inner terminators) (inner' terminators))

include hinner

theorem block (label : String) :
    Widens limits (Check.block inner label) (Check.block inner' label) :=
  (expectMark .leftBrace).discard.next fun _ ↦ (inScope label (hinner _)).discard.next fun _ ↦
    (expectMark .rightBrace).discard

theorem caseBlock (t : Token) (which : CaseBlock) :
    Widens limits (Check.caseBlock inner t which) (Check.caseBlock inner' t which) :=
  (expectMark .colon).discard.next fun _ ↦ (inScope _ (inBlock .case (hinner _))).next fun _ ↦
    ite (violateAt _ _) (pure _)

theorem switchRound (selector : DataType) (soFar : SwitchSoFar) :
    Widens limits (Check.switchRound inner selector soFar)
      (Check.switchRound inner' selector soFar) := by
  refine peek.next fun t ↦ ?_
  split
  · exact pure _
  · exact advance.discard.next fun _ ↦ (caseLabel _ _).next fun _ ↦
      (caseBlock hinner t _).next fun _ ↦ pure _
  · exact guard (violateAt _ _) <| advance.discard.next fun _ ↦
      (caseBlock hinner t _).next fun _ ↦ pure _
  · exact violate _
  · exact violate _

include hle

theorem ifStatement :
    Widens limits (Check.ifStatement levels inner) (Check.ifStatement more inner') :=
  advance.discard.next fun _ ↦ (condition hle .ifBlock).next fun _ ↦
    (block hinner _).next fun _ ↦ (roundsWhile (next? .elseIfWord) (fun _ ↦
      advance.discard.next fun _ ↦ (condition hle .elseIfBlock).next fun _ ↦
        (block hinner _).next fun _ ↦ pure _) ()).next fun _ ↦
      (next? .elseWord).next fun _ ↦ ite (advance.discard.next fun _ ↦ block hinner _) (pure _)

theorem switchStatement :
    Widens limits (Check.switchStatement levels inner) (Check.switchStatement more inner') :=
  advance.next fun _ ↦ read fun _ _ ↦ guard (violateAt _ _) <| (inParentheses hle).next fun _ ↦
    guard (violateAt _ _) <| (expectMark .leftBrace).discard.next fun _ ↦
      (inBlock .switch (rounds (switchRound hinner _) _)).discard.next fun _ ↦
        (expectMark .rightBrace).discard

theorem whileStatement :
    Widens limits (Check.whileStatement levels inner) (Check.whileStatement more inner') :=
  advance.discard.next fun _ ↦ (condition hle .whileLoop).next fun _ ↦
    inBlock .loop (block hinner _)

theorem doStatement :
    Widens limits (Check.doStatement levels inner) (Check.doStatement more inner') :=
  advance.discard.next fun _ ↦ (inBlock .loop (block hinner _)).next fun _ ↦
    (expectMark .whileWord).discard.next fun _ ↦ (condition hle .doLoop).next fun _ ↦
      (expectMark .semicolon).discard

theorem forStatement :
    Widens limits (Check.forStatement levels inner) (Check.forStatement more inner') :=
  advance.discard.next fun _ ↦ here.next fun _ ↦ (expectMark .leftParen).discard.next fun _ ↦
    (matchingClose _).next fun _ ↦ (forStart hle).next fun _ ↦ (forCondition hle).next fun _ ↦
      (forUpdate hle).next fun _ ↦ here.next fun _ ↦ ite
        (peek.next fun _ ↦ (violate _).next fun _ ↦ (expectMark .rightParen).discard.next fun _ ↦
          inBlock .loop (block hinner _))
        ((expectMark .rightParen).discard.next fun _ ↦ inBlock .loop (block hinner _))

theorem ordinaryStatement (t : Token) :
    Widens limits (Check.ordinaryStatement levels inner t)
      (Check.ordinaryStatement more inner' t) := by
  unfold Check.ordinaryStatement
  split
  case h_1 | h_2 | h_3 | h_4 | h_5 => exact variableDeclaration hle
  case h_6 => exact constantDeclaration hle
  case h_7 => exact instanceDeclaration
  case h_8 => exact nameStatement hle
  case h_9 | h_10 => exact countStatement hle
  case h_11 => exact printStatement hle
  case h_12 => exact ifStatement hle hinner
  case h_13 => exact switchStatement hle hinner
  case h_14 => exact forStatement hle hinner
  case h_15 => exact whileStatement hle hinner
  case h_16 => exact doStatement hle hinner
  case h_17 => exact returnStatement hle
  case h_18 => exact continueStatement
  case h_19 => exact endStatement
  all_goals exact violate _

theorem statementWith :
    Widens limits (Check.statementWith levels inner) (Check.statementWith more inner') :=
  peek.next fun t ↦ ite (breakStatement.next fun _ ↦ pure _)
    ((ordinaryStatement hle hinner t).next fun _ ↦ pure _)

end

theorem statementsBelow {levels more : Nat} (hle : levels ≤ more) (terminators : List Kind) :
    Widens limits (Check.statementsBelow levels terminators)
      (Check.statementsBelow more terminators) := by
  induction levels generalizing more terminators with
  | zero => exact tooDeep
  | succ levels ih =>
    obtain ⟨more, rfl⟩ : ∃ m, more = m + 1 := ⟨more - 1, by omega⟩
    have hless := Nat.le_of_succ_le_succ hle
    exact statementsUntil (statementWith hless (ih hless)) terminators

theorem statement {levels more : Nat} (hle : levels ≤ more) :
    Widens limits (Check.statement levels) (Check.statement more) :=
  statementWith hle (statementsBelow hle)

/-! ### Headers -/

theorem isRecorded (name : String) :
    Widens limits (Check.isRecorded name) (Check.isRecorded name) :=
  of_eq fun _ _ ↦ rfl

theorem requireFree (what : Redeclared) (t : Token) :
    Widens limits (Check.requireFree what t) (Check.requireFree what t) :=
  get.next fun _ ↦ ite (violateAt _ _) (pure _)

theorem openFunctionScope (label : String) :
    Widens limits (Check.openFunctionScope label) (Check.openFunctionScope label) :=
  of_eq fun _ _ ↦ rfl

theorem declareGlobal (symbol : Symbol) (t : Token) :
    Widens limits (Check.declareGlobal symbol t) (Check.declareGlobal symbol t) :=
  (insertSymbol 0 symbol).next fun _ ↦ ite (pure _) (violateAt _ _)

theorem recordFunction (keyword : Nat) (t : Token) (info : FunctionInfo) :
    Widens limits (Check.recordFunction keyword t info) (Check.recordFunction keyword t info) := by
  intro c s hc
  rw [runFrom_recordFunction, runFrom_recordFunction]
  exact declareGlobal _ _ hc

theorem typedName (wantedType wantedName : Wanted) :
    Widens limits (Check.typedName wantedType wantedName)
      (Check.typedName wantedType wantedName) :=
  (typeWord _).next fun _ ↦ (expect .identifier _).next fun _ ↦ pure _

theorem parameters (scope : Nat) :
    Widens limits (Check.parameters scope) (Check.parameters scope) := by
  have hround (before : List TypedName) : Widens limits (Check.parameterRound scope before)
      (Check.parameterRound scope before) :=
    (typedName _ _).next fun _ ↦ (insertSymbol scope _).next fun _ ↦ otherwise (refuse _) <|
      (next? .comma).next fun _ ↦ ite (advance.discard.next fun _ ↦ pure _) (pure _)
  exact (next? .rightParen).next fun _ ↦ ite (pure _) (rounds hround [])

theorem bodyRange : Widens limits Check.bodyRange Check.bodyRange :=
  (next? .leftBrace).next fun _ ↦ otherwise (expectMark .leftBrace).discard <|
    here.next fun _ ↦ (matchingClose _).next fun _ ↦ (moveTo _).next fun _ ↦ pure _

theorem functionHeader : Widens limits Check.functionHeader Check.functionHeader := by
  refine here.next fun keyword ↦ advance.discard.next fun _ ↦ advance.next fun t ↦ ?_
  split
  · exact violateAt _ _
  · exact (expect .identifier .functionName).next fun name ↦ (requireFree _ _).next fun _ ↦
      (openFunctionScope _).next fun scope ↦ (expectMark .leftParen).discard.next fun _ ↦
        (parameters scope).next fun _ ↦ (expectMark .rightParen).discard.next fun _ ↦
          bodyRange.next fun _ ↦ recordFunction keyword name _

theorem entryPointHeader : Widens limits Check.entryPointHeader Check.entryPointHeader :=
  here.next fun keyword ↦ advance.next fun name ↦ (isRecorded _).next fun _ ↦
    guard (violateAt _ _) <| (openFunctionScope _).next fun _ ↦
      (expectMark .leftParen).discard.next fun _ ↦ (expectMark .rightParen).discard.next fun _ ↦
        bodyRange.next fun _ ↦ recordFunction keyword name _

theorem structHeader : Widens limits Check.structHeader Check.structHeader := by
  have hround (structName : String) (before : List TypedName) : Widens limits
      (Check.memberRound structName before) (Check.memberRound structName before) :=
    (typedName _ _).next fun _ ↦ guard (refuse _) <|
      (expectMark .semicolon).discard.next fun _ ↦ pure _
  exact advance.discard.next fun _ ↦ (expect .identifier .structName).next fun name ↦
    (requireFree _ _).next fun _ ↦ (expectMark .leftBrace).discard.next fun _ ↦
      (roundsWhile ((next? .rightBrace).next fun _ ↦ pure _) (hround _) []).next fun _ ↦
        (expectMark .rightBrace).discard.next fun _ ↦
          (expectMark .semicolon).discard.next fun _ ↦ declareGlobal _ _

theorem headerRound : Widens limits Check.headerRound Check.headerRound := by
  refine peekKind.next fun _ ↦ ?_
  split
  · exact functionHeader
  · exact entryPointHeader
  · exact structHeader
  · exact here.next fun _ ↦ (matchingClose _).next fun _ ↦ moveTo _
  · exact here.next fun _ ↦ moveTo _

theorem headers : Widens limits Check.headers Check.headers :=
  (roundsWhile (atEnd.next fun _ ↦ pure _) (fun _ ↦ headerRound.next fun _ ↦ pure _) ()).next
    fun _ ↦ (isRecorded _).next fun _ ↦ ite (pure _) (violate _)

/-! ### Programs -/

theorem skipStruct : Widens limits Check.skipStruct Check.skipStruct :=
  (roundsWhile ((next? .leftBrace).next fun _ ↦ pure _) (fun _ ↦ atEnd.next fun _ ↦
    guard (violate _) (advance.discard.next fun _ ↦ pure _)) ()).next fun _ ↦ here.next fun _ ↦
      (matchingClose _).next fun _ ↦ (moveTo _).next fun _ ↦ (expectMark .semicolon).discard

theorem signature (name : String) :
    Widens limits (Check.signature name) (Check.signature name) := by
  refine get.next fun _ ↦ ?_
  split
  · split
    · exact pure _
    · exact violate _
  · exact violate _

theorem bodyStatements (name : String) (info : FunctionInfo) :
    Widens limits (Check.bodyStatements name info) (Check.bodyStatements name info) :=
  read fun _ hc ↦ withReader (fun _ ↦ rfl) (fun _ ↦ rfl) <| (modify _).next fun _ ↦
    (statementsUntil (statement hc.2) [.rightBrace]).discard.next fun _ ↦ here.next fun _ ↦
      ite (violate _) (pure _)

theorem functionBody (name : String) :
    Widens limits (Check.functionBody name) (Check.functionBody name) :=
  (signature name).next fun _ ↦ (bodyStatements name _).next fun _ ↦ (moveTo _).next fun _ ↦
    get.next fun _ ↦ (modify _).next fun _ ↦ ite (refuse _) (pure _)

theorem programRound : Widens limits Check.programRound Check.programRound := by
  refine peekKind.next fun _ ↦ ?_
  split
  iterate 2
    · refine get.next fun _ ↦ here.next fun _ ↦ ?_
      split
      · exact functionBody _
      · exact violate _
  · exact skipStruct
  · exact read fun _ hc ↦ (statement hc.2).discard

theorem program : Widens limits Check.program Check.program :=
  read fun _ _ ↦ guard (violate _) <| headers.next fun _ ↦ (moveTo 0).next fun _ ↦
    roundsWhile (atEnd.next fun _ ↦ pure _) (fun _ ↦ programRound.next fun _ ↦ pure _) ()

end Widens

/-- Limits only cut an analysis short.

If the check of some tokens does not end at a limit, then under limits that are no narrower it gives
the same result: the same violation or none, the same symbols and the same warnings. -/
theorem analyze_eq_of_limits_le {narrow wide : Limits} (hle : narrow ≤ wide) (tokens : List Token)
    (hend : ∀ e, (analyze narrow tokens).error = some e → e.violation.isLimit = false) :
    analyze wide tokens = analyze narrow tokens := by
  have hcontext : (Context.top narrow tokens).within wide = .top wide tokens := rfl
  rcases Widens.program (c := .top narrow tokens) (s := .initial) hle with ⟨e, he, hlimit⟩ | heq
  · have herror : (analyze narrow tokens).error = some e := by simp only [analyze, he]
    exact absurd (hend e herror) (by simp [hlimit])
  · simp only [analyze, ← hcontext, heq]

/-- A program that opens three levels and whose body takes nineteen steps to pass over. -/
def levelsProgram : String :=
  "mn() \x7b f (tr) \x7b prnt((1 + 2)); \x7d end; \x7d"

theorem analyze_eq_of_limits_le_levelsProgram :
    (⟨19, 3⟩ : Limits) ≤ .default ∧
      (analyze ⟨19, 3⟩ (scan 64 levelsProgram).tokens).error = none ∧
      analyze .default (scan 64 levelsProgram).tokens =
        analyze ⟨19, 3⟩ (scan 64 levelsProgram).tokens := by
  have hle : (⟨19, 3⟩ : Limits) ≤ .default := ⟨by decide, by decide⟩
  have haccepted : (analyze ⟨19, 3⟩ (scan 64 levelsProgram).tokens).accepted := by decide +kernel
  have hnone := Option.isNone_iff_eq_none.1 haccepted
  refine ⟨hle, hnone, analyze_eq_of_limits_le hle _ fun e he ↦ ?_⟩
  rw [hnone] at he
  cases he

end FrontEnd
