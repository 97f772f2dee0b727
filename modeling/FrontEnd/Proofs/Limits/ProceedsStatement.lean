import FrontEnd.Proofs.Limits.Loops
import FrontEnd.Proofs.Limits.ProceedsExpression

/-!
# Statements proceed

One lemma for each check of a declaration or a statement.  What is part of a statement is about
operands and blocks from its own first token on; a statement as a whole is about those behind it,
since it passes its first token before it opens a level.
-/

namespace FrontEnd

open Check

namespace Proceeds

variable {w : Stage}

/-! ### Assignments -/

theorem inputValue (type : DataType) : Stays w (Check.inputValue type) :=
  advance.next fun _ ↦ otherwise (violateAt rfl) <| (expectMark (by decide)).discard.next fun _ ↦
    (expect (by decide) _).discard.next fun _ ↦ (expectMark (by decide)).discard.stays

theorem requireType (wanted value : DataType) (t : Token) :
    Stays w (Check.requireType wanted value t) :=
  ite (violateAt rfl) (pure _)

section

variable {levels : Nat} (hoperand : ∀ stop ≤ w.tokens.size, MovesOn w (operand levels stop))

include hoperand

theorem valueType (terminators : List Kind) : MovesOn w (Check.valueType levels terminators) :=
  expressionEnd terminators fun _ hstop ↦ expressionWith hoperand hstop

theorem plainAssignment (terminators : List Kind) (target : Target) (t : Token) :
    Stays w (Check.plainAssignment levels terminators target t) :=
  (next? .inputWord).next fun _ ↦ ite ((inputValue _).next fun _ ↦ markInitialized target) <|
    (valueType hoperand terminators).next fun _ ↦ (requireType _ _ _).next fun _ ↦
      markInitialized target

theorem compoundAssignment (terminators : List Kind) (op : Operator) (target : Target)
    (t : Token) : Stays w (Check.compoundAssignment levels terminators op target t) :=
  otherwise (violateAt rfl) <| peek.next fun _ ↦ guard (violate rfl) <| otherwise (warn _ _) <|
    (valueType hoperand terminators).next fun _ ↦ requireType _ _ _

theorem assignmentTail (terminators : List Kind) (target : Target) :
    Stays w (Check.assignmentTail levels terminators target) := by
  refine peek.next fun t ↦ ?_
  split
  · exact advance.discard.next fun _ ↦ plainAssignment hoperand terminators target t
  · exact advance.discard.next fun _ ↦ requireInt target
  · exact advance.discard.next fun _ ↦ requireInt target
  · split
    · exact advance.discard.next fun _ ↦ compoundAssignment hoperand terminators _ target t
    · exact violate rfl

end

/-! ### Declarations -/

theorem typeWord (wanted : Wanted) : Stays w (Check.typeWord wanted) := by
  refine advance.next fun _ ↦ ?_
  split
  · exact pure _
  · exact violateAt rfl

theorem declaratorRound {one : Check Unit} (hone : MovesOn w one) (value : Unit) :
    Proceeds w Again (Check.declaratorRound one value) :=
  hone.andThen fun _ ↦ ((next? .comma).next fun _ ↦ ite (advance.discard.next fun _ ↦ pure true)
    ((expect (by decide) _).discard.next fun _ ↦ pure false)).next fun _ ↦ pure _

theorem declarators {one : Check Unit} (hone : MovesOn w one) :
    Stays w (Check.declarators one) :=
  rounds (declaratorRound hone) ()

theorem dimension : Stays w Check.dimension := by
  have hnamed (t : Token) : Stays w (Check.namedSize t) := by
    refine (resolve _).next fun _ ↦ ?_
    split
    · exact violateAt rfl
    · exact guard (violateAt rfl) (otherwise (violateAt rfl) (pure _))
  have hliteral (t : Token) : Stays w (Check.literalSize t) := by
    unfold Check.literalSize
    split
    · exact violateAt rfl
    · exact guard (violateAt rfl) (pure _)
  have hsize : Stays w Check.arraySize := by
    refine advance.next fun t ↦ ?_
    split
    · exact hliteral t
    · exact violateAt rfl
    · exact hnamed t
    · exact violateAt rfl
  exact advance.discard.next fun _ ↦ hsize.next fun _ ↦
    (expectMark (by decide)).discard.next fun _ ↦ pure _

theorem arrayShape (t : Token) : Stays w (Check.arrayShape t) :=
  dimension.next fun _ ↦ (next? .leftBracket).next fun _ ↦ ite
    (dimension.next fun _ ↦ (next? .leftBracket).next fun _ ↦ guard (violate rfl) (pure _)) (pure _)

theorem element (type : DataType) : Stays w (Check.element type) := by
  refine advance.next fun _ ↦ ?_
  split
  · exact ite (violateAt rfl) (pure _)
  · refine guard (violateAt rfl) <| (resolve _).next fun _ ↦ ?_
    split
    · exact violateAt rfl
    · exact guard (violateAt rfl) (ite (pure _) (violateAt rfl))

/-- A comma that asks for another element is passed. -/
theorem elementRound (type : DataType) (count : Nat) :
    Proceeds w Again (Check.elementRound type count) :=
  (element type).next fun _ ↦ whenNext (by decide) (pure _) (result (not_again_done _))

theorem row (type : DataType) : Stays w (Check.row type) := by
  have hend (count : Nat) : Stays w
      (do Functor.discard (Check.expectMark .rightBrace); return count) :=
    (expectMark (by decide)).discard.next fun _ ↦ pure count
  exact (expectMark (by decide)).discard.next fun _ ↦ (next? .rightBrace).next fun _ ↦
    ite (hend _) ((rounds (elementRound type) 0).next hend)

theorem checkCount (size : Dimension) (isConstant : Bool) (count : Nat) (t : Token)
    {tooMany : Nat → Nat → Violation} (h : ∀ m n, (tooMany m n).isLimit = false) :
    Stays w (Check.checkCount size isConstant count t tooMany) := by
  unfold Check.checkCount
  split
  · exact pure _
  · exact guard (violateAt (h _ _)) (ite (violateAt rfl) (pure _))

theorem rowRound (type : DataType) (columns : Dimension) (isConstant : Bool) (count : Nat) :
    Proceeds w Again (Check.rowRound type columns isConstant count) :=
  peek.next fun _ ↦ (row type).next fun _ ↦ (checkCount _ _ _ _ fun _ _ ↦ rfl).next fun _ ↦
    whenNext (by decide) (pure _) (result (not_again_done _))

/-- Rows are read up to a closing brace. -/
theorem roundsOn_rowRound (type : DataType) (columns : Dimension) (isConstant : Bool) :
    RoundsOn w (return !(← Check.next? .rightBrace)) (Check.rowRound type columns isConstant) :=
  .of_proceeds (fun _ _ ↦ rfl) (rowRound type columns isConstant)

theorem arrayInitializer (type : DataType) (isConstant : Bool) (shape : Shape) :
    Stays w (Check.arrayInitializer type isConstant shape) := by
  cases shape with
  | row size => exact peek.next fun t ↦ (row type).next fun _ ↦ checkCount _ _ _ _ fun _ _ ↦ rfl
  | table rowCount columns =>
    exact (expectMark (by decide)).next fun _ ↦
      ((roundsOn_rowRound type columns isConstant).roundsWhile 0).next fun _ ↦
        (expectMark (by decide)).discard.next fun _ ↦ checkCount _ _ _ _ fun _ _ ↦ rfl

theorem arrayDeclarator (type : DataType) (isConstant : Bool) (t : Token) :
    Stays w (Check.arrayDeclarator type isConstant t) :=
  (arrayShape t).next fun shape ↦ (next? .assign).next fun _ ↦ ite
    (advance.discard.next fun _ ↦ (arrayInitializer type isConstant shape).next fun _ ↦ pure _)
    (guard (violateAt rfl) (pure _))

theorem instanceDeclarator (structName : Token) : MovesOn w (Check.instanceDeclarator structName) :=
  (expect (by decide) _).andThen fun _ ↦ declare _ _

section

variable {levels : Nat}

theorem declarator (hoperand : ∀ stop ≤ w.tokens.size, MovesOn w (operand levels stop))
    (type : DataType) (isConstant : Bool) :
    MovesOn w (Check.declarator levels type isConstant) := by
  have hinitializer (t : Token) : Stays w (Check.initializer levels type t) :=
    (next? .inputWord).next fun _ ↦ ite (inputValue type) <|
      (valueType hoperand [.comma]).next fun _ ↦ requireType _ _ _
  exact (expect (by decide) _).andThen fun t ↦ (declaredHere _).next fun _ ↦
    guard (violateAt rfl) <| (next? .leftBracket).next fun _ ↦ ite
      ((arrayDeclarator type isConstant t).next fun _ ↦ declare _ _) <|
      (next? .assign).next fun _ ↦ ite
        (advance.next fun sign ↦ (hinitializer sign).next fun _ ↦ declare _ _)
        (guard (violateAt rfl) (declare _ _))

end

/-! ### Parts of statements -/

section

variable {levels : Nat} {inner : Inner}

theorem caseLabel (selector : DataType) (labels : List String) :
    Stays w (Check.caseLabel selector labels) :=
  advance.next fun _ ↦ otherwise (violateAt rfl) (guard (violateAt rfl) (pure _))

theorem requireForVariable (clause : ForClause) (target : Target) :
    Stays w (Check.requireForVariable clause target) :=
  ite (violateAt rfl) (pure _)

theorem entryPointReturn (t : Token) : Stays w (Check.entryPointReturn t) :=
  (next? .semicolon).next fun _ ↦ ite (pure _) <| peek.next fun _ ↦ secondKind.next fun _ ↦
    ite advance.discard (violateAt rfl)

theorem voidReturn (f : FunctionContext) (t : Token) : Stays w (Check.voidReturn f t) :=
  (next? .semicolon).next fun _ ↦ ite (pure _) (violateAt rfl)

section

variable (hoperand : ∀ stop ≤ w.tokens.size, MovesOn w (operand levels stop))

include hoperand

theorem inParentheses : MovesOn w (Check.inParentheses levels) :=
  here.next fun _ ↦ (expectMark (by decide)).andThen fun _ ↦ matchingClose _ fun _ hclose ↦
    (expressionWith hoperand (Nat.le_of_lt hclose)).next fun _ ↦
      (expectMark (by decide)).discard.next fun _ ↦ pure _

theorem condition (construct : Guarded) : Stays w (Check.condition levels construct) :=
  (inParentheses hoperand).next fun _ ↦ ite (violateAt rfl) (pure _)

theorem valueReturn (f : FunctionContext) (t : Token) :
    Stays w (Check.valueReturn levels f t) :=
  (next? .semicolon).next fun _ ↦ guard (violateAt rfl) <| (valueType hoperand []).next fun _ ↦
    ite (violateAt rfl) (pure _)

theorem targetHere : MovesOn w (Check.target (operand levels)) :=
  target fun stop hstop ↦ (hoperand stop hstop).later

theorem forStart : Stays w (Check.forStart levels) :=
  (targetHere hoperand).next fun t ↦ (requireForVariable .start t).next fun _ ↦
    (expectMark (by decide)).next fun _ ↦ (valueType hoperand []).next fun _ ↦
      (requireType _ _ _).next fun _ ↦ (markInitialized t).next fun _ ↦
        (expectMark (by decide)).discard.stays

theorem forCondition : Stays w (Check.forCondition levels) :=
  (valueType hoperand []).next fun _ ↦ guard (violate rfl) (expectMark (by decide)).discard.stays

theorem forUpdate : Stays w (Check.forUpdate levels) := by
  refine peekKind.next fun _ ↦ ?_
  split
  · exact advance.discard.next fun _ ↦ (targetHere hoperand).next (requireForVariable .update)
  · exact advance.discard.next fun _ ↦ (targetHere hoperand).next (requireForVariable .update)
  · exact (targetHere hoperand).next fun t ↦ (requireForVariable .update t).next fun _ ↦
      peekKind.next fun _ ↦ ite (assignmentTail hoperand _ t) (violate rfl)
  · exact violate rfl

end

variable (hinner : ∀ terminators, Stays w (inner terminators))

include hinner

theorem block (label : String) : Stays w (Check.block inner label) :=
  (expectMark (by decide)).discard.next fun _ ↦ (inScope label (hinner _)).discard.next fun _ ↦
    (expectMark (by decide)).discard.stays

theorem caseBlock (t : Token) (which : CaseBlock) : MovesOn w (Check.caseBlock inner t which) :=
  (expectMark (by decide)).discard.andThen fun _ ↦
    (inScope _ (inBlock .case (hinner _))).next fun _ ↦ ite (violateAt rfl) (pure _)

/-- A block of a switch passes its colon at least. -/
theorem switchRound (selector : DataType) (soFar : SwitchSoFar) :
    Proceeds w Again (Check.switchRound inner selector soFar) := by
  refine peek.next fun t ↦ ?_
  split
  · exact result (not_again_done _)
  · exact advance.discard.next fun _ ↦ (caseLabel _ _).next fun _ ↦
      (caseBlock hinner t _).andThen fun _ ↦ pure _
  · exact guard (violateAt rfl) <| advance.discard.next fun _ ↦
      (caseBlock hinner t _).andThen fun _ ↦ pure _
  · exact violate rfl
  · exact violate rfl

theorem roundsOn_elseIfRound (hoperand : ∀ stop ≤ w.tokens.size, MovesOn w (operand levels stop)) :
    RoundsOn w (Check.next? .elseIfWord) (Check.elseIfRound levels inner) := by
  refine .of_fromToken (fun c s ↦ (ensures_next?).2 ⟨rfl, fun hword ↦ ?_⟩) fun _ ↦
    .first FromToken.advance.discard fun _ ↦ ((condition hoperand .elseIfBlock).next fun _ ↦
      (block hinner _).next fun _ ↦ pure _).later
  rw [beq_iff_eq.1 hword]
  decide

end

end Proceeds

/-! ### Statements -/

namespace FromToken

variable {w : Stage} {levels : Nat} {inner : Inner}

theorem breakStatement : FromToken w (fun _ ↦ True) Check.breakStatement :=
  FromToken.advance.first fun _ ↦ .read fun _ _ ↦ .guard (.violateAt rfl)
    (Proceeds.expectMark (by decide)).discard.stays

theorem continueStatement : FromToken w (fun _ ↦ True) Check.continueStatement := by
  refine FromToken.advance.first fun _ ↦ .read fun c _ ↦ ?_
  split
  · exact (Proceeds.expectMark (by decide)).discard.stays
  · exact .violateAt rfl
  · exact .violateAt rfl

theorem endStatement : FromToken w (fun _ ↦ True) Check.endStatement :=
  FromToken.advance.first fun _ ↦ .read fun _ _ ↦ .otherwise (.violateAt rfl) <|
    (Proceeds.expectMark (by decide)).discard.next fun _ ↦ (Proceeds.next? .rightBrace).next fun _ ↦
      .ite (.pure _) (.violateAt rfl)

theorem instanceDeclaration : FromToken w (fun _ ↦ True) Check.instanceDeclaration := by
  refine FromToken.advance.discard.first fun _ ↦
    (Proceeds.expect (by decide) _).next fun structName ↦ (Proceeds.resolve _).next fun _ ↦ ?_
  split
  · exact .declarators (.instanceDeclarator structName)
  · exact .violateAt rfl

section

variable (hoperand : ∀ stop ≤ w.tokens.size, MovesOn w.next (operand levels stop))

include hoperand

theorem variableDeclaration : FromToken w (fun _ ↦ True) (Check.variableDeclaration levels) := by
  have htype : FromToken w (fun _ ↦ True) (Check.typeWord .dataType) := by
    refine FromToken.advance.first fun _ ↦ ?_
    split
    · exact .pure _
    · exact .violateAt rfl
  exact htype.first fun type ↦ .declarators (.declarator hoperand type false)

theorem constantDeclaration : FromToken w (fun _ ↦ True) (Check.constantDeclaration levels) :=
  FromToken.advance.discard.first fun _ ↦ (Proceeds.typeWord .dataType).next fun type ↦
    .declarators (.declarator hoperand type true)

theorem nameStatement : FromToken w (fun _ ↦ True) (Check.nameStatement levels) :=
  .of_proceeds <| Proceeds.secondKind.next fun _ ↦ .ite
    ((Proceeds.call hoperand).discard.andThen fun _ ↦
      (Proceeds.expectMark (by decide)).discard.stays)
    ((Proceeds.target hoperand).first fun t ↦ (Proceeds.assignmentTail hoperand [] t).next fun _ ↦
      (Proceeds.expectMark (by decide)).discard.stays)

theorem countStatement : FromToken w (fun _ ↦ True) (Check.countStatement levels) :=
  FromToken.advance.discard.first fun _ ↦ (Proceeds.targetHere hoperand).next fun t ↦
    (Proceeds.requireInt t).next fun _ ↦ (Proceeds.expectMark (by decide)).discard.stays

theorem printStatement : FromToken w (fun _ ↦ True) (Check.printStatement levels) :=
  FromToken.advance.discard.first fun _ ↦ Proceeds.here.next fun _ ↦
    (Proceeds.expectMark (by decide)).discard.next fun _ ↦ .matchingClose _ fun close _ ↦
      (Proceeds.arguments hoperand close).discard.next fun _ ↦
        (Proceeds.expectMark (by decide)).discard.next fun _ ↦
          (Proceeds.expectMark (by decide)).discard.stays

theorem returnStatement : FromToken w (fun _ ↦ True) (Check.returnStatement levels) := by
  refine FromToken.advance.first fun t ↦ .read fun c _ ↦ ?_
  have hsaw : Stays w.next (modify fun s ↦ { s with sawReturn := true } : Check Unit) :=
    .modify fun _ ↦ rfl
  have hmark : Stays w.next (do
      modify fun s ↦ { s with sawReturn := true }
      Functor.discard (Check.expectMark .semicolon)) :=
    hsaw.next fun _ ↦ (Proceeds.expectMark (by decide)).discard.stays
  cases c.function with
  | none => exact .violateAt rfl
  | some f =>
    exact .ite ((Proceeds.entryPointReturn t).next fun _ ↦ hmark) <|
      .ite ((Proceeds.voidReturn f t).next fun _ ↦ hmark)
        ((Proceeds.valueReturn hoperand f t).next fun _ ↦ hmark)

variable (hinner : ∀ terminators, Stays w.next (inner terminators))

include hinner

theorem ifStatement : FromToken w (fun _ ↦ True) (Check.ifStatement levels inner) :=
  FromToken.advance.discard.first fun _ ↦ (Proceeds.condition hoperand .ifBlock).next fun _ ↦
    (Proceeds.block hinner _).next fun _ ↦
      ((Proceeds.roundsOn_elseIfRound hinner hoperand).roundsWhile ()).next fun _ ↦
        (Proceeds.next? .elseWord).next fun _ ↦
          .ite (Proceeds.advance.discard.next fun _ ↦ Proceeds.block hinner _) (.pure _)

theorem switchStatement : FromToken w (fun _ ↦ True) (Check.switchStatement levels inner) :=
  FromToken.advance.first fun _ ↦ .read fun _ _ ↦ .guard (.violateAt rfl) <|
    (Proceeds.inParentheses hoperand).next fun _ ↦ .guard (.violateAt rfl) <|
      (Proceeds.expectMark (by decide)).discard.next fun _ ↦
        (Proceeds.inBlock .switch (.rounds (Proceeds.switchRound hinner _) _)).discard.next fun _ ↦
          (Proceeds.expectMark (by decide)).discard.stays

theorem whileStatement : FromToken w (fun _ ↦ True) (Check.whileStatement levels inner) :=
  FromToken.advance.discard.first fun _ ↦ (Proceeds.condition hoperand .whileLoop).next fun _ ↦
    Proceeds.inBlock .loop (Proceeds.block hinner _)

theorem doStatement : FromToken w (fun _ ↦ True) (Check.doStatement levels inner) :=
  FromToken.advance.discard.first fun _ ↦
    (Proceeds.inBlock .loop (Proceeds.block hinner _)).next fun _ ↦
      (Proceeds.expectMark (by decide)).discard.next fun _ ↦
        (Proceeds.condition hoperand .doLoop).next fun _ ↦
          (Proceeds.expectMark (by decide)).discard.stays

theorem forStatement : FromToken w (fun _ ↦ True) (Check.forStatement levels inner) :=
  FromToken.advance.discard.first fun _ ↦ Proceeds.here.next fun _ ↦
    (Proceeds.expectMark (by decide)).discard.next fun _ ↦ .matchingClose _ fun _ _ ↦
      (Proceeds.forStart hoperand).next fun _ ↦ (Proceeds.forCondition hoperand).next fun _ ↦
        (Proceeds.forUpdate hoperand).next fun _ ↦ Proceeds.here.next fun _ ↦ .ite
          (Proceeds.peek.next fun _ ↦ .violateThen rfl)
          ((Proceeds.expectMark (by decide)).discard.next fun _ ↦
            Proceeds.inBlock .loop (Proceeds.block hinner _))

theorem ordinaryStatement (t : Token) :
    FromToken w (fun _ ↦ True) (Check.ordinaryStatement levels inner t) := by
  unfold Check.ordinaryStatement
  split
  case h_1 | h_2 | h_3 | h_4 | h_5 => exact variableDeclaration hoperand
  case h_6 => exact constantDeclaration hoperand
  case h_7 => exact instanceDeclaration
  case h_8 => exact nameStatement hoperand
  case h_9 | h_10 => exact countStatement hoperand
  case h_11 => exact printStatement hoperand
  case h_12 => exact ifStatement hoperand hinner
  case h_13 => exact switchStatement hoperand hinner
  case h_14 => exact forStatement hoperand hinner
  case h_15 => exact whileStatement hoperand hinner
  case h_16 => exact doStatement hoperand hinner
  case h_17 => exact returnStatement hoperand
  case h_18 => exact continueStatement
  case h_19 => exact endStatement
  all_goals exact .of_proceeds (.violate rfl)

/-- A statement is about the operands and the blocks that start behind its first token. -/
theorem statementWith : FromToken w (fun _ ↦ True) (Check.statementWith levels inner) :=
  .after (fun _ _ ↦ rfl) fun t ↦ .ite (breakStatement.first fun _ ↦ .pure _)
    ((ordinaryStatement hoperand hinner t).first fun _ ↦ .pure _)

end

/-! ### Blocks -/

/-- A block goes on only where a token stands. -/
theorem statementRound {statement : Check Ending} (h : FromToken w (fun _ ↦ True) statement)
    (terminators : List Kind) (last : Option Ending) :
    Proceeds w Again (Check.statementRound statement terminators last) := by
  intro c s hc hstart hsize
  simp only [Check.statementRound, ensures_bind, ensures_peekKind, ensures_ite, ensures_pure,
    ensures_violate]
  refine ⟨fun _ ↦ (Onward.of_position_eq hsize rfl).mono (not_again_done _), fun _ ↦
    ⟨fun _ ↦ excused_of_isLimit rfl, fun hend ↦ ?_⟩⟩
  have hlt := Context.lt_size_of_ne_eof hend
  exact (h hc hstart (hc ▸ hlt)).mono fun _ _ hon ↦ hon.mono fun _ ↦ trivial

theorem stays_statementsUntil {statement : Check Ending} (h : FromToken w (fun _ ↦ True) statement)
    (terminators : List Kind) : Stays w (Check.statementsUntil statement terminators) :=
  .rounds (statementRound h terminators) none

end FromToken

/-- Each level that a statement opens starts behind its first token. -/
theorem stays_statementsBelow {tokens : Array Token} (levels start : Nat)
    (terminators : List Kind) :
    Stays (.ofLevels tokens start levels) (statementsBelow levels terminators) := by
  induction levels generalizing start terminators with
  | zero => exact .tooDeep tokens start _
  | succ levels ih =>
    refine FromToken.stays_statementsUntil (.statementWith (fun stop hstop ↦ ?_) fun inside ↦ ?_) _
    · rw [Stage.next_ofLevels]
      exact movesOn_operand levels (start + 1) hstop
    · rw [Stage.next_ofLevels]
      exact ih (start + 1) inside

theorem fromToken_statement {tokens : Array Token} (levels start : Nat) :
    FromToken (.ofLevels tokens start (levels + 1)) (fun _ ↦ True) (statement levels) := by
  refine .statementWith (fun stop hstop ↦ ?_) fun inside ↦ ?_
  · rw [Stage.next_ofLevels]
    exact movesOn_operand levels (start + 1) hstop
  · rw [Stage.next_ofLevels]
    exact stays_statementsBelow levels (start + 1) inside

end FrontEnd
