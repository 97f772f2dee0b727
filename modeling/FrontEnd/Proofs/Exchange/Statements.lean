import FrontEnd.Proofs.Check.KeepsScopes
import FrontEnd.Proofs.Exchange.Declarations

/-!
# Statements over a shared stretch

The checks of statements follow each other over a stretch that two texts share, each with the checks of
the statements below it as a parameter.  The blocks of a statement open scopes of their own, which both
runs drop again, so that the checks of the statements below must leave the scopes as they were
(`KeepsScopes`).
-/

namespace FrontEnd

open Check

namespace Passage.Follows

variable {S : Stretch} {late : String → Prop} {t : Token}

theorem statementsUntil {statement statement' : Check Ending}
    (hstatement : S.Follows late Eq statement statement') (terminators : List Kind) :
    S.Follows late Eq (Check.statementsUntil statement terminators)
      (Check.statementsUntil statement' terminators) := by
  refine rounds (fun _ ↦ rfl) ?_ rfl
  rintro last _ rfl
  exact peekKind.next fun k ↦ ite Iff.rfl (pure (.done rfl)) <|
    guard id (quits_violate _) <| hstatement.next fun _ ↦ pure (.yield rfl)

/-! ### Simple statements -/

theorem nameStatement (levels : Nat) :
    S.Follows late Eq (Check.nameStatement levels) (Check.nameStatement levels) := by
  have hoperand (i j : Nat) (hij : (S.statements late).At i j) :
      S.Follows late Eq (Check.operand levels i) (Check.operand levels j) := operand levels hij
  refine secondKind fun _ ↦ .ite Iff.rfl ?_ ?_
  · exact (call hoperand (takePhrases_operand levels)).discard.next fun _ ↦
      (expectMark .semicolon).discard
  · exact (target hoperand).bind Target.Agrees.refl fun _ _ h ↦
      (assignmentTail levels [] h).next fun _ ↦ (expectMark .semicolon).discard

theorem countStatement (levels : Nat) :
    S.Follows late Eq (Check.countStatement levels) (Check.countStatement levels) :=
  advance.discard.next fun _ ↦ (target fun _ _ ↦ operand levels).follows.bind Target.Agrees.refl
    fun _ _ h ↦ (requireInt h).next fun _ ↦ (expectMark .semicolon).discard

theorem printStatement (levels : Nat) :
    S.Follows late Eq (Check.printStatement levels) (Check.printStatement levels) :=
  advance.discard.next fun _ ↦ here fun _ _ hopening ↦ (expectMark .leftParen).discard.next fun _ ↦
    matchingClose hopening fun _ _ hclose hcloser ↦
      (arguments (fun _ _ ↦ operand levels) hclose hcloser (takePhrases_operand levels)).discard.next
        fun _ ↦ (expectMark .rightParen).discard.next fun _ ↦ (expectMark .semicolon).discard

theorem inParentheses (levels : Nat) :
    S.Follows late Eq (Check.inParentheses levels) (Check.inParentheses levels) :=
  here fun _ _ hopening ↦ (expectMark .leftParen).next fun _ ↦
    matchingClose hopening fun _ _ hclose _ ↦ (expressionType levels hclose).next fun _ ↦
      (expectMark .rightParen).discard.next fun _ ↦ same _

theorem condition (levels : Nat) (construct : Guarded) :
    S.Follows late Eq (Check.condition levels construct) (Check.condition levels construct) :=
  (inParentheses levels).next fun _ ↦ ite Iff.rfl violateAt (same ())

/-! ### Jumps -/

theorem breakStatement : S.Follows late Eq Check.breakStatement Check.breakStatement :=
  advance.next fun _ ↦ around fun _ _ _ hblocks _ _ ↦
    guard (by rw [hblocks]; exact id) (quits_violateAt _ _) (expectMark .semicolon).discard

theorem continueStatement : S.Follows late Eq Check.continueStatement Check.continueStatement := by
  refine advance.next fun _ ↦ around fun c d _ hblocks _ _ ↦ ?_
  rw [hblocks]
  split
  · exact (expectMark .semicolon).discard
  · exact violateAt
  · exact violateAt

/-- A zero that is returned is passed, so that the token behind it is the same. -/
theorem entryPointReturn (t : Token) :
    S.Follows late Eq (Check.entryPointReturn t) (Check.entryPointReturn t) := by
  refine (next? .semicolon).next fun _ ↦ ite Iff.rfl (same _) <| peek.next fun value ↦
    secondKind fun k ↦ .ite Iff.rfl FollowsPast.advance.discard .violateAt

theorem valueReturn (levels : Nat) (f : FunctionContext) (t : Token) :
    S.Follows late Eq (Check.valueReturn levels f t) (Check.valueReturn levels f t) :=
  (next? .semicolon).next fun _ ↦ guard id (quits_violateAt _ _) <|
    (valueType levels []).next fun _ ↦ ite Iff.rfl violateAt (same _)

theorem returnStatement (levels : Nat) :
    S.Follows late Eq (Check.returnStatement levels) (Check.returnStatement levels) := by
  refine advance.next fun t ↦ around fun c d _ _ _ hfunction ↦ ?_
  have hmark : S.Follows late Eq
      (do
        (MonadState.modifyGet fun s ↦ ((), { s with sawReturn := true }) : Check Unit)
        Functor.discard (Check.expectMark .semicolon))
      (do
        (MonadState.modifyGet fun s ↦ ((), { s with sawReturn := true }) : Check Unit)
        Functor.discard (Check.expectMark .semicolon)) :=
    sawReturn.next fun _ ↦ (expectMark .semicolon).discard
  rw [hfunction]
  cases c.function with
  | none => exact violateAt
  | some f =>
    refine ite Iff.rfl ((entryPointReturn t).next fun _ ↦ hmark) <|
      ite Iff.rfl (next ?_ fun _ ↦ hmark) ((valueReturn levels f t).next fun _ ↦ hmark)
    exact (next? .semicolon).next fun _ ↦ ite Iff.rfl (same _) violateAt

theorem endStatement : S.Follows late Eq Check.endStatement Check.endStatement := by
  refine advance.next fun _ ↦ around fun c d _ _ hdepth hfunction ↦
    otherwise ?_ (quits_violateAt _ _) <| (expectMark .semicolon).discard.next fun _ ↦
      (next? .rightBrace).next fun _ ↦ ite Iff.rfl (same _) violateAt
  rw [hfunction, hdepth]
  exact id

/-! ### Statements with blocks -/

theorem caseLabel (selector : DataType) (labels : List String) :
    S.Follows late Eq (Check.caseLabel selector labels) (Check.caseLabel selector labels) :=
  advance.next fun _ ↦ otherwise id (quits_violateAt _ _) <| guard id (quits_violateAt _ _) (same _)

theorem requireForVariable (clause : ForClause) {a b : Target} (h : a.Agrees b) :
    S.Follows late Eq (Check.requireForVariable clause a) (Check.requireForVariable clause b) :=
  ite (by rw [h.type]) violateAt (same ())

theorem forStart (levels : Nat) :
    S.Follows late Eq (Check.forStart levels) (Check.forStart levels) :=
  (target fun _ _ ↦ operand levels).follows.bind Target.Agrees.refl fun _ _ h ↦
    (requireForVariable .start h).next fun _ ↦ (expectMark .assign).next fun sign ↦
      (valueType levels []).next fun value ↦ (requireType .int value sign).next fun _ ↦
        (markInitialized h).next fun _ ↦ (expectMark .semicolon).discard

theorem forCondition (levels : Nat) :
    S.Follows late Eq (Check.forCondition levels) (Check.forCondition levels) :=
  (valueType levels []).next fun _ ↦ guard id (quits_violate _) (expectMark .semicolon).discard

theorem forUpdate (levels : Nat) :
    S.Follows late Eq (Check.forUpdate levels) (Check.forUpdate levels) := by
  have htarget : S.Follows late Target.Agrees (Check.target (Check.operand levels))
      (Check.target (Check.operand levels)) := (target fun _ _ ↦ operand levels).follows
  have hcount : S.Follows late Eq
      (do
        Functor.discard Check.advance
        Check.requireForVariable .update (← Check.target (Check.operand levels)))
      (do
        Functor.discard Check.advance
        Check.requireForVariable .update (← Check.target (Check.operand levels))) :=
    advance.discard.next fun _ ↦ htarget.bind Target.Agrees.refl fun _ _ h ↦
      requireForVariable .update h
  refine peekKind.next fun k ↦ ?_
  split
  · exact hcount
  · exact hcount
  · exact htarget.bind Target.Agrees.refl fun _ _ h ↦ (requireForVariable .update h).next fun _ ↦
      peekKind.next fun _ ↦ ite Iff.rfl (assignmentTail levels [.rightParen] h) violate
  · exact violate

section

variable {inner : Inner}
  (hinner : ∀ terminators, S.Follows late Eq (inner terminators) (inner terminators))
  (hkeeps : ∀ terminators, Traced .keepingScopes (inner terminators))

include hinner hkeeps

theorem block (label : String) :
    S.Follows late Eq (Check.block inner label) (Check.block inner label) :=
  (expectMark .leftBrace).discard.next fun _ ↦
    (inScope label (hinner _) (hkeeps _).keepsScopes (hkeeps _).keepsScopes).discard.next fun _ ↦
      (expectMark .rightBrace).discard

theorem ifStatement (levels : Nat) :
    S.Follows late Eq (Check.ifStatement levels inner) (Check.ifStatement levels inner) :=
  advance.discard.next fun _ ↦ (condition levels .ifBlock).next fun _ ↦
    (block hinner hkeeps "if block").next fun _ ↦
      (roundsWhile (fun _ ↦ rfl) (next? .elseIfWord) (fun _ _ _ ↦ advance.discard.next fun _ ↦
        (condition levels .elseIfBlock).next fun _ ↦ (block hinner hkeeps "else-if block").next
          fun _ ↦ pure (.yield rfl)) rfl).next fun _ ↦ (next? .elseWord).next fun _ ↦
            ite Iff.rfl (advance.discard.next fun _ ↦ block hinner hkeeps "else block") (same _)

theorem caseBlock (t : Token) (which : CaseBlock) :
    S.Follows late Eq (Check.caseBlock inner t which) (Check.caseBlock inner t which) := by
  have hcase : Traced .keepingScopes
      (Check.inBlock .case (inner [.caseWord, .defaultWord, .rightBrace])) := (hkeeps _).inBlock .case
  exact (expectMark .colon).discard.next fun _ ↦
    (inScope _ (inBlock .case (hinner _)) hcase.keepsScopes hcase.keepsScopes).next fun _ ↦
      ite Iff.rfl violateAt (same _)

theorem switchRound (selector : DataType) (soFar : SwitchSoFar) :
    S.Follows late (Retelling.Steps Eq) (Check.switchRound inner selector soFar)
      (Check.switchRound inner selector soFar) := by
  refine peek.next fun t ↦ ?_
  split
  · exact pure (.done rfl)
  · exact advance.discard.next fun _ ↦ (caseLabel selector soFar.labels).next fun _ ↦
      (caseBlock hinner hkeeps t _).next fun _ ↦ pure (.yield rfl)
  · exact guard id (quits_violateAt _ _) <| advance.discard.next fun _ ↦
      (caseBlock hinner hkeeps t .default).next fun _ ↦ pure (.yield rfl)
  · exact violate
  · exact violate

theorem switchStatement (levels : Nat) :
    S.Follows late Eq (Check.switchStatement levels inner) (Check.switchStatement levels inner) := by
  refine advance.next fun _ ↦ around fun c d _ hblocks _ _ ↦
    guard (by rw [hblocks]; exact id) (quits_violateAt _ _) <| (inParentheses levels).next fun _ ↦
      guard id (quits_violateAt _ _) <| (expectMark .leftBrace).discard.next fun _ ↦
        (inBlock .switch (rounds (fun _ ↦ rfl) ?_ rfl)).discard.next fun _ ↦
          (expectMark .rightBrace).discard
  rintro soFar _ rfl
  exact switchRound hinner hkeeps _ soFar

theorem whileStatement (levels : Nat) :
    S.Follows late Eq (Check.whileStatement levels inner) (Check.whileStatement levels inner) :=
  advance.discard.next fun _ ↦ (condition levels .whileLoop).next fun _ ↦
    inBlock .loop (block hinner hkeeps "while block")

theorem doStatement (levels : Nat) :
    S.Follows late Eq (Check.doStatement levels inner) (Check.doStatement levels inner) :=
  advance.discard.next fun _ ↦ (inBlock .loop (block hinner hkeeps "do block")).next fun _ ↦
    (expectMark .whileWord).discard.next fun _ ↦ (condition levels .doLoop).next fun _ ↦
      (expectMark .semicolon).discard

theorem forStatement (levels : Nat) :
    S.Follows late Eq (Check.forStatement levels inner) (Check.forStatement levels inner) := by
  have hbody := (expectMark .rightParen).discard.next fun _ ↦
    inBlock .loop (block hinner hkeeps "for block")
  refine advance.discard.next fun _ ↦ here fun _ _ hopening ↦ (expectMark .leftParen).discard.next
    fun _ ↦ matchingClose hopening fun _ _ hclose _ ↦ .later (forStart levels) fun _ ↦
      .later (forCondition levels) fun _ ↦ .later (forUpdate levels) fun _ ↦
        .arrive hclose (.later _ fun _ ↦ (quits_violate _).bind _) hbody

/-! ### All statements -/

theorem ordinaryStatement (levels : Nat) (t : Token) :
    S.Follows late Eq (Check.ordinaryStatement levels inner t)
      (Check.ordinaryStatement levels inner t) := by
  unfold Check.ordinaryStatement
  split
  case h_1 | h_2 | h_3 | h_4 | h_5 => exact variableDeclaration levels
  case h_6 => exact constantDeclaration levels
  case h_7 => exact instanceDeclaration
  case h_8 => exact nameStatement levels
  case h_9 | h_10 => exact countStatement levels
  case h_11 => exact printStatement levels
  case h_12 => exact ifStatement hinner hkeeps levels
  case h_13 => exact switchStatement hinner hkeeps levels
  case h_14 => exact forStatement hinner hkeeps levels
  case h_15 => exact whileStatement hinner hkeeps levels
  case h_16 => exact doStatement hinner hkeeps levels
  case h_17 => exact returnStatement levels
  case h_18 => exact continueStatement
  case h_19 => exact endStatement
  all_goals exact violate

theorem statementWith (levels : Nat) :
    S.Follows late Eq (Check.statementWith levels inner) (Check.statementWith levels inner) :=
  peek.next fun t ↦ ite Iff.rfl (breakStatement.next fun _ ↦ same _)
    ((ordinaryStatement hinner hkeeps levels t).next fun _ ↦ same _)

end

theorem statementsBelow (levels : Nat) (terminators : List Kind) :
    S.Follows late Eq (Check.statementsBelow levels terminators)
      (Check.statementsBelow levels terminators) := by
  induction levels generalizing terminators with
  | zero => exact tooDeep
  | succ levels ih =>
    exact statementsUntil (statementWith ih (Traced.statementsBelow levels) levels) terminators

theorem statement (levels : Nat) :
    S.Follows late Eq (Check.statement levels) (Check.statement levels) :=
  statementWith (statementsBelow levels) (Traced.statementsBelow levels) levels

end Passage.Follows

end FrontEnd
