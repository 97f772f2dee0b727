import FrontEnd.Proofs.Check.AttentiveDeclaration
import FrontEnd.Proofs.Check.CarefulStatement

/-!
# The walk over a statement is attentive

In a statement names stand in its declarators, targets, calls and expressions only, so each check of a
statement is attentive because what it is made of is; `Attentive.statementsBelow` is the induction on
levels.
-/

namespace FrontEnd

open Check

namespace Attentive

variable {M : Lookups} {P : Kind → Prop} (hM : M.Shown)

/-! ### Simple statements -/

include hM

theorem targetOf (levels : Nat) : Attentive M P (Check.target (operand levels)) :=
  target (attentiveOperands_operand hM levels) hM

theorem nameStatement (levels : Nat) : Attentive M P (Check.nameStatement levels) := by
  have hmark : Attentive M (fun _ ↦ True) (Functor.discard (Check.expectMark .semicolon)) := mark rfl
  intro c s hc _
  simp only [Check.nameStatement, secures_bind, secures_secondKind, secures_ite]
  refine ⟨fun hparen ↦ ?_, fun _ ↦ ?_⟩
  · refine secures_discard.2 ((secures_call_used (attentiveOperands_operand hM levels) hc hparen).mono
      fun _ _ hcall ↦ ?_)
    exact (hmark hc trivial).mono fun _ _ hlater ↦ hcall.trans hlater
  · have hassignment := ((targetOf hM levels (P := fun _ ↦ True)).bind fun t ↦
      assignmentTail hM levels [] t).bind fun _ ↦ hmark
    have hrest := hassignment (s := s) hc trivial
    simpa only [secures_bind] using hrest

theorem countStatement (levels : Nat) {k : Kind} (hk : k = .increment ∨ k = .decrement) :
    Attentive M (· = k) (Check.countStatement levels) := by
  have hboth := (count (attentiveOperands_operand hM levels) hM (P := (· = k)) Still.requireInt
    fun _ h ↦ h ▸ hk).bind fun _ ↦ mark (k := .semicolon) (P := fun _ ↦ True) rfl
  simp only [bind_assoc] at hboth
  exact hboth

theorem printStatement (levels : Nat) : Attentive M (· = .printWord) (Check.printStatement levels) :=
  (word rfl).discard.bind fun _ ↦ .after .here fun _ ↦ (mark rfl).bind fun _ ↦
    .after (.matchingClose _) fun close ↦
      (arguments (attentiveOperands_operand hM levels) close).discard.bind fun _ ↦
        (mark rfl).bind fun _ ↦ mark rfl

/-! ### Conditionals -/

theorem inParentheses (levels : Nat) : Attentive M P (Check.inParentheses levels) :=
  .after .here fun _ ↦ (expectMark rfl).bind fun _ ↦ .after (.matchingClose _) fun _ ↦
    (expressionWith (attentiveOperands_operand hM levels) _).bind fun _ ↦
      (mark rfl).bind fun _ ↦ .pure _

theorem condition (levels : Nat) (construct : Guarded) :
    Attentive M P (Check.condition levels construct) :=
  (inParentheses hM levels).bind fun _ ↦ .ite (.violateAt (by simp)) (.pure _)

omit hM

section

variable {inner : Inner} (hinner : ∀ terminators, Attentive M (fun _ ↦ True) (inner terminators))

include hinner

theorem block (label : String) : Attentive M P (Check.block inner label) :=
  (mark rfl).bind fun _ ↦ (inScope label (hinner [.rightBrace])).discard.bind fun _ ↦ mark rfl

theorem caseBlock (keyword : Token) (which : CaseBlock) :
    Attentive M P (Check.caseBlock inner keyword which) :=
  (mark rfl).bind fun _ ↦ (inScope "case block" (inBlock .case (hinner _))).bind fun _ ↦
    .ite (.violateAt (by simp)) (.pure _)

omit hinner in
theorem caseLabel (selector : DataType) (labels : List String) :
    Attentive M P (Check.caseLabel selector labels) := by
  refine advanceThen (fun t _ ↦ .otherwise (.violateAt (by simp)) <|
    .guard (.violateAt (by simp)) (.pure _)) fun t hother ↦ ?_
  have hlabel : (labelKinds selector).contains t.kind = false := by
    unfold labelKinds
    cases hk : t.kind <;> rw [hk] at hother <;> first | (cases selector <;> rfl) | cases hother
  rw [hlabel]
  exact .bind (.violateAt (by simp))

theorem switchRound (selector : DataType) (soFar : SwitchSoFar) :
    Attentive M P (Check.switchRound inner selector soFar) := by
  refine peek fun t ↦ ?_
  have hword {k : Kind} (hk : k.isBystander) (ht : t.kind = k) :
      Attentive M (fun other ↦ P other ∧ other = t.kind) Check.advance :=
    advance fun _ h ↦ h.2 ▸ ht ▸ hk
  split
  · exact .pure _
  next ht =>
    exact (hword rfl ht).discard.bind fun _ ↦ (caseLabel selector soFar.labels).bind fun _ ↦
      (caseBlock hinner t _).bind fun _ ↦ .pure _
  next ht =>
    exact .guard (.violateAt (by simp)) <| (hword rfl ht).discard.bind fun _ ↦
      (caseBlock hinner t .default).bind fun _ ↦ .pure _
  · exact .violate (by simp)
  · exact .violate (by simp)

include hM

theorem ifStatement (levels : Nat) :
    Attentive M (· = .ifWord) (Check.ifStatement levels inner) := by
  have hbranches : Attentive M (fun _ ↦ True) (Check.roundsWhile (Check.next? .elseIfWord) (fun _ ↦ do
      Functor.discard Check.advance
      Check.condition levels .elseIfBlock
      Check.block inner "else-if block"
      return ForInStep.yield ()) ()) :=
    roundsWhileNext fun _ ↦ (word rfl).discard.bind fun _ ↦ (condition hM levels .elseIfBlock).bind
      fun _ ↦ (block hinner _).bind fun _ ↦ .pure _
  exact (word rfl).discard.bind fun _ ↦ (condition hM levels .ifBlock).bind fun _ ↦
    (block hinner _).bind fun _ ↦ hbranches.bind fun _ ↦
      nextIte ((word rfl).discard.bind fun _ ↦ block hinner _) (.pure _)

theorem switchStatement (levels : Nat) :
    Attentive M (· = .switchWord) (Check.switchStatement levels inner) :=
  (word rfl).bind fun _ ↦ .after .read fun _ ↦ .guard (.violateAt (by simp)) <|
    (inParentheses hM levels).bind fun _ ↦ .guard (.violateAt (by simp)) <| (mark rfl).bind fun _ ↦
      (inBlock .switch (rounds (switchRound hinner _))).discard.bind fun _ ↦ mark rfl

/-! ### Loops -/

theorem whileStatement (levels : Nat) :
    Attentive M (· = .whileWord) (Check.whileStatement levels inner) :=
  (word rfl).discard.bind fun _ ↦ (condition hM levels .whileLoop).bind fun _ ↦
    inBlock .loop (block hinner "while block")

theorem doStatement (levels : Nat) : Attentive M (· = .doWord) (Check.doStatement levels inner) :=
  (word rfl).discard.bind fun _ ↦ (inBlock .loop (block hinner "do block")).bind fun _ ↦
    (mark rfl).bind fun _ ↦ (condition hM levels .doLoop).bind fun _ ↦ mark rfl

omit hinner

theorem forStart (levels : Nat) : Attentive M P (Check.forStart levels) :=
  (targetOf hM levels).bind fun t ↦ .after (.requireForVariable .start t) fun _ ↦
    (expectMark rfl).bind fun _ ↦ (valueType hM levels []).bind fun _ ↦
      .after (.requireType _ _ _) fun _ ↦ .after (.markInitialized t) fun _ ↦ mark rfl

theorem forCondition (levels : Nat) : Attentive M P (Check.forCondition levels) :=
  (valueType hM levels []).bind fun _ ↦ .guard (.violate (by simp)) (mark rfl)

theorem forUpdate (levels : Nat) : Attentive M P (Check.forUpdate levels) := by
  refine peekKind fun k ↦ ?_
  have hcount {k : Kind} (hk : k = .increment ∨ k = .decrement) :=
    count (attentiveOperands_operand hM levels) hM (P := fun other ↦ P other ∧ other = k)
      (Still.requireForVariable .update) fun _ h ↦ h.2 ▸ hk
  split
  · exact hcount (.inl rfl)
  · exact hcount (.inr rfl)
  · exact (targetOf hM levels).bind fun t ↦ .after (.requireForVariable .update t) fun _ ↦
      .after .peekKind fun _ ↦ .ite (assignmentTail hM levels [.rightParen] t) (.violate (by simp))
  · exact .violate (by simp)

include hinner

theorem forStatement (levels : Nat) :
    Attentive M (· = .forWord) (Check.forStatement levels inner) := by
  refine (word rfl).discard.bind fun _ ↦ .after .here fun _ ↦ (mark rfl).bind fun _ ↦
    .after (.matchingClose _) fun _ ↦ (forStart hM levels).bind fun _ ↦
      (forCondition hM levels).bind fun _ ↦ (forUpdate hM levels).bind fun _ ↦ .after .here fun _ ↦ ?_
  have hrest : Attentive M (fun _ ↦ True) (do
      Functor.discard (Check.expectMark .rightParen)
      Check.inBlock .loop (Check.block inner "for block")) :=
    (mark rfl).bind fun _ ↦ inBlock .loop (block hinner "for block")
  exact .ite (.after .peek fun _ ↦ .after (.violate (by simp)) fun _ ↦ hrest) hrest

/-! ### Jumps -/

omit hinner hM

theorem breakStatement : Attentive M (· = .breakWord) Check.breakStatement :=
  (word rfl).bind fun _ ↦ .after .read fun _ ↦ .guard (.violateAt (by simp)) (mark rfl)

theorem continueStatement : Attentive M (· = .continueWord) Check.continueStatement := by
  refine (word rfl).bind fun keyword ↦ .after .read fun c ↦ ?_
  split
  · exact mark rfl
  · exact .violateAt (by simp)
  · exact .violateAt (by simp)

theorem entryPointReturn (keyword : Token) : Attentive M P (Check.entryPointReturn keyword) := by
  refine .after (.next? .semicolon) fun _ ↦ .ite (.pure _) <| peek fun value ↦
    .after .secondKind fun _ ↦ ?_
  split
  next hzero =>
    simp only [Bool.and_eq_true, decide_eq_true_eq] at hzero
    have hvalue : Attentive M (· = .intLit) (Functor.discard Check.advance) := (word rfl).discard
    exact hvalue.weaken fun _ h ↦ h.2.trans hzero.1.1
  · exact .violateAt (by simp)

theorem endStatement : Attentive M (· = .endWord) Check.endStatement :=
  (word rfl).bind fun _ ↦ .after .read fun _ ↦ .otherwise (.violateAt (by simp)) <|
    (mark rfl).bind fun _ ↦ .after (.next? .rightBrace) fun _ ↦
      .ite (.pure _) (.violateAt (by simp))

include hM

theorem returnStatement (levels : Nat) :
    Attentive M (· = .returnWord) (Check.returnStatement levels) := by
  refine (word rfl).bind fun keyword ↦ .after .read fun c ↦ ?_
  have hmark : Attentive M (fun _ ↦ True) (do
      (MonadState.modifyGet fun s ↦ ((), { s with sawReturn := true }) : Check Unit)
      Functor.discard (Check.expectMark .semicolon)) :=
    .after (.modify fun _ ↦ rfl) fun _ ↦ mark rfl
  split
  · exact .violateAt (by simp)
  · refine .ite ((entryPointReturn keyword).bind fun _ ↦ hmark)
      (.ite (bind ?_ fun _ ↦ hmark) (bind ?_ fun _ ↦ hmark))
    · exact .after (.next? .semicolon) fun _ ↦ .ite (.pure _) (.violateAt (by simp))
    · exact .after (.next? .semicolon) fun _ ↦ .guard (.violateAt (by simp)) <|
        (valueType hM levels []).bind fun _ ↦ .ite (.violateAt (by simp)) (.pure _)

/-! ### All statements -/

include hinner

theorem ordinaryStatement (levels : Nat) (t : Token) :
    Attentive M (· = t.kind) (Check.ordinaryStatement levels inner t) := by
  have known {k : Kind} {x : Check Unit} (hx : Attentive M (· = k) x) (hk : t.kind = k) :
      Attentive M (· = t.kind) x :=
    hk ▸ hx
  unfold Check.ordinaryStatement
  split
  case h_1 | h_2 | h_3 | h_4 | h_5 => exact variableDeclaration hM levels
  case h_6 hk => exact known (constantDeclaration hM levels) hk
  case h_7 hk => exact known instanceDeclaration hk
  case h_8 => exact nameStatement hM levels
  case h_9 hk => exact known (countStatement hM levels (.inl rfl)) hk
  case h_10 hk => exact known (countStatement hM levels (.inr rfl)) hk
  case h_11 hk => exact known (printStatement hM levels) hk
  case h_12 hk => exact known (ifStatement hM hinner levels) hk
  case h_13 hk => exact known (switchStatement hM hinner levels) hk
  case h_14 hk => exact known (forStatement hM hinner levels) hk
  case h_15 hk => exact known (whileStatement hM hinner levels) hk
  case h_16 hk => exact known (doStatement hM hinner levels) hk
  case h_17 hk => exact known (returnStatement hM levels) hk
  case h_18 hk => exact known continueStatement hk
  case h_19 hk => exact known endStatement hk
  all_goals exact .violate (by simp)

theorem statementWith (levels : Nat) : Attentive M P (Check.statementWith levels inner) := by
  refine peek fun t ↦ ?_
  split
  next hk =>
    exact (breakStatement.weaken fun _ h ↦ h.2.trans hk).bind fun _ ↦ .pure _
  · exact ((ordinaryStatement hM hinner levels t).weaken fun _ h ↦ h.2).bind fun _ ↦ .pure _

end

theorem statementsUntil {statement : Check Ending} (h : Attentive M (fun _ ↦ True) statement)
    (terminators : List Kind) : Attentive M P (Check.statementsUntil statement terminators) :=
  rounds fun _ ↦ .after .peekKind fun _ ↦ .ite (.pure _) <| .guard (.violate (by simp)) <|
    h.bind fun _ ↦ .pure _

include hM

/-- The statements of a block are attentive on every level. -/
theorem statementsBelow : ∀ levels terminators,
    Attentive M (fun _ ↦ True) (Check.statementsBelow levels terminators)
  | 0, _ => of_still .tooDeep
  | levels + 1, terminators =>
    statementsUntil (statementWith hM (statementsBelow levels) levels) terminators

theorem statement (levels : Nat) : Attentive M P (Check.statement levels) :=
  statementWith hM (statementsBelow hM levels) levels

end Attentive

end FrontEnd
