import FrontEnd.Proofs.Check.CarefulDeclaration

/-!
# The walk over a statement is careful

Statements pass only sound tokens.  The check of a statement knows the kind of its first token, which
decides what statement it is; the statements of a block one level down are a parameter, and
`Careful.statementsBelow` is the induction on levels.
-/

namespace FrontEnd

open Check

namespace Still

theorem requireForVariable (clause : ForClause) (t : Target) :
    Still (Check.requireForVariable clause t) :=
  ite (violateAt (by simp)) (pure _)

end Still

namespace Careful

variable {M : Lookups} {P : Kind → Prop}

/-! ### Simple statements -/

/-- A harmless token of a known kind. -/
theorem word {k : Kind} (hk : k.isHarmless) : Careful M (· = k) Check.advance :=
  advance fun _ h ↦ h ▸ hk

/-- A mark that ends what was read. -/
theorem mark {k : Kind} (hk : k.isHarmless) :
    Careful M P (Functor.discard (Check.expectMark k)) :=
  (expectMark hk).discard

/-- A target with what is done to it behind it. -/
theorem assigned (levels : Nat) {rest : Target → Check Unit}
    (hrest : ∀ t ⦃c s b⦄, c.Closed → PlaceText c.kindAt b s.position → M.Writable c.text b →
      Secures M (rest t) c s (Justified c.text) fun _ after ↦
        SoundTo M c.text s.position after.position) :
    Careful M P (do rest (← Check.target (operand levels))) := by
  intro c s hc hfresh _
  rw [secures_bind]
  refine (secures_target (carefulOperands_operand levels) hc hfresh).mono fun t later htarget ↦ ?_
  exact (hrest t hc htarget.place htarget.writable).mono fun _ _ hlater ↦ htarget.sound.trans hlater

/-- A count in front of a target. -/
theorem count (levels : Nat) {k : Kind} (hk : k = .increment ∨ k = .decrement)
    {rest : Target → Check Unit} (hrest : ∀ t, Still (rest t)) :
    Careful M (· = k) (do
      Functor.discard Check.advance
      rest (← Check.target (operand levels))) := by
  intro c s hc _ hkind
  refine secures_countTarget (carefulOperands_operand levels) hc ?_ hrest
  exact hk.imp hkind.trans hkind.trans

theorem nameStatement (levels : Nat) : Careful M P (Check.nameStatement levels) := by
  have hassignment : Careful M P (do
      Check.assignmentTail levels [] (← Check.target (operand levels))) :=
    assigned levels fun t _ _ _ hc hplace hwritable ↦ secures_assignmentTail hc hplace hwritable t
  have hboth := hassignment.bind fun _ ↦ mark (k := .semicolon) (P := fun _ ↦ True) rfl
  rw [bind_assoc] at hboth
  exact .after .secondKind fun _ ↦
    .ite ((call (carefulOperands_operand levels)).discard.bind fun _ ↦ mark rfl) hboth

theorem countStatement (levels : Nat) {k : Kind} (hk : k = .increment ∨ k = .decrement) :
    Careful M (· = k) (Check.countStatement levels) := by
  have hboth := (count (M := M) levels hk Still.requireInt).bind fun _ ↦
    mark (k := .semicolon) (P := fun _ ↦ True) rfl
  simp only [bind_assoc] at hboth
  exact hboth

theorem printStatement (levels : Nat) : Careful M (· = .printWord) (Check.printStatement levels) :=
  (word rfl).discard.bind fun _ ↦ .after .here fun _ ↦ (mark rfl).bind fun _ ↦
    .after (.matchingClose _) fun close ↦
      (arguments (carefulOperands_operand levels) close).discard.bind fun _ ↦
        (mark rfl).bind fun _ ↦ mark rfl

/-! ### Conditionals -/

theorem inParentheses (levels : Nat) : Careful M P (Check.inParentheses levels) :=
  .after .here fun _ ↦ (expectMark rfl).bind fun _ ↦ .after (.matchingClose _) fun _ ↦
    (expressionWith (carefulOperands_operand levels) _).bind fun _ ↦ (mark rfl).bind fun _ ↦ .pure _

theorem condition (levels : Nat) (construct : Guarded) :
    Careful M P (Check.condition levels construct) :=
  (inParentheses levels).bind fun _ ↦ .ite (.violateAt (by simp)) (.pure _)

section

variable {inner : Inner} (hinner : ∀ terminators, Careful M (fun _ ↦ True) (inner terminators))

include hinner

theorem block (label : String) : Careful M P (Check.block inner label) :=
  (mark rfl).bind fun _ ↦ (inScope label (hinner [.rightBrace])).discard.bind fun _ ↦ mark rfl

theorem ifStatement (levels : Nat) :
    Careful M (· = .ifWord) (Check.ifStatement levels inner) := by
  have hbranches : Careful M (fun _ ↦ True) (Check.roundsWhile (Check.next? .elseIfWord) (fun _ ↦ do
      Functor.discard Check.advance
      Check.condition levels .elseIfBlock
      Check.block inner "else-if block"
      return ForInStep.yield ()) ()) :=
    roundsWhileNext fun _ ↦ (word rfl).discard.bind fun _ ↦ (condition levels .elseIfBlock).bind
      fun _ ↦ (block hinner _).bind fun _ ↦ .pure _
  exact (word rfl).discard.bind fun _ ↦ (condition levels .ifBlock).bind fun _ ↦
    (block hinner _).bind fun _ ↦ hbranches.bind fun _ ↦
      nextIte ((word rfl).discard.bind fun _ ↦ block hinner _) (.pure _)

theorem caseBlock (keyword : Token) (which : CaseBlock) :
    Careful M P (Check.caseBlock inner keyword which) :=
  (mark rfl).bind fun _ ↦ (inScope "case block" (inBlock .case (hinner _))).bind fun _ ↦
    .ite (.violateAt (by simp)) (.pure _)

omit hinner in
theorem caseLabel (selector : DataType) (labels : List String) :
    Careful M P (Check.caseLabel selector labels) := by
  refine advanceThen (fun t _ ↦ .otherwise (.violateAt (by simp)) <|
    .guard (.violateAt (by simp)) (.pure _))
    fun t hother ↦ ?_
  have hlabel : (labelKinds selector).contains t.kind = false := by
    unfold labelKinds
    cases hk : t.kind <;> rw [hk] at hother <;> first | (cases selector <;> rfl) | cases hother
  rw [hlabel]
  exact .bind (.violateAt (by simp))

theorem switchRound (selector : DataType) (soFar : SwitchSoFar) :
    Careful M P (Check.switchRound inner selector soFar) := by
  refine peek fun t ↦ ?_
  have hword {k : Kind} (hk : k.isHarmless) (ht : t.kind = k) :
      Careful M (fun other ↦ P other ∧ other = t.kind) Check.advance :=
    advance fun _ h ↦ h.2 ▸ ht ▸ hk
  split
  · exact .pure _
  next ht =>
    exact (hword rfl ht).discard.bind fun _ ↦ (caseLabel selector soFar.labels).bind fun _ ↦
      (caseBlock hinner t _).bind fun _ ↦ .pure _
  next ht =>
    exact .guard (.violateAt (by simp)) <| (hword rfl ht).discard.bind fun _ ↦
      (caseBlock hinner t .default).bind fun _ ↦ .pure _
  · exact .violate (by simp)
  · exact .violate (by simp)

theorem switchStatement (levels : Nat) :
    Careful M (· = .switchWord) (Check.switchStatement levels inner) :=
  (word rfl).bind fun _ ↦ .after .read fun _ ↦ .guard (.violateAt (by simp)) <|
    (inParentheses levels).bind fun _ ↦ .guard (.violateAt (by simp)) <| (mark rfl).bind fun _ ↦
      (inBlock .switch (rounds (switchRound hinner _))).discard.bind fun _ ↦ mark rfl

/-! ### Loops -/

theorem whileStatement (levels : Nat) :
    Careful M (· = .whileWord) (Check.whileStatement levels inner) :=
  (word rfl).discard.bind fun _ ↦ (condition levels .whileLoop).bind fun _ ↦
    inBlock .loop (block hinner "while block")

theorem doStatement (levels : Nat) : Careful M (· = .doWord) (Check.doStatement levels inner) :=
  (word rfl).discard.bind fun _ ↦ (inBlock .loop (block hinner "do block")).bind fun _ ↦
    (mark rfl).bind fun _ ↦ (condition levels .doLoop).bind fun _ ↦ mark rfl

omit hinner

theorem forStart (levels : Nat) : Careful M P (Check.forStart levels) := by
  refine assigned levels fun t c s b hc hplace hwritable ↦ ?_
  have hrest (sign : Token) : Careful M (fun _ ↦ True) (do
      Check.requireType .int (← Check.valueType levels []) sign
      Check.markInitialized t
      Functor.discard (Check.expectMark .semicolon)) :=
    (valueType levels []).bind fun _ ↦ .after (.requireType _ _ _) fun _ ↦
      .after (.markInitialized t) fun _ ↦ mark rfl
  rw [secures_bind]
  refine .of_ensures ((Still.requireForVariable .start t c s).imp (fun _ ↦ .of_ne)
    fun _ after hafter ↦ ?_)
  rw [secures_bind, secures_expectMark, hafter]
  refine ⟨fun hassign ↦ ?_, fun _ ↦ justified_expected _ _⟩
  have hsign : SoundTo M c.text s.position (s.position + 1) :=
    .assign hassign (.inr ⟨b, .inl hplace, hwritable⟩)
  rw [Context.after_of_kindAt hassign (by decide)]
  exact (hrest _ hc (fresh_succ (by simp [hassign])) trivial).mono fun _ _ hlater ↦
    hsign.trans hlater

theorem forCondition (levels : Nat) : Careful M P (Check.forCondition levels) :=
  (valueType levels []).bind fun _ ↦ .guard (.violate (by simp)) (mark rfl)

theorem forUpdate (levels : Nat) : Careful M P (Check.forUpdate levels) := by
  refine peekKind fun k ↦ ?_
  have hcount {k : Kind} (hk : k = .increment ∨ k = .decrement) :=
    (count (M := M) levels hk (Still.requireForVariable .update)).weaken
      (P := fun other ↦ P other ∧ other = k) fun _ h ↦ h.2
  split
  · exact hcount (.inl rfl)
  · exact hcount (.inr rfl)
  · refine assigned levels fun t c s b hc hplace hwritable ↦ ?_
    rw [secures_bind]
    refine .of_ensures ((Still.requireForVariable .update t c s).imp (fun _ ↦ .of_ne)
      fun _ after hafter ↦ ?_)
    simp only [secures_bind, secures_peekKind, secures_ite, secures_violate]
    refine ⟨fun _ ↦ ?_, fun _ ↦ .of_ne (by simp)⟩
    exact hafter ▸ secures_assignmentTail hc (hafter ▸ hplace) hwritable t
  · exact .violate (by simp)

include hinner

theorem forStatement (levels : Nat) : Careful M (· = .forWord) (Check.forStatement levels inner) := by
  refine (word rfl).discard.bind fun _ ↦ .after .here fun _ ↦ (mark rfl).bind fun _ ↦
    .after (.matchingClose _) fun _ ↦ (forStart levels).bind fun _ ↦ (forCondition levels).bind fun _ ↦
      (forUpdate levels).bind fun _ ↦ .after .here fun _ ↦ ?_
  have hrest : Careful M (fun _ ↦ True) (do
      Functor.discard (Check.expectMark .rightParen)
      Check.inBlock .loop (Check.block inner "for block")) :=
    (mark rfl).bind fun _ ↦ inBlock .loop (block hinner "for block")
  exact .ite (.after .peek fun _ ↦ .after (.violate (by simp)) fun _ ↦ hrest) hrest

/-! ### Jumps -/

omit hinner

theorem breakStatement : Careful M (· = .breakWord) Check.breakStatement :=
  (word rfl).bind fun _ ↦ .after .read fun _ ↦ .guard (.violateAt (by simp)) (mark rfl)

theorem continueStatement : Careful M (· = .continueWord) Check.continueStatement := by
  refine (word rfl).bind fun keyword ↦ .after .read fun c ↦ ?_
  split
  · exact mark rfl
  · exact .violateAt (by simp)
  · exact .violateAt (by simp)

theorem entryPointReturn (keyword : Token) : Careful M P (Check.entryPointReturn keyword) := by
  refine .after (.next? .semicolon) fun _ ↦ .ite (.pure _) <| peek fun value ↦
    .after .secondKind fun _ ↦ ?_
  split
  next hzero =>
    simp only [Bool.and_eq_true, decide_eq_true_eq] at hzero
    have hvalue : Careful M (· = .intLit) (Functor.discard Check.advance) := (word rfl).discard
    exact hvalue.weaken fun _ h ↦ h.2.trans hzero.1.1
  · exact .violateAt (by simp)

theorem returnStatement (levels : Nat) :
    Careful M (· = .returnWord) (Check.returnStatement levels) := by
  refine (word rfl).bind fun keyword ↦ .after .read fun c ↦ ?_
  have hmark : Careful M (fun _ ↦ True) (do
      (MonadState.modifyGet fun s ↦ ((), { s with sawReturn := true }) : Check Unit)
      Functor.discard (Check.expectMark .semicolon)) :=
    .after (.modify fun _ ↦ rfl) fun _ ↦ mark rfl
  split
  · exact .violateAt (by simp)
  · refine .ite ((entryPointReturn keyword).bind fun _ ↦ hmark)
      (.ite (bind ?_ fun _ ↦ hmark) (bind ?_ fun _ ↦ hmark))
    · exact .after (.next? .semicolon) fun _ ↦ .ite (.pure _) (.violateAt (by simp))
    · exact .after (.next? .semicolon) fun _ ↦ .guard (.violateAt (by simp)) <|
        (valueType levels []).bind fun _ ↦ .ite (.violateAt (by simp)) (.pure _)

theorem endStatement : Careful M (· = .endWord) Check.endStatement :=
  (word rfl).bind fun _ ↦ .after .read fun _ ↦ .otherwise (.violateAt (by simp)) <|
    (mark rfl).bind fun _ ↦ .after (.next? .rightBrace) fun _ ↦
      .ite (.pure _) (.violateAt (by simp))

/-! ### All statements -/

include hinner

theorem ordinaryStatement (levels : Nat) (t : Token) :
    Careful M (· = t.kind) (Check.ordinaryStatement levels inner t) := by
  have known {k : Kind} {x : Check Unit} (hx : Careful M (· = k) x) (hk : t.kind = k) :
      Careful M (· = t.kind) x :=
    hk ▸ hx
  unfold Check.ordinaryStatement
  split
  case h_1 | h_2 | h_3 | h_4 | h_5 => exact variableDeclaration levels
  case h_6 hk => exact known (constantDeclaration levels) hk
  case h_7 hk => exact known instanceDeclaration hk
  case h_8 => exact nameStatement levels
  case h_9 hk => exact known (countStatement levels (.inl rfl)) hk
  case h_10 hk => exact known (countStatement levels (.inr rfl)) hk
  case h_11 hk => exact known (printStatement levels) hk
  case h_12 hk => exact known (ifStatement hinner levels) hk
  case h_13 hk => exact known (switchStatement hinner levels) hk
  case h_14 hk => exact known (forStatement hinner levels) hk
  case h_15 hk => exact known (whileStatement hinner levels) hk
  case h_16 hk => exact known (doStatement hinner levels) hk
  case h_17 hk => exact known (returnStatement levels) hk
  case h_18 hk => exact known continueStatement hk
  case h_19 hk => exact known endStatement hk
  all_goals exact .violate (by simp)

theorem statementWith (levels : Nat) : Careful M P (Check.statementWith levels inner) := by
  refine peek fun t ↦ ?_
  split
  next hk =>
    exact (breakStatement.weaken fun _ h ↦ h.2.trans hk).bind fun _ ↦ .pure _
  · exact ((ordinaryStatement hinner levels t).weaken fun _ h ↦ h.2).bind fun _ ↦ .pure _

end

theorem statementsUntil {statement : Check Ending} (h : Careful M (fun _ ↦ True) statement)
    (terminators : List Kind) : Careful M P (Check.statementsUntil statement terminators) :=
  rounds fun _ ↦ .after .peekKind fun _ ↦ .ite (.pure _) <| .guard (.violate (by simp)) <|
    h.bind fun _ ↦ .pure _

/-- The statements of a block pass only sound tokens on every level. -/
theorem statementsBelow : ∀ levels terminators,
    Careful M (fun _ ↦ True) (Check.statementsBelow levels terminators)
  | 0, _ => of_still .tooDeep
  | levels + 1, terminators =>
    statementsUntil (statementWith (statementsBelow levels) levels) terminators

theorem statement (levels : Nat) : Careful M P (Check.statement levels) :=
  statementWith (statementsBelow levels) levels

end Careful

end FrontEnd
