import FrontEnd.Proofs.Retelling.Declaration

/-!
# Statements of retold texts

The checks of statements end alike, each with the checks of the statements below it as a parameter.
Labels of cases are literals, so that one is repeated in the one text exactly if it is in the other.
-/

namespace FrontEnd

open Check

namespace Retelling.Alike

variable {T : Retelling} {t u : Token}

theorem statementsUntil {statement statement' : Check Ending}
    (hstatement : T.Alike Eq statement statement') (terminators : List Kind) :
    T.Alike Eq (Check.statementsUntil statement terminators)
      (Check.statementsUntil statement' terminators) := by
  refine rounds ?_ rfl
  rintro last _ rfl
  exact peekKind.next fun k ↦ ite Iff.rfl (pure (.done rfl)) <|
    guard Iff.rfl (violate fun _ ↦ rfl) <| hstatement.next fun _ ↦ pure (.yield rfl)

/-! ### Simple statements -/

theorem nameStatement (levels : Nat) :
    T.Alike Eq (Check.nameStatement levels) (Check.nameStatement levels) :=
  secondKind.next fun _ ↦ ite Iff.rfl
    ((call (operand levels)).discard.next fun _ ↦ (expectMark .semicolon).discard)
    ((target (operand levels)).bind fun _ _ h ↦ (assignmentTail levels [] h).next fun _ ↦
      (expectMark .semicolon).discard)

theorem countStatement (levels : Nat) :
    T.Alike Eq (Check.countStatement levels) (Check.countStatement levels) :=
  advance.discard.next fun _ ↦ (target (operand levels)).bind fun _ _ h ↦
    (requireInt h).next fun _ ↦ (expectMark .semicolon).discard

theorem printStatement (levels : Nat) :
    T.Alike Eq (Check.printStatement levels) (Check.printStatement levels) :=
  advance.discard.next fun _ ↦ here.next fun _ ↦ (expectMark .leftParen).discard.next fun _ ↦
    (matchingClose _).next fun close ↦ (arguments (operand levels) close).discard.next fun _ ↦
      (expectMark .rightParen).discard.next fun _ ↦ (expectMark .semicolon).discard

theorem inParentheses (levels : Nat) :
    T.Alike (fun a b ↦ T.Types a.1 b.1 ∧ T.Tokens a.2 b.2) (Check.inParentheses levels)
      (Check.inParentheses levels) :=
  here.next fun _ ↦ (expectMark .leftParen).bind fun _ _ h ↦ (matchingClose _).next fun close ↦
    (expressionType levels close).typed fun _ ↦ (expectMark .rightParen).discard.next fun _ ↦
      pure ⟨rfl, h⟩

theorem condition (levels : Nat) (construct : Guarded) :
    T.Alike Eq (Check.condition levels construct) (Check.condition levels construct) := by
  refine (inParentheses levels).bind ?_
  rintro ⟨type, t⟩ ⟨_, u⟩ ⟨rfl, h⟩
  refine ite ?_ (violateAt h rfl) (same _)
  simp only [ne_eq, renamed_eq_iff (b := .bool) rfl, renamed_eq_iff (b := .int) rfl]

/-! ### Jumps -/

theorem breakStatement : T.Alike Eq Check.breakStatement Check.breakStatement :=
  advance.bind fun _ _ h ↦ read.bind fun c d hc ↦
    guard (by rw [hc.blocks]) (violateAt h rfl) (expectMark .semicolon).discard

theorem continueStatement : T.Alike Eq Check.continueStatement Check.continueStatement := by
  refine advance.bind fun _ _ h ↦ read.bind fun c d hc ↦ ?_
  rw [hc.blocks]
  split
  · exact (expectMark .semicolon).discard
  · exact violateAt h rfl
  · exact violateAt h rfl

theorem entryPointReturn (h : T.Tokens t u) :
    T.Alike Eq (Check.entryPointReturn t) (Check.entryPointReturn u) := by
  refine (next? .semicolon).next fun _ ↦ ite Iff.rfl (same _) <| peek.bind fun v w hvalue ↦
    secondKind.next fun _ ↦ ite ?_ advance.discard (violateAt h rfl)
  rw [T.kind hvalue]
  by_cases hk : v.kind = .identifier
  · simp [hk]
  · rw [lexeme_of_ne hvalue hk]

theorem valueReturn (levels : Nat) (name : String) (returns : DataType) (isEntryPoint : Bool)
    (h : T.Tokens t u) :
    T.Alike Eq (Check.valueReturn levels ⟨name, returns, isEntryPoint⟩ t)
      (Check.valueReturn levels ⟨T.rename name, returns.renamed T.rename, isEntryPoint⟩ u) :=
  (next? .semicolon).next fun _ ↦ guard Iff.rfl (violateAt h rfl) <|
    (valueType levels []).typed fun _ ↦
      ite (by rw [ne_eq, ne_eq, renamed_inj]) (violateAt h rfl) (same _)

theorem returnStatement (levels : Nat) :
    T.Alike Eq (Check.returnStatement levels) (Check.returnStatement levels) := by
  refine advance.bind fun t u h ↦ read.bind fun c d hc ↦ ?_
  have hmark : T.Alike Eq
      (do
        (MonadState.modifyGet fun s ↦ ((), { s with sawReturn := true }) : Check Unit)
        Functor.discard (Check.expectMark .semicolon))
      (do
        (MonadState.modifyGet fun s ↦ ((), { s with sawReturn := true }) : Check Unit)
        Functor.discard (Check.expectMark .semicolon)) :=
    bind (modify fun _ _ hs ↦
      ⟨hs.position, hs.arena, hs.functions, hs.headers, rfl, hs.warnings⟩)
      fun _ _ _ ↦ (expectMark .semicolon).discard
  rw [hc.function]
  cases c.function with
  | none => exact violateAt h rfl
  | some f =>
    refine ite Iff.rfl ((entryPointReturn h).next fun _ ↦ hmark) <|
      ite (renamed_eq_iff rfl) (next ?_ fun _ ↦ hmark)
        ((valueReturn levels f.name f.returns f.isEntryPoint h).next fun _ ↦ hmark)
    exact (next? .semicolon).next fun _ ↦ ite Iff.rfl (same _) (violateAt h rfl)

theorem endStatement : T.Alike Eq Check.endStatement Check.endStatement := by
  refine advance.bind fun _ _ h ↦ read.bind fun c d hc ↦ otherwise ?_ (violateAt h rfl) <|
    (expectMark .semicolon).discard.next fun _ ↦ (next? .rightBrace).next fun _ ↦
      ite Iff.rfl (same _) (violateAt h rfl)
  rw [hc.function, hc.blockDepth]
  cases c.function <;> rfl

/-! ### Statements with blocks -/

section

variable {inner inner' : Inner}
  (hinner : ∀ terminators, T.Alike Eq (inner terminators) (inner' terminators))

include hinner

theorem block {label : String} (hlabel : T.Labels label label) :
    T.Alike Eq (Check.block inner label) (Check.block inner' label) :=
  (expectMark .leftBrace).discard.next fun _ ↦
    (inScope hlabel (hinner [.rightBrace])).discard.next fun _ ↦
      (expectMark .rightBrace).discard

theorem ifStatement (levels : Nat) :
    T.Alike Eq (Check.ifStatement levels inner) (Check.ifStatement levels inner') :=
  advance.discard.next fun _ ↦ (condition levels .ifBlock).next fun _ ↦
    (block hinner (.plain (by decide))).next fun _ ↦
      (roundsWhile (next? .elseIfWord) (fun _ _ _ ↦ advance.discard.next fun _ ↦
        (condition levels .elseIfBlock).next fun _ ↦ (block hinner (.plain (by decide))).next fun _ ↦
          pure (.yield rfl)) rfl).next
          fun _ ↦ (next? .elseWord).next fun _ ↦
            ite Iff.rfl (advance.discard.next fun _ ↦ block hinner (.plain (by decide))) (same _)

theorem caseBlock (h : T.Tokens t u) (which : CaseBlock) :
    T.Alike Eq (Check.caseBlock inner t which) (Check.caseBlock inner' u which) :=
  (expectMark .colon).discard.next fun _ ↦
    (inScope (.plain (by decide)) (inBlock .case (hinner _))).next fun _ ↦
      ite Iff.rfl (violateAt h rfl) (same _)

omit hinner in
theorem labelKinds_renamed (selector : DataType) :
    labelKinds (selector.renamed T.rename) = labelKinds selector := by
  cases selector <;> rfl

omit hinner in
/-- A label is a literal, so its lexeme is the same in both texts. -/
theorem caseLabel (selector : DataType) (labels : List String) :
    T.Alike (fun t u ↦ u.lexeme = t.lexeme) (Check.caseLabel selector labels)
      (Check.caseLabel (selector.renamed T.rename) labels) := by
  refine advance.bind fun t u h ↦ ?_
  rw [T.kind h, labelKinds_renamed]
  by_cases hlabel : (labelKinds selector).contains t.kind
  · have hk : t.kind ≠ .identifier := by
      intro hk
      rw [hk] at hlabel
      cases selector <;> cases hlabel
    have hlexeme := lexeme_of_ne h hk
    rw [if_pos hlabel, if_pos hlabel]
    exact guard (by rw [hlexeme]) (violateAt h (congrArg Violation.duplicateCaseLabel hlexeme))
      (pure hlexeme)
  · rw [if_neg hlabel, if_neg hlabel]
    have hfound : ((DataType.ofLiteral? t.kind).map DataType.text).getD u.lexeme =
        T.found t.kind (((DataType.ofLiteral? t.kind).map DataType.text).getD t.lexeme) := by
      cases hliteral : DataType.ofLiteral? t.kind with
      | none => exact T.lexeme h
      | some type =>
        have hk : t.kind ≠ .identifier := fun hk ↦ by simp [hk, DataType.ofLiteral?] at hliteral
        exact (found_of_ne hk _).symm
    have hrefused : T.Alike (fun _ _ ↦ False)
        (Check.violateAt (.caseLabelType selector
          (((DataType.ofLiteral? t.kind).map DataType.text).getD t.lexeme)) t : Check Unit)
        (Check.violateAt (.caseLabelType (selector.renamed T.rename)
          (((DataType.ofLiteral? t.kind).map DataType.text).getD u.lexeme)) u) :=
      violateAt h (congrArg (Violation.caseLabelType _) hfound)
    exact hrefused.bind fun _ _ hfalse ↦ hfalse.elim

theorem switchRound (selector : DataType) (soFar : SwitchSoFar) :
    T.Alike (Steps Eq) (Check.switchRound inner selector soFar)
      (Check.switchRound inner' (selector.renamed T.rename) soFar) := by
  refine peekAt fun t u h ↦ ?_
  rw [T.kind h]
  split
  · exact .of_alike (pure (.done rfl))
  · refine .of_alike (advance.discard.next fun _ ↦ (caseLabel selector soFar.labels).bind ?_)
    rintro label label' hlabel
    rw [hlabel]
    exact (caseBlock hinner h _).next fun _ ↦ pure (.yield rfl)
  · exact .of_alike (guard Iff.rfl (violateAt h rfl) <| advance.discard.next fun _ ↦
      (caseBlock hinner h .default).next fun _ ↦ pure (.yield rfl))
  · exact .of_alike (violate fun _ ↦ rfl)
  · exact .violate (congrArg (Violation.unexpectedToken · .switchBody) (T.lexeme h))

theorem switchStatement (levels : Nat) :
    T.Alike Eq (Check.switchStatement levels inner) (Check.switchStatement levels inner') := by
  refine advance.bind fun _ _ hkeyword ↦ read.bind fun c d hc ↦
    guard (by rw [hc.blocks]) (violateAt hkeyword rfl) <| (inParentheses levels).bind ?_
  rintro ⟨selector, t⟩ ⟨_, u⟩ ⟨rfl, h⟩
  refine guard ?_ (violateAt h rfl) <| (expectMark .leftBrace).discard.next fun _ ↦
    (inBlock .switch (rounds ?_ rfl)).discard.next fun _ ↦ (expectMark .rightBrace).discard
  · simp only [ne_eq, renamed_eq_iff (b := .int) rfl, renamed_eq_iff (b := .char) rfl]
  · rintro soFar _ rfl
    exact switchRound hinner selector soFar

theorem whileStatement (levels : Nat) :
    T.Alike Eq (Check.whileStatement levels inner) (Check.whileStatement levels inner') :=
  advance.discard.next fun _ ↦ (condition levels .whileLoop).next fun _ ↦
    inBlock .loop (block hinner (.plain (by decide)))

theorem doStatement (levels : Nat) :
    T.Alike Eq (Check.doStatement levels inner) (Check.doStatement levels inner') :=
  advance.discard.next fun _ ↦ (inBlock .loop (block hinner (.plain (by decide)))).next fun _ ↦
    (expectMark .whileWord).discard.next fun _ ↦ (condition levels .doLoop).next fun _ ↦
      (expectMark .semicolon).discard

omit hinner in
theorem requireForVariable (clause : ForClause) {a b : Target} (h : T.Targets a b) :
    T.Alike Eq (Check.requireForVariable clause a) (Check.requireForVariable clause b) :=
  ite (by rw [h.type, ne_eq, ne_eq, renamed_eq_iff rfl])
    (violateAt h.token (congrArg (Violation.forVariableType clause) h.type)) (same _)

omit hinner in
theorem forStart (levels : Nat) :
    T.Alike Eq (Check.forStart levels) (Check.forStart levels) :=
  (target (operand levels)).bind fun _ _ h ↦ (requireForVariable .start h).next fun _ ↦
    (expectMark .assign).bind fun _ _ hsign ↦ (valueType levels []).typed fun value ↦
      (requireType .int value hsign).next fun _ ↦ (markInitialized h).next fun _ ↦
        (expectMark .semicolon).discard

omit hinner in
theorem forCondition (levels : Nat) :
    T.Alike Eq (Check.forCondition levels) (Check.forCondition levels) :=
  (valueType levels []).typed fun _ ↦
    guard (by rw [ne_eq, ne_eq, renamed_eq_iff rfl]) (violate fun _ ↦ rfl)
      (expectMark .semicolon).discard

omit hinner in
theorem forUpdate (levels : Nat) :
    T.Alike Eq (Check.forUpdate levels) (Check.forUpdate levels) := by
  have hcount : T.Alike Eq
      (do
        Functor.discard Check.advance
        Check.requireForVariable .update (← Check.target (Check.operand levels)))
      (do
        Functor.discard Check.advance
        Check.requireForVariable .update (← Check.target (Check.operand levels))) :=
    advance.discard.next fun _ ↦ (target (operand levels)).bind fun _ _ h ↦
      requireForVariable .update h
  refine peekKind.next fun k ↦ ?_
  split
  · exact hcount
  · exact hcount
  · exact (target (operand levels)).bind fun _ _ h ↦ (requireForVariable .update h).next fun _ ↦
      peekKind.next fun _ ↦ ite Iff.rfl (assignmentTail levels [.rightParen] h)
        (violate fun _ ↦ rfl)
  · exact violate fun _ ↦ rfl

theorem forStatement (levels : Nat) :
    T.Alike Eq (Check.forStatement levels inner) (Check.forStatement levels inner') := by
  have hlabel : T.Labels "for block" "for block" := .plain (by decide)
  have hrest := (expectMark .rightParen).discard.next fun _ ↦ inBlock .loop (block hinner hlabel)
  refine advance.discard.next fun _ ↦ here.next fun _ ↦ (expectMark .leftParen).discard.next
    fun _ ↦ (matchingClose _).next fun _ ↦ (forStart levels).next fun _ ↦
      (forCondition levels).next fun _ ↦ (forUpdate levels).next fun _ ↦ here.next fun _ ↦
        ite Iff.rfl (peekAt fun t u h ↦ ?_) hrest
  exact (AlikeAt.violate
    (congrArg (Violation.unexpectedToken · .forHeader) (T.lexeme h))).next fun _ ↦ hrest

/-! ### All statements -/

theorem ordinaryStatement (levels : Nat) (h : T.Tokens t u) :
    T.AlikeAt t.kind Eq (Check.ordinaryStatement levels inner t)
      (Check.ordinaryStatement levels inner' u) := by
  unfold Check.ordinaryStatement
  rw [T.kind h]
  split
  case h_1 | h_2 | h_3 | h_4 | h_5 => exact .of_alike (variableDeclaration levels)
  case h_6 => exact .of_alike (constantDeclaration levels)
  case h_7 => exact .of_alike instanceDeclaration
  case h_8 => exact .of_alike (nameStatement levels)
  case h_9 | h_10 => exact .of_alike (countStatement levels)
  case h_11 => exact .of_alike (printStatement levels)
  case h_12 => exact .of_alike (ifStatement hinner levels)
  case h_13 => exact .of_alike (switchStatement hinner levels)
  case h_14 => exact .of_alike (forStatement hinner levels)
  case h_15 => exact .of_alike (whileStatement hinner levels)
  case h_16 => exact .of_alike (doStatement hinner levels)
  case h_17 => exact .of_alike (returnStatement levels)
  case h_18 => exact .of_alike continueStatement
  case h_19 => exact .of_alike endStatement
  case h_28 => exact .violate (congrArg (Violation.unexpectedToken · .statement) (T.lexeme h))
  all_goals exact .of_alike (violate fun _ ↦ rfl)

theorem statementWith (levels : Nat) :
    T.Alike Eq (Check.statementWith levels inner) (Check.statementWith levels inner') :=
  peekAt fun _ _ h ↦ .ite (by rw [T.kind h])
    (.of_alike (breakStatement.next fun _ ↦ same _))
    ((ordinaryStatement hinner levels h).next fun _ ↦ same _)

end

theorem statementsBelow (levels : Nat) (terminators : List Kind) :
    T.Alike Eq (Check.statementsBelow levels terminators)
      (Check.statementsBelow levels terminators) := by
  induction levels generalizing terminators with
  | zero => exact tooDeep
  | succ levels ih => exact statementsUntil (statementWith ih levels) terminators

theorem statement (levels : Nat) :
    T.Alike Eq (Check.statement levels) (Check.statement levels) :=
  statementWith (statementsBelow levels) levels

end Retelling.Alike

end FrontEnd
