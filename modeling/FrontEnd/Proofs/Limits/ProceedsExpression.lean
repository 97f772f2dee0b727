import FrontEnd.Proofs.Limits.Proceeds

/-!
# Expressions proceed

One lemma for each check of an expression, over any operands that pass a token each.  An operand is
about operands one token further on (`operandWith`), so the number of levels that it may open is
bounded by the tokens that are left (`operand`).
-/

namespace FrontEnd

open Check

namespace Proceeds

variable {w : Stage} {c : Context} {s : State} {p : DataType → Prop}

/-! ### Checks that open no level -/

section

variable (t : Token) (symbol : Symbol)

theorem apply (op : Operator) (left right : DataType) : Stays w (Check.apply op t left right) := by
  unfold Check.apply
  split
  · exact pure _
  · exact violateAt rfl

theorem checkLiteralIndex (size : Dimension) : Stays w (Check.checkLiteralIndex t size) := by
  unfold Check.checkLiteralIndex
  split
  · exact pure _
  refine ite ?_ (pure _)
  split
  · exact pure _
  · exact ite (violateAt rfl) (pure _)

theorem member : Stays w (Check.member symbol t) := by
  unfold Check.member
  split
  · refine (expectMark (by decide)).discard.next fun _ ↦ (expect (by decide) _).next fun _ ↦
      (resolve _).next fun _ ↦ ?_
    split
    · split
      · exact pure _
      · exact violateAt rfl
    · exact violateAt rfl
  · exact violateAt rfl

theorem writable : Stays w (Check.writable t) := by
  refine (resolve _).next fun _ ↦ ?_
  split
  · exact violateAt rfl
  · exact guard (violateAt rfl) (guard (violateAt rfl) (pure _))

theorem requireInt (target : Target) : Stays w (Check.requireInt target) :=
  ite (violateAt rfl) (pure _)

theorem markInitialized (target : Target) : Stays w (Check.markInitialized target) :=
  modifySymbol _ _

theorem callee : Stays w (Check.callee t) := by
  refine (resolve _).next fun _ ↦ ?_
  split
  · split
    · exact pure _
    · exact violateAt rfl
  · split
    · exact pure _
    · exact violateAt rfl

theorem checkArity (function : String) (expected found : Nat) :
    Stays w (Check.checkArity t function expected found) :=
  ite (violateAt rfl) (pure _)

theorem checkTypes : ∀ (index : Nat) (found : List Argument) (parameters : List DataType),
    Stays w (Check.checkTypes index found parameters)
  | index, (_, _) :: found, _ :: parameters =>
    guard (violateAt rfl) (checkTypes (index + 1) found parameters)
  | _, [], _ => pure _
  | _, _ :: _, [] => pure _

theorem wholeArray (close : Nat) : Stays w (Check.wholeArray close) :=
  peek.next fun _ ↦ here.next fun _ ↦ ite ((resolve _).next fun _ ↦ pure _) (pure _)

theorem unmoved_valueSymbol : Unmoved (Check.valueSymbol t) := by
  intro c s
  simp only [Check.valueSymbol, ensures_bind, ensures_resolve]
  split
  · split
    · exact rfl
    · exact rfl
    · exact (ensures_pure _).2 rfl
  · split
    · exact rfl
    · exact rfl

end

/-! ### Chains -/

/-- An operator that is taken in is passed, and so is a token of its right side. -/
theorem roundsOn_chainRound {rightSide : Nat → Check DataType} {stop : Nat}
    (hstop : stop ≤ w.tokens.size) (hright : ∀ n, MovesOn w (rightSide n)) (floor : Nat) :
    RoundsOn w (do return (← Check.here) < stop) (Check.chainRound rightSide stop floor) := by
  intro c s left hc hstart hsize
  simp only [ensures_bind, ensures_here, ensures_pure, decide_eq_true_eq]
  refine ⟨trivial, fun hlt ↦ ?_⟩
  have hnext : c.after s.position = s.position + 1 := if_pos (hc ▸ Nat.lt_of_lt_of_le hlt hstop)
  simp only [Check.chainRound, Check.operator?, ensures_bind, ensures_peek]
  have hdone (left : DataType) : Onward w.tokens.size (Again (.done left)) s s :=
    (Onward.of_position_eq hsize rfl).mono (not_again_done left)
  cases Operator.ofKind? (c.tokenAt s.position).kind with
  | none => exact hdone left
  | some op =>
    simp only [ensures_bind, ensures_ite, ensures_pure, ensures_discard, ensures_advance,
      ensures_here, ensures_violateAt, ensures_violate, ensures_peek, hnext]
    refine ⟨fun _ ↦ hdone left, fun _ ↦ ⟨fun _ ↦ excused_of_isLimit rfl, fun hroom ↦
      ⟨fun _ ↦ excused_of_isLimit rfl, fun _ ↦ ?_⟩⟩⟩
    have hside : Stays w (rightSide (op.precedence + 1) >>=
        Check.apply op (c.tokenAt s.position) left) :=
      (hright _).next fun right ↦ apply _ op left right
    have hrun := hside (s := s.movedTo (s.position + 1)) hc (Nat.le_succ_of_le hstart)
      (Nat.lt_of_lt_of_le hlt hstop)
    rw [← ensures_bind]
    exact hrun.mono fun type later hon ↦
      ⟨Nat.le_of_succ_le hon.le, hon.le_size, fun _ ↦ hon.le⟩

/-! ### Expressions over operands -/

section

variable {operand : Nat → Check DataType}

section

variable (hoperand : ∀ stop ≤ w.tokens.size, MovesOn w (operand stop))

include hoperand

theorem chain {stop : Nat} (hstop : stop ≤ w.tokens.size) (levels floor : Nat) :
    MovesOn w (Check.chain operand stop levels floor) := by
  induction levels generalizing floor with
  | zero =>
    exact (hoperand stop hstop).andThen fun type ↦
      (roundsOn_chainRound hstop (fun _ ↦ hoperand stop hstop) floor).roundsWhile type
  | succ levels ih =>
    exact (hoperand stop hstop).andThen fun type ↦
      (roundsOn_chainRound hstop ih floor).roundsWhile type

theorem expressionWith {stop : Nat} (hstop : stop ≤ w.tokens.size) :
    MovesOn w (Check.expressionWith operand stop) :=
  here.next fun _ ↦ guard (violate rfl) <| (chain hoperand hstop _ 0).andThen fun type ↦
    here.next fun _ ↦ ite (peek.next fun _ ↦ ite (violateThen rfl) (violateThen rfl)) (pure type)

theorem oneIndex (size : Dimension) : Stays w (Check.oneIndex operand size) :=
  here.next fun _ ↦ matchingClose _ fun _ hclose ↦ advance.discard.next fun _ ↦
    peek.next fun t ↦ here.next fun _ ↦ guard (checkLiteralIndex t size) <|
      (expressionWith hoperand (Nat.le_of_lt hclose)).next fun _ ↦ guard (violateAt rfl)
        advance.discard

theorem indices {wrongCount : Check Unit} (hwrong : Stays w wrongCount) : ∀ sizes,
    Stays w (Check.indices operand wrongCount sizes)
  | [] => pure _
  | size :: sizes => (next? .leftBracket).next fun _ ↦ otherwise hwrong <|
      (oneIndex hoperand size).next fun _ ↦ indices hwrong sizes

theorem elementType (symbol : Symbol) (t : Token) :
    Stays w (Check.elementType operand symbol t) := by
  unfold Check.elementType
  split
  · exact violateAt rfl
  · exact (indices hoperand (violateAt rfl) _).next fun _ ↦ (next? .leftBracket).next fun _ ↦
      guard (violateAt rfl) (pure _)

theorem argumentRound (close : Nat) (before : List Argument) :
    Proceeds w Again (Check.argumentRound operand close before) :=
  peek.next fun _ ↦ expressionEnd [.comma] fun stop hstop ↦
    (expressionWith hoperand (Nat.le_trans (Nat.min_le_left _ _) hstop)).andThen fun _ ↦
      here.next fun _ ↦ ite (pure _) <| (expect (by decide) _).discard.next fun _ ↦ pure _

theorem arguments (close : Nat) : Stays w (Check.arguments operand close) :=
  here.next fun _ ↦ ite (pure _) (rounds (argumentRound hoperand close) [])

theorem declaredCall (info : FunctionInfo) (t : Token) (close : Nat) :
    Stays w (Check.declaredCall operand info t close) :=
  (arguments hoperand close).next fun _ ↦ (expectMark (by decide)).discard.next fun _ ↦
    (checkArity _ _ _ _).next fun _ ↦ (checkTypes _ _ _).next fun _ ↦ pure _

theorem builtinCall (b : Builtin) (t : Token) (close : Nat) :
    Stays w (Check.builtinCall operand b t close) :=
  (wholeArray close).next fun _ ↦ ite
    (advance.discard.next fun _ ↦ (expectMark (by decide)).discard.next fun _ ↦ pure _)
    ((arguments hoperand close).next fun _ ↦ (expectMark (by decide)).discard.next fun _ ↦
      (checkArity _ _ _ _).next fun _ ↦ (checkTypes _ _ _).next fun _ ↦ pure _)

theorem nameType (symbol : Symbol) (t : Token) (after : Kind) :
    Stays w (Check.nameType operand symbol t after) := by
  unfold Check.nameType
  split
  · exact elementType hoperand symbol t
  · exact (member t symbol).next fun _ ↦ otherwise (warn _ _) (pure _)
  · exact guard (violateAt rfl) (guard (violateAt rfl) (advance.discard.next fun _ ↦ pure _))
  · exact guard (violateAt rfl) (guard (violateAt rfl) (advance.discard.next fun _ ↦ pure _))
  · exact guard (violateAt rfl) (otherwise (warn _ _) (pure _))

end

/-! ### One level further on -/

variable (hoperand : ∀ stop ≤ w.tokens.size, MovesOn w.next (operand stop))

include hoperand

theorem target : MovesOn w (Check.target operand) := by
  refine (expect (by decide) _).first fun t ↦ (writable t).next fun symbol ↦
    peekKind.next fun _ ↦ ?_
  split
  · exact (elementType hoperand symbol t).next fun _ ↦ pure _
  · exact (member t symbol).next fun _ ↦ pure _
  · exact guard (violateAt rfl) (pure _)

theorem call : MovesOn w (Check.call operand) := by
  refine (expect (by decide) _).first fun t ↦ (callee t).next fun callee ↦ here.next fun _ ↦
    matchingClose _ fun close _ ↦ advance.discard.next fun _ ↦ ?_
  cases callee with
  | declared info => exact declaredCall hoperand info t close
  | builtin b => exact builtinCall hoperand b t close

theorem fromToken_nameOperand (stop : Nat) (t : Token) :
    FromToken w (fun _ ↦ True) (Check.nameOperand operand stop t) := by
  have hafter (after : Kind) : FromToken w (fun _ ↦ True)
      (do
        if after = .leftParen then
          let type ← Check.call operand
          if type = .void then Check.violateAt (.voidInExpression t.lexeme) t
          return type
        else
          let symbol ← Check.valueSymbol t
          Functor.discard Check.advance
          Check.nameType operand symbol t after) :=
    .ite (.first (.of_proceeds (call hoperand)) fun _ ↦ guard (violateAt rfl) (pure _)) <|
      .after (unmoved_valueSymbol t) fun symbol ↦ .first FromToken.advance.discard fun _ ↦
        nameType hoperand symbol t after
  exact .after (fun _ _ ↦ rfl) fun _ ↦ .ite (.after (fun _ _ ↦ rfl) hafter)
    (.after (fun _ _ ↦ rfl) hafter)

theorem fromToken_parenthesised (stop : Nat) :
    FromToken w (fun _ ↦ True) (Check.parenthesised operand stop) :=
  .after (fun _ _ ↦ rfl) fun _ ↦ .matchingClose _ fun _ hclose ↦ .guard
    (fun _ _ ↦ (ensures_violate _).2 rfl) <| .first FromToken.advance.discard fun _ ↦
      (expressionWith (w := w.next) hoperand (Nat.le_of_lt hclose)).next fun _ ↦
        advance.discard.next fun _ ↦ pure _

/-- What an operand does at its first token is about the operands that start behind it. -/
theorem fromToken_operandWith {stop : Nat} (hstop : stop ≤ w.tokens.size) (t : Token) :
    FromToken w (fun _ ↦ True)
      (match DataType.ofLiteral? t.kind with
        | some type => do
          Functor.discard Check.advance
          return type
        | none =>
          match t.kind with
          | .leftParen => Check.parenthesised operand stop
          | .negation => do
            Functor.discard Check.advance
            let found ← operand stop
            if found ≠ .bool then Check.violateAt (.notRequiresBool found) t
            return .bool
          | .increment | .decrement => do
            Functor.discard Check.advance
            Check.requireInt (← Check.target operand)
            return .int
          | .identifier => Check.nameOperand operand stop t
          | .rightParen => Check.violate .unexpectedClosingParenthesis
          | .inputWord => Check.violate .inputInExpression
          | _ => Check.violate (.unexpectedToken t.lexeme .expression)) := by
  have hcount : FromToken w (fun _ ↦ True) (do
      Functor.discard Check.advance
      Check.requireInt (← Check.target operand)
      return DataType.int) :=
    .first FromToken.advance.discard fun _ ↦
      (target (w := w.next) fun stop hstop ↦ (hoperand stop hstop).later).next fun _ ↦
        (requireInt _).next fun _ ↦ pure _
  split
  · exact .first FromToken.advance.discard fun _ ↦ pure _
  split
  · exact fromToken_parenthesised hoperand stop
  · exact .first FromToken.advance.discard fun _ ↦ (hoperand stop hstop).next fun _ ↦
      guard (violateAt rfl) (pure _)
  · exact hcount
  · exact hcount
  · exact fromToken_nameOperand hoperand stop t
  · exact .of_proceeds (violate rfl)
  · exact .of_proceeds (violate rfl)
  · exact .of_proceeds (violate rfl)

/-- An operand is about the operands that start behind its first token. -/
theorem operandWith {stop : Nat} (hstop : stop ≤ w.tokens.size) :
    MovesOn w (Check.operandWith operand stop) := by
  intro c s hc hstart hsize
  simp only [Check.operandWith, ensures_bind, ensures_here, ensures_ite, ensures_violate,
    ensures_peek]
  refine ⟨fun _ ↦ excused_of_isLimit rfl, fun hroom ↦ ?_⟩
  exact fromToken_operandWith hoperand hstop _ hc hstart (by omega)

end

end Proceeds

/-! ### Levels -/

/-- The stage of a check with a number of levels left: it comes to the last of them only where that
many tokens are left. -/
def Stage.ofLevels (tokens : Array Token) (start levels : Nat) : Stage :=
  ⟨tokens, start, fun _ ↦ start + levels ≤ tokens.size⟩

theorem Stage.next_ofLevels (tokens : Array Token) (start levels : Nat) :
    (Stage.ofLevels tokens start (levels + 1)).next = .ofLevels tokens (start + 1) levels := by
  simp only [Stage.ofLevels, Stage.next, Nat.add_right_comm start 1 levels, Nat.add_assoc]

/-- A check that is refused where it starts. -/
theorem Proceeds.tooDeep {α : Type} (tokens : Array Token) (start : Nat) (p : α → Prop) :
    Proceeds (.ofLevels tokens start 0) p Check.tooDeep :=
  fun _ _ _ hstart hsize _ ↦ .inr (Nat.le_trans hstart hsize)

/-- Each level that an operand opens starts behind its first token. -/
theorem movesOn_operand {tokens : Array Token} (levels start : Nat) {stop : Nat}
    (hstop : stop ≤ tokens.size) :
    MovesOn (.ofLevels tokens start levels) (operand levels stop) := by
  induction levels generalizing start stop with
  | zero => exact .tooDeep tokens start _
  | succ levels ih =>
    refine Proceeds.operandWith (fun stop hstop ↦ ?_) hstop
    rw [Stage.next_ofLevels]
    exact ih (start + 1) hstop

end FrontEnd
