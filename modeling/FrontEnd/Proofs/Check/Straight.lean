import FrontEnd.Proofs.Check.Statements
import FrontEnd.Proofs.Check.Traced

/-!
# Straight walks

The words of control flow stand only where a statement of that sort is read.  The walk over an
expression, an assignment or a declaration goes straight (`GoesStraight`): where it succeeds it has
passed none of these words, and whether a return was seen is as before.

A check that passes a token without a look at its kind goes straight only from a token that is known
not to be such a word.  So as for other walks there is one lemma for a check from a state
(`StraightFrom`) and one from everywhere, and the checks are composed in the order of their text.
-/

namespace FrontEnd

open Check

/-- Whether a token of the kind is a word of control flow. -/
def Kind.isControl : Kind → Bool
  | .ifWord | .elseIfWord | .elseWord | .switchWord | .caseWord | .defaultWord | .forWord
  | .whileWord | .doWord | .breakWord | .continueWord | .returnWord | .endWord => true
  | _ => false

/-- A walk from one state to the other passed no word of control flow and saw no return. -/
structure Straight (c : Context) (s after : State) : Prop where
  le : s.position ≤ after.position
  plain : ∀ k, s.position ≤ k → k < after.position → (c.kindAt k).isControl = false
  sawReturn : after.sawReturn = s.sawReturn

/-- A check that goes straight from a state, where it succeeds. -/
def StraightFrom {α : Type} (x : Check α) (c : Context) (s : State) : Prop :=
  Ensures x c s (fun _ ↦ True) fun _ after ↦ Straight c s after

/-- A check that goes straight wherever it succeeds. -/
def GoesStraight {α : Type} (x : Check α) : Prop :=
  ∀ c s, c.Closed → StraightFrom x c s

/-- The rules of a walk that stays where it is. -/
def Rules.standing : Rules :=
  ⟨fun _ s t ↦ t.position = s.position ∧ t.sawReturn = s.sawReturn, fun _ _ ↦ True⟩

section

variable {α β σ : Type} {x y : Check α} {f : α → Check β} {c : Context} {s after later : State}
  {k : Kind}

namespace Straight

theorem stay (hposition : after.position = s.position) (hreturn : after.sawReturn = s.sawReturn) :
    Straight c s after :=
  ⟨Nat.le_of_eq hposition.symm, fun _ _ _ ↦ by omega, hreturn⟩

theorem refl (c : Context) (s : State) : Straight c s s :=
  stay rfl rfl

theorem trans (h : Straight c s after) (h' : Straight c after later) : Straight c s later := by
  refine ⟨Nat.le_trans h.le h'.le, fun k hs hlater ↦ ?_, h'.sawReturn.trans h.sawReturn⟩
  by_cases hk : k < after.position
  · exact h.plain k hs hk
  · exact h'.plain k (Nat.le_of_not_lt hk) hlater

/-- One token is passed; at the end of the input nothing moves. -/
theorem step (hk : (c.kindAt s.position).isControl = false) :
    Straight c s (s.movedTo (c.after s.position)) := by
  have hafter : c.after s.position = s.position + 1 ∨ c.after s.position = s.position := by
    unfold Context.after
    split
    · exact .inl rfl
    · exact .inr rfl
  refine ⟨?_, fun k hs hlater ↦ ?_, rfl⟩
  · show s.position ≤ c.after s.position
    omega
  · change k < c.after s.position at hlater
    obtain rfl : k = s.position := by omega
    exact hk

end Straight

/-- What a walk that stays where it is leaves. -/
theorem Trace.straight {past : List Moment} (h : Trace .standing c s past after) :
    after.position = s.position ∧ after.sawReturn = s.sawReturn := by
  induction h with
  | nil => exact ⟨rfl, rfl⟩
  | lookup _ _ ih => exact ih
  | change _ hchange ih => exact ⟨hchange.1.trans ih.1, hchange.2.trans ih.2⟩
  | inside _ _ _ ih ihinner => exact ⟨ihinner.1.trans ih.1, ihinner.2.trans ih.2⟩
  | inScope _ _ _ ih ihinner => exact ⟨ihinner.1.trans ih.1, ihinner.2.trans ih.2⟩

/-! ### From a state -/

namespace StraightFrom

theorem bind (hx : StraightFrom x c s)
    (hf : ∀ a after, x.runFrom c s = (.ok a, after) → StraightFrom (f a) c after) :
    StraightFrom (x >>= f) c s := by
  refine ensures_bind f |>.2 ((hx.and (ensures_runs x c s)).mono fun a after h ↦ ?_)
  exact (hf a after h.2).mono fun _ _ hrest ↦ h.1.trans hrest

/-- The rest of a check goes on from where its first part may lead. -/
theorem next {E : SemanticError → Prop} {Q : α → State → Prop} (hx : StraightFrom x c s)
    (hensures : Ensures x c s E Q) (hf : ∀ a after, Q a after → StraightFrom (f a) c after) :
    StraightFrom (x >>= f) c s :=
  hx.bind fun a after hrun ↦ hf a after (hensures.of_run hrun)

theorem ite {p : Prop} [Decidable p] (hx : p → StraightFrom x c s) (hy : ¬p → StraightFrom y c s) :
    StraightFrom (if p then x else y) c s :=
  (ensures_ite p y).2 ⟨hx, hy⟩

/-- A token that is known not to be a word of control flow. -/
theorem advance (hk : c.kindAt s.position = k) (hcontrol : k.isControl = false) :
    StraightFrom Check.advance c s :=
  ensures_advance.2 (.step (hk ▸ hcontrol))

/-- A token that is known not to be a word of control flow, and what goes on behind it. -/
theorem pass (hk : c.kindAt s.position = k) (hcontrol : k.isControl = false)
    {f : PUnit → Check β} (hf : StraightFrom (f ⟨⟩) c (s.movedTo (c.after s.position))) :
    StraightFrom (discard Check.advance >>= f) c s := by
  refine (ensures_bind f).2 (ensures_discard.2 (ensures_advance.2 ?_))
  exact hf.mono fun _ _ hrest ↦ (Straight.step (hk ▸ hcontrol)).trans hrest

end StraightFrom

/-! ### From everywhere -/

namespace GoesStraight

/-- A check that leaves traces whatever the rules are stays where it is. -/
theorem of_traced (h : Traced .standing x) : GoesStraight x := by
  refine fun c s _ ↦ (ensures_leaves x c s).mono ?_
  rintro _ _ rfl
  exact .stay (h c s).straight.1 (h c s).straight.2

theorem pure (a : α) : GoesStraight (pure a : Check α) :=
  of_traced (.pure a)

theorem violateAt (v : Violation) (t : Token) : GoesStraight (Check.violateAt v t : Check α) :=
  of_traced (.violateAt v t)

theorem violate (v : Violation) : GoesStraight (Check.violate v : Check α) :=
  of_traced (.violate v)

theorem peek : GoesStraight Check.peek :=
  of_traced .peek

theorem here : GoesStraight Check.here :=
  of_traced .here

theorem next? (k : Kind) : GoesStraight (Check.next? k) :=
  of_traced (.next? k)

theorem matchingClose (opening : Nat) : GoesStraight (Check.matchingClose opening) :=
  of_traced (.matchingClose opening)

theorem bind (hx : GoesStraight x) (hf : ∀ a, GoesStraight (f a)) : GoesStraight (x >>= f) :=
  fun c s hc ↦ (hx c s hc).bind fun a after _ ↦ hf a c after hc

theorem ite {p : Prop} [Decidable p] (hx : GoesStraight x) (hy : GoesStraight y) :
    GoesStraight (if p then x else y) :=
  fun c s hc ↦ .ite (fun _ ↦ hx c s hc) fun _ ↦ hy c s hc

/-- A check that may come before another one. -/
theorem guard {p : Prop} [Decidable p] (hx : GoesStraight x) {z : Check β} (hz : GoesStraight z) :
    GoesStraight (if p then x >>= fun _ ↦ z else z) :=
  ite (hx.bind fun _ ↦ hz) hz

theorem otherwise {p : Prop} [Decidable p] (hx : GoesStraight x) {z : Check β}
    (hz : GoesStraight z) : GoesStraight (if p then z else x >>= fun _ ↦ z) :=
  ite hz (hx.bind fun _ ↦ hz)

theorem discard (hx : GoesStraight x) : GoesStraight (discard x) :=
  fun c s hc ↦ ensures_discard.2 (hx c s hc)

theorem expect (hk : k.isControl = false) (wanted : Wanted) :
    GoesStraight (Check.expect k wanted) :=
  fun _ _ _ ↦ ensures_expect.2 ⟨fun h ↦ .step (h ▸ hk), fun _ ↦ trivial⟩

theorem expectMark (hk : k.isControl = false) : GoesStraight (Check.expectMark k) :=
  expect hk (.mark k)

theorem roundsWhile {due : Check Bool} {round : σ → Check (ForInStep σ)} {value : σ}
    (hdue : Traced .standing due) (hround : ∀ value, GoesStraight (round value)) :
    GoesStraight (Check.roundsWhile due round value) := by
  intro c s hc
  refine ensures_roundsWhile (I := fun _ after ↦ Straight c s after) (fun _ ↦ trivial)
    (.refl c s) fun value t ht ↦ ?_
  refine (of_traced hdue c t hc).mono fun more after hafter ↦ ⟨fun _ ↦ ?_, fun _ ↦ ht.trans hafter⟩
  refine (hround value c after hc).mono fun r later hlater ↦ ?_
  have hwhole := (ht.trans hafter).trans hlater
  cases r <;> exact hwhole

theorem rounds {round : σ → Check (ForInStep σ)} {value : σ}
    (hround : ∀ value, GoesStraight (round value)) : GoesStraight (Check.rounds round value) :=
  roundsWhile (.pure true) hround

/-! ### Operands and expressions -/

section

variable {operand : Nat → Check DataType} (hoperand : ∀ stop, GoesStraight (operand stop))

theorem isControl_of_operator {op : Operator} (h : Operator.ofKind? k = some op) :
    k.isControl = false := by
  cases k <;> first | rfl | cases h

theorem isControl_of_literal {type : DataType} (h : DataType.ofLiteral? k = some type) :
    k.isControl = false := by
  cases k <;> first | rfl | cases h

theorem isControl_of_label {selector : DataType} (h : (labelKinds selector).contains k) :
    k.isControl = false := by
  unfold labelKinds at h
  split at h <;> cases k <;> first | rfl | cases h

theorem operator? (stop floor : Nat) : GoesStraight (Check.operator? stop floor) := by
  intro c s hc
  refine .bind (peek c s hc) fun t after hpeek ↦ ?_
  cases hpeek
  split
  · exact pure none c s hc
  next op hop =>
    rw [hc.kind_tokenAt] at hop
    refine .ite (fun _ ↦ pure none c s hc) fun _ ↦ ?_
    refine .pass rfl (isControl_of_operator hop) ?_
    exact (here.bind fun _ ↦ guard (violateAt _ _) <| peek.bind fun _ ↦
      guard (violate _) (pure _)) c _ hc

theorem chainRound {rightSide : Nat → Check DataType} (hright : ∀ n, GoesStraight (rightSide n))
    (stop floor : Nat) (left : DataType) :
    GoesStraight (Check.chainRound rightSide stop floor left) := by
  refine (operator? stop floor).bind fun found ↦ ?_
  split
  · exact pure _
  · exact (hright _).bind fun _ ↦ (of_traced (.apply _ _ _ _)).bind fun _ ↦ pure _

include hoperand in
theorem chain (stop levels floor : Nat) : GoesStraight (Check.chain operand stop levels floor) := by
  have hdue : Traced .standing (return (← Check.here) < stop : Check Bool) :=
    Traced.here.bind fun _ ↦ .pure _
  induction levels generalizing floor with
  | zero =>
    exact (hoperand stop).bind fun _ ↦ roundsWhile hdue fun _ ↦
      chainRound (fun _ ↦ hoperand stop) stop floor _
  | succ levels ih =>
    exact (hoperand stop).bind fun _ ↦ roundsWhile hdue fun _ ↦ chainRound ih stop floor _

include hoperand in
theorem expressionWith (stop : Nat) : GoesStraight (Check.expressionWith operand stop) := by
  refine here.bind fun _ ↦ guard (violate _) ?_
  refine (chain hoperand stop (Operator.maxPrecedence + 1) 0).bind fun type ↦ here.bind fun _ ↦ ?_
  refine ite (peek.bind fun t ↦ ?_) (pure type)
  exact ite ((violate _).bind fun _ ↦ pure type) ((violate _).bind fun _ ↦ pure type)

end

/-! ### What stands in brackets -/

section

variable {operand : Nat → Check DataType} (hphrase : TakePhrases operand)
  (hoperand : ∀ stop, GoesStraight (operand stop))

include hphrase hoperand

/-- A bracket, the expression inside and what goes on at the closing bracket. -/
theorem inside {closing : Kind} {rest : DataType → Check β} (hc : c.Closed)
    (hopening : (c.kindAt s.position).closer? = some closing) {close : Nat}
    (hclose : c.kindAt close = closing)
    (hbound : ∀ j, Phrase c.kindAt true (s.position + 1) j → j ≤ close)
    (hrest : ∀ type after, c.kindAt after.position = closing → StraightFrom (rest type) c after) :
    StraightFrom (Check.expressionWith operand close >>= rest) c
      (s.movedTo (c.after s.position)) := by
  have hafter := Context.after_of_ne_eof (Kind.closer?_ne_eof hopening).1
  have hbounds : Bounds c.kindAt (s.movedTo (c.after s.position)).position close := by
    rw [State.position_movedTo, hafter]
    exact fun j hj ↦ hbound j hj.withCommas
  refine .next (expressionWith hoperand close c _ hc)
    (ensures_expressionWith_bounded hphrase (fun _ ↦ hc.seesTo close) hbounds) ?_
  rintro type after ⟨-, rfl⟩
  exact hrest type after hclose

theorem oneIndex (hc : c.Closed) (hopen : c.kindAt s.position = .leftBracket) (size : Dimension) :
    StraightFrom (Check.oneIndex operand size) c s := by
  have hcloser : (c.kindAt s.position).closer? = some .rightBracket := by rw [hopen]; rfl
  refine .bind (here c s hc) fun i after hhere ↦ ?_
  cases hhere
  refine .next (matchingClose _ c s hc) (ensures_matchingClose hcloser) ?_
  rintro close after ⟨hsame, hclose, hbound⟩
  rw [hsame]
  refine .pass hopen rfl ?_
  have hrest (index : Token) : StraightFrom (do
      let found ← Check.expressionWith operand close
      if found ≠ .int then Check.violateAt (.indexType found) index
      Functor.discard Check.advance) c (s.movedTo (c.after s.position)) := by
    refine inside (s := s) hphrase hoperand hc hcloser hclose hbound fun found after hend ↦ ?_
    exact .ite (fun _ ↦ .bind (violateAt _ _ c after hc) fun _ _ hrun ↦ by cases hrun) fun _ ↦
      ensures_discard.2 (StraightFrom.advance hend rfl)
  refine .bind (peek c _ hc) fun index after hpeek ↦ ?_
  cases hpeek
  refine .bind (here c _ hc) fun i after hhere ↦ ?_
  cases hhere
  refine .ite (fun _ ↦ ?_) fun _ ↦ hrest _
  refine .next (of_traced (.checkLiteralIndex _ size) c _ hc) (ensures_checkLiteralIndex _ size) ?_
  rintro _ _ rfl
  exact hrest _

theorem indices {wrongCount : Check Unit} (hwrong : GoesStraight wrongCount)
    (hrefuses : ∀ c s, Ensures wrongCount c s Unlost fun _ _ ↦ False) :
    ∀ sizes, GoesStraight (Check.indices operand wrongCount sizes)
  | [] => pure _
  | size :: sizes => by
    intro c s hc
    refine .bind (next? .leftBracket c s hc) fun opens after hnext ↦ ?_
    cases hnext
    refine .ite (fun hopen ↦ ?_) fun _ ↦ .next (hwrong c s hc) (hrefuses c s) fun _ _ h ↦ h.elim
    exact .bind (oneIndex hphrase hoperand hc (by simpa using hopen) size) fun _ after _ ↦
      indices hwrong hrefuses sizes c after hc

theorem elementType (symbol : Symbol) (name : Token) :
    GoesStraight (Check.elementType operand symbol name) := by
  unfold Check.elementType
  split
  · exact violateAt _ _
  · exact (indices hphrase hoperand (violateAt _ _) (fun _ _ ↦ by simp) _).bind fun _ ↦
      (next? .leftBracket).bind fun _ ↦ guard (violateAt _ _) (pure _)

omit hphrase hoperand in
theorem member (symbol : Symbol) (name : Token) : GoesStraight (Check.member symbol name) := by
  unfold Check.member
  split
  · refine (expectMark rfl).discard.bind fun _ ↦ (expect rfl .memberName).bind fun t ↦
      (of_traced (.resolve _)).bind fun _ ↦ ?_
    split
    · split
      · exact pure _
      · exact violateAt _ _
    · exact violateAt _ _
  · exact violateAt _ _

theorem target : GoesStraight (Check.target operand) := by
  refine (expect rfl .name).bind fun t ↦ (of_traced (.writable t)).bind fun symbol ↦
    (of_traced .peekKind).bind fun after ↦ ?_
  split
  · exact (elementType hphrase hoperand symbol t).bind fun _ ↦ pure _
  · exact (member symbol t).bind fun _ ↦ pure _
  · exact guard (violateAt _ _) (pure _)

/-! ### Calls -/

omit hphrase in
theorem arguments (close : Nat) : GoesStraight (Check.arguments operand close) := by
  have hround (before : List Check.Argument) :
      GoesStraight (Check.argumentRound operand close before) :=
    peek.bind fun _ ↦ (of_traced (.expressionEnd [.comma])).bind fun _ ↦
      (expressionWith hoperand _).bind fun _ ↦ here.bind fun _ ↦ ite (pure _) <|
        (expect rfl _).discard.bind fun _ ↦ pure _
  exact here.bind fun _ ↦ ite (pure _) (rounds hround)

omit hphrase in
/-- A call, given that a parenthesis follows the name. -/
theorem call (hc : c.Closed) (hparen : c.kindAt (s.position + 1) = .leftParen) :
    StraightFrom (Check.call operand) c s := by
  refine .next (expect rfl .functionName c s hc) (E := fun _ ↦ True)
    (Q := fun _ after ↦ c.kindAt after.position = .leftParen) ?_ fun name after hopen ↦ ?_
  · refine ensures_expect.2 ⟨fun hname ↦ ?_, fun _ ↦ trivial⟩
    rw [State.position_movedTo, Context.after_of_kindAt hname (by simp)]
    exact hparen
  refine .next (of_traced (.callee name) c after hc) (ensures_callee name) ?_
  rintro callee later hsame
  rw [hsame]
  refine .bind (here c _ hc) fun i later hhere ↦ ?_
  cases hhere
  refine .next (matchingClose _ c _ hc) (ensures_matchingClose (by rw [hopen]; rfl)) ?_
  rintro close later ⟨hsame, -⟩
  rw [hsame]
  refine .pass hopen rfl ?_
  have harguments := arguments hoperand close
  split
  · exact (harguments.bind fun _ ↦ (expectMark rfl).discard.bind fun _ ↦
      (of_traced (.checkArity _ _ _ _)).bind fun _ ↦
        (of_traced (.checkTypes _ _ _)).bind fun _ ↦ pure _) c _ hc
  next b =>
    have hwhole : GoesStraight (Check.wholeArray close) :=
      peek.bind fun _ ↦ here.bind fun _ ↦ ite ((of_traced (.resolve _)).bind fun _ ↦ pure _) (pure _)
    refine .next (hwhole c _ hc) (ensures_wholeArray close) ?_
    rintro whole later ⟨hsame, hname⟩
    rw [hsame]
    refine .ite (fun hlen ↦ ?_) fun _ ↦ ?_
    · obtain ⟨-, hname⟩ := hname (by simpa using (Bool.and_eq_true_iff.1 hlen).2)
      rw [hc.kind_tokenAt] at hname
      exact .pass hname rfl (((expectMark rfl).discard.bind fun _ ↦ pure _) c _ hc)
    · exact (harguments.bind fun _ ↦ (expectMark rfl).discard.bind fun _ ↦
        (of_traced (.checkArity _ _ _ _)).bind fun _ ↦
          (of_traced (.checkTypes _ _ _)).bind fun _ ↦ pure _) c _ hc

/-! ### Operands -/

omit hphrase hoperand in
theorem warn (name : String) (t : Token) : GoesStraight (Check.warn name t) :=
  of_traced (.modify fun _ _ ↦ ⟨rfl, rfl⟩)

/-- What may follow a name is looked at only inside the expression. -/
theorem nameType (hc : c.Closed) (symbol : Symbol) (t : Token) {follows : Kind}
    (hfollows : follows = .eof ∨ c.kindAt s.position = follows) :
    StraightFrom (Check.nameType operand symbol t follows) c s := by
  have hcount (hk : c.kindAt s.position = follows) (hcontrol : follows.isControl = false) :
      StraightFrom (do
        if symbol.isConstant then Check.violateAt (.constantReassignment symbol.name) t
        if symbol.isArray || symbol.type ≠ .int then
          Check.violateAt (.countRequiresInt symbol.type) t
        Functor.discard Check.advance
        return .int : Check DataType) c s := by
    have hpass : StraightFrom (do
        Functor.discard Check.advance
        return .int : Check DataType) c s := .pass hk hcontrol (pure _ c _ hc)
    have hrefused (v : Violation) (rest : PUnit → Check DataType) :
        StraightFrom (Check.violateAt v t >>= rest) c s :=
      .bind (violateAt v t c s hc) fun _ _ hrun ↦ by cases hrun
    exact .ite (fun _ ↦ hrefused _ _) fun _ ↦ .ite (fun _ ↦ hrefused _ _) fun _ ↦ hpass
  unfold Check.nameType
  split
  · exact elementType hphrase hoperand symbol t c s hc
  · exact ((member symbol t).bind fun _ ↦ otherwise (warn _ _) (pure _)) c s hc
  · exact hcount (by simpa using hfollows) rfl
  · exact hcount (by simpa using hfollows) rfl
  · exact (guard (violateAt _ _) <| otherwise (warn _ _) (pure _)) c s hc

theorem nameOperand (hc : c.Closed) (hname : c.kindAt s.position = .identifier) (stop : Nat)
    (t : Token) : StraightFrom (Check.nameOperand operand stop t) c s := by
  have hnext := Context.after_of_kindAt hname (by simp)
  have hrest {follows : Kind} (hfollows : follows = .eof ∨ c.kindAt (s.position + 1) = follows) :
      StraightFrom (do
        if follows = .leftParen then
          let type ← Check.call operand
          if type = .void then Check.violateAt (.voidInExpression t.lexeme) t
          return type
        else
          let symbol ← Check.valueSymbol t
          Functor.discard Check.advance
          Check.nameType operand symbol t follows) c s := by
    refine .ite (fun hparen ↦ ?_) fun _ ↦ ?_
    · subst hparen
      exact .bind (call hoperand hc (by simpa using hfollows)) fun _ after _ ↦
        guard (violateAt _ _) (pure _) c after hc
    · refine .next (of_traced (.valueSymbol t) c s hc) (ensures_valueSymbol t) ?_
      rintro symbol after hsame
      rw [hsame]
      refine .pass hname rfl (nameType hphrase hoperand hc symbol t ?_)
      rwa [State.position_movedTo, hnext]
  refine .bind (here c s hc) fun i after hhere ↦ ?_
  cases hhere
  refine .ite (fun _ ↦ ?_) fun _ ↦ ?_
  · refine .bind (of_traced .secondKind c s hc) fun follows after hsecond ↦ ?_
    cases hsecond
    exact hrest (.inr rfl)
  · refine .bind (pure Kind.eof c s hc) fun follows after hnone ↦ ?_
    cases hnone
    exact hrest (.inl rfl)

theorem parenthesised (hc : c.Closed) (hparen : c.kindAt s.position = .leftParen) (stop : Nat) :
    StraightFrom (Check.parenthesised operand stop) c s := by
  have hcloser : (c.kindAt s.position).closer? = some .rightParen := by rw [hparen]; rfl
  refine .bind (here c s hc) fun i after hhere ↦ ?_
  cases hhere
  refine .next (matchingClose _ c s hc) (ensures_matchingClose hcloser) ?_
  rintro close after ⟨hsame, hclose, hbound⟩
  rw [hsame]
  refine .ite (fun _ ↦ .bind (violate _ c s hc) fun _ _ hrun ↦ by cases hrun) fun _ ↦ ?_
  refine .pass hparen rfl (inside hphrase hoperand hc hcloser hclose hbound ?_)
  exact fun type after hend ↦ .pass hend rfl (pure type c _ hc)

theorem operandWith (stop : Nat) : GoesStraight (Check.operandWith operand stop) := by
  intro c s hc
  refine .bind (here c s hc) fun i after hhere ↦ ?_
  cases hhere
  refine .ite (fun _ ↦ .bind (violate _ c s hc) fun _ _ hrun ↦ by cases hrun) fun _ ↦ ?_
  refine .bind (peek c s hc) fun t after hpeek ↦ ?_
  cases hpeek
  have hcount {k : Kind} (hk : c.kindAt s.position = k) (hcontrol : k.isControl = false) :
      StraightFrom (do
        Functor.discard Check.advance
        Check.requireInt (← Check.target operand)
        return .int : Check DataType) c s :=
    .pass hk hcontrol (((target hphrase hoperand).bind fun _ ↦
      (of_traced (.requireInt _)).bind fun _ ↦ pure _) c _ hc)
  rw [hc.kind_tokenAt]
  split
  next type hliteral => exact .pass rfl (isControl_of_literal hliteral) (pure type c _ hc)
  next =>
    split
    next hk => exact parenthesised hphrase hoperand hc hk stop
    next hk =>
      exact .pass hk rfl (((hoperand stop).bind fun _ ↦ guard (violateAt _ _) (pure _)) c _ hc)
    next hk => exact hcount hk rfl
    next hk => exact hcount hk rfl
    next hk => exact nameOperand hphrase hoperand hc hk stop _
    all_goals exact violate _ c s hc

end

theorem operand (levels : Nat) : ∀ stop, GoesStraight (Check.operand levels stop) := by
  induction levels with
  | zero => exact fun stop ↦ of_traced .tooDeep
  | succ levels ih => exact operandWith (takePhrases_operand levels) ih

theorem valueType (levels : Nat) (terminators : List Kind) :
    GoesStraight (Check.valueType levels terminators) :=
  (of_traced (.expressionEnd terminators)).bind fun stop ↦ expressionWith (operand levels) stop

/-! ### Assignments -/

theorem requireType (wanted value : DataType) (place : Token) :
    GoesStraight (Check.requireType wanted value place) :=
  of_traced (.requireType wanted value place)

theorem inputValue (hc : c.Closed) (hinput : c.kindAt s.position = .inputWord) (type : DataType) :
    StraightFrom (Check.inputValue type) c s := by
  refine .bind (.advance hinput rfl) fun input after _ ↦ ?_
  exact (otherwise (violateAt _ _) <| (expectMark rfl).discard.bind fun _ ↦
    (expect rfl _).discard.bind fun _ ↦ (expectMark rfl).discard) c after hc

theorem markInitialized (t : Target) : GoesStraight (Check.markInitialized t) :=
  of_traced (Traced.read.bind fun _ ↦ .modify fun _ _ ↦ ⟨rfl, rfl⟩)

theorem plainAssignment (levels : Nat) (terminators : List Kind) (t : Target) (sign : Token) :
    GoesStraight (Check.plainAssignment levels terminators t sign) := by
  intro c s hc
  refine .bind (next? .inputWord c s hc) fun reads after hnext ↦ ?_
  cases hnext
  refine .ite (fun hinput ↦ ?_) fun _ ↦ ?_
  · exact .bind (inputValue hc (by simpa using hinput) _) fun _ after _ ↦
      markInitialized t c after hc
  · exact ((valueType levels terminators).bind fun _ ↦ (requireType _ _ _).bind fun _ ↦
      markInitialized t) c s hc

theorem compoundAssignment (levels : Nat) (terminators : List Kind) (op : Operator) (t : Target)
    (sign : Token) : GoesStraight (Check.compoundAssignment levels terminators op t sign) :=
  otherwise (violateAt _ _) <| peek.bind fun _ ↦ guard (violate _) <| otherwise (warn _ _) <|
    (valueType levels terminators).bind fun _ ↦ requireType _ _ _

theorem isControl_of_compound {op : Operator} (h : Operator.ofCompound? k = some op) :
    k.isControl = false := by
  cases k <;> first | rfl | cases h

theorem assignmentTail (levels : Nat) (terminators : List Kind) (t : Target) :
    GoesStraight (Check.assignmentTail levels terminators t) := by
  intro c s hc
  refine .bind (peek c s hc) fun sign after hpeek ↦ ?_
  cases hpeek
  rw [hc.kind_tokenAt]
  split
  next hk => exact .pass hk rfl (plainAssignment levels terminators t _ c _ hc)
  next hk => exact .pass hk rfl (of_traced (.requireInt t) c _ hc)
  next hk => exact .pass hk rfl (of_traced (.requireInt t) c _ hc)
  next =>
    split
    next op hop =>
      exact .pass rfl (isControl_of_compound hop)
        (compoundAssignment levels terminators op t _ c _ hc)
    next => exact violate _ c s hc

/-! ### Declarations -/

theorem typeWord (wanted : Wanted) : GoesStraight (Check.typeWord wanted) := by
  intro c s hc
  simp only [Check.typeWord, StraightFrom, ensures_bind, ensures_advance]
  split
  next type htype =>
    obtain ⟨hword, -⟩ := Option.filter_eq_some_iff.1 htype
    rw [hc.kind_tokenAt] at hword
    refine .step ?_
    cases hk : c.kindAt s.position <;> rw [hk] at hword <;> first | rfl | cases hword
  next => trivial

theorem another : GoesStraight Check.another := by
  intro c s hc
  refine .bind (next? .comma c s hc) fun more after hnext ↦ ?_
  cases hnext
  refine .ite (fun hcomma ↦ ?_) fun _ ↦ ?_
  · exact .pass (by simpa using hcomma) rfl (pure true c _ hc)
  · exact ((expect rfl _).discard.bind fun _ ↦ pure false) c s hc

theorem declarators {one : Check Unit} (hone : GoesStraight one) :
    GoesStraight (Check.declarators one) :=
  rounds fun _ ↦ hone.bind fun _ ↦ another.bind fun _ ↦ pure _

theorem arraySize : GoesStraight Check.arraySize := by
  intro c s hc
  simp only [Check.arraySize, StraightFrom, ensures_bind, ensures_advance, hc.kind_tokenAt]
  split
  next hk =>
    refine (ensures_literalSize _).imp (fun _ _ ↦ trivial) ?_
    rintro _ _ rfl
    exact .step (hk ▸ rfl)
  next => trivial
  next hk =>
    refine (ensures_namedSize _).imp (fun _ _ ↦ trivial) ?_
    rintro _ _ rfl
    exact .step (hk ▸ rfl)
  next => trivial

theorem dimension (hc : c.Closed) (hopen : c.kindAt s.position = .leftBracket) :
    StraightFrom Check.dimension c s :=
  .pass hopen rfl ((arraySize.bind fun _ ↦ (expectMark rfl).discard.bind fun _ ↦ pure _) c _ hc)

theorem arrayShape (hc : c.Closed) (hopen : c.kindAt s.position = .leftBracket) (name : Token) :
    StraightFrom (Check.arrayShape name) c s := by
  refine .bind (dimension hc hopen) fun first after _ ↦ ?_
  refine .bind (next? .leftBracket c after hc) fun more later hnext ↦ ?_
  cases hnext
  refine .ite (fun hmore ↦ ?_) fun _ ↦ pure _ c after hc
  exact .bind (dimension hc (by simpa using hmore)) fun _ later _ ↦
    ((next? .leftBracket).bind fun _ ↦ guard (violate _) (pure _)) c later hc

theorem element (type : DataType) : GoesStraight (Check.element type) := by
  intro c s hc
  simp only [Check.element, StraightFrom, ensures_bind, ensures_advance, hc.kind_tokenAt]
  split
  next found hfound =>
    have hstep := Straight.step (isControl_of_literal hfound)
    simp [hstep]
  next =>
    simp only [ensures_bind, ensures_ite, ensures_violateAt, ensures_resolve]
    refine ⟨fun _ ↦ trivial, fun hname ↦ ?_⟩
    have hname : c.kindAt s.position = .identifier := by simpa using hname
    have hstep := Straight.step (c := c) (s := s) (hname ▸ rfl)
    split
    · trivial
    · simp [hstep]

/-- A comma, and what goes on behind it, or something else. -/
theorem comma (hx : GoesStraight x) (hy : GoesStraight y) :
    GoesStraight (do if ← Check.next? .comma then Functor.discard Check.advance; x else y) := by
  intro c s hc
  refine .bind (next? .comma c s hc) fun more after hnext ↦ ?_
  cases hnext
  exact .ite (fun hcomma ↦ .pass (by simpa using hcomma) rfl (hx c _ hc)) fun _ ↦ hy c s hc

theorem row (type : DataType) : GoesStraight (Check.row type) := by
  have hround (count : Nat) : GoesStraight (do
      Check.element type
      if ← Check.next? .comma then
        Functor.discard Check.advance
        return ForInStep.yield (count + 1)
      else
        return ForInStep.done (count + 1)) :=
    (element type).bind fun _ ↦ comma (pure _) (pure _)
  have hend (count : Nat) : GoesStraight (do
      Functor.discard (Check.expectMark .rightBrace)
      return count) :=
    (expectMark rfl).discard.bind fun _ ↦ pure count
  exact (expectMark rfl).discard.bind fun _ ↦ (next? .rightBrace).bind fun _ ↦
    ite (hend _) ((rounds hround).bind hend)

theorem arrayInitializer (type : DataType) (isConstant : Bool) (shape : Check.Shape) :
    GoesStraight (Check.arrayInitializer type isConstant shape) := by
  have hcount (size : Dimension) (count : Nat) (place : Token) (tooMany : Nat → Nat → Violation) :
      GoesStraight (Check.checkCount size isConstant count place tooMany) :=
    of_traced (.checkCount size isConstant count place tooMany)
  cases shape with
  | row size => exact peek.bind fun _ ↦ (row type).bind fun _ ↦ hcount _ _ _ _
  | table rowCount columns =>
    have hrows : GoesStraight (Check.rows type columns isConstant) :=
      roundsWhile ((Traced.next? .rightBrace).bind fun _ ↦ .pure _) fun _ ↦ peek.bind fun _ ↦
        (row type).bind fun _ ↦ (hcount _ _ _ _).bind fun _ ↦ comma (pure _) (pure _)
    exact (expectMark rfl).bind fun _ ↦ hrows.bind fun _ ↦
      (expectMark rfl).discard.bind fun _ ↦ hcount _ _ _ _

theorem initializer (levels : Nat) (type : DataType) (sign : Token) :
    GoesStraight (Check.initializer levels type sign) := by
  intro c s hc
  refine .bind (next? .inputWord c s hc) fun reads after hnext ↦ ?_
  cases hnext
  refine .ite (fun hinput ↦ inputValue hc (by simpa using hinput) type) fun _ ↦ ?_
  exact ((valueType levels _).bind fun _ ↦ requireType _ _ _) c s hc

theorem declare (symbol : Symbol) (place : Token) : GoesStraight (Check.declare symbol place) := by
  intro c s _
  simp only [StraightFrom, Check.declare, ensures_bind, ensures_read, ensures_insertSymbol,
    ensures_ite, ensures_violateAt, ensures_pure]
  exact ⟨fun _ _ ↦ ⟨fun _ ↦ .stay rfl rfl, fun _ ↦ trivial⟩, fun _ ↦ ⟨by simp, fun _ ↦ trivial⟩⟩

theorem arrayDeclarator (hc : c.Closed) (hopen : c.kindAt s.position = .leftBracket)
    (type : DataType) (isConstant : Bool) (name : Token) :
    StraightFrom (Check.arrayDeclarator type isConstant name) c s := by
  refine .bind (arrayShape hc hopen name) fun shape after _ ↦ ?_
  refine .bind (next? .assign c after hc) fun given later hnext ↦ ?_
  cases hnext
  refine .ite (fun hassign ↦ ?_) fun _ ↦ guard (violateAt _ _) (pure _) c after hc
  exact .pass (by simpa using hassign) rfl
    (((arrayInitializer type isConstant shape).bind fun _ ↦ pure _) c _ hc)

theorem declarator (levels : Nat) (type : DataType) (isConstant : Bool) :
    GoesStraight (Check.declarator levels type isConstant) := by
  refine (expect rfl .name).bind fun name ↦ (of_traced (.declaredHere _)).bind fun taken ↦
    guard (violateAt _ _) ?_
  intro c s hc
  refine .bind (next? .leftBracket c s hc) fun opens after hnext ↦ ?_
  cases hnext
  refine .ite (fun hopen ↦ ?_) fun _ ↦ ?_
  · exact .bind (arrayDeclarator hc (by simpa using hopen) type isConstant name)
      fun _ after _ ↦ declare _ name c after hc
  refine .bind (next? .assign c s hc) fun given after hnext ↦ ?_
  cases hnext
  refine .ite (fun hassign ↦ ?_) fun _ ↦ guard (violateAt _ _) (declare _ name) c s hc
  refine .bind (.advance (k := .assign) (by simpa using hassign) rfl) fun sign after _ ↦ ?_
  exact ((initializer levels type sign).bind fun _ ↦ declare _ name) c after hc

theorem variableDeclaration (levels : Nat) : GoesStraight (Check.variableDeclaration levels) :=
  (typeWord .dataType).bind fun type ↦ declarators (declarator levels type false)

theorem constantDeclaration (hc : c.Closed) (hword : c.kindAt s.position = .constWord)
    (levels : Nat) : StraightFrom (Check.constantDeclaration levels) c s :=
  .pass hword rfl (((typeWord .dataType).bind fun type ↦
    declarators (declarator levels type true)) c _ hc)

theorem instanceDeclaration (hc : c.Closed) (hword : c.kindAt s.position = .instanceWord) :
    StraightFrom Check.instanceDeclaration c s := by
  refine .pass hword rfl (((expect rfl .structTypeName).bind fun structName ↦
    (of_traced (.resolve _)).bind fun found ↦ ?_) c _ hc)
  split
  · exact declarators ((expect rfl .name).bind fun name ↦ declare _ name)
  · exact violateAt _ _

/-! ### Statements without statements inside -/

theorem nameStatement (levels : Nat) : GoesStraight (Check.nameStatement levels) := by
  intro c s hc
  refine .bind (of_traced .secondKind c s hc) fun follows after hsecond ↦ ?_
  cases hsecond
  have hphrase := takePhrases_operand levels
  refine .ite (fun hparen ↦ ?_) fun _ ↦ ?_
  · exact .bind (ensures_discard.2 (call (operand levels) hc hparen)) fun _ after _ ↦
      (expectMark rfl).discard c after hc
  · exact ((target hphrase (operand levels)).bind fun t ↦ (assignmentTail levels [] t).bind fun _ ↦
      (expectMark rfl).discard) c s hc

theorem countStatement (hc : c.Closed) (hk : c.kindAt s.position = k)
    (hcontrol : k.isControl = false) (levels : Nat) :
    StraightFrom (Check.countStatement levels) c s :=
  .pass hk hcontrol (((target (takePhrases_operand levels) (operand levels)).bind fun t ↦
    (of_traced (.requireInt t)).bind fun _ ↦ (expectMark rfl).discard) c _ hc)

theorem printStatement (hc : c.Closed) (hword : c.kindAt s.position = .printWord) (levels : Nat) :
    StraightFrom (Check.printStatement levels) c s :=
  .pass hword rfl ((here.bind fun _ ↦ (expectMark rfl).discard.bind fun _ ↦
    (matchingClose _).bind fun close ↦ (arguments (operand levels) close).discard.bind fun _ ↦
      (expectMark rfl).discard.bind fun _ ↦ (expectMark rfl).discard) c _ hc)

theorem entryPointReturn (keyword : Token) : GoesStraight (Check.entryPointReturn keyword) := by
  intro c s hc
  simp only [Check.entryPointReturn, StraightFrom, ensures_bind, ensures_next?, ensures_ite,
    ensures_peek, ensures_secondKind, ensures_discard, ensures_advance, ensures_violateAt,
    ensures_pure, hc.kind_tokenAt, Bool.and_eq_true, decide_eq_true_eq]
  exact ⟨fun _ ↦ .refl c s, fun _ ↦ ⟨fun hzero ↦ .step (hzero.1.1 ▸ rfl), fun _ ↦ trivial⟩⟩

theorem voidReturn (f : FunctionContext) (keyword : Token) :
    GoesStraight (Check.voidReturn f keyword) :=
  (next? .semicolon).bind fun _ ↦ ite (pure _) (violateAt _ _)

theorem valueReturn (levels : Nat) (f : FunctionContext) (keyword : Token) :
    GoesStraight (Check.valueReturn levels f keyword) :=
  (next? .semicolon).bind fun _ ↦ guard (violateAt _ _) <|
    (valueType levels []).bind fun _ ↦ ite (violateAt _ _) (pure _)

/-! ### Headers of statements -/

theorem inParentheses (levels : Nat) : GoesStraight (Check.inParentheses levels) :=
  here.bind fun _ ↦ (expectMark rfl).bind fun _ ↦ (matchingClose _).bind fun close ↦
    (expressionWith (operand levels) close).bind fun _ ↦ (expectMark rfl).discard.bind fun _ ↦
      pure _

theorem condition (levels : Nat) (construct : Guarded) :
    GoesStraight (Check.condition levels construct) :=
  (inParentheses levels).bind fun _ ↦ ite (violateAt _ _) (pure _)

theorem requireForVariable (clause : ForClause) (t : Target) :
    GoesStraight (Check.requireForVariable clause t) :=
  of_traced (.requireForVariable clause t)

theorem forStart (levels : Nat) : GoesStraight (Check.forStart levels) :=
  (target (takePhrases_operand levels) (operand levels)).bind fun t ↦
    (requireForVariable .start t).bind fun _ ↦ (expectMark rfl).bind fun _ ↦
      (valueType levels []).bind fun _ ↦ (requireType _ _ _).bind fun _ ↦
        (markInitialized t).bind fun _ ↦ (expectMark rfl).discard

theorem forCondition (levels : Nat) : GoesStraight (Check.forCondition levels) :=
  (valueType levels []).bind fun _ ↦ guard (violate _) (expectMark rfl).discard

theorem forUpdate (levels : Nat) : GoesStraight (Check.forUpdate levels) := by
  have htarget := target (takePhrases_operand levels) (operand levels)
  intro c s hc
  refine .bind (of_traced .peekKind c s hc) fun k after hpeek ↦ ?_
  cases hpeek
  split
  next hk => exact .pass hk rfl ((htarget.bind fun t ↦ requireForVariable .update t) c _ hc)
  next hk => exact .pass hk rfl ((htarget.bind fun t ↦ requireForVariable .update t) c _ hc)
  next =>
    exact (htarget.bind fun t ↦ (requireForVariable .update t).bind fun _ ↦
      (of_traced .peekKind).bind fun _ ↦
        ite (assignmentTail levels [.rightParen] t) (violate _)) c s hc
  next => exact violate _ c s hc

end GoesStraight

end

end FrontEnd
