import FrontEnd.Proofs.Check.Careful

/-!
# The walk over an expression is careful

Operands and expressions pass only sound tokens.  An operator that divides looks at the token behind
it.  A count looks its name up first: in front of a target as every target does (`secures_target`),
and behind a name as the name of an operand does (`secures_nameType`).

What an operand contains is a parameter, and `carefulOperands_operand` is the induction on levels.
-/

namespace FrontEnd

open Check

/-- Operands take in phrases and are careful. -/
structure CarefulOperands (M : Lookups) (operand : Nat → Check DataType) : Prop where
  phrase : TakePhrases operand
  careful : ∀ stop, Careful M (fun _ ↦ True) (operand stop)

/-- A name was looked up at a state and found to stand for a symbol. -/
structure Lookups.Finds (M : Lookups) (c : Context) (s : State) (name : String) (symbol : Symbol) :
    Prop where
  looked : M c s name
  found : s.arena.lookup c.scope name = some symbol
  value : symbol.isValue

/-- A target was read: its name may be written to. -/
structure TargetRead (M : Lookups) (c : Context) (s after : State) : Prop where
  sound : SoundTo M c.text s.position after.position
  place : PlaceText c.kindAt s.position after.position
  kind : c.kindAt s.position = .identifier
  writable : M.Writable c.text s.position

section

variable {M : Lookups} {P : Kind → Prop} {c : Context} {s after : State} {b i stop floor : Nat}

/-! ### Checks that stay where they are -/

namespace Still

theorem apply (op : Operator) (t : Token) (left right : DataType) :
    Still (Check.apply op t left right) := by
  unfold Check.apply
  split
  · exact pure _
  · exact violateAt (by simp)

theorem checkLiteralIndex (index : Token) (size : Dimension) :
    Still (Check.checkLiteralIndex index size) := by
  unfold Check.checkLiteralIndex
  split
  · exact pure _
  · refine ite ?_ (pure _)
    split
    · exact pure _
    · exact ite (violateAt (by simp)) (pure _)

theorem requireInt (t : Target) : Still (Check.requireInt t) :=
  ite (violateAt (by simp)) (pure _)

theorem callee (name : Token) : Still (Check.callee name) := by
  refine (resolve name.lexeme).bind fun found ↦ ?_
  split
  · split
    · exact pure _
    · exact violateAt (by simp)
  · split
    · exact pure _
    · exact violateAt (by simp)

theorem checkArity (name : Token) (function : String) (expected found : Nat) :
    Still (Check.checkArity name function expected found) :=
  ite (violateAt (by simp)) (pure _)

theorem checkTypes : ∀ index arguments parameters,
    Still (Check.checkTypes index arguments parameters)
  | index, (_, _) :: arguments, _ :: parameters =>
    guard (violateAt (by simp)) (checkTypes (index + 1) arguments parameters)
  | _, [], _ => pure _
  | _, _ :: _, [] => pure _

theorem wholeArray (close : Nat) : Still (Check.wholeArray close) :=
  peek.bind fun _ ↦ here.bind fun _ ↦ ite ((resolve _).bind fun _ ↦ pure _) (pure _)

theorem tooDeep {α : Type} : Still (Check.tooDeep : Check α) :=
  read.bind fun _ ↦ violate (by simp)

end Still

/-! ### Chains -/

theorem Operator.of_ofKind? {k : Kind} {op : Operator} (h : Operator.ofKind? k = some op) :
    k.isDivision = op.isDivision ∧ k.isWriting = false ∧ k ≠ .constWord ∧ k ≠ .dot := by
  cases k <;> cases h <;> exact ⟨rfl, rfl, nofun, nofun⟩

theorem Sound.of_operator {k : Nat} {op : Operator} (h : Operator.ofKind? (c.kindAt k) = some op)
    (hzero : op.isDivision → (c.tokenAt (k + 1)).isZeroLiteral = false) : Sound M c.text k := by
  obtain ⟨hdivision, hwriting, hconstant, -⟩ := Operator.of_ofKind? h
  exact ⟨fun htrue ↦ hzero (hdivision ▸ htrue), fun htrue ↦ absurd htrue (by simp [hwriting]),
    fun hk ↦ absurd hk hconstant⟩

namespace Careful

/-- An operator that divides looks at what follows it. -/
theorem operator? (stop floor : Nat) : Careful M P (Check.operator? stop floor) := by
  intro c s hc _ _
  simp only [Check.operator?, secures_bind, secures_peek, hc.kind_tokenAt]
  split
  · exact (secures_pure _).2 (.refl M c.text _)
  next op hop =>
    have hne : c.kindAt s.position ≠ .eof := fun hk ↦ by rw [hk] at hop; cases hop
    simp only [secures_ite, secures_bind, secures_discard, secures_advance, secures_here,
      secures_peek, secures_violate, secures_violateAt, secures_pure, Bool.and_eq_true, not_and,
      State.position_movedTo, Context.after_of_ne_eof hne]
    refine ⟨fun _ ↦ .refl M c.text _, fun _ ↦ ⟨fun _ ↦ .of_ne (by simp), fun _ ↦ ⟨?_, fun hzero ↦ ?_⟩⟩⟩
    · rintro ⟨hdivision, hzero⟩ -
      exact ⟨s.position, (Operator.of_ofKind? hop).1.trans hdivision, hzero, rfl⟩
    · exact .one (.of_operator hop fun hdivision ↦ by simpa using hzero hdivision)
        (Operator.of_ofKind? hop).2.2.2

theorem chainRound {rightSide : Nat → Check DataType}
    (hright : ∀ n, Careful M (fun _ ↦ True) (rightSide n)) (stop floor : Nat) (left : DataType) :
    Careful M P (Check.chainRound rightSide stop floor left) := by
  refine (operator? stop floor).bind fun found ↦ ?_
  split
  · exact .pure _
  · exact (hright _).bind fun _ ↦ .after (.apply _ _ _ _) fun _ ↦ .pure _

section

variable {operand : Nat → Check DataType} (h : CarefulOperands M operand)

include h

theorem chain (stop levels floor : Nat) : Careful M P (Check.chain operand stop levels floor) := by
  have hstart : Careful M P (operand stop) := (h.careful stop).weaken fun _ _ ↦ trivial
  have hdue : Still (return (← Check.here) < stop : Check Bool) := Still.here.bind fun _ ↦ .pure _
  induction levels generalizing P floor with
  | zero =>
    exact hstart.bind fun _ ↦ roundsWhile hdue fun _ ↦
      chainRound (fun _ ↦ h.careful stop) stop floor _
  | succ levels ih =>
    exact hstart.bind fun _ ↦ roundsWhile hdue fun _ ↦
      chainRound (fun n ↦ ih n (h.careful stop)) stop floor _

theorem expressionWith (stop : Nat) : Careful M P (Check.expressionWith operand stop) := by
  refine .after .here fun _ ↦ .guard (.violate (by simp)) ?_
  refine (chain h stop (Operator.maxPrecedence + 1) 0).bind fun type ↦ .after .here fun _ ↦ ?_
  refine .ite (.after .peek fun t ↦ ?_) (.pure type)
  exact .ite (.after (.violate (by simp)) fun _ ↦ .pure type)
    (.after (.violate (by simp)) fun _ ↦ .pure type)

end

end Careful

section

variable {operand : Nat → Check DataType} (h : CarefulOperands M operand)

include h

/-- The expression between a bracket and the one that closes it, and the last of them. -/
theorem secures_inside (hc : c.Closed) (hfresh : Fresh c.kindAt s.position) {close : Nat} {closing : Kind}
    (hopening : (c.kindAt s.position).closer? = some closing)
    (hclose : c.kindAt close = closing)
    (hbound : ∀ j, Phrase c.kindAt true (s.position + 1) j → j ≤ close) :
    Secures M (Check.expressionWith operand close) c (s.movedTo (c.after s.position))
      (Justified c.text) fun _ after ↦
        SoundTo M c.text s.position (c.after after.position) ∧ after.position = close ∧
          Phrase c.kindAt true (s.position + 1) close := by
  have hafter := Context.after_of_ne_eof (Kind.closer?_ne_eof hopening).1
  have hbounds : Bounds c.kindAt (s.movedTo (c.after s.position)).position close := by
    rw [State.position_movedTo, hafter]
    exact fun j hj ↦ hbound j hj.withCommas
  have hharmless : (c.kindAt s.position).isHarmless ∧ closing.isHarmless := by
    rcases Kind.closer?_eq_some hopening with ⟨hk, rfl⟩ | ⟨hk, rfl⟩ | ⟨hk, rfl⟩ <;>
      exact ⟨by rw [hk]; rfl, rfl⟩
  have hfirst : SoundTo M c.text s.position (s.position + 1) := .token rfl hharmless.1
  have hnext : Fresh c.kindAt (s.movedTo (c.after s.position)).position := by
    rw [State.position_movedTo, hafter]
    exact hfirst.fresh hfresh
  refine ((Careful.expressionWith h close (P := fun _ ↦ True) hc hnext trivial).and
    (ensures_expressionWith_bounded h.phrase (fun _ ↦ hc.seesTo close) hbounds)).mono ?_
  rintro _ later ⟨hsound, htook, rfl⟩
  rw [State.position_movedTo, hafter] at hsound
  have hphrase := htook.phrase.withCommas
  rw [State.position_movedTo, hafter] at hphrase
  refine ⟨?_, rfl, hphrase⟩
  exact (hfirst.trans hsound).trans (.harmless (hclose ▸ hharmless.2))

/-! ### Indices, members and targets -/

theorem secures_oneIndex (hc : c.Closed) (hfresh : Fresh c.kindAt s.position) (hopen : c.kindAt s.position = .leftBracket)
    (size : Dimension) :
    Secures M (oneIndex operand size) c s (Justified c.text) fun _ after ↦
      SoundTo M c.text s.position after.position ∧
        ∃ close, Phrase c.kindAt true (s.position + 1) close ∧ c.kindAt close = .rightBracket ∧
          after.position = close + 1 := by
  have hcloser : (c.kindAt s.position).closer? = some .rightBracket := by rw [hopen]; rfl
  simp only [oneIndex, secures_bind, secures_here]
  refine .of_ensures (((Still.matchingClose s.position c s).and
    (ensures_matchingClose (s := s) hcloser)).imp (fun _ ↦ .of_ne) ?_)
  rintro close later ⟨-, hstay, hclose, hbound⟩
  obtain rfl : s = later := hstay.symm
  simp only [secures_discard, secures_advance, secures_peek, secures_ite, secures_bind,
    secures_violateAt]
  have hindex : Secures M (expressionWith operand close) c (s.movedTo (c.after s.position))
      (Justified c.text) fun _ later ↦ SoundTo M c.text s.position (c.after later.position) ∧
        ∃ close, Phrase c.kindAt true (s.position + 1) close ∧ c.kindAt close = .rightBracket ∧
          c.after later.position = close + 1 := by
    refine (secures_inside h hc hfresh hcloser hclose hbound).mono ?_
    rintro _ later ⟨hsound, hlater, hphrase⟩
    refine ⟨hsound, close, hphrase, hclose, ?_⟩
    rw [hlater, Context.after_of_kindAt hclose (by simp)]
  refine ⟨fun _ ↦ ?_, fun _ ↦ ?_⟩
  · refine .of_ensures (((Still.checkLiteralIndex _ size c _).and
      (ensures_checkLiteralIndex _ size)).imp (fun _ ↦ .of_ne) ?_)
    rintro _ _ ⟨-, rfl⟩
    exact hindex.mono fun _ _ hlater ↦ ⟨fun _ ↦ .of_ne (by simp), fun _ ↦ hlater⟩
  · exact hindex.mono fun _ _ hlater ↦ ⟨fun _ ↦ .of_ne (by simp), fun _ ↦ hlater⟩

theorem secures_indices {wrongCount : Check Unit} (hwrong : Refuses wrongCount) (hc : c.Closed)
    (hfresh : Fresh c.kindAt s.position) (sizes : List Dimension) (hplace : PlaceText c.kindAt b s.position) :
    Secures M (indices operand wrongCount sizes) c s (Justified c.text) fun _ after ↦
      SoundTo M c.text s.position after.position ∧ PlaceText c.kindAt b after.position := by
  induction sizes generalizing s with
  | nil => exact (secures_pure ()).2 ⟨.refl M c.text _, hplace⟩
  | cons size sizes ih =>
    simp only [indices, secures_bind, secures_next?, secures_ite, beq_iff_eq]
    refine ⟨fun hopen ↦ ?_, fun _ ↦ ?_⟩
    · refine (secures_oneIndex h hc hfresh hopen size).mono ?_
      rintro _ later ⟨hsound, close, hinside, hclose, hlast⟩
      have hnext : PlaceText c.kindAt b later.position := hlast ▸ .element hplace hopen hinside hclose
      exact (ih (hsound.fresh hfresh) hnext).mono fun _ _ hrest ↦ ⟨hsound.trans hrest.1, hrest.2⟩
    · exact .of_ensures ((hwrong c s).imp (fun _ ↦ .of_ne) fun _ _ h ↦ h.elim)

theorem secures_elementType (hc : c.Closed) (hfresh : Fresh c.kindAt s.position) (symbol : Symbol) (name : Token)
    (hplace : PlaceText c.kindAt b s.position) :
    Secures M (elementType operand symbol name) c s (Justified c.text) fun _ after ↦
      SoundTo M c.text s.position after.position ∧ PlaceText c.kindAt b after.position := by
  unfold elementType
  split
  · exact (secures_violateAt _ _).2 (.of_ne (by simp))
  next sizes _ =>
    simp only [secures_bind, secures_next?, secures_ite, secures_violateAt, secures_pure]
    refine (secures_indices h (.violateAt (by simp)) hc hfresh sizes hplace).mono
      fun _ later hlater ↦ ⟨fun _ ↦ .of_ne (by simp), fun _ ↦ hlater⟩

end

/-- A dot with the member behind it. -/
theorem SoundTo.member (hdot : c.kindAt i = .dot) (hname : c.kindAt (i + 1) = .identifier) :
    SoundTo M c.text i (i + 2) := by
  have hmember : SoundTo M c.text (i + 1) (i + 2) := .token hname rfl
  have hsound : Sound M c.text i := by
    refine ⟨fun h ↦ ?_, fun h ↦ ?_, fun h ↦ ?_⟩
    all_goals
      rw [show c.text.kind i = _ from hdot] at h
      cases h
  refine ⟨by omega, fun k hk hlt ↦ ?_, fun _ ↦ fresh_succ (?_ : c.kindAt (i + 1) ≠ .dot)⟩
  · obtain rfl | hk := Nat.eq_or_lt_of_le hk
    · exact hsound
    · exact hmember.sound k hk hlt
  · rw [hname]
    decide

theorem Careful.dotted {α : Type} {wanted : Wanted} {f : Token → Check α}
    (hf : ∀ t, Careful M (fun _ ↦ True) (f t)) : Careful M P (do
      Functor.discard (Check.expectMark .dot)
      f (← Check.expect .identifier wanted)) := by
  intro c s hc hfresh _
  simp only [secures_bind, secures_discard, secures_expectMark, secures_expect]
  refine ⟨fun hdot ↦ ⟨fun hname ↦ ?_, fun _ ↦ justified_expected _ _⟩,
    fun _ ↦ justified_expected _ _⟩
  rw [State.position_movedTo, Context.after_of_kindAt hdot (by decide)] at hname ⊢
  rw [Context.after_of_kindAt hname (by decide)]
  have hboth : SoundTo M c.text s.position (s.position + 2) := .member hdot hname
  exact (hf _ hc (hboth.fresh hfresh) trivial).mono fun _ _ hlater ↦ hboth.trans hlater

theorem Careful.member (symbol : Symbol) (name : Token) :
    Careful M P (Check.member symbol name) := by
  unfold Check.member
  split
  · refine .dotted fun t ↦ .after (.resolve _) fun _ ↦ ?_
    split
    · split
      · exact .pure _
      · exact .violateAt (by simp)
    · exact .violateAt (by simp)
  · exact .violateAt (by simp)

/-- The text of a member behind the name of an instance. -/
theorem ensures_member_place (symbol : Symbol) (name : Token) (hfresh : Fresh c.kindAt b)
    (hname : c.kindAt b = .identifier) (hb : s.position = b + 1) :
    Ensures (member symbol name) c s (fun _ ↦ True) fun _ after ↦
      PlaceText c.kindAt b after.position := by
  unfold member
  split
  · simp only [ensures_bind, ensures_discard, ensures_expectMark, ensures_expect, ensures_resolve]
    refine ⟨fun hdot ↦ ⟨fun hmember ↦ ?_, fun _ ↦ trivial⟩, fun _ ↦ trivial⟩
    rw [State.position_movedTo, Context.after_of_kindAt hdot (by simp)] at hmember
    have hplace : PlaceText c.kindAt b (c.after (c.after s.position)) := by
      rw [Context.after_of_kindAt hdot (by simp), Context.after_of_kindAt hmember (by simp), hb]
      exact .member hfresh hname (hb ▸ hdot) (by rw [← hmember, hb])
    split
    · split
      · exact hplace
      · trivial
    · trivial
  · trivial

/-- A name that may be written to stands for a variable or an instance. -/
theorem secures_writable (t : Token) :
    Secures M (writable t) c s (Justified c.text) fun symbol after ↦
      after = s ∧ M.Finds c s t.lexeme symbol ∧ symbol.isConstant = false := by
  simp only [writable, secures_bind, secures_resolve]
  intro hlooked
  split
  · exact (secures_violateAt _ _).2 (.of_ne (by simp))
  next symbol hfound =>
    simp only [secures_ite, secures_bind, secures_violateAt, secures_pure]
    refine ⟨fun _ ↦ .of_ne (by simp), fun hvalue ↦ ⟨fun _ ↦ .of_ne (by simp), fun hconstant ↦ ?_⟩⟩
    exact ⟨trivial, ⟨hlooked, hfound, by simpa using hvalue⟩, by simpa using hconstant⟩

theorem secures_target {operand : Nat → Check DataType} (h : CarefulOperands M operand)
    (hc : c.Closed) (hfresh : Fresh c.kindAt s.position) :
    Secures M (target operand) c s (Justified c.text) fun _ after ↦ TargetRead M c s after := by
  simp only [target, secures_bind, secures_expect, secures_peekKind]
  refine ⟨fun hname ↦ ?_, fun _ ↦ justified_expected _ _⟩
  have hnext := Context.after_of_kindAt hname (by simp)
  have hfirst : SoundTo M c.text s.position (s.position + 1) := .token hname rfl
  have hnextfresh := hfirst.fresh hfresh
  refine (secures_writable _).mono ?_
  rintro symbol _ ⟨rfl, hfinds, hconstant⟩
  have hwritable : M.Writable c.text s.position :=
    ⟨c, _, symbol, hfinds.looked, .inr hnext, hfinds.found,
      Symbol.isWritable_iff.2 ⟨hfinds.value, hconstant⟩⟩
  have hread {later : State} (hsound : SoundTo M c.text (s.position + 1) later.position)
      (hplace : PlaceText c.kindAt s.position later.position) : TargetRead M c s later :=
    ⟨hfirst.trans hsound, hplace, hname, hwritable⟩
  rw [hnext]
  split
  · rw [secures_bind]
    refine (secures_elementType h hc hnextfresh symbol _ (.name hfresh hname)).mono
      fun _ later hlater ↦ ?_
    exact (secures_pure _).2 (hread hlater.1 hlater.2)
  · rw [secures_bind]
    refine ((Careful.member symbol _ (P := fun _ ↦ True) hc hnextfresh trivial).and
      (ensures_member_place symbol _ hfresh hname rfl)).mono fun _ later hlater ↦ ?_
    exact (secures_pure _).2 (hread hlater.1 hlater.2)
  · simp only [secures_ite, secures_bind, secures_violateAt, secures_pure]
    exact ⟨fun _ ↦ .of_ne (by simp), fun _ ↦ hread (.refl M c.text _) (.name hfresh hname)⟩

/-! ### Calls -/

namespace Careful

variable {operand : Nat → Check DataType} (h : CarefulOperands M operand)

include h

theorem arguments (close : Nat) : Careful M P (Check.arguments operand close) := by
  have hround (before : List Check.Argument) :
      Careful M (fun _ ↦ True) (Check.argumentRound operand close before) :=
    .after .peek fun _ ↦ .after (.expressionEnd _) fun _ ↦ (expressionWith h _).bind fun _ ↦
      .after .here fun _ ↦ .ite (.pure _) <| (expect rfl _).discard.bind fun _ ↦ .pure _
  exact .after .here fun _ ↦ .ite (.pure _) (rounds hround)

/-- The rest of a call, with whatever is checked of its arguments. -/
theorem callRest (close : Nat) {rest : List Check.Argument → Check DataType}
    (hrest : ∀ found, Still (rest found)) : Careful M P (do
      let found ← Check.arguments operand close
      Functor.discard (Check.expectMark .rightParen)
      rest found) :=
  (arguments h close).bind fun found ↦ (expectMark rfl).discard.bind fun _ ↦ of_still (hrest found)

theorem declaredCall (info : FunctionInfo) (name : Token) (close : Nat) :
    Careful M P (Check.declaredCall operand info name close) :=
  callRest h close fun _ ↦ (Still.checkArity _ _ _ _).bind fun _ ↦
    (Still.checkTypes _ _ _).bind fun _ ↦ .pure _

theorem builtinCall (b : Builtin) (name : Token) (close : Nat) :
    Careful M P (Check.builtinCall operand b name close) := by
  intro c s hc hfresh _
  simp only [Check.builtinCall, secures_bind]
  refine .of_ensures (((Still.wholeArray close c s).and (ensures_wholeArray close)).imp
    (fun _ ↦ .of_ne) ?_)
  rintro whole _ ⟨-, rfl, hwhole⟩
  rw [secures_ite]
  refine ⟨fun hlen ↦ ?_, fun _ ↦ ?_⟩
  · obtain ⟨-, hname⟩ := hwhole (by simpa using (Bool.and_eq_true_iff.1 hlen).2)
    rw [hc.kind_tokenAt] at hname
    refine Careful.bind (P := (· = .identifier)) (advance ?_).discard (fun _ ↦ ?_) hc hfresh hname
    · rintro _ rfl
      rfl
    · exact (expectMark rfl).discard.bind fun _ ↦ .pure _
  · exact callRest h close (P := fun _ ↦ True) (fun _ ↦ (Still.checkArity _ _ _ _).bind fun _ ↦
      (Still.checkTypes _ _ _).bind fun _ ↦ .pure _) hc hfresh trivial

theorem call : Careful M P (Check.call operand) := by
  refine (expect rfl _).bind fun name ↦ .after (.callee name) fun callee ↦
    .bracket fun close ↦ (advance fun _ hk ↦ hk).discard.bind fun _ ↦ ?_
  split
  · exact declaredCall h _ name close
  · exact builtinCall h _ name close

end Careful

/-! ### Operands -/

theorem secures_valueSymbol (t : Token) :
    Secures M (valueSymbol t) c s (Justified c.text) fun symbol after ↦
      after = s ∧ M.Finds c s t.lexeme symbol := by
  simp only [valueSymbol, secures_bind, secures_resolve]
  intro hlooked
  split
  next symbol hfound =>
    split
    · exact (secures_violateAt _ _).2 (.of_ne (by simp))
    · exact (secures_violateAt _ _).2 (.of_ne (by simp))
    next hfunction hstruct =>
      refine (secures_pure _).2 ⟨rfl, hlooked, hfound, ?_⟩
      unfold Symbol.isValue
      split <;> simp_all
  · simp only [secures_ite, secures_violateAt]
    exact ⟨fun _ ↦ .of_ne (by simp), fun _ ↦ .of_ne (by simp)⟩

section

variable {operand : Nat → Check DataType} (h : CarefulOperands M operand)

include h

/-- What may follow the name of an operand, given the kind of token there or that the expression
ends. -/
theorem secures_nameType (hc : c.Closed) (hfresh : Fresh c.kindAt b) {d : Context} {u : State} {symbol : Symbol}
    (hname : c.kindAt b = .identifier) (hfinds : M.Finds d u (c.tokenAt b).lexeme symbol)
    (hu : u.position = b) (hb : s.position = b + 1) {after : Kind}
    (hafter : after = .eof ∨ c.kindAt s.position = after) (t : Token) :
    Secures M (nameType operand symbol t after) c s (Justified c.text) fun _ later ↦
      SoundTo M c.text s.position later.position := by
  have hplace : PlaceText c.kindAt b s.position := by
    rw [hb]
    exact .name hfresh hname
  have hnext : Fresh c.kindAt s.position := hb ▸ fresh_succ (by simp [hname])
  have hcount {k : Kind} (hk : c.kindAt s.position = k) (hcount : k = .increment ∨ k = .decrement) :
      Secures M (do
        if symbol.isConstant then violateAt (.constantReassignment symbol.name) t
        if symbol.isArray || symbol.type ≠ .int then violateAt (.countRequiresInt symbol.type) t
        discard advance
        return .int : Check DataType) c s (Justified c.text) fun _ later ↦
          SoundTo M c.text s.position later.position := by
    simp only [secures_bind, secures_ite, secures_violateAt, secures_discard, secures_advance,
      secures_pure]
    refine ⟨fun _ ↦ .of_ne (by simp), fun hconstant ↦ ⟨fun _ ↦ .of_ne (by simp), fun _ ↦ .after ?_ ?_⟩⟩
    · have hwritable : M.Writable c.text b :=
        ⟨d, u, symbol, hfinds.looked, .inl hu, hfinds.found,
          Symbol.isWritable_iff.2 ⟨hfinds.value, by simpa using hconstant⟩⟩
      refine .of_writing ?_ (.inr ⟨b, .inl hplace, hwritable⟩) ?_
      · show (c.kindAt s.position).isDivision = false
        rcases hcount with rfl | rfl <;> rw [hk] <;> rfl
      · show c.kindAt s.position ≠ .constWord
        rcases hcount with rfl | rfl <;> rw [hk] <;> decide
    · rcases hcount with rfl | rfl <;> rw [hk] <;> decide
  unfold nameType
  split
  · exact (secures_elementType h hc hnext symbol t hplace).mono fun _ _ hlater ↦ hlater.1
  · refine Careful.bind (P := fun _ ↦ True) (.member symbol t) (fun m ↦ ?_) hc hnext trivial
    exact .otherwise (.warn _ _) (.pure _)
  · exact hcount (by simpa using hafter) (.inl rfl)
  · exact hcount (by simpa using hafter) (.inr rfl)
  · exact Careful.guard (P := fun _ ↦ True) (.violateAt (by simp)) (.otherwise (.warn _ _) (.pure _)) hc
      hnext trivial

theorem secures_nameOperand (hc : c.Closed) (hfresh : Fresh c.kindAt s.position) (hname : c.kindAt s.position = .identifier)
    (stop : Nat) :
    Secures M (nameOperand operand stop (c.tokenAt s.position)) c s (Justified c.text)
      fun _ after ↦ SoundTo M c.text s.position after.position := by
  have hnext := Context.after_of_kindAt hname (by simp)
  have hfirst : SoundTo M c.text s.position (s.position + 1) := .token hname rfl
  -- What follows is looked at only inside the expression.
  have hrest {after : Kind} (hafter : after = .eof ∨ c.kindAt (s.position + 1) = after) :
      Secures M (do
        if after = .leftParen then
          let type ← call operand
          if type = .void then
            violateAt (.voidInExpression (c.tokenAt s.position).lexeme) (c.tokenAt s.position)
          return type
        else
          let symbol ← valueSymbol (c.tokenAt s.position)
          discard advance
          nameType operand symbol (c.tokenAt s.position) after) c s (Justified c.text)
            fun _ after ↦ SoundTo M c.text s.position after.position := by
    rw [secures_ite]
    refine ⟨fun _ ↦ ?_, fun _ ↦ ?_⟩
    · exact Careful.bind (P := fun _ ↦ True) (.call h)
        (fun _ ↦ .guard (.violateAt (by simp)) (.pure _)) hc hfresh trivial
    · simp only [secures_bind, secures_discard, secures_advance]
      refine (secures_valueSymbol _).mono ?_
      rintro symbol _ ⟨rfl, hfinds⟩
      rw [hnext]
      exact (secures_nameType h hc hfresh hname hfinds rfl rfl hafter _).mono fun _ _ hlater ↦
        hfirst.trans hlater
  simp only [nameOperand, secures_bind, secures_here, secures_ite, secures_secondKind, secures_pure]
  exact ⟨fun _ ↦ by simpa only [secures_bind, secures_ite, secures_pure] using hrest (.inr rfl),
    fun _ ↦ by simpa only [secures_bind, secures_ite, secures_pure] using hrest (.inl rfl)⟩

/-- A count in front of a target. -/
theorem secures_countTarget (hc : c.Closed) (hcount : c.text.CountAt s.position)
    {rest : Target → Check Unit} (hrest : ∀ t, Still (rest t)) :
    Secures M (do discard advance; rest (← target operand)) c s (Justified c.text)
      fun _ after ↦ SoundTo M c.text s.position after.position := by
  have hne : c.kindAt s.position ≠ .eof := fun heof ↦ by
    rcases hcount with hk | hk <;> exact absurd (hk.symm.trans heof) (by decide)
  simp only [secures_bind, secures_discard, secures_advance, Context.after_of_ne_eof hne]
  have hdot : c.kindAt s.position ≠ .dot := fun hdot ↦ by
    rcases hcount with hk | hk <;> exact absurd (hk.symm.trans hdot) (by decide)
  refine (secures_target h hc (fresh_succ hdot)).mono fun t later htarget ↦ ?_
  refine .of_ensures ((hrest t c later).imp (fun _ ↦ .of_ne) fun _ last hlast ↦ ?_)
  rw [hlast]
  refine SoundTo.trans (.one (.of_writing ?_ (.inr ⟨s.position + 1, .inr ⟨rfl, htarget.kind, hcount⟩,
    htarget.writable⟩) ?_) hdot) htarget.sound
  · rcases hcount with hk | hk <;> rw [hk] <;> rfl
  · rcases hcount with hk | hk <;> rw [hk] <;> decide

theorem Careful.parenthesised (stop : Nat) :
    Careful M (· = .leftParen) (Check.parenthesised operand stop) := by
  intro c s hc hfresh hparen
  have hcloser : (c.kindAt s.position).closer? = some .rightParen := by rw [hparen]; rfl
  simp only [Check.parenthesised, secures_bind, secures_here]
  refine .of_ensures (((Still.matchingClose s.position c s).and
    (ensures_matchingClose (s := s) hcloser)).imp (fun _ ↦ .of_ne) ?_)
  rintro close _ ⟨-, rfl, hclose, hbound⟩
  simp only [secures_ite, secures_violate, secures_bind, secures_discard, secures_advance,
    secures_pure]
  exact ⟨fun _ ↦ .of_ne (by simp), fun _ ↦
    (secures_inside h hc hfresh hcloser hclose hbound).mono fun _ _ hlater ↦ hlater.1⟩

/-- An operand is careful, given that what it contains is. -/
theorem Careful.operandWith (stop : Nat) : Careful M P (Check.operandWith operand stop) := by
  intro c s hc hfresh _
  simp only [Check.operandWith, secures_bind, secures_here, secures_ite, secures_violate,
    secures_peek, hc.kind_tokenAt]
  refine ⟨fun _ ↦ .of_ne (by simp), fun _ ↦ ?_⟩
  cases hliteral : DataType.ofLiteral? (c.kindAt s.position) with
  | some type =>
    have hharmless : (c.kindAt s.position).isHarmless := by
      cases hk : c.kindAt s.position <;> first | rfl | (rw [hk] at hliteral; cases hliteral)
    simp only [secures_bind, secures_discard, secures_advance, secures_pure]
    exact .harmless hharmless
  | none =>
    have hcount (hcount : c.text.CountAt s.position) : Secures M (do
        Functor.discard Check.advance
        Check.requireInt (← Check.target operand)
        return .int : Check DataType) c s (Justified c.text)
          fun _ after ↦ SoundTo M c.text s.position after.position := by
      have hboth := secures_countTarget h hc hcount fun t ↦ Still.requireInt t
      simp only [secures_bind, secures_pure] at hboth ⊢
      exact hboth
    simp only
    split
    next hk => exact Careful.parenthesised h stop hc hfresh hk
    next hk =>
      refine Careful.bind (P := (· = .negation)) (Careful.advance ?_).discard (fun _ ↦ ?_) hc hfresh hk
      · rintro _ rfl
        rfl
      · exact (h.careful stop).bind fun _ ↦ .guard (.violateAt (by simp)) (.pure _)
    next hk => exact hcount (.inl hk)
    next hk => exact hcount (.inr hk)
    next hk => exact secures_nameOperand h hc hfresh hk stop
    all_goals exact Careful.violate (P := fun _ ↦ True) (by simp) hc hfresh trivial

end

/-- Operands are careful on every level. -/
theorem carefulOperands_operand (levels : Nat) : CarefulOperands M (operand levels) := by
  induction levels with
  | zero => exact ⟨takePhrases_operand 0, fun _ ↦ .of_still .tooDeep⟩
  | succ levels ih => exact ⟨takePhrases_operand (levels + 1), fun stop ↦ .operandWith ih stop⟩

theorem Careful.valueType (levels : Nat) (terminators : List Kind) :
    Careful M P (Check.valueType levels terminators) :=
  .after (.expressionEnd terminators) fun stop ↦ expressionWith (carefulOperands_operand levels) stop

end

end FrontEnd
