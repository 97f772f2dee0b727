import FrontEnd.Proofs.Check.Climbing

/-!
# Reading expressions back

On tokens that can stand in a printed expression, a walk over an expression succeeds only on one:
the tree is put together along the walk.  What a chain has read so far is a tree that the next
operator does not belong into, so a round puts it to the left of a new root
(`readsBack_chainRound`), and the floor of the chain on the right sees to it that the right side of
that root binds more tightly than the root.
-/

namespace FrontEnd

open Check

/-- Whether the token at an index can stand in a printed expression: it is a literal, a scalar with
a value, a sign of negation, a parenthesis or an operator. -/
def Context.Admits (c : Context) (s : State) (index : Nat) : Prop :=
  (DataType.ofLiteral? (c.kindAt index)).isSome ∨
    (c.kindAt index = .identifier ∧ (c.scalar? s (c.tokenAt index).lexeme).isSome) ∨
      [.negation, .leftParen, .rightParen].contains (c.kindAt index) ∨
        ∃ op : Operator, c.kindAt index = op.kind

/-- All tokens from where a state is up to an index can stand in a printed expression. -/
def Context.AdmitsUpTo (c : Context) (s : State) (stop : Nat) : Prop :=
  ∀ index, s.position ≤ index → index < stop → c.Admits s index

/-- No operator that binds at least as tightly as the bound stands at an index before another. -/
def Context.Stops (c : Context) (bound j stop : Nat) : Prop :=
  ∀ op : Operator, j < stop → c.kindAt j = op.kind → op.precedence < bound

/-- The walk from one state to the other went over a printed expression that ends by an index. -/
structure ReadAs (e : Expression) (c : Context) (s : State) (stop : Nat) (after : State) :
    Prop where
  printed : e.PrintedAt c s after.position
  moved : after = s.movedTo after.position
  le : after.position ≤ stop

/-- On admitted tokens, operands are trees that no operator holds together. -/
def ReadsOperands (operand : Nat → Check DataType) : Prop :=
  ∀ {c : Context} {s : State} {stop : Nat}, c.AdmitsUpTo s stop →
    Ensures (operand stop) c s (fun _ ↦ True) fun _ after ↦
      ∃ e, ReadAs e c s stop after ∧ Operator.maxPrecedence < e.precedence

/-- The walk went over a whole chain: a tree no looser than the floor, up to an operator that is
looser. -/
def ReadChain (c : Context) (s : State) (stop floor : Nat) (after : State) : Prop :=
  ∃ e, ReadAs e c s stop after ∧ floor ≤ e.precedence ∧ c.Stops floor after.position stop

/-- The walk went over a part of a chain: a tree that the next operator does not belong into.  This
is the invariant of the rounds. -/
def ReadSoFar (c : Context) (s : State) (stop floor : Nat) (after : State) : Prop :=
  ∃ e, ReadAs e c s stop after ∧ floor ≤ e.precedence ∧
    c.Stops (e.precedence + 1) after.position stop

/-- A check that reads a whole chain wherever it succeeds. -/
def ReadsChain (x : Check DataType) (c : Context) (s : State) (stop floor : Nat) : Prop :=
  Ensures x c s (fun _ ↦ True) fun _ after ↦ ReadChain c s stop floor after

/-- On admitted tokens, the right side of an operator from a floor on is a chain that binds more
tightly than it. -/
def ReadsRight (side : Nat → Check DataType) (c : Context) (stop floor : Nat) : Prop :=
  ∀ {op : Operator} {s : State}, floor ≤ op.precedence → c.AdmitsUpTo s stop →
    ReadsChain (side (op.precedence + 1)) c s stop (op.precedence + 1)

section

variable {c : Context} {s after : State} {i j stop floor : Nat}

theorem Context.AdmitsUpTo.later (h : c.AdmitsUpTo s stop) (hi : s.position ≤ i) (hj : j ≤ stop) :
    c.AdmitsUpTo (s.movedTo i) j :=
  fun index hle hlt ↦ h index (Nat.le_trans hi hle) (Nat.lt_of_lt_of_le hlt hj)

theorem Context.Admits.ne_eof (h : c.Admits s i) : c.kindAt i ≠ .eof := by
  intro hi
  simp only [Context.Admits, hi, DataType.ofLiteral?] at h
  rcases h with h | h | h | ⟨op, h⟩
  · cases h
  · cases h.1
  · cases h
  · exact op.kind_ne_eof h.symm

theorem Context.Admits.extendsName (h : c.Admits s i) (hparen : c.kindAt i ≠ .leftParen) :
    (c.kindAt i).extendsName = false := by
  rcases h with h | ⟨h, -⟩ | h | ⟨op, h⟩
  · obtain ⟨type, htype⟩ := Option.isSome_iff_exists.1 h
    cases hk : c.kindAt i <;> simp_all [DataType.ofLiteral?, Kind.extendsName]
  · rw [h]
    rfl
  · cases hk : c.kindAt i <;> simp_all [Kind.extendsName]
  · rw [h, op.extendsName_kind]

theorem ReadAs.le_position {e : Expression} (h : ReadAs e c s stop after) :
    s.position ≤ after.position :=
  Nat.le_of_lt h.printed.lt

/-- The rest of a walk, as one of the whole. -/
theorem ReadAs.admitsUpTo {e : Expression} (h : ReadAs e c s stop after)
    (hadmits : c.AdmitsUpTo s stop) : c.AdmitsUpTo after stop := by
  rw [h.moved]
  exact hadmits.later h.le_position (Nat.le_refl stop)

/-! ### Chains -/

/-- An operator is read only if it binds tightly enough and is not the last token. -/
theorem ensures_operator?_cases (heof : c.kindAt s.position ≠ .eof) :
    Ensures (operator? stop floor) c s (fun _ ↦ True) fun found after ↦ match found with
      | none => after = s ∧ ∀ op : Operator, c.kindAt s.position = op.kind → op.precedence < floor
      | some (op, _) => c.kindAt s.position = op.kind ∧ floor ≤ op.precedence ∧
          s.position + 1 < stop ∧ after = s.movedTo (s.position + 1) := by
  simp only [operator?, ensures_bind, ensures_peek, Context.kind_tokenAt_of_ne_eof heof]
  cases hop : Operator.ofKind? (c.kindAt s.position) with
  | none =>
    refine ⟨rfl, fun op hkind ↦ ?_⟩
    rw [hkind, op.ofKind?_kind] at hop
    cases hop
  | some op =>
    have hkind := Operator.kind_of_ofKind? hop
    simp only [ensures_bind, ensures_ite, ensures_pure, ensures_discard, ensures_advance,
      ensures_here, ensures_peek, ensures_violateAt, ensures_violate, State.position_movedTo,
      Context.after_of_ne_eof heof]
    refine ⟨fun hloose ↦ ⟨trivial, fun other hother ↦ ?_⟩, fun htight ↦ ?_⟩
    · rw [hother, other.ofKind?_kind] at hop
      exact Option.some.inj hop ▸ hloose
    · refine ⟨fun _ ↦ trivial, fun hmore ↦ ⟨fun _ ↦ trivial, fun _ ↦ ?_⟩⟩
      exact ⟨hkind, Nat.le_of_not_lt htight, Nat.lt_of_not_le hmore, trivial⟩

/-- A round ends the chain or puts the tree to the left of a new root. -/
theorem readsBack_chainRound {side : Nat → Check DataType} {left : DataType}
    (hside : ReadsRight side c stop floor) (hadmits : c.AdmitsUpTo s stop)
    (h : ReadSoFar c s stop floor after) (hmore : after.position < stop) :
    Ensures (chainRound side stop floor left) c after (fun _ ↦ True)
      (AfterRound (fun _ later ↦ ReadSoFar c s stop floor later) fun _ later ↦
        ReadChain c s stop floor later) := by
  obtain ⟨e, hread, hfloor, hstops⟩ := h
  have hrest := hread.admitsUpTo hadmits
  rw [chainRound, ensures_bind]
  refine (ensures_operator?_cases (hrest _ (Nat.le_refl _) hmore).ne_eof).mono ?_
  rintro (_ | ⟨op, t⟩) later hlater
  · obtain ⟨rfl, hloose⟩ := hlater
    exact ⟨e, hread, hfloor, fun op _ hkind ↦ hloose op hkind⟩
  · obtain ⟨hkind, htight, -, rfl⟩ := hlater
    rw [ensures_bind]
    refine (hside htight (hrest.later (Nat.le_succ _) (Nat.le_refl _))).mono ?_
    rintro rightType later ⟨r, hright, htighter, hlast⟩
    -- The tree so far binds at least as tightly as the operator, since that did not belong into it.
    have hwhole : ReadAs (.binary op e r) c s stop later := by
      refine ⟨Expression.printedAt_binary.2 ⟨after.position, hread.printed, hkind, ?_, ?_, ?_⟩, ?_,
        hright.le⟩
      · have hprinted := hright.printed
        rwa [hread.moved] at hprinted
      · exact Nat.le_of_lt_succ (hstops op hmore hkind)
      · exact htighter
      · rw [hright.moved, hread.moved]
        rfl
    rw [ensures_bind]
    unfold apply
    split
    · exact ⟨_, hwhole, htight, hlast⟩
    · trivial

theorem readsChain_rounds {operand side : Nat → Check DataType} (hoperand : ReadsOperands operand)
    (hside : ReadsRight side c stop floor) (hadmits : c.AdmitsUpTo s stop)
    (hfloor : floor ≤ Operator.maxPrecedence + 1) :
    ReadsChain (operand stop >>= roundsWhile (within stop) (chainRound side stop floor))
      c s stop floor := by
  unfold ReadsChain
  rw [ensures_bind]
  refine (hoperand hadmits).mono ?_
  rintro type after ⟨e, hread, htight⟩
  have hstart : ReadSoFar c s stop floor after :=
    ⟨e, hread, Nat.le_trans hfloor htight, fun op _ _ ↦
      Nat.lt_succ_of_le (Nat.le_trans op.precedence_le (Nat.le_of_lt htight))⟩
  refine ensures_roundsWhile (fun _ ↦ trivial) (I := fun _ later ↦ ReadSoFar c s stop floor later)
    hstart ?_
  rintro left later hlater
  refine ⟨fun hmore ↦ readsBack_chainRound hside hadmits hlater (of_decide_eq_true hmore),
    fun hover ↦ ?_⟩
  obtain ⟨e, hread, hfloor, -⟩ := hlater
  exact ⟨e, hread, hfloor, fun _ hlt _ ↦ absurd hlt (of_decide_eq_false hover)⟩

theorem readsChain_chain {operand : Nat → Check DataType} (hoperand : ReadsOperands operand)
    {climbs : Nat} (hclimbs : Operator.maxPrecedence < climbs + floor)
    (hadmits : c.AdmitsUpTo s stop) (hfloor : floor ≤ Operator.maxPrecedence + 1) :
    ReadsChain (chain operand stop climbs floor) c s stop floor := by
  induction climbs generalizing floor s with
  | zero =>
    refine readsChain_rounds hoperand (fun {op} _ hle _ ↦ absurd hclimbs ?_) hadmits hfloor
    rw [Nat.zero_add]
    exact Nat.not_lt_of_le (Nat.le_trans hle op.precedence_le)
  | succ climbs ih =>
    refine readsChain_rounds hoperand (fun {op} _ hle hrest ↦ ?_) hadmits hfloor
    exact ih (by omega) hrest (Nat.succ_le_succ op.precedence_le)

/-- An expression on admitted tokens is a printed one and ends where it was to end. -/
theorem readsBack_expressionWith {operand : Nat → Check DataType} (hoperand : ReadsOperands operand)
    (hadmits : c.AdmitsUpTo s stop) :
    Ensures (expressionWith operand stop) c s (fun _ ↦ True) fun _ after ↦
      after = s.movedTo stop ∧ ∃ e : Expression, e.PrintedAt c s stop := by
  simp only [expressionWith, ensures_bind, ensures_here, ensures_ite, ensures_violate, ensures_peek,
    ensures_pure]
  refine ⟨fun _ ↦ trivial, fun _ ↦ ?_⟩
  refine (readsChain_chain hoperand (by omega) hadmits (Nat.zero_le _)).mono ?_
  rintro type after ⟨e, hread, -, -⟩
  refine ⟨fun _ ↦ ⟨fun _ ↦ trivial, fun _ ↦ trivial⟩, fun hover ↦ ?_⟩
  obtain rfl : after.position = stop := Nat.le_antisymm hread.le (Nat.le_of_not_lt hover)
  exact ⟨hread.moved, e, hread.printed⟩

/-! ### Operands -/

/-- A scalar is nothing to call. -/
theorem ensures_call_of_scalar {operand : Nat → Check DataType} {Q : DataType → State → Prop}
    (h : (c.scalar? s (c.tokenAt s.position).lexeme).isSome) :
    Ensures (call operand) c s (fun _ ↦ True) Q := by
  obtain ⟨type, htype⟩ := Option.isSome_iff_exists.1 h
  obtain ⟨symbol, hlookup, hscalar, -⟩ := exists_symbol_of_scalar? htype
  have hfunction : symbol.functionInfo? = none := by
    unfold Symbol.isScalar at hscalar
    unfold Symbol.functionInfo?
    split at hscalar <;> simp_all
  have hmoved : (s.movedTo (c.after s.position)).arena.lookup c.scope
      (c.tokenAt s.position).lexeme = some symbol := hlookup
  simp only [call, ensures_bind, ensures_expect, callee, ensures_resolve, hmoved, hfunction,
    ensures_violateAt]
  exact ⟨fun _ ↦ trivial, fun _ ↦ trivial⟩

/-- A scalar is read as a name, also where a parenthesis follows it: then nothing is read. -/
theorem readsBack_nameOperand {operand : Nat → Check DataType} (hadmits : c.AdmitsUpTo s stop)
    (hmore : s.position < stop) (hkind : c.kindAt s.position = .identifier)
    (hname : (c.scalar? s (c.tokenAt s.position).lexeme).isSome) :
    Ensures (nameOperand operand stop (c.tokenAt s.position)) c s (fun _ ↦ True) fun _ after ↦
      ReadAs (.name (c.tokenAt s.position).lexeme) c s stop after := by
  by_cases hcall : s.position + 1 < stop ∧ c.kindAt (s.position + 1) = .leftParen
  · simp only [nameOperand, ensures_bind, ensures_here, if_pos hcall.1, ensures_secondKind,
      if_pos hcall.2]
    exact ensures_call_of_scalar hname
  · obtain ⟨type, htype⟩ := Option.isSome_iff_exists.1 hname
    refine (ensures_nameOperand_of_scalar hkind htype fun hnext ↦ ?_).2
      ⟨Expression.printedAt_name.2 ⟨hkind, hname, rfl, rfl⟩, rfl, hmore⟩
    exact (hadmits _ (Nat.le_succ _) hnext).extendsName fun hparen ↦ hcall ⟨hnext, hparen⟩

theorem readsBack_parenthesised {operand : Nat → Check DataType} (hoperand : ReadsOperands operand)
    (hadmits : c.AdmitsUpTo s stop) (hopen : c.kindAt s.position = .leftParen) :
    Ensures (parenthesised operand stop) c s (fun _ ↦ True) fun _ after ↦
      ∃ e, ReadAs (.parens e) c s stop after := by
  have hcloser : (c.kindAt s.position).closer? = some .rightParen := by rw [hopen]; rfl
  have hfirst := Context.after_of_kindAt hopen (by simp)
  rw [parenthesised, ensures_bind, ensures_here, ensures_bind, ensures_matchingClose_iff hcloser]
  refine ⟨fun close hfound ↦ ?_, fun _ ↦ trivial, fun _ ↦ trivial⟩
  simp only [ensures_bind, ensures_ite, ensures_violate, ensures_discard, ensures_advance,
    ensures_pure]
  have hclose := (le_of_searchClose hfound).2
  have hlast := Context.after_of_kindAt hclose (by simp)
  refine ⟨fun _ ↦ trivial, fun hinside ↦ ?_⟩
  have hinner : c.AdmitsUpTo (s.movedTo (c.after s.position)) close := by
    rw [hfirst]
    exact hadmits.later (Nat.le_succ _) (Nat.le_of_not_le hinside)
  refine (readsBack_expressionWith hoperand hinner).mono ?_
  rintro type _ ⟨rfl, e, hprinted⟩
  rw [hfirst] at hprinted
  refine ⟨e, Expression.printedAt_parens.2 ⟨hopen, close, hprinted, hclose, ?_⟩, rfl, ?_⟩
  · exact hlast.symm
  · rw [State.position_movedTo, State.position_movedTo, hlast]
    exact Nat.lt_of_not_le hinside

/-- What is read as an operand, given that operands inside of it are read back. -/
theorem readsOperands_operandWith {operand : Nat → Check DataType}
    (hoperand : ReadsOperands operand) : ReadsOperands (operandWith operand) := by
  intro c s stop hadmits
  unfold operandWith
  simp only [ensures_bind, ensures_here, ensures_ite, ensures_violate, ensures_peek]
  refine ⟨fun _ ↦ trivial, fun hhere ↦ ?_⟩
  have hmore : s.position < stop := Nat.lt_of_not_le hhere
  have hfirst := hadmits s.position (Nat.le_refl _) hmore
  have hstep := Context.after_of_ne_eof hfirst.ne_eof
  rw [Context.kind_tokenAt_of_ne_eof hfirst.ne_eof]
  rcases hfirst with hliteral | ⟨hkind, hname⟩ | hmark | ⟨op, hkind⟩
  · obtain ⟨type, htype⟩ := Option.isSome_iff_exists.1 hliteral
    simp only [htype, ensures_bind, ensures_discard, ensures_advance, ensures_pure, hstep]
    exact ⟨.literal (c.kindAt s.position) (c.tokenAt s.position).lexeme,
      ⟨Expression.printedAt_literal.2 ⟨rfl, hliteral, rfl, rfl⟩, rfl, hmore⟩, Nat.lt_succ_self _⟩
  · rw [hkind]
    refine (readsBack_nameOperand hadmits hmore hkind hname).mono fun type after hread ↦ ?_
    exact ⟨_, hread, Nat.lt_succ_self _⟩
  · have hcases : c.kindAt s.position = .negation ∨ c.kindAt s.position = .leftParen ∨
        c.kindAt s.position = .rightParen := by simpa using hmark
    rcases hcases with hkind | hkind | hkind
    · rw [hkind]
      simp only [DataType.ofLiteral?, ensures_bind, ensures_discard, ensures_advance, ensures_ite,
        ensures_violateAt, ensures_pure, hstep]
      refine (hoperand (hadmits.later (Nat.le_succ _) (Nat.le_refl _))).mono ?_
      rintro type after ⟨e, hread, htight⟩
      refine ⟨fun _ ↦ trivial, fun _ ↦ ⟨.negation e, ⟨?_, hread.moved, hread.le⟩,
        Nat.lt_succ_self _⟩⟩
      exact Expression.printedAt_negation.2 ⟨hkind, hread.printed, htight⟩
    · rw [hkind]
      refine (readsBack_parenthesised hoperand hadmits hkind).mono ?_
      rintro type after ⟨e, hread⟩
      exact ⟨_, hread, Nat.lt_succ_self _⟩
    · rw [hkind]
      trivial
  · rw [hkind]
    cases op <;> trivial

/-- Operands are read back on every level. -/
theorem readsOperands_operand (levels : Nat) : ReadsOperands (operand levels) := by
  induction levels with
  | zero => exact fun _ ↦ trivial
  | succ levels ih => exact readsOperands_operandWith ih

end

end FrontEnd
