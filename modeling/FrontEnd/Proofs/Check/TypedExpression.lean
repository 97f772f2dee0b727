import FrontEnd.Proofs.Check.Readback
import FrontEnd.Proofs.Typing.Values

/-!
# The walk over an expression types it

Where names stand for what an arena says, a walk over an expression that succeeds gives it the type
the rules give it: `Typed`.  As in reading expressions back, the term is put together along the walk,
and what the rounds of a chain have read so far is a term the next operator does not belong into.

What an operand contains is a parameter again, and `typesOperands_operand` is the induction on levels.
-/

namespace FrontEnd

open Check

/-- In a state, the names around a place stand for what they are declared as, and the scope at the
place is there. -/
structure Context.Shows (c : Context) (s : State) (names : Names) : Prop where
  live : c.scope < s.arena.size
  names_eq : s.arena.names c.scope = names
  proper : names.Proper

/-- The walk from one state to the other went over something of a form and changed no table. -/
structure TypedTo (c : Context) (names : Names) (form : Form) (s after : State) : Prop where
  typed : Typed c.text names form s.position after.position
  tables : SameTables s after

/-- Operands take in phrases and are given the type they have. -/
structure TypesOperands (operand : Nat → Check DataType) : Prop where
  phrase : TakePhrases operand
  typed : ∀ {c : Context} {s : State} {names : Names}, c.Closed → c.Shows s names → ∀ stop,
    Ensures (operand stop) c s (fun _ ↦ True) fun type after ↦
      TypedTo c names (.operand type) s after ∧ type ≠ .void

/-- The walk went over a whole chain: a term no looser than the floor, up to an operator that is
looser. -/
def TermRead (c : Context) (names : Names) (s : State) (stop floor : Nat) (type : DataType)
    (after : State) : Prop :=
  ∃ p, TypedTo c names (.term p type) s after ∧ floor ≤ p ∧ c.Stops floor after.position stop

/-- The walk went over a part of a chain: a term that the next operator does not belong into.  This is
the invariant of the rounds. -/
def TermSoFar (c : Context) (names : Names) (s : State) (stop floor : Nat) (type : DataType)
    (after : State) : Prop :=
  ∃ p, TypedTo c names (.term p type) s after ∧ floor ≤ p ∧ c.Stops (p + 1) after.position stop

/-- The right side of an operator from a floor on is a chain that binds more tightly than it. -/
def TypesRight (side : Nat → Check DataType) (c : Context) (names : Names) (stop floor : Nat) :
    Prop :=
  ∀ {op : Operator} {s : State}, floor ≤ op.precedence → c.Shows s names →
    Ensures (side (op.precedence + 1)) c s (fun _ ↦ True)
      (TermRead c names s stop (op.precedence + 1))

section

variable {c : Context} {names : Names} {s after later : State} {i j stop floor : Nat}
  {symbol : Symbol} {form : Form} {type : DataType}

namespace Context.Shows

theorem of_tables (h : c.Shows s names) (hsame : SameTables s after) : c.Shows after names := by
  refine ⟨?_, ?_, h.proper⟩
  · rw [hsame.arena]
    exact h.live
  · rw [hsame.arena]
    exact h.names_eq

theorem movedTo (h : c.Shows s names) (i : Nat) : c.Shows (s.movedTo i) names :=
  ⟨h.live, h.names_eq, h.proper⟩

theorem lookup (h : c.Shows s names) (name : String) :
    names name = (s.arena.lookup c.scope name).map Symbol.declared :=
  (congrFun h.names_eq name).symm

/-- A name that is found stands for what the symbol is declared as. -/
theorem nameAt (h : c.Shows s names) (hkind : c.kindAt i = .identifier)
    (hfound : s.arena.lookup c.scope (c.tokenAt i).lexeme = some symbol) :
    c.text.NameAt names i symbol.declared :=
  ⟨hkind, by rw [h.lookup, hfound]; rfl⟩

/-- A name that is not found is not declared. -/
theorem none (h : c.Shows s names) {name : String}
    (hfound : s.arena.lookup c.scope name = Option.none) : names name = Option.none := by
  rw [h.lookup, hfound]
  rfl

end Context.Shows

theorem Text.NameAt.proper (h : c.text.NameAt names i symbol) (hnames : names.Proper) :
    symbol.Proper :=
  hnames _ _ h.2

/-! ### Chains -/

theorem ensures_operator?_closed (hc : c.Closed) :
    Ensures (operator? stop floor) c s (fun _ ↦ True) fun found after ↦ match found with
      | none => after = s ∧ ∀ op : Operator, c.kindAt s.position = op.kind → op.precedence < floor
      | some (op, _) => c.kindAt s.position = op.kind ∧ floor ≤ op.precedence ∧
          after = s.movedTo (s.position + 1) := by
  by_cases heof : c.kindAt s.position = .eof
  · simp only [operator?, ensures_bind, ensures_peek, hc.kind_tokenAt, heof]
    exact ⟨rfl, fun op hop ↦ absurd hop.symm op.kind_ne_eof⟩
  · refine (ensures_operator?_cases heof).mono ?_
    rintro (_ | ⟨op, t⟩) later hlater
    · exact hlater
    · exact ⟨hlater.1, hlater.2.1, hlater.2.2.2⟩

/-- A round ends the chain or joins the term with a right side. -/
theorem ensures_chainRound_typed {side : Nat → Check DataType} {left : DataType}
    (hside : TypesRight side c names stop floor) (hc : c.Closed) (hshows : c.Shows s names)
    (h : TermSoFar c names s stop floor left after) (hmore : after.position < stop) :
    Ensures (chainRound side stop floor left) c after (fun _ ↦ True)
      (AfterRound (TermSoFar c names s stop floor) (TermRead c names s stop floor)) := by
  obtain ⟨p, hleft, hfloor, hstops⟩ := h
  rw [chainRound, ensures_bind]
  refine (ensures_operator?_closed hc).mono ?_
  rintro (_ | ⟨op, t⟩) later hlater
  · obtain ⟨rfl, hloose⟩ := hlater
    exact ⟨p, hleft, hfloor, fun op _ hkind ↦ hloose op hkind⟩
  · obtain ⟨hkind, htight, rfl⟩ := hlater
    rw [ensures_bind]
    refine (hside htight ((hshows.of_tables hleft.tables).movedTo _)).mono ?_
    rintro rightType later ⟨q, hright, htighter, hlast⟩
    rw [ensures_bind]
    unfold apply
    split
    next type hresult =>
      -- The operator did not belong into the term, so it binds no more tightly.
      have hle : op.precedence ≤ p := Nat.le_of_lt_succ (hstops op hmore hkind)
      have hop : Operator.ofKind? (c.kindAt after.position) = some op := by
        rw [hkind, op.ofKind?_kind]
      have hjoined : Typed c.text names (.term op.precedence type) s.position later.position :=
        .joined hleft.typed hop hright.typed hle htighter hresult
      exact ⟨_, ⟨hjoined, hleft.tables.trans (SameTables.of_movedTo.1 hright.tables)⟩, htight, hlast⟩
    · trivial

section

variable {operand side : Nat → Check DataType} (h : TypesOperands operand)

include h

theorem ensures_chainRounds_typed (hside : TypesRight side c names stop floor) (hc : c.Closed)
    (hshows : c.Shows s names) (hfloor : floor ≤ Operator.maxPrecedence + 1) :
    Ensures (operand stop >>= roundsWhile (within stop) (chainRound side stop floor)) c s
      (fun _ ↦ True) (TermRead c names s stop floor) := by
  rw [ensures_bind]
  refine (h.typed hc hshows stop).mono ?_
  rintro type after ⟨hoperand, hvoid⟩
  have hstart : TermSoFar c names s stop floor type after :=
    ⟨_, ⟨.one hoperand.typed hvoid, hoperand.tables⟩, hfloor, fun op _ _ ↦
      Nat.lt_succ_of_le (Nat.le_succ_of_le op.precedence_le)⟩
  refine ensures_roundsWhile (fun _ ↦ trivial) hstart ?_
  rintro left later hlater
  refine ⟨fun hmore ↦ ensures_chainRound_typed hside hc hshows hlater (of_decide_eq_true hmore),
    fun hover ↦ ?_⟩
  obtain ⟨p, hterm, hfloor, -⟩ := hlater
  exact ⟨p, hterm, hfloor, fun _ hlt _ ↦ absurd hlt (of_decide_eq_false hover)⟩

theorem ensures_chain_typed {climbs : Nat} (hclimbs : Operator.maxPrecedence < climbs + floor)
    (hc : c.Closed) (hshows : c.Shows s names) (hfloor : floor ≤ Operator.maxPrecedence + 1) :
    Ensures (chain operand stop climbs floor) c s (fun _ ↦ True)
      (TermRead c names s stop floor) := by
  induction climbs generalizing floor s with
  | zero =>
    refine ensures_chainRounds_typed h (fun {op} _ hle _ ↦ absurd hclimbs ?_) hc hshows hfloor
    rw [Nat.zero_add]
    exact Nat.not_lt_of_le (Nat.le_trans hle op.precedence_le)
  | succ climbs ih =>
    refine ensures_chainRounds_typed h (fun {op} _ hle hrest ↦ ?_) hc hshows hfloor
    exact ih (by omega) hrest (Nat.succ_le_succ op.precedence_le)

/-- An expression has the type it is given. -/
theorem ensures_expressionWith_typed (hc : c.Closed) (hshows : c.Shows s names) (stop : Nat) :
    Ensures (expressionWith operand stop) c s (fun _ ↦ True) fun type after ↦
      TypedTo c names (.value type) s after := by
  simp only [expressionWith, ensures_bind, ensures_here, ensures_ite, ensures_violate, ensures_peek,
    ensures_pure]
  refine ⟨fun _ ↦ trivial, fun _ ↦ ?_⟩
  refine (ensures_chain_typed h (by omega) hc hshows (Nat.zero_le _)).mono ?_
  rintro type after ⟨p, hterm, -, -⟩
  exact ⟨fun _ ↦ ⟨fun _ ↦ trivial, fun _ ↦ trivial⟩, fun _ ↦ ⟨.value hterm.typed, hterm.tables⟩⟩

/-- An expression between brackets ends at the closing one. -/
theorem ensures_inside_typed (hc : c.Closed) (hshows : c.Shows s names) {close : Nat}
    (hbound : Bounds c.kindAt s.position close) :
    Ensures (expressionWith operand close) c s (fun _ ↦ True) fun type after ↦
      TypedTo c names (.value type) s after ∧ after.position = close :=
  ((ensures_expressionWith_typed h hc hshows close).and
    (ensures_expressionWith_bounded h.phrase (fun _ ↦ hc.seesTo close) hbound)).mono fun _ _ hboth ↦ ⟨hboth.1, hboth.2.2⟩

/-! ### Places -/

omit h in
/-- A search for a closing bracket moves nothing. -/
theorem ensures_matchingClose_of {closing : Kind} {Q : Nat → State → Prop}
    (hcloser : (c.kindAt i).closer? = some closing)
    (hQ : ∀ close, c.kindAt close = closing →
      (∀ j, Phrase c.kindAt true (i + 1) j → j ≤ close) → Q close s) :
    Ensures (matchingClose i) c s (fun _ ↦ True) Q := by
  refine (ensures_matchingClose hcloser).imp (fun _ _ ↦ trivial) ?_
  rintro close _ ⟨rfl, hclose, hbound⟩
  exact hQ close hclose hbound

theorem ensures_oneIndex_typed (hc : c.Closed) (hshows : c.Shows s names)
    (hopen : c.kindAt s.position = .leftBracket) (size : Dimension) :
    Ensures (oneIndex operand size) c s (fun _ ↦ True) fun _ after ↦ SameTables s after ∧
      ∀ {count j : Nat}, Typed c.text names (.indices count) after.position j →
        Typed c.text names (.indices (count + 1)) s.position j := by
  have hcloser : (c.kindAt s.position).closer? = some .rightBracket := by rw [hopen]; rfl
  have hfirst := Context.after_of_kindAt hopen (by simp)
  simp only [oneIndex, ensures_bind, ensures_here]
  refine ensures_matchingClose_of hcloser fun close hclose hbound ↦ ?_
  simp only [ensures_discard, ensures_advance, ensures_peek, ensures_ite, ensures_bind,
    ensures_violateAt, hfirst]
  have hindex : Ensures (expressionWith operand close) c (s.movedTo (s.position + 1)) (fun _ ↦ True)
      fun found after ↦ found = .int → SameTables s (after.movedTo (c.after after.position)) ∧
        ∀ {count j : Nat}, Typed c.text names (.indices count) (c.after after.position) j →
          Typed c.text names (.indices (count + 1)) s.position j := by
    refine (ensures_inside_typed h hc (hshows.movedTo _) fun j hj ↦ hbound j hj.withCommas).mono ?_
    rintro found after ⟨hvalue, rfl⟩ rfl
    refine ⟨by simpa using hvalue.tables, fun hrest ↦ .index hopen hvalue.typed hclose ?_⟩
    rwa [Context.after_of_kindAt hclose (by simp)] at hrest
  constructor
  · intro _
    refine (ensures_checkLiteralIndex _ size).imp (fun _ _ ↦ trivial) ?_
    rintro _ _ rfl
    exact hindex.mono fun _ _ hafter ↦ ⟨fun _ ↦ trivial, fun hint ↦ hafter (Decidable.not_not.1 hint)⟩
  · intro _
    exact hindex.mono fun _ _ hafter ↦ ⟨fun _ ↦ trivial, fun hint ↦ hafter (Decidable.not_not.1 hint)⟩

theorem ensures_indices_typed {wrongCount : Check Unit}
    (hwrong : ∀ c s, Ensures wrongCount c s (fun _ ↦ True) fun _ _ ↦ False) (hc : c.Closed)
    (hshows : c.Shows s names) (sizes : List Dimension) :
    Ensures (indices operand wrongCount sizes) c s (fun _ ↦ True) fun _ after ↦
      TypedTo c names (.indices sizes.length) s after := by
  induction sizes generalizing s with
  | nil => exact ⟨.noIndex, .refl s⟩
  | cons size sizes ih =>
    simp only [indices, ensures_bind, ensures_next?, ensures_ite, beq_iff_eq]
    refine ⟨fun hopen ↦ ?_, fun _ ↦ (hwrong c s).mono fun _ _ hfalse ↦ hfalse.elim⟩
    refine (ensures_oneIndex_typed h hc hshows hopen size).mono ?_
    rintro _ after ⟨hsame, hindex⟩
    exact (ih (hshows.of_tables hsame)).mono fun _ _ hrest ↦
      ⟨hindex hrest.typed, hsame.trans hrest.tables⟩

/-- What stands behind the name of an array is a place of its type. -/
theorem ensures_elementType_typed (hc : c.Closed) (hshows : c.Shows s names)
    (hname : c.text.NameAt names i symbol.declared) (hvalue : symbol.isValue) (hi : s.position = i + 1)
    (t : Token) :
    Ensures (elementType operand symbol t) c s (fun _ ↦ True) fun type after ↦
      Typed c.text names (.place symbol.declared type) i after.position ∧ type ≠ .void ∧
        SameTables s after := by
  have hvalue' : symbol.declared.isValue := by rwa [Symbol.isValue_declared]
  unfold elementType
  split
  · exact trivial
  next sizes hsizes =>
    simp only [ensures_bind, ensures_next?, ensures_ite, ensures_pure]
    refine (ensures_indices_typed h (fun c s ↦ by simp) hc hshows sizes).mono ?_
    rintro _ after ⟨hindices, hsame⟩
    refine ⟨fun _ ↦ trivial, fun _ ↦ ⟨?_, (hname.proper hshows.proper).type hvalue', hsame⟩⟩
    rw [hi] at hindices
    exact .element hname hvalue' hsizes hindices

omit h in
/-- What stands behind the name of an instance is a place of the type of a member. -/
theorem ensures_member_typed (hshows : c.Shows s names)
    (hname : c.text.NameAt names i symbol.declared) (hi : s.position = i + 1) (t : Token) :
    Ensures (member symbol t) c s (fun _ ↦ True) fun m after ↦
      Typed c.text names (.place symbol.declared m.type) i after.position ∧ m.type ≠ .void ∧
        SameTables s after := by
  unfold member
  split
  next structName given hkind =>
    simp only [ensures_bind, ensures_discard, ensures_expectMark, ensures_expect, ensures_resolve]
    refine ⟨fun hdot ↦ ⟨fun hmember ↦ ?_, fun _ ↦ trivial⟩, fun _ ↦ trivial⟩
    rw [State.position_movedTo, Context.after_of_kindAt hdot (by simp), hi] at hmember
    have hlast : c.after (c.after s.position) = i + 3 := by
      rw [Context.after_of_kindAt hdot (by simp), hi, Context.after_of_kindAt hmember (by simp)]
    have hat : c.after s.position = i + 2 := by rw [Context.after_of_kindAt hdot (by simp), hi]
    split
    next members hstruct =>
      obtain ⟨struct, hlookup, hmembers⟩ := Option.map_eq_some_iff.1 hstruct
      have hfound : names structName = some struct.declared := by
        rw [hshows.lookup]
        exact congrArg (Option.map Symbol.declared) hlookup
      have hstructKind : struct.declared.kind = .struct members := by
        rw [Symbol.kind_declared, hmembers]
        rfl
      split
      next m hm =>
        rw [State.position_movedTo, hat] at hm
        simp only [ensures_pure, State.position_movedTo, hlast]
        refine ⟨?_, (hshows.proper _ _ hfound).members _ hstructKind m (List.mem_of_find?_eq_some hm),
          by simp⟩
        have hinstance : symbol.declared.kind = .structInstance structName [] := by
          rw [Symbol.kind_declared, hkind]
          rfl
        exact .member hname hinstance (hi ▸ hdot) hmember hfound hstructKind hm
      · trivial
    · trivial
  · trivial

omit h in
theorem ensures_writable_typed (t : Token) :
    Ensures (writable t) c s (fun _ ↦ True) fun symbol after ↦
      after = s ∧ s.arena.lookup c.scope t.lexeme = some symbol ∧ symbol.isValue ∧
        symbol.isConstant = false := by
  simp only [writable, ensures_bind, ensures_resolve]
  split
  · trivial
  next symbol hfound =>
    simp only [ensures_bind, ensures_ite, ensures_violateAt, ensures_pure]
    exact ⟨fun _ ↦ trivial, fun hvalue ↦ ⟨fun _ ↦ trivial, fun hconstant ↦
      ⟨trivial, hfound, by simpa using hvalue, by simpa using hconstant⟩⟩⟩

theorem ensures_target_typed (hc : c.Closed) (hshows : c.Shows s names) :
    Ensures (target operand) c s (fun _ ↦ True) fun t after ↦
      TypedTo c names (.target t.type) s after := by
  simp only [target, ensures_bind, ensures_expect, ensures_peekKind]
  refine ⟨fun hkind ↦ ?_, fun _ ↦ trivial⟩
  have hfirst := Context.after_of_kindAt hkind (by simp)
  rw [hfirst]
  refine (ensures_writable_typed _).mono ?_
  rintro symbol _ ⟨rfl, hfound, hvalue, hconstant⟩
  have hname : c.text.NameAt names s.position symbol.declared := hshows.nameAt hkind hfound
  have hconstant : symbol.declared.isConstant = false := by rwa [Symbol.isConstant_declared]
  have hplace : ∀ {type : DataType} {after : State},
      Typed c.text names (.place symbol.declared type) s.position after.position ∧ type ≠ .void ∧
        SameTables (s.movedTo (s.position + 1)) after → TypedTo c names (.target type) s after :=
    fun hplace ↦ ⟨.target hplace.1 hconstant, SameTables.of_movedTo.1 hplace.2.2⟩
  split
  · rw [ensures_bind]
    exact (ensures_elementType_typed h hc (hshows.movedTo _) hname hvalue rfl _).mono
      fun _ _ ↦ hplace
  · rw [ensures_bind]
    exact (ensures_member_typed (hshows.movedTo _) hname rfl _).mono fun _ _ ↦ hplace
  · simp only [ensures_bind, ensures_ite, ensures_violateAt, ensures_pure]
    refine ⟨fun _ ↦ trivial, fun harray ↦ ?_⟩
    have hwhole : Typed c.text names (.place symbol.declared symbol.declared.type) s.position
        (s.position + 1) :=
      .whole hname (by rwa [Symbol.isValue_declared]) (Option.not_isSome_iff_eq_none.1 harray)
    exact ⟨.target hwhole hconstant, by simp⟩

omit h in
theorem ensures_requireInt_typed (t : Target) :
    Ensures (requireInt t) c s (fun _ ↦ True) fun _ after ↦ after = s ∧ t.type = .int := by
  simp [requireInt]

/-- A target that is counted. -/
theorem ensures_countTarget_typed (hc : c.Closed) (hshows : c.Shows s names) :
    Ensures (target operand >>= requireInt) c s (fun _ ↦ True) fun _ after ↦
      TypedTo c names (.target .int) s after := by
  rw [ensures_bind]
  refine (ensures_target_typed h hc hshows).mono fun t after htarget ↦ ?_
  refine (ensures_requireInt_typed t).mono ?_
  rintro _ _ ⟨rfl, hint⟩
  rwa [hint] at htarget

/-! ### Calls -/

/-- What the rounds over a list of arguments have read: nothing yet, or arguments and a comma. -/
def ArgumentsSoFar (c : Context) (names : Names) (s : State) (before : List Argument)
    (after : State) : Prop :=
  SameTables s after ∧ (before = [] ∧ after.position = s.position ∨
    ∃ m, Typed c.text names (.values (before.map Prod.fst)) s.position m ∧ c.kindAt m = .comma ∧
      after.position = m + 1)

omit h in
/-- One more value behind the arguments read so far. -/
theorem ArgumentsSoFar.value {before : List Argument} (h : ArgumentsSoFar c names s before after)
    (hvalue : TypedTo c names (.value type) after later) (first : Token) :
    TypedTo c names (.values ((before ++ [(type, first)]).map Prod.fst)) s later := by
  obtain ⟨hsame, ⟨rfl, hstart⟩ | ⟨m, hvalues, hcomma, hm⟩⟩ := h
  · refine ⟨.firstValue ?_, hsame.trans hvalue.tables⟩
    exact hstart ▸ hvalue.typed
  · refine ⟨?_, hsame.trans hvalue.tables⟩
    rw [List.map_append, List.map_singleton]
    exact .nextValue hvalues hcomma (hm ▸ hvalue.typed)

theorem ensures_arguments_typed (hc : c.Closed) (hshows : c.Shows s names) (close : Nat) :
    Ensures (arguments operand close) c s (fun _ ↦ True) fun found after ↦
      TypedTo c names (.arguments (found.map Prod.fst)) s after := by
  simp only [arguments, ensures_bind, ensures_here, ensures_ite, ensures_pure]
  refine ⟨fun _ ↦ ⟨.noArgument, .refl s⟩, fun _ ↦ ?_⟩
  refine ensures_rounds (fun _ ↦ trivial) (I := ArgumentsSoFar c names s)
    ⟨.refl s, .inl ⟨rfl, rfl⟩⟩ ?_
  intro before after hafter
  simp only [argumentRound, ensures_bind, ensures_peek]
  refine (ensures_expressionEnd (by simp [Kind.isPlain])).imp (fun _ _ ↦ trivial) ?_
  rintro stop after' ⟨hstay, -⟩
  obtain rfl : after = after' := hstay.symm
  refine (ensures_expressionWith_typed h hc (hshows.of_tables hafter.1) _).mono fun type later hlater ↦ ?_
  have hvalues := hafter.value hlater (c.tokenAt after.position)
  simp only [ensures_bind, ensures_here, ensures_ite, ensures_pure, ensures_discard, ensures_expect,
    afterRound_done, afterRound_yield]
  refine ⟨fun _ ↦ ⟨.arguments hvalues.typed, hvalues.tables⟩, fun _ ↦ ⟨fun hcomma ↦ ?_, fun _ ↦ trivial⟩⟩
  exact ⟨by simpa using hvalues.tables, .inr ⟨later.position, hvalues.typed, hcomma,
    Context.after_of_kindAt hcomma (by simp)⟩⟩

omit h in
theorem ensures_checkTypes_typed :
    ∀ (index : Nat) (arguments : List Argument) (parameters : List DataType),
      Ensures (checkTypes index arguments parameters) c s (fun _ ↦ True) fun _ after ↦ after = s ∧
        (arguments.length = parameters.length → arguments.map Prod.fst = parameters)
  | index, (found, first) :: arguments, expected :: parameters => by
    simp only [checkTypes, ensures_bind, ensures_ite, ensures_violateAt]
    refine ⟨fun _ ↦ trivial, fun hsame ↦ ?_⟩
    refine (ensures_checkTypes_typed (index + 1) arguments parameters).mono ?_
    rintro _ _ ⟨rfl, hrest⟩
    refine ⟨rfl, fun hlength ↦ ?_⟩
    rw [List.map_cons, hrest (Nat.succ.inj hlength), Decidable.not_not.1 hsame]
  | _, [], parameters => by simp [checkTypes, eq_comm]
  | _, _ :: _, [] => by simp [checkTypes]

omit h in
/-- The types of as many arguments as there are parameters are those of the parameters. -/
theorem ensures_checkSignature (found : List Argument) {parameters : List DataType} {count : Nat}
    (hcount : count = parameters.length) (name : Token) (function : String) :
    Ensures (do checkArity name function count found.length; checkTypes 1 found parameters) c s
      (fun _ ↦ True) fun _ after ↦ after = s ∧ found.map Prod.fst = parameters := by
  simp only [checkArity, ensures_bind, ensures_ite, ensures_violateAt]
  refine ⟨fun _ ↦ trivial, fun harity ↦ ?_⟩
  refine (ensures_checkTypes_typed 1 found parameters).mono ?_
  rintro _ _ ⟨rfl, htypes⟩
  exact ⟨rfl, htypes ((Decidable.not_not.1 harity).trans hcount)⟩

/-- What stands between the parentheses of a call, and the closing one. -/
def CallRest (c : Context) (names : Names) (parameters : List DataType) (s after : State) : Prop :=
  ∃ m, Typed c.text names (.arguments parameters) s.position m ∧ c.kindAt m = .rightParen ∧
    after.position = m + 1 ∧ SameTables s after

/-- The arguments of a call and the closing parenthesis, with a check of the signature behind. -/
theorem ensures_callRest (hc : c.Closed) (hshows : c.Shows s names) (close : Nat)
    {parameters : List DataType} {count : Nat} (hcount : count = parameters.length) (name : Token)
    (function : String) (returns : DataType) :
    Ensures (do
      let found ← arguments operand close
      discard <| expectMark .rightParen
      checkArity name function count found.length
      checkTypes 1 found parameters
      return returns) c s (fun _ ↦ True) fun type after ↦
        CallRest c names parameters s after ∧ type = returns := by
  simp only [ensures_bind, ensures_discard, ensures_expectMark]
  refine (ensures_arguments_typed h hc hshows close).mono ?_
  rintro found after hfound
  refine ⟨fun hclose ↦ ?_, fun _ ↦ trivial⟩
  have hsignature := ensures_checkSignature (c := c)
    (s := after.movedTo (c.after after.position)) found hcount name function
  rw [ensures_bind] at hsignature
  refine hsignature.mono fun _ _ htypes ↦ htypes.mono ?_
  rintro _ _ ⟨rfl, rfl⟩
  exact ⟨⟨after.position, hfound.typed, hclose, Context.after_of_kindAt hclose (by simp),
    by simpa using hfound.tables⟩, rfl⟩

theorem ensures_declaredCall_typed (hc : c.Closed) (hshows : c.Shows s names) (info : FunctionInfo)
    (name : Token) (close : Nat) :
    Ensures (declaredCall operand info name close) c s (fun _ ↦ True) fun type after ↦
      CallRest c names (info.parameters.map TypedName.type) s after ∧ type = info.returns :=
  ensures_callRest h hc hshows close (List.length_map _).symm name name.lexeme info.returns

omit h in
/-- The name of an array and nothing else, between parentheses. -/
theorem ensures_wholeArray_typed (hc : c.Closed) (hshows : c.Shows s names) (close : Nat) :
    Ensures (wholeArray close) c s (fun _ ↦ True) fun whole after ↦ after = s ∧
      (whole = true → ∃ symbol, c.text.NameAt names s.position symbol ∧ symbol.isArray) := by
  simp only [wholeArray, ensures_bind, ensures_peek, ensures_here, hc.kind_tokenAt, ensures_ite,
    ensures_resolve, ensures_pure]
  refine ⟨fun hname ↦ ⟨trivial, fun harray ↦ ?_⟩, fun _ ↦ ⟨trivial, by simp⟩⟩
  have hkind : c.kindAt s.position = .identifier := of_decide_eq_true (Bool.and_eq_true_iff.1 hname).2
  cases hfound : s.arena.lookup c.scope (c.tokenAt s.position).lexeme with
  | none =>
    rw [hfound] at harray
    cases harray
  | some symbol =>
    rw [hfound] at harray
    exact ⟨symbol.declared, hshows.nameAt hkind hfound, harray⟩

theorem ensures_builtinCall_typed (hc : c.Closed) (hshows : c.Shows s names) (hi : s.position = i + 2)
    (hkind : c.kindAt i = .identifier) (hfree : names (c.tokenAt i).lexeme = none) {b : Builtin}
    (hb : Builtin.ofName? (c.tokenAt i).lexeme = some b) (hopen : c.kindAt (i + 1) = .leftParen)
    (name : Token) (close : Nat) :
    Ensures (builtinCall operand b name close) c s (fun _ ↦ True) fun type after ↦
      Typed c.text names (.call type) i after.position ∧ SameTables s after := by
  have harity : b.arity = b.parameters.length := by cases b <;> rfl
  have hsplit : builtinCall operand b name close = (do
      let whole ← wholeArray close
      if b = .len && whole then
        discard advance
        discard <| expectMark .rightParen
        return b.returns
      else
        let found ← arguments operand close
        discard <| expectMark .rightParen
        checkArity name b.name b.arity found.length
        checkTypes 1 found b.parameters
        return b.returns) := by
    cases b <;> rfl
  rw [hsplit, ensures_bind]
  refine (ensures_wholeArray_typed hc hshows close).mono ?_
  rintro whole after ⟨hstay, hwhole⟩
  obtain rfl : s = after := hstay.symm
  rw [ensures_ite]
  refine ⟨fun hlen ↦ ?_, fun _ ↦ ?_⟩
  · obtain ⟨hlen, htrue⟩ := Bool.and_eq_true_iff.1 hlen
    obtain rfl : b = .len := of_decide_eq_true hlen
    obtain ⟨symbol, hname, harray⟩ := hwhole htrue
    have hnext := Context.after_of_kindAt hname.1 (by simp)
    simp only [ensures_bind, ensures_discard, ensures_advance, ensures_expectMark, ensures_pure,
      State.position_movedTo, State.movedTo_movedTo, hnext]
    refine ⟨fun hclose ↦ ⟨?_, by simp⟩, fun _ ↦ trivial⟩
    rw [Context.after_of_kindAt hclose (by simp), hi]
    rw [hi] at hclose hname
    exact .lengthOfArray hkind hfree hb hopen hname harray hclose
  · refine (ensures_callRest h hc hshows close harity name b.name b.returns).mono ?_
    rintro _ after ⟨⟨m, harguments, hclose, hm, hsame⟩, rfl⟩
    rw [hi] at harguments
    exact ⟨hm ▸ .builtin hkind hfree hb hopen harguments hclose, hsame⟩

/-- A call, given that a parenthesis follows the name. -/
theorem ensures_call_typed (hc : c.Closed) (hshows : c.Shows s names)
    (hparen : c.kindAt (s.position + 1) = .leftParen) :
    Ensures (call operand) c s (fun _ ↦ True) fun type after ↦
      TypedTo c names (.call type) s after := by
  simp only [call, callee, ensures_bind, ensures_discard, ensures_expect, ensures_here,
    ensures_advance, ensures_resolve]
  refine ⟨fun hkind ↦ ?_, fun _ ↦ trivial⟩
  have hfirst := Context.after_of_kindAt hkind (by simp)
  have hsecond := Context.after_of_kindAt hparen (by simp)
  have hcloser : (c.kindAt (s.position + 1)).closer? = some .rightParen := by rw [hparen]; rfl
  have hinside : c.Shows (s.movedTo (s.position + 2)) names := hshows.movedTo _
  rw [hfirst]
  split
  next symbol hfound =>
    split
    next info hinfo =>
      simp only [ensures_pure]
      refine ensures_matchingClose_of hcloser fun close _ _ ↦ ?_
      simp only [State.position_movedTo, State.movedTo_movedTo, hsecond]
      refine (ensures_declaredCall_typed h hc hinside info _ close).mono ?_
      rintro _ after ⟨⟨m, harguments, hclose, hm, hsame⟩, rfl⟩
      have hdeclared : symbol.declared.functionInfo? = some { info with hasReturn := false } := by
        rw [Symbol.functionInfo?_declared, hinfo]
        rfl
      have hcall := Typed.declared (hshows.nameAt hkind hfound) hdeclared hparen harguments hclose
      exact ⟨hm ▸ hcall, SameTables.of_movedTo.1 hsame⟩
    · trivial
  next hfound =>
    split
    next b hb =>
      simp only [ensures_pure]
      refine ensures_matchingClose_of hcloser fun close _ _ ↦ ?_
      simp only [State.position_movedTo, State.movedTo_movedTo, hsecond]
      refine (ensures_builtinCall_typed h hc hinside rfl hkind (hshows.none hfound) hb hparen _
        close).mono fun _ _ hcall ↦ ?_
      exact ⟨hcall.1, SameTables.of_movedTo.1 hcall.2⟩
    · trivial

/-! ### Operands -/

omit h in
theorem ensures_valueSymbol_typed (t : Token) :
    Ensures (valueSymbol t) c s (fun _ ↦ True) fun symbol after ↦
      after = s ∧ s.arena.lookup c.scope t.lexeme = some symbol ∧ symbol.isValue := by
  simp only [valueSymbol, ensures_bind, ensures_resolve]
  split
  next symbol hfound =>
    split
    · trivial
    · trivial
    next hfunction hstruct =>
      refine ⟨rfl, hfound, ?_⟩
      unfold Symbol.isValue
      split <;> simp_all
  · simp

/-- What may follow the name of an operand, given the kind of token there or that the expression
ends. -/
theorem ensures_nameType_typed (hc : c.Closed) (hshows : c.Shows s names)
    (hname : c.text.NameAt names i symbol.declared) (hvalue : symbol.isValue) (hi : s.position = i + 1)
    {after : Kind} (hafter : after = .eof ∨ c.kindAt (i + 1) = after) (t : Token) :
    Ensures (nameType operand symbol t after) c s (fun _ ↦ True) fun type later ↦
      Typed c.text names (.operand type) i later.position ∧ type ≠ .void ∧ SameTables s later := by
  have hvalue' : symbol.declared.isValue := by rwa [Symbol.isValue_declared]
  have hwhole (harray : ¬ symbol.isArray = true) :
      Typed c.text names (.place symbol.declared symbol.declared.type) i (i + 1) :=
    .whole hname hvalue' (Option.not_isSome_iff_eq_none.1 harray)
  -- Both signs behind a name count it in the same way.
  have hcount {k : Kind} (hk : c.kindAt (i + 1) = k) (hsign : k = .increment ∨ k = .decrement) :
      Ensures (do
        if symbol.isConstant then violateAt (.constantReassignment symbol.name) t
        if symbol.isArray || symbol.type ≠ .int then violateAt (.countRequiresInt symbol.type) t
        discard advance
        return .int : Check DataType) c s (fun _ ↦ True) fun type later ↦
          Typed c.text names (.operand type) i later.position ∧ type ≠ .void ∧ SameTables s later := by
    simp only [ensures_bind, ensures_ite, ensures_violateAt, ensures_discard, ensures_advance,
      ensures_pure]
    refine ⟨fun _ ↦ trivial, fun hconstant ↦ ⟨fun _ ↦ trivial, fun hother ↦ ⟨?_, by simp, by simp⟩⟩⟩
    simp only [Bool.or_eq_true, decide_eq_true_eq, not_or, Decidable.not_not] at hother
    have htarget : Typed c.text names (.target .int) i (i + 1) := by
      have hplace := hwhole hother.1
      rw [Symbol.type_declared, hother.2] at hplace
      exact .target hplace (by simpa using hconstant)
    have hne : c.kindAt (i + 1) ≠ .eof := by rcases hsign with rfl | rfl <;> simp [hk]
    rw [State.position_movedTo, hi, Context.after_of_ne_eof hne]
    exact .countedAfter htarget (hsign.imp hk.trans hk.trans)
  unfold nameType
  split
  · exact (ensures_elementType_typed h hc hshows hname hvalue hi t).mono fun _ _ hplace ↦
      ⟨.read hplace.1, hplace.2⟩
  · rw [ensures_bind]
    refine (ensures_member_typed hshows hname hi t).mono fun m later hplace ↦ ?_
    simp only [ensures_bind, ensures_ite, ensures_pure]
    refine ⟨fun _ ↦ ⟨.read hplace.1, hplace.2⟩, fun _ ↦ ?_⟩
    exact ⟨.read hplace.1, hplace.2.1, hplace.2.2.trans ⟨rfl, rfl, rfl, rfl⟩⟩
  · exact hcount (by simpa using hafter) (.inl rfl)
  · exact hcount (by simpa using hafter) (.inr rfl)
  · simp only [ensures_bind, ensures_ite, ensures_pure, ensures_violateAt]
    refine ⟨fun _ ↦ trivial, fun harray ↦ ?_⟩
    have hread : Typed c.text names (.operand symbol.type) i (i + 1) := .read (hwhole harray)
    have hvoid : symbol.type ≠ .void := (hname.proper hshows.proper).type hvalue'
    exact ⟨fun _ ↦ ⟨hi ▸ hread, hvoid, .refl s⟩, fun _ ↦ ⟨hi ▸ hread, hvoid, rfl, rfl, rfl, rfl⟩⟩

theorem ensures_nameOperand_typed (hc : c.Closed) (hshows : c.Shows s names)
    (hkind : c.kindAt s.position = .identifier) (stop : Nat) {t : Token}
    (ht : t = c.tokenAt s.position) :
    Ensures (nameOperand operand stop t) c s (fun _ ↦ True) fun type after ↦
      TypedTo c names (.operand type) s after ∧ type ≠ .void := by
  have hfirst := Context.after_of_kindAt hkind (by simp)
  -- What follows is looked at only inside the expression.
  have hrest : ∀ {after : Kind}, after = .eof ∨ c.kindAt (s.position + 1) = after →
      Ensures (do
        if after = .leftParen then
          let type ← call operand
          if type = .void then violateAt (.voidInExpression t.lexeme) t
          return type
        else
          let symbol ← valueSymbol t
          discard advance
          nameType operand symbol t after) c s (fun _ ↦ True)
            fun type after ↦ TypedTo c names (.operand type) s after ∧ type ≠ .void := by
    intro after hafter
    simp only [ensures_ite, ensures_bind, ensures_violateAt, ensures_pure, ensures_discard,
      ensures_advance]
    refine ⟨fun hparen ↦ ?_, fun _ ↦ ?_⟩
    · subst hparen
      refine (ensures_call_typed h hc hshows (by simpa using hafter)).mono fun _ _ hcall ↦ ?_
      exact ⟨fun _ ↦ trivial, fun hvoid ↦ ⟨⟨.result hcall.typed, hcall.tables⟩, hvoid⟩⟩
    · refine (ensures_valueSymbol_typed t).mono ?_
      rintro symbol later ⟨hstay, hfound, hvalue⟩
      obtain rfl : s = later := hstay.symm
      rw [ht] at hfound
      rw [hfirst]
      refine (ensures_nameType_typed h hc (hshows.movedTo _) (hshows.nameAt hkind hfound) hvalue rfl
        hafter _).mono fun _ _ htype ↦ ?_
      exact ⟨⟨htype.1, SameTables.of_movedTo.1 htype.2.2⟩, htype.2.1⟩
  simp only [nameOperand, ensures_bind, ensures_here, ensures_ite, ensures_secondKind,
    ensures_pure]
  exact ⟨fun _ ↦ by simpa using hrest (.inr rfl), fun _ ↦ by simpa using hrest (.inl rfl)⟩

/-- An operand is given the type it has, given that what it contains is. -/
theorem ensures_operandWith_typed (hc : c.Closed) (hshows : c.Shows s names) (stop : Nat) :
    Ensures (operandWith operand stop) c s (fun _ ↦ True) fun type after ↦
      TypedTo c names (.operand type) s after ∧ type ≠ .void := by
  simp only [operandWith, ensures_bind, ensures_here, ensures_ite, ensures_violate, ensures_peek,
    hc.kind_tokenAt]
  refine ⟨fun _ ↦ trivial, fun _ ↦ ?_⟩
  cases hliteral : DataType.ofLiteral? (c.kindAt s.position) with
  | some type =>
    have hne : c.kindAt s.position ≠ .eof := fun hk ↦ by
      rw [hk] at hliteral
      cases hliteral
    have hvoid : type ≠ .void := by
      rintro rfl
      cases hk : c.kindAt s.position <;> rw [hk] at hliteral <;> cases hliteral
    simp only [ensures_bind, ensures_discard, ensures_advance, ensures_pure,
      Context.after_of_ne_eof hne]
    exact ⟨⟨.literal hliteral, by simp⟩, hvoid⟩
  | none =>
    -- Both signs count a target in the same way.
    have hcount : ∀ {k : Kind}, c.kindAt s.position = k → k = .increment ∨ k = .decrement →
        Ensures (do discard advance; requireInt (← target operand); return .int : Check DataType)
          c s (fun _ ↦ True) fun type after ↦ TypedTo c names (.operand type) s after ∧
            type ≠ .void := by
      intro k hk hsign
      have hne : c.kindAt s.position ≠ .eof := by rcases hsign with rfl | rfl <;> simp [hk]
      have htarget := ensures_countTarget_typed h hc (hshows.movedTo (s.position + 1))
      rw [ensures_bind] at htarget
      simp only [ensures_bind, ensures_discard, ensures_advance, ensures_pure,
        Context.after_of_ne_eof hne]
      refine htarget.mono fun t after ht ↦ ht.mono fun _ _ hafter ↦ ?_
      exact ⟨⟨.countedBefore (hsign.imp hk.trans hk.trans) hafter.typed,
        SameTables.of_movedTo.1 hafter.tables⟩, by simp⟩
    simp only
    split
    next hk =>
      have hcloser : (c.kindAt s.position).closer? = some .rightParen := by rw [hk]; rfl
      simp only [parenthesised, ensures_bind, ensures_here, ensures_ite, ensures_violate,
        ensures_discard, ensures_advance, ensures_pure]
      refine ensures_matchingClose_of hcloser fun close hclose hbound ↦ ⟨fun _ ↦ trivial, fun _ ↦ ?_⟩
      rw [Context.after_of_kindAt hk (by simp)]
      refine (ensures_inside_typed h hc (hshows.movedTo _) fun j hj ↦ hbound j hj.withCommas).mono ?_
      rintro type after ⟨hvalue, rfl⟩
      refine ⟨⟨?_, by simpa using hvalue.tables⟩, hvalue.typed.value_ne_void⟩
      rw [State.position_movedTo, Context.after_of_kindAt hclose (by simp)]
      exact .parenthesised hk hvalue.typed hclose
    next hk =>
      simp only [ensures_bind, ensures_discard, ensures_advance, ensures_ite, ensures_violateAt,
        ensures_pure]
      rw [Context.after_of_kindAt hk (by simp)]
      refine (h.typed hc (hshows.movedTo _) stop).mono ?_
      rintro found after ⟨hafter, -⟩
      refine ⟨fun _ ↦ trivial, fun hbool ↦ ⟨⟨?_, SameTables.of_movedTo.1 hafter.tables⟩, by simp⟩⟩
      obtain rfl : found = .bool := Decidable.not_not.1 hbool
      exact .negated hk hafter.typed
    next hk => exact hcount hk (.inl rfl)
    next hk => exact hcount hk (.inr rfl)
    next hk => exact ensures_nameOperand_typed h hc hshows hk stop rfl
    all_goals trivial

end

/-- Operands are given the types they have on every level. -/
theorem typesOperands_operand (levels : Nat) : TypesOperands (operand levels) := by
  induction levels with
  | zero =>
    refine ⟨takePhrases_operand 0, fun _ _ stop ↦ ?_⟩
    simp [operand, tooDeep]
  | succ levels ih =>
    exact ⟨takePhrases_operand (levels + 1), fun hc hshows ↦ ensures_operandWith_typed ih hc hshows⟩

/-- The expression up to a terminator has the type it is given. -/
theorem ensures_valueType_typed (hc : c.Closed) (hshows : c.Shows s names) (levels : Nat)
    {terminators : List Kind} (hterminators : ∀ k ∈ terminators, k.isPlain = false) :
    Ensures (valueType levels terminators) c s (fun _ ↦ True) fun type after ↦
      TypedTo c names (.value type) s after := by
  rw [valueType, ensures_bind]
  refine (ensures_expressionEnd hterminators).imp (fun _ _ ↦ trivial) ?_
  rintro stop after ⟨hstay, -⟩
  obtain rfl : s = after := hstay.symm
  exact ensures_expressionWith_typed (typesOperands_operand levels) hc hshows stop

end

end FrontEnd
