import FrontEnd.Proofs.Check.Attentive
import FrontEnd.Proofs.Check.CarefulExpression

/-!
# The walk over an expression is attentive

What an operand contains is a parameter, and `attentiveOperands_operand` is the induction on levels.
A name is looked up before what follows it is known, so each lemma about what follows a name is given
where the name was found (`Lookups.FindsAt`).

Of the indices behind the name of an array, the first bracket is used as it may be only if all of them
are in bounds; so what is known of it comes last (`secures_indices_used`).
-/

namespace FrontEnd

open Check

/-- Operands are typed and attentive. -/
structure AttentiveOperands (M : Lookups) (operand : Nat → Check DataType) : Prop where
  typed : TypesOperands operand
  attentive : ∀ stop, Attentive M (fun _ ↦ True) (operand stop)

/-- The walk from one state to the other went over an index with its brackets. -/
structure IndexRead (M : Lookups) (c : Context) (names : Names) (size : Dimension) (s after : State)
    (m : Nat) : Prop where
  value : Typed c.text names (.value .int) (s.position + 1) m
  closes : c.kindAt m = .rightBracket
  within : WithinSize c.text size (s.position + 1) m
  used : UsedTo M c.text (s.position + 1) (m + 1)
  last : after.position = m + 1
  tables : SameTables s after

/-- The walk from one state to the other went over indices, of which the first bracket remains to be
accounted for. -/
structure IndicesRead (M : Lookups) (c : Context) (names : Names) (sizes : List Dimension)
    (s after : State) : Prop where
  indexed : IndexedBy c.text names sizes s.position after.position
  used : (∀ b, s.position = b + 1 → c.kindAt b = .identifier → Access M c.text b) →
    UsedTo M c.text s.position after.position

section

variable {M : Lookups} {P : Kind → Prop} {c : Context} {s : State} {names : Names} {b stop floor : Nat}
  {symbol : Symbol}

theorem Operator.isBystander_of_ofKind? {k : Kind} {op : Operator} (h : Operator.ofKind? k = some op) :
    k.isBystander := by
  cases k <;> first | rfl | cases h

theorem DataType.isBystander_of_ofLiteral? {k : Kind} {type : DataType}
    (h : DataType.ofLiteral? k = some type) : k.isBystander := by
  cases k <;> first | rfl | cases h

/-- A literal index is accepted only within a literal size. -/
theorem ensures_checkLiteralIndex_within (index : Token) (size : Dimension) :
    Ensures (checkLiteralIndex index size) c s (fun _ ↦ True) fun _ after ↦ after = s ∧
      ∀ n, size = .literal n → index.kind = .intLit ∨ index.kind = .negIntLit →
        ∀ v, Text.integer? index.lexeme = some v → 0 ≤ v ∧ v < n := by
  unfold checkLiteralIndex
  cases size with
  | named name => exact ⟨rfl, fun n hn ↦ by cases hn⟩
  | literal size =>
    simp only [ensures_ite, Bool.or_eq_true, decide_eq_true_eq, ensures_pure]
    refine ⟨fun _ ↦ ?_, fun hother ↦ ⟨trivial, fun _ _ hliteral ↦ absurd hliteral hother⟩⟩
    cases hvalue : Text.integer? index.lexeme with
    | none => exact ⟨rfl, fun _ _ _ v hv ↦ by cases hv⟩
    | some value =>
      simp only [ensures_ite, ensures_violateAt, ensures_pure]
      refine ⟨fun _ ↦ trivial, fun hin ↦ ⟨trivial, fun n hn _ v hv ↦ ?_⟩⟩
      cases hn
      cases hv
      omega

/-! ### Chains -/

namespace Attentive

theorem operator? (stop floor : Nat) : Attentive M P (Check.operator? stop floor) := by
  intro c s hc _
  simp only [Check.operator?, secures_bind, secures_peek, hc.kind_tokenAt]
  split
  · exact (secures_pure _).2 (.refl M c.text _)
  next op hop =>
    have hpassed : UsedTo M c.text s.position (c.after s.position) :=
      .bystander (Operator.isBystander_of_ofKind? hop)
    simp only [secures_ite, secures_bind, secures_discard, secures_advance, secures_here,
      secures_peek, secures_violate, secures_violateAt, secures_pure]
    exact ⟨fun _ ↦ .refl M c.text _, fun _ ↦ ⟨fun _ ↦ trivial, fun _ ↦
      ⟨fun _ ↦ trivial, fun _ ↦ hpassed⟩⟩⟩

theorem chainRound {rightSide : Nat → Check DataType}
    (hright : ∀ n, Attentive M (fun _ ↦ True) (rightSide n)) (stop floor : Nat) (left : DataType) :
    Attentive M P (Check.chainRound rightSide stop floor left) := by
  refine (operator? stop floor).bind fun found ↦ ?_
  split
  · exact .pure _
  · exact (hright _).bind fun _ ↦ .after (.apply _ _ _ _) fun _ ↦ .pure _

section

variable {operand : Nat → Check DataType} (h : AttentiveOperands M operand)

include h

theorem chain (stop levels floor : Nat) : Attentive M P (Check.chain operand stop levels floor) := by
  have hstart : Attentive M P (operand stop) := (h.attentive stop).weaken fun _ _ ↦ trivial
  have hdue : Still (return (← Check.here) < stop : Check Bool) := Still.here.bind fun _ ↦ .pure _
  induction levels generalizing P floor with
  | zero =>
    exact hstart.bind fun _ ↦ roundsWhile hdue fun _ ↦
      chainRound (fun _ ↦ h.attentive stop) stop floor _
  | succ levels ih =>
    exact hstart.bind fun _ ↦ roundsWhile hdue fun _ ↦
      chainRound (fun n ↦ ih n (h.attentive stop)) stop floor _

theorem expressionWith (stop : Nat) : Attentive M P (Check.expressionWith operand stop) := by
  refine .after .here fun _ ↦ .guard (.violate (by simp)) ?_
  refine (chain h stop (Operator.maxPrecedence + 1) 0).bind fun type ↦ .after .here fun _ ↦ ?_
  refine .ite (.after .peek fun t ↦ ?_) (.pure type)
  exact .ite (.after (.violate (by simp)) fun _ ↦ .pure type)
    (.after (.violate (by simp)) fun _ ↦ .pure type)

end

end Attentive

section

variable {operand : Nat → Check DataType} (h : AttentiveOperands M operand)

include h

/-! ### Indices -/

theorem secures_oneIndex_used (hc : c.Closed) (hshows : c.Shows s names)
    (hopen : c.kindAt s.position = .leftBracket) (size : Dimension) :
    Secures M (oneIndex operand size) c s (fun _ ↦ True) fun _ after ↦
      ∃ m, IndexRead M c names size s after m := by
  have hcloser : (c.kindAt s.position).closer? = some .rightBracket := by rw [hopen]; rfl
  have hfirst := Context.after_of_kindAt hopen (by simp)
  simp only [oneIndex, secures_bind, secures_here]
  refine .of_ensures (ensures_matchingClose_of hcloser fun close hclose hbound ↦ ?_)
  simp only [secures_discard, secures_advance, secures_peek, secures_ite, secures_bind,
    secures_violateAt, hfirst, State.position_movedTo]
  have hindex (hwithin : WithinSize c.text size (s.position + 1) close) :
      Secures M (expressionWith operand close) c (s.movedTo (s.position + 1)) (fun _ ↦ True)
        fun found after ↦ found = .int →
          ∃ m, IndexRead M c names size s (after.movedTo (c.after after.position)) m := by
    refine ((Attentive.expressionWith h close (P := fun _ ↦ True)
      (s := s.movedTo (s.position + 1)) hc trivial).and (ensures_inside_typed h.typed hc
        (hshows.movedTo _) fun j hj ↦ hbound j hj.withCommas)).mono ?_
    rintro found after ⟨hused, hvalue, rfl⟩ rfl
    refine ⟨after.position, hvalue.typed, hclose, hwithin, hused.trans (.token hclose rfl), ?_, ?_⟩
    · exact Context.after_of_kindAt hclose (by simp)
    · simpa using hvalue.tables
  refine ⟨fun hone ↦ ?_, fun hlong ↦ ?_⟩
  · refine .of_ensures ((ensures_checkLiteralIndex_within _ size).mono ?_)
    rintro _ _ ⟨rfl, hwithin⟩
    rw [hc.kind_tokenAt] at hwithin
    refine (hindex fun n hn _ ↦ hwithin n hn).mono fun _ _ hafter ↦ ⟨fun _ ↦ trivial, fun hint ↦ ?_⟩
    exact hafter (Decidable.not_not.1 hint)
  · refine (hindex fun _ _ hone ↦ absurd hone hlong).mono fun _ _ hafter ↦
      ⟨fun _ ↦ trivial, fun hint ↦ hafter (Decidable.not_not.1 hint)⟩

theorem secures_indices_used {wrongCount : Check Unit} (hwrong : Refuses wrongCount) (hc : c.Closed)
    (hshows : c.Shows s names) (sizes : List Dimension) :
    Secures M (indices operand wrongCount sizes) c s (fun _ ↦ True) fun _ after ↦
      IndicesRead M c names sizes s after := by
  induction sizes generalizing s with
  | nil => exact (secures_pure ()).2 ⟨.nil, fun _ ↦ .refl M c.text _⟩
  | cons size sizes ih =>
    simp only [indices, secures_bind, secures_next?, secures_ite, beq_iff_eq]
    refine ⟨fun hopen ↦ ?_, fun _ ↦ ?_⟩
    · refine (secures_oneIndex_used h hc hshows hopen size).mono ?_
      rintro _ later ⟨m, hindex⟩
      refine (ih (hshows.of_tables hindex.tables)).mono fun _ after hrest ↦ ?_
      refine ⟨.cons hopen hindex.value hindex.closes hindex.within (hindex.last ▸ hrest.indexed),
        fun haccess ↦ ?_⟩
      have hbracket : Used M c.text s.position :=
        ⟨fun hname ↦ by simp [hopen] at hname, fun _ b hb hname ↦ .inr (haccess b hb hname)⟩
      -- what stands in front of the next bracket is a bracket and no name
      have hbehind : ∀ b, later.position = b + 1 → c.kindAt b = .identifier → Access M c.text b := by
        intro b hb hname
        obtain rfl : b = m := by
          have hlast := hindex.last
          omega
        simp [hindex.closes] at hname
      exact (UsedTo.one hbracket).trans (hindex.used.trans (hindex.last ▸ hrest.used hbehind))
    · exact .of_ensures ((hwrong c s).imp (fun _ _ ↦ trivial) fun _ _ h ↦ h.elim)

/-- Behind the name of an array stand indices in bounds. -/
theorem secures_elementType_used (hc : c.Closed) (hshows : c.Shows s names)
    (hfinds : M.FindsAt c.text b names symbol) (hb : s.position = b + 1)
    (hopen : c.kindAt s.position = .leftBracket) (t : Token) :
    Secures M (elementType operand symbol t) c s (fun _ ↦ True) fun _ after ↦
      Access M c.text b ∧ UsedTo M c.text s.position after.position := by
  unfold elementType
  split
  · exact (secures_violateAt _ _).2 trivial
  next sizes hsizes =>
    simp only [secures_bind, secures_next?, secures_ite, secures_violateAt, secures_pure, beq_iff_eq]
    refine (secures_indices_used h (.violateAt (by simp)) hc hshows sizes).mono fun _ after hread ↦
      ⟨fun _ ↦ trivial, fun hlast ↦ ?_⟩
    have haccess : Access M c.text b :=
      ⟨names, symbol, sizes, after.position, hfinds, hsizes, hb ▸ hopen, hb ▸ hread.indexed, hlast⟩
    refine ⟨haccess, hread.used fun b' hb' _ ↦ ?_⟩
    obtain rfl : b' = b := by omega
    exact haccess

end

/-! ### Members and targets -/

/-- A dot with the member behind it. -/
theorem UsedTo.member (hdot : c.kindAt b = .dot) (hname : c.kindAt (b + 1) = .identifier) :
    UsedTo M c.text b (b + 2) :=
  (UsedTo.token hdot rfl).trans (.name hname (.member rfl hdot))

/-- Behind the name of an instance stands a member. -/
theorem secures_member_used (hfinds : M.FindsAt c.text b names symbol) (hb : s.position = b + 1)
    (t : Token) :
    Secures M (member symbol t) c s (fun _ ↦ True) fun _ after ↦
      NameUse M c.text b ∧ UsedTo M c.text s.position after.position := by
  unfold member
  split
  next structName given hkind =>
    simp only [secures_bind, secures_discard, secures_expectMark, secures_expect]
    refine ⟨fun hdot ↦ ⟨fun hname ↦ ?_, fun _ ↦ trivial⟩, fun _ ↦ trivial⟩
    rw [State.position_movedTo, Context.after_of_kindAt hdot (by simp)] at hname
    have huse : NameUse M c.text b := .selected hfinds hkind (hb ▸ hdot)
    have hused : UsedTo M c.text s.position (c.after (c.after s.position)) := by
      rw [Context.after_of_kindAt hdot (by simp), Context.after_of_kindAt hname (by simp)]
      exact .member hdot hname
    refine secures_resolve.2 fun _ ↦ ?_
    split
    · split
      · exact (secures_pure _).2 ⟨huse, hused⟩
      · exact (secures_violateAt _ _).2 trivial
    · exact (secures_violateAt _ _).2 trivial
  · exact (secures_violateAt _ _).2 trivial

/-- A name that may be written to is looked up. -/
theorem secures_writable_used (t : Token) :
    Secures M (writable t) c s (fun _ ↦ True) fun symbol after ↦
      after = s ∧ M c s t.lexeme ∧ s.arena.lookup c.scope t.lexeme = some symbol := by
  simp only [writable, secures_bind, secures_resolve]
  intro hlooked
  split
  · exact (secures_violateAt _ _).2 trivial
  next symbol hfound =>
    simp only [secures_ite, secures_bind, secures_violateAt, secures_pure]
    exact ⟨fun _ ↦ trivial, fun _ ↦ ⟨fun _ ↦ trivial, fun _ ↦ ⟨trivial, hlooked, hfound⟩⟩⟩

theorem Attentive.target {operand : Nat → Check DataType} (h : AttentiveOperands M operand)
    (hM : M.Shown) : Attentive M P (Check.target operand) := by
  intro c s hc _
  simp only [Check.target, secures_bind, secures_expect, secures_peekKind]
  refine ⟨fun hname ↦ ?_, fun _ ↦ trivial⟩
  have hnext := Context.after_of_kindAt hname (by simp)
  refine (secures_writable_used _).mono ?_
  rintro symbol _ ⟨rfl, hlooked, hfound⟩
  have hshows := hM.shows hlooked
  have hfinds : M.FindsAt c.text s.position _ symbol :=
    ⟨c, _, hlooked, .inr hnext, rfl, hfound⟩
  have hread {later : State} (huse : NameUse M c.text s.position)
      (hused : UsedTo M c.text (s.position + 1) later.position) :
      UsedTo M c.text s.position later.position :=
    (UsedTo.name hname huse).trans hused
  rw [hnext] at hshows ⊢
  split
  next hopen =>
    rw [secures_bind]
    refine (secures_elementType_used h hc hshows hfinds rfl hopen _).mono fun _ later hlater ↦ ?_
    exact (secures_pure _).2 (hread (.element hlater.1) hlater.2)
  next hdot =>
    rw [secures_bind]
    refine (secures_member_used hfinds rfl _).mono fun _ later hlater ↦ ?_
    exact (secures_pure _).2 (hread hlater.1 hlater.2)
  next =>
    simp only [secures_ite, secures_bind, secures_violateAt, secures_pure]
    refine ⟨fun _ ↦ trivial, fun harray ↦ hread (.single hfinds ?_) (.refl M c.text _)⟩
    exact Option.not_isSome_iff_eq_none.1 harray

/-! ### Calls -/

/-- The name of a whole array is looked up. -/
theorem secures_wholeArray_used (hc : c.Closed) (close : Nat) :
    Secures M (wholeArray close) c s (fun _ ↦ True) fun whole after ↦ after = s ∧
      (whole = true → c.kindAt s.position = .identifier ∧
        ∃ names symbol, M.FindsAt c.text s.position names symbol ∧ symbol.isArray) := by
  simp only [wholeArray, secures_bind, secures_peek, secures_here, hc.kind_tokenAt, secures_ite,
    secures_resolve, secures_pure]
  refine ⟨fun hname hlooked ↦ ⟨trivial, fun harray ↦ ?_⟩, fun _ ↦ ⟨trivial, by simp⟩⟩
  refine ⟨of_decide_eq_true (Bool.and_eq_true_iff.1 hname).2, ?_⟩
  obtain ⟨symbol, hfound, hsymbol⟩ := (Option.any_eq_true _ _).1 harray
  exact ⟨_, symbol, ⟨c, s, hlooked, .inl rfl, rfl, hfound⟩, hsymbol⟩

/-- What is called is a function that was looked up or, if nothing is found, a built-in one. -/
theorem secures_callee_used (t : Token) :
    Secures M (callee t) c s (fun _ ↦ True) fun found after ↦ after = s ∧ M c s t.lexeme ∧
      (∀ info, found = .declared info → ∃ symbol, s.arena.lookup c.scope t.lexeme = some symbol ∧
        symbol.functionInfo? = some info) ∧
      ∀ b, found = .builtin b → s.arena.lookup c.scope t.lexeme = none ∧
        Builtin.ofName? t.lexeme = some b := by
  simp only [callee, secures_bind, secures_resolve]
  intro hlooked
  split
  next symbol hfound =>
    split
    next info hinfo =>
      refine (secures_pure _).2 ⟨rfl, hlooked, fun info' hinfo' ↦ ⟨symbol, hfound, ?_⟩,
        fun b hb ↦ ?_⟩
      · cases hinfo'
        exact hinfo
      · cases hb
    · exact (secures_violateAt _ _).2 trivial
  next hmissed =>
    split
    next b hbuiltin =>
      refine (secures_pure _).2 ⟨rfl, hlooked, fun info hinfo ↦ ?_, fun b' hb' ↦ ⟨hmissed, ?_⟩⟩
      · cases hinfo
      · cases hb'
        exact hbuiltin
    · exact (secures_violateAt _ _).2 trivial

section

variable {operand : Nat → Check DataType} (h : AttentiveOperands M operand)

include h

theorem Attentive.arguments (close : Nat) : Attentive M P (Check.arguments operand close) := by
  have hround (before : List Check.Argument) :
      Attentive M (fun _ ↦ True) (Check.argumentRound operand close before) :=
    .after .peek fun _ ↦ .after (.expressionEnd _) fun _ ↦ (expressionWith h _).bind fun _ ↦
      .after .here fun _ ↦ .ite (.pure _) <| (expect rfl _).discard.bind fun _ ↦ .pure _
  exact .after .here fun _ ↦ .ite (.pure _) (rounds hround)

/-- The rest of a call, with whatever is checked of its arguments. -/
theorem Attentive.callRest (close : Nat) {rest : List Check.Argument → Check DataType}
    (hrest : ∀ found, Still (rest found)) : Attentive M P (do
      let found ← Check.arguments operand close
      Functor.discard (Check.expectMark .rightParen)
      rest found) :=
  (arguments h close).bind fun found ↦ (mark rfl).bind fun _ ↦ of_still (hrest found)

theorem Attentive.declaredCall (info : FunctionInfo) (name : Token) (close : Nat) :
    Attentive M P (Check.declaredCall operand info name close) :=
  callRest h close fun _ ↦ (Still.checkArity _ _ _ _).bind fun _ ↦
    (Still.checkTypes _ _ _).bind fun _ ↦ .pure _

/-- The rest of a call of a built-in function behind its name and the opening parenthesis. -/
theorem secures_builtinCall_used (hc : c.Closed) {a : Nat} {builtin : Builtin}
    (hs : s.position = a + 2) (hcallee : c.kindAt a = .identifier)
    (hbuiltin : Builtin.ofName? (c.tokenAt a).lexeme = some builtin) (hmisses : M.MissesAt c.text a)
    (hopen : c.kindAt (a + 1) = .leftParen) (name : Token) (close : Nat) :
    Secures M (builtinCall operand builtin name close) c s (fun _ ↦ True) fun _ after ↦
      UsedTo M c.text s.position after.position := by
  simp only [Check.builtinCall, secures_bind]
  refine (secures_wholeArray_used hc close).mono ?_
  rintro whole _ ⟨rfl, hwhole⟩
  rw [secures_ite]
  refine ⟨fun hlen ↦ ?_, fun _ ↦ ?_⟩
  · obtain ⟨hlen, hwholly⟩ := Bool.and_eq_true_iff.1 hlen
    obtain ⟨hname, harray⟩ := hwhole hwholly
    obtain rfl : builtin = .len := of_decide_eq_true hlen
    simp only [secures_bind, secures_discard, secures_advance, secures_expectMark, secures_pure]
    rw [State.position_movedTo, Context.after_of_kindAt hname (by simp)]
    refine ⟨fun hclose ↦ ?_, fun _ ↦ trivial⟩
    rw [hs] at harray hclose hname ⊢
    have huse : NameUse M c.text (a + 2) :=
      .whole rfl ⟨hcallee, hbuiltin, hmisses, hopen, harray, hclose⟩
    exact (UsedTo.name hname huse).trans (.bystander (hclose ▸ rfl))
  · exact Attentive.callRest h close (P := fun _ ↦ True) (fun _ ↦
      (Still.checkArity _ _ _ _).bind fun _ ↦ (Still.checkTypes _ _ _).bind fun _ ↦ .pure _) hc trivial

/-- A name with an opening parenthesis behind it is called. -/
theorem secures_call_used (hc : c.Closed) (hopen : c.kindAt (s.position + 1) = .leftParen) :
    Secures M (call operand) c s (fun _ ↦ True) fun _ after ↦
      UsedTo M c.text s.position after.position := by
  simp only [call, secures_bind, secures_expect]
  refine ⟨fun hname ↦ ?_, fun _ ↦ trivial⟩
  have hnext := Context.after_of_kindAt hname (by simp)
  have hcloser : (c.kindAt (s.position + 1)).closer? = some .rightParen := by rw [hopen]; rfl
  have hfirst (hcallee : CalledName M c.text s.position) :
      UsedTo M c.text s.position (s.position + 2) :=
    (UsedTo.name hname (.called hopen hcallee)).trans (.token hopen rfl)
  rw [hnext]
  refine (secures_callee_used _).mono ?_
  rintro found _ ⟨rfl, hlooked, hdeclared, hbuiltin⟩
  rw [secures_here]
  refine .of_ensures (ensures_matchingClose_of hcloser fun close _ _ ↦ ?_)
  simp only [secures_discard, secures_advance]
  rw [State.position_movedTo, Context.after_of_kindAt hopen (by simp)]
  cases found with
  | declared info =>
    obtain ⟨symbol, hfound, hinfo⟩ := hdeclared info rfl
    have hcallee : CalledName M c.text s.position :=
      .declared ⟨c, _, hlooked, .inr rfl, rfl, hfound⟩ hinfo
    exact (Attentive.declaredCall h info _ close (P := fun _ ↦ True) hc trivial).mono
      fun _ _ hrest ↦ (hfirst hcallee).trans hrest
  | builtin b =>
    obtain ⟨hmissed, hnamed⟩ := hbuiltin b rfl
    have hmisses : M.MissesAt c.text s.position := ⟨c, _, hlooked, .inr rfl, hmissed⟩
    exact (secures_builtinCall_used h hc rfl hname hnamed hmisses hopen _ close).mono
      fun _ _ hrest ↦ (hfirst (.builtin hmisses hnamed)).trans hrest

/-! ### Operands -/

theorem Attentive.parenthesised (stop : Nat) :
    Attentive M (· = .leftParen) (Check.parenthesised operand stop) := by
  intro c s hc hparen
  have hcloser : (c.kindAt s.position).closer? = some .rightParen := by rw [hparen]; rfl
  have hfirst : UsedTo M c.text s.position (s.position + 1) := .token hparen rfl
  simp only [Check.parenthesised, secures_bind, secures_here]
  refine .of_ensures (ensures_matchingClose_of hcloser fun close hclose hbound ↦ ?_)
  simp only [secures_ite, secures_violate, secures_bind, secures_discard, secures_advance,
    secures_pure, Context.after_of_kindAt hparen (by decide : Kind.leftParen ≠ .eof)]
  refine ⟨fun _ ↦ trivial, fun _ ↦ ?_⟩
  refine ((expressionWith h close (P := fun _ ↦ True) (s := s.movedTo (s.position + 1)) hc trivial).and
    (ensures_expressionWith_bounded h.typed.phrase (fun _ ↦ hc.seesTo close) fun j hj ↦ hbound j hj.withCommas)).mono ?_
  rintro _ after ⟨hused, -, rfl⟩
  exact (hfirst.trans hused).trans (.bystander (hclose ▸ rfl))

/-- What may follow the name of an operand, given the kind of token there or that the expression
ends. -/
theorem secures_nameType_used (hc : c.Closed) (hshows : c.Shows s names)
    (hfinds : M.FindsAt c.text b names symbol) (hb : s.position = b + 1) {after : Kind}
    (hafter : after = .eof ∨ c.kindAt s.position = after) (t : Token) :
    Secures M (nameType operand symbol t after) c s (fun _ ↦ True) fun _ later ↦
      NameUse M c.text b ∧ UsedTo M c.text s.position later.position := by
  have hsingle (harray : ¬symbol.isArray) : NameUse M c.text b :=
    .single hfinds (Option.not_isSome_iff_eq_none.1 harray)
  have hcount (hcount : (c.kindAt s.position).isBystander) :
      Secures M (do
        if symbol.isConstant then violateAt (.constantReassignment symbol.name) t
        if symbol.isArray || symbol.type ≠ .int then violateAt (.countRequiresInt symbol.type) t
        discard advance
        return .int : Check DataType) c s (fun _ ↦ True) fun _ later ↦
          NameUse M c.text b ∧ UsedTo M c.text s.position later.position := by
    simp only [secures_bind, secures_ite, secures_violateAt, secures_discard, secures_advance,
      secures_pure, Bool.or_eq_true, not_or]
    exact ⟨fun _ ↦ trivial, fun _ ↦ ⟨fun _ ↦ trivial, fun hother ↦ ⟨hsingle hother.1,
      .bystander hcount⟩⟩⟩
  unfold nameType
  split
  · exact (secures_elementType_used h hc hshows hfinds hb (by simpa using hafter) t).mono
      fun _ _ hlater ↦ ⟨.element hlater.1, hlater.2⟩
  · rw [secures_bind]
    refine (secures_member_used hfinds hb t).mono fun m later hlater ↦ ?_
    refine .of_ensures ((Still.otherwise (.warn _ _) (.pure _) c later).imp (fun _ _ ↦ trivial)
      fun _ last hlast ↦ ?_)
    exact hlast ▸ hlater
  · exact hcount (by rw [hafter.resolve_left (by simp)]; rfl)
  · exact hcount (by rw [hafter.resolve_left (by simp)]; rfl)
  · rw [secures_ite, secures_bind, secures_violateAt]
    refine ⟨fun _ ↦ trivial, fun harray ↦ ?_⟩
    refine .of_ensures ((Still.otherwise (.warn _ _) (.pure _) c s).imp (fun _ _ ↦ trivial)
      fun _ last hlast ↦ ?_)
    exact ⟨hsingle harray, hlast ▸ .refl M c.text _⟩

variable (hM : M.Shown)

include hM

theorem secures_nameOperand_used (hc : c.Closed) (hname : c.kindAt s.position = .identifier)
    (stop : Nat) :
    Secures M (nameOperand operand stop (c.tokenAt s.position)) c s (fun _ ↦ True) fun _ after ↦
      UsedTo M c.text s.position after.position := by
  have hnext := Context.after_of_kindAt hname (by simp)
  -- What follows is looked at only inside the expression.
  have hrest {after : Kind} (hafter : after = .eof ∨ c.kindAt (s.position + 1) = after) :
      Secures M (do
        if after = .leftParen then
          let type ← call operand
          if type = .void then
            violateAt (.voidInExpression (c.tokenAt s.position).lexeme) (c.tokenAt s.position)
          return type
        else
          let symbol ← valueSymbol (c.tokenAt s.position)
          discard advance
          nameType operand symbol (c.tokenAt s.position) after) c s (fun _ ↦ True)
            fun _ after ↦ UsedTo M c.text s.position after.position := by
    rw [secures_ite]
    refine ⟨fun hparen ↦ ?_, fun _ ↦ ?_⟩
    · rw [secures_bind]
      refine (secures_call_used h hc (by simpa [hparen] using hafter)).mono fun type later hused ↦ ?_
      refine .of_ensures ((Still.guard (.violateAt (by simp)) (.pure _) c later).imp
        (fun _ _ ↦ trivial) fun _ last hlast ↦ ?_)
      exact hlast ▸ hused
    · simp only [secures_bind, secures_discard, secures_advance]
      refine (secures_valueSymbol _).imp (fun _ _ ↦ trivial) ?_
      rintro symbol _ ⟨rfl, hfinds⟩
      rw [hnext]
      exact (secures_nameType_used h hc ((hM.shows hfinds.looked).movedTo _)
        ⟨c, _, hfinds.looked, .inl rfl, rfl, hfinds.found⟩ rfl hafter _).mono fun _ _ hlater ↦
          (UsedTo.name hname hlater.1).trans hlater.2
  simp only [nameOperand, secures_bind, secures_here, secures_ite, secures_secondKind, secures_pure]
  exact ⟨fun _ ↦ by simpa only [secures_bind, secures_ite, secures_pure] using hrest (.inr rfl),
    fun _ ↦ by simpa only [secures_bind, secures_ite, secures_pure] using hrest (.inl rfl)⟩

/-- A count in front of a target. -/
theorem Attentive.count {rest : Target → Check Unit} (hrest : ∀ t, Still (rest t))
    (hcount : ∀ k, P k → k = .increment ∨ k = .decrement) : Attentive M P (do
      Functor.discard Check.advance
      rest (← Check.target operand)) := by
  refine (advance fun k hk ↦ ?_).discard.bind fun _ ↦ (target h hM).bind fun t ↦ of_still (hrest t)
  rcases hcount k hk with rfl | rfl <;> rfl

/-- An operand is attentive, given that what it contains is. -/
theorem Attentive.operandWith (stop : Nat) : Attentive M P (Check.operandWith operand stop) := by
  refine .after .here fun _ ↦ .guard (.violate (by simp)) ?_
  intro c s hc _
  rw [secures_bind, secures_peek, hc.kind_tokenAt]
  cases hliteral : DataType.ofLiteral? (c.kindAt s.position) with
  | some type =>
    simp only [secures_bind, secures_discard, secures_advance, secures_pure]
    exact .bystander (DataType.isBystander_of_ofLiteral? hliteral)
  | none =>
    have hcount (hcount : c.text.CountAt s.position) : Secures M (do
        Functor.discard Check.advance
        Check.requireInt (← Check.target operand)
        return .int : Check DataType) c s (fun _ ↦ True)
          fun _ after ↦ UsedTo M c.text s.position after.position := by
      have hboth := (Attentive.count h hM (P := fun k ↦ k = .increment ∨ k = .decrement)
        Still.requireInt fun _ hk ↦ hk).bind fun _ ↦ .pure (P := fun _ ↦ True) DataType.int
      simp only [bind_assoc] at hboth
      exact hboth hc hcount
    simp only
    split
    next hk => exact Attentive.parenthesised h stop hc hk
    next hk =>
      exact Attentive.bind (word rfl).discard (fun _ ↦ (h.attentive stop).bind fun _ ↦
        .guard (.violateAt (by simp)) (.pure _)) hc hk
    next hk => exact hcount (.inl hk)
    next hk => exact hcount (.inr hk)
    next hk => exact secures_nameOperand_used h hM hc hk stop
    all_goals exact Attentive.violate (P := fun _ ↦ True) (by simp) hc trivial

end

/-- Operands are attentive on every level. -/
theorem attentiveOperands_operand (hM : M.Shown) (levels : Nat) :
    AttentiveOperands M (operand levels) := by
  induction levels with
  | zero => exact ⟨typesOperands_operand 0, fun _ ↦ .of_still .tooDeep⟩
  | succ levels ih => exact ⟨typesOperands_operand (levels + 1), fun stop ↦ .operandWith ih hM stop⟩

theorem Attentive.valueType (hM : M.Shown) (levels : Nat) (terminators : List Kind) :
    Attentive M P (Check.valueType levels terminators) :=
  .after (.expressionEnd terminators) fun stop ↦
    expressionWith (attentiveOperands_operand hM levels) stop

end

end FrontEnd
