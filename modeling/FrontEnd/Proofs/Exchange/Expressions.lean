import FrontEnd.Proofs.Exchange.Sharing

/-!
# Expressions over a shared stretch

The checks of expressions over a stretch that two texts share follow each other: chains of operands, what
may follow a name, calls and operands.  One lemma for each of them, in the order of its text.  None of them
asks whether a name has a value, so what is only warned of makes no difference, and the second run stops
nowhere that the first one does not.

Where a check has looked ahead for a bracket or for the end of an expression, it also has to be shown that
it goes on to what it found (`Passage.Attains`).
-/

namespace FrontEnd

open Check

/-- Targets of the same assignment.  The one may have been given a value before and the other not. -/
structure Target.Agrees (a b : Target) : Prop where
  name : b.name = a.name
  type : b.type = a.type
  part : b.part = a.part
  token : b.token = a.token

/-- The same member behind an instance. -/
structure Check.Member.Agrees (a b : Member) : Prop where
  name : b.name = a.name
  type : b.type = a.type

/-- What the same call calls. -/
inductive Check.Callee.Agrees : Callee → Callee → Prop
  | declared {info info' : FunctionInfo} (returns : info'.returns = info.returns)
    (parameters : info'.parameters = info.parameters) : Agrees (.declared info) (.declared info')
  | builtin (b : Builtin) : Agrees (.builtin b) (.builtin b)

theorem Target.Agrees.refl (a : Target) : a.Agrees a :=
  ⟨rfl, rfl, rfl, rfl⟩

theorem Check.Member.Agrees.refl (a : Member) : a.Agrees a :=
  ⟨rfl, rfl⟩

theorem Check.Callee.Agrees.refl (a : Callee) : a.Agrees a := by
  cases a with
  | declared info => exact .declared rfl rfl
  | builtin b => exact .builtin b

variable {S : Stretch} {late : String → Prop}

/-- A search for the end of an expression that is at an end ends there. -/
theorem Context.eq_of_searchEnd {c : Context} {terminators : List Kind} {left i k : Nat}
    (hend : (c.kindAt i).isCloser ∨ c.kindAt i ∈ terminators ∧ (c.kindAt i).isOpener = false)
    (hfound : c.searchEnd terminators left i 0 = .found k) : k = i := by
  cases left with
  | zero => cases hfound
  | succ left =>
    have hopener : (c.kindAt i).isOpener = false := by
      refine hend.elim (fun hcloser ↦ ?_) And.right
      generalize c.kindAt i = kind at hcloser
      cases kind <;> first | rfl | cases hcloser
    simp only [Context.searchEnd, hopener, Bool.false_eq_true, if_false, if_true, true_and] at hfound
    rcases hend with hcloser | ⟨hterminator, -⟩
    · simp only [hcloser, if_true] at hfound
      split at hfound <;> exact (Search.found.inj hfound).symm
    · simp only [hterminator, if_true] at hfound
      split_ifs at hfound <;> exact (Search.found.inj hfound).symm

namespace Passage

variable {P : Passage}

/-- An expression goes on to its end. -/
theorem attains_expressionWith (operand : Nat → Check DataType) (stop : Nat) :
    P.Attains stop (Check.expressionWith operand stop) := by
  intro c s _ _
  simp only [Check.expressionWith, ensures_bind, ensures_here, ensures_ite, ensures_violate,
    ensures_peek, ensures_pure]
  refine ⟨fun _ ↦ trivial, fun _ ↦ (ensures_runs _ c s).mono fun _ after _ ↦ ?_⟩
  exact ⟨fun _ ↦ ⟨fun _ ↦ trivial, fun _ ↦ trivial⟩, fun hstop ↦ Nat.le_of_not_lt hstop⟩

/-- Arguments go on to the closing parenthesis. -/
theorem attains_arguments (operand : Nat → Check DataType) (close : Nat) :
    P.Attains close (Check.arguments operand close) := by
  intro c s _ _
  simp only [Check.arguments, ensures_bind, ensures_here, ensures_ite, ensures_pure]
  refine ⟨fun hempty ↦ Nat.le_of_eq hempty.symm, fun _ ↦ ?_⟩
  refine ensures_rounds (fun _ ↦ trivial) (I := fun _ _ ↦ True) trivial fun before after _ ↦ ?_
  simp only [Check.argumentRound, ensures_bind, ensures_peek]
  refine (ensures_runs _ c after).mono fun stop later _ ↦ (ensures_runs _ c later).mono
    fun type last _ ↦ ?_
  simp only [ensures_bind, ensures_here, ensures_ite, ensures_pure, ensures_discard, ensures_expect,
    afterRound_done, afterRound_yield]
  exact ⟨fun hend ↦ Nat.le_of_eq hend.symm, fun _ ↦ ⟨fun _ ↦ trivial, fun _ ↦ trivial⟩⟩

end Passage

namespace Passage.Follows

variable {t u : Token} {a b : Symbol} {stop stop' : Nat}

/-! ### Chains of operands -/

theorem apply (op : Operator) (t : Token) (left right : DataType) :
    S.Follows late Eq (Check.apply op t left right) (Check.apply op t left right) := by
  unfold Check.apply
  cases op.resultType left right with
  | none => exact violateAt
  | some result => exact same result

section

variable (hstop : (S.statements late).At stop stop')

include hstop

theorem operator? (floor : Nat) :
    S.Follows late Eq (Check.operator? stop floor) (Check.operator? stop' floor) := by
  refine peek.next fun t ↦ ?_
  split
  · exact same none
  · exact ite Iff.rfl (same none) <| advance.discard.next fun _ ↦ here fun i j hij ↦
      guard (hstop.le_iff hij).1 (quits_violateAt _ _) <| peek.next fun u ↦
        guard id (quits_violate _) (same _)

theorem chainRound {rightSide rightSide' : Nat → Check DataType}
    (hright : ∀ n, S.Follows late Eq (rightSide n) (rightSide' n)) (floor : Nat) (left : DataType) :
    S.Follows late (Retelling.Steps Eq) (Check.chainRound rightSide stop floor left)
      (Check.chainRound rightSide' stop' floor left) := by
  refine (operator? hstop floor).next fun found ↦ ?_
  cases found with
  | none => exact pure (.done rfl)
  | some found =>
    exact (hright _).next fun right ↦ (apply found.1 found.2 left right).next fun type ↦
      pure (.yield rfl)

end

section

variable {operand : Nat → Check DataType}
  (hoperand : ∀ i j, (S.statements late).At i j → S.Follows late Eq (operand i) (operand j))

include hoperand

section

variable (hstop : (S.statements late).At stop stop')

include hstop

theorem chain (levels floor : Nat) : S.Follows late Eq (Check.chain operand stop levels floor)
    (Check.chain operand stop' levels floor) := by
  have hdue : S.Follows late Eq (do return (← Check.here) < stop : Check Bool)
      (do return (← Check.here) < stop') :=
    here fun i j hij ↦ pure (decide_eq_decide.2 (hij.lt_iff hstop).symm)
  induction levels generalizing floor with
  | zero =>
    refine (hoperand _ _ hstop).next fun _ ↦ roundsWhile (fun _ ↦ rfl) hdue ?_ rfl
    rintro left _ rfl
    exact chainRound hstop (fun _ ↦ hoperand _ _ hstop) floor left
  | succ levels ih =>
    refine (hoperand _ _ hstop).next fun _ ↦ roundsWhile (fun _ ↦ rfl) hdue ?_ rfl
    rintro left _ rfl
    exact chainRound hstop ih floor left

theorem expressionWith : (S.statements late).FollowsTo stop Eq (Check.expressionWith operand stop)
    (Check.expressionWith operand stop') := by
  refine ⟨here fun i j hij ↦ guard (hstop.le_iff hij).1 (quits_violate _) <|
    (chain hoperand hstop _ 0).next fun type ↦ here fun k l hkl ↦ ite (hkl.lt_iff hstop) ?_ (same type),
    attains_expressionWith operand stop⟩
  exact peek.next fun t ↦ ite Iff.rfl (of_quits ((quits_violate _).bind _))
    (of_quits ((quits_violate _).bind _))

end

/-! ### Indices, members and targets -/

omit hoperand in
theorem checkLiteralIndex (t : Token) (size : Dimension) :
    S.Follows late Eq (Check.checkLiteralIndex t size) (Check.checkLiteralIndex t size) := by
  cases size with
  | named name => exact same ()
  | literal size =>
    refine ite Iff.rfl ?_ (same ())
    split
    · exact same ()
    · exact ite Iff.rfl violateAt (same ())

theorem oneIndex (size : Dimension) :
    S.Follows late Eq (Check.oneIndex operand size) (Check.oneIndex operand size) := by
  have hlast (found : DataType) (t : Token) : S.Follows late Eq
      (do
        if found ≠ .int then Check.violateAt (.indexType found) t
        Functor.discard Check.advance)
      (do
        if found ≠ .int then Check.violateAt (.indexType found) t
        Functor.discard Check.advance) :=
    guard id (quits_violateAt _ _) advance.discard
  have hrest {close close' : Nat} (hclose : (S.statements late).At close close') (t : Token) :=
    (expressionWith hoperand hclose).next fun found ↦ hlast found t
  exact here fun opening opening' hopening ↦ matchingClose hopening fun close close' hclose _ ↦
    .later advance.discard fun _ ↦ .later peek fun t ↦ .here fun i j hij ↦
      .ite (hclose.eq_iff hij.succ) (.later (checkLiteralIndex t size) fun _ ↦ hrest hclose t)
        (hrest hclose t)

theorem indices (wrong wrong' : Check Unit) (hwrong : Quits wrong) : ∀ sizes : List Dimension,
    S.Follows late Eq (Check.indices operand wrong sizes) (Check.indices operand wrong' sizes)
  | [] => same ()
  | size :: sizes =>
    (next? .leftBracket).next fun _ ↦ otherwise id hwrong <| (oneIndex hoperand size).next fun _ ↦
      indices wrong wrong' hwrong sizes

theorem elementType (h : a.Mirrors late b) (t : Token) :
    S.Follows late Eq (Check.elementType operand a t) (Check.elementType operand b t) := by
  unfold Check.elementType
  rw [h.array, h.type]
  cases a.array with
  | none => exact violateAt
  | some sizes =>
    exact (indices hoperand _ _ (quits_violateAt _ _) sizes).next fun _ ↦
      (next? .leftBracket).next fun _ ↦ guard id (quits_violateAt _ _) (same _)

omit hoperand in
theorem member (h : a.Mirrors late b) (t : Token) :
    S.Follows late Member.Agrees (Check.member a t) (Check.member b t) := by
  unfold Check.member
  have hkind := h.kind
  generalize a.kind = j, b.kind = k at hkind
  cases hkind with
  | structInstance structName members members' =>
    refine (expectMark .dot).discard.next fun _ ↦ (expect .identifier .memberName).next fun m ↦
      (resolve structName).bind rel_mirrors_refl fun found found' hfound ↦ ?_
    cases hfound with
    | none => exact violateAt
    | @some s s' hsymbol =>
      have hstruct := hsymbol.kind
      simp only [Option.map_some]
      generalize s.kind = j, s'.kind = k at hstruct
      cases hstruct with
      | struct ms =>
        dsimp only
        cases ms.find? _ with
        | none => exact violateAt
        | some found => exact pure ⟨rfl, rfl⟩
      | _ => exact violateAt
  | _ => exact violateAt

omit hoperand in
theorem writable (t : Token) :
    S.Follows late (Symbol.Mirrors late) (Check.writable t) (Check.writable t) := by
  refine (resolve t.lexeme).bind rel_mirrors_refl fun found found' hfound ↦ ?_
  cases hfound with
  | none => exact violateAt
  | some h =>
    exact guard (by rw [h.isValue_eq]; exact id) (quits_violateAt _ _) <|
      guard (by rw [h.isConstant_eq]; exact id) (quits_violateAt _ _) (pure h)

theorem target : (S.statements late).FollowsPast Target.Agrees (Check.target operand)
    (Check.target operand) := by
  refine FollowsPast.next (.expect .identifier .name) fun t ↦ (writable t).bind (Symbol.Mirrors.refl late)
    fun a b h ↦ peekKind.next fun after ↦ ?_
  split
  · exact (elementType hoperand h t).next fun _ ↦ pure ⟨h.name, rfl, rfl, rfl⟩
  · exact (member h t).bind Member.Agrees.refl fun m n hm ↦
      pure ⟨h.name, hm.type, congrArg Part.member hm.name, rfl⟩
  · exact guard (by rw [h.isArray_eq]; exact id) (quits_violateAt _ _)
      (pure ⟨h.name, h.type, rfl, rfl⟩)

omit hoperand in
theorem requireInt {t u : Target} (h : t.Agrees u) :
    S.Follows late Eq (Check.requireInt t) (Check.requireInt u) :=
  ite (by rw [h.type]) violateAt (same ())

omit hoperand in
theorem markInitialized {t u : Target} (h : t.Agrees u) :
    S.Follows late Eq (Check.markInitialized t) (Check.markInitialized u) := by
  unfold Check.markInitialized
  rw [h.name, h.part]
  cases t.part with
  | member name =>
    exact modifySymbol t.name (fun symbol ↦ (keepsBodies_withMember name symbol).1) (.withMember name)
  | whole => exact modifySymbol t.name (fun _ ↦ rfl) .withValue
  | element => exact modifySymbol t.name (fun _ ↦ rfl) .withValue

/-! ### Calls -/

omit hoperand in
theorem callee (t : Token) : S.Follows late Callee.Agrees (Check.callee t) (Check.callee t) := by
  refine (resolve t.lexeme).bind rel_mirrors_refl fun found found' hfound ↦ ?_
  cases hfound with
  | none =>
    dsimp only
    cases Builtin.ofName? t.lexeme with
    | none => exact violateAt
    | some b => exact pure (.builtin b)
  | @some s s' h =>
    have hkind := h.kind
    unfold Symbol.functionInfo?
    dsimp only
    generalize s.kind = j, s'.kind = k at hkind
    cases hkind with
    | function returns parameters => exact pure (.declared returns parameters)
    | _ => exact violateAt

omit hoperand in
theorem checkArity (t : Token) (function : String) (expected found : Nat) :
    S.Follows late Eq (Check.checkArity t function expected found)
      (Check.checkArity t function expected found) :=
  ite Iff.rfl violateAt (same ())

omit hoperand in
theorem checkTypes : ∀ (index : Nat) (found : List Argument) (parameters : List DataType),
    S.Follows late Eq (Check.checkTypes index found parameters)
      (Check.checkTypes index found parameters)
  | _, [], _ => same ()
  | _, _ :: _, [] => same ()
  | index, _ :: found, _ :: parameters =>
    guard id (quits_violateAt _ _) (checkTypes (index + 1) found parameters)

omit hoperand in
theorem wholeArray {close close' : Nat} (hclose : (S.statements late).At close close') :
    S.Follows late Eq (Check.wholeArray close) (Check.wholeArray close') := by
  refine peek.next fun t ↦ here fun i j hij ↦ ite ?_ ?_ (same false)
  · simp only [Bool.and_eq_true, decide_eq_true_iff, hclose.eq_iff hij.succ]
  · refine (resolve t.lexeme).bind rel_mirrors_refl fun found found' hfound ↦ pure ?_
    cases hfound with
    | none => rfl
    | some h => exact h.isArray_eq.symm

section

variable {close close' : Nat} (hclose : (S.statements late).At close close')
  (hcloser : (S.kindAt close).isCloser) (hphrase : TakePhrases operand)

include hclose hcloser hphrase

theorem argumentRound (before : List Argument) : S.Follows late (Retelling.Steps Eq)
    (Check.argumentRound operand close before) (Check.argumentRound operand close' before) := by
  refine peek.next fun first ↦ expressionEnd [.comma] (fun i j hij ↦ ?_) fun {c s i} hc hlast _ hfound ↦ ?_
  · exact (expressionWith hoperand (hij.min hclose)).follows.next fun type ↦ here fun k l hkl ↦
      ite (hkl.eq_iff hclose) (pure (.done rfl)) <|
        (expect .comma _).discard.next fun _ ↦ pure (.yield rfl)
  · -- what the expression has taken in is passed over by the search, so it ended right behind it
    have hclosed : c.Closed := by rw [Context.Closed, hlast]; exact S.closed
    rw [ensures_bind]
    refine (ensures_expressionWith hphrase fun _ ↦ hclosed.seesTo _).imp (fun _ _ ↦ trivial) ?_
    rintro type after ⟨htook, -⟩
    simp only [ensures_bind, ensures_here, ensures_ite, ensures_pure, ensures_discard,
      ensures_expect]
    obtain ⟨rest, hrest⟩ := (htook.phrase.goesOn_searchEnd (by simp [Kind.isPlain])
      (by simp)).exists_found hfound
    refine ⟨fun hend ↦ ?_, fun _ ↦ ⟨fun hcomma ↦ ?_, fun _ ↦ trivial⟩⟩
    · have hend : after.position = close := hend
      have hkind : S.kindAt close = c.kindAt close := by
        rw [Context.kindAt, hc]
        rfl
      exact Nat.le_of_eq (Context.eq_of_searchEnd (.inl (by rwa [hend, ← hkind])) hrest)
    · have hcomma : c.kindAt after.position = .comma := hcomma
      rw [Context.eq_of_searchEnd (.inr (by simp [hcomma, Kind.isOpener, Kind.closer?])) hrest]
      exact c.le_after _

theorem arguments : (S.statements late).FollowsTo close Eq (Check.arguments operand close)
    (Check.arguments operand close') := by
  refine ⟨here fun i j hij ↦ ite (hij.eq_iff hclose) (same []) (rounds (fun _ ↦ rfl) ?_ rfl),
    attains_arguments operand close⟩
  rintro before _ rfl
  exact argumentRound hoperand hclose hcloser hphrase before

theorem declaredCall {info info' : FunctionInfo} (hreturns : info'.returns = info.returns)
    (hparameters : info'.parameters = info.parameters) (t : Token) :
    (S.statements late).FollowsTo close Eq (Check.declaredCall operand info t close)
      (Check.declaredCall operand info' t close') := by
  unfold Check.declaredCall
  rw [hreturns, hparameters]
  exact (arguments hoperand hclose hcloser hphrase).next fun found ↦
    (expectMark .rightParen).discard.next fun _ ↦ (checkArity t _ _ _).next fun _ ↦
      (checkTypes 1 found _).next fun _ ↦ same _

theorem builtinCall (b : Builtin) (t : Token) :
    (S.statements late).FollowsTo close Eq (Check.builtinCall operand b t close)
      (Check.builtinCall operand b t close') := by
  have hfound := arguments hoperand hclose hcloser hphrase
  have harguments (types : List DataType) := hfound.next fun found ↦
    (expectMark .rightParen).discard.next fun _ ↦
      (checkArity t b.name b.arity found.length).next fun _ ↦
        (checkTypes 1 found types).next fun _ ↦ same b.returns
  refine ⟨(wholeArray hclose).next fun whole ↦ ite Iff.rfl ?_ (harguments _).follows, fun c s hc hs ↦ ?_⟩
  · exact advance.discard.next fun _ ↦ (expectMark .rightParen).discard.next fun _ ↦ same b.returns
  · simp only [Check.builtinCall, ensures_bind]
    refine (ensures_wholeArray close).imp (fun _ _ ↦ trivial) ?_
    rintro whole start ⟨rfl, hwhole⟩
    rw [ensures_ite]
    refine ⟨fun hlen ↦ ?_, fun _ ↦ (harguments _).attains c _ hc hs⟩
    obtain ⟨rfl, -⟩ := hwhole (Bool.and_eq_true_iff.1 hlen).2
    simp only [ensures_bind, ensures_discard, ensures_advance, ensures_expectMark, ensures_pure]
    refine ⟨fun hparen ↦ ?_, fun _ ↦ trivial⟩
    have hparen : c.kindAt (c.after start.position) = .rightParen := hparen
    have hlt := Nat.lt_of_le_of_lt (c.le_after start.position)
      (Context.lt_size_of_ne_eof (by rw [hparen]; decide))
    exact Nat.le_trans (Nat.le_of_eq (if_pos hlt).symm) (c.le_after _)

end

section

variable (hphrase : TakePhrases operand)

include hphrase

theorem call :
    (S.statements late).FollowsPast Eq (Check.call operand) (Check.call operand) := by
  refine FollowsPast.next (.expect .identifier .functionName) fun t ↦ (callee t).bind Callee.Agrees.refl
    fun callee callee' hcallee ↦ here fun opening opening' hopening ↦
      matchingClose hopening fun close close' hclose hcloser ↦ .later advance.discard fun _ ↦ ?_
  cases hcallee with
  | declared returns parameters =>
    exact declaredCall hoperand hclose hcloser hphrase returns parameters t
  | builtin b => exact builtinCall hoperand hclose hcloser hphrase b t

/-! ### Operands -/

omit hoperand hphrase in
theorem valueSymbol (t : Token) :
    S.Follows late (Symbol.Mirrors late) (Check.valueSymbol t) (Check.valueSymbol t) := by
  refine (resolve t.lexeme).bind rel_mirrors_refl fun found found' hfound ↦ ?_
  cases hfound with
  | none => exact ite Iff.rfl violateAt violateAt
  | @some s s' h =>
    have hkind := h.kind
    dsimp only
    generalize s.kind = j, s'.kind = k at hkind
    cases hkind with
    | function => exact violateAt
    | struct => exact violateAt
    | _ => exact pure h

omit hphrase in
theorem nameType (h : a.Mirrors late b) (t : Token) (after : Kind) :
    S.Follows late Eq (Check.nameType operand a t after) (Check.nameType operand b t after) := by
  have hcount : S.Follows late Eq
      (do
        if a.isConstant then Check.violateAt (.constantReassignment a.name) t
        if a.isArray || a.type ≠ .int then Check.violateAt (.countRequiresInt a.type) t
        Functor.discard Check.advance
        return DataType.int)
      (do
        if b.isConstant then Check.violateAt (.constantReassignment b.name) t
        if b.isArray || b.type ≠ .int then Check.violateAt (.countRequiresInt b.type) t
        Functor.discard Check.advance
        return DataType.int) :=
    guard (by rw [h.isConstant_eq]; exact id) (quits_violateAt _ _) <|
      guard (by rw [h.isArray_eq, h.type]; exact id) (quits_violateAt _ _) <|
        advance.discard.next fun _ ↦ same _
  unfold Check.nameType
  split
  · exact elementType hoperand h t
  · exact (member h t).bind Member.Agrees.refl fun m n hm ↦ warned (pure hm.type.symm)
  · exact hcount
  · exact hcount
  · exact guard (by rw [h.isArray_eq]; exact id) (quits_violateAt _ _) (warned (pure h.type.symm))

theorem nameOperand (hstop : (S.statements late).At stop stop') (t : Token) :
    S.Follows late Eq (Check.nameOperand operand stop t) (Check.nameOperand operand stop' t) := by
  have hafter (after : Kind) : (S.statements late).FollowsPast Eq
      (do
        if after = .leftParen then
          let type ← Check.call operand
          if type = .void then Check.violateAt (.voidInExpression t.lexeme) t
          return type
        else
          let symbol ← Check.valueSymbol t
          Functor.discard Check.advance
          Check.nameType operand symbol t after)
      (do
        if after = .leftParen then
          let type ← Check.call operand
          if type = .void then Check.violateAt (.voidInExpression t.lexeme) t
          return type
        else
          let symbol ← Check.valueSymbol t
          Functor.discard Check.advance
          Check.nameType operand symbol t after) := by
    refine .ite Iff.rfl ((call hoperand hphrase).next fun type ↦ ?_) ?_
    · exact guard id (quits_violateAt _ _) (same type)
    · exact .later (valueSymbol t) (Symbol.Mirrors.refl late) fun _ _ h ↦
        FollowsPast.advance.discard.next fun _ ↦ nameType hoperand h t after
  exact here fun i j hij ↦ ite (hij.succ.lt_iff hstop) (secondKind hafter)
    ((same _).next fun after ↦ (hafter after).follows)

omit hphrase in
theorem parenthesised (hstop : (S.statements late).At stop stop') :
    S.Follows late Eq (Check.parenthesised operand stop) (Check.parenthesised operand stop') :=
  here fun _ _ hopening ↦ matchingClose hopening fun _ _ hclose _ ↦
    .guard (hstop.le_iff hclose).1 (quits_violate _) <| .later advance.discard fun _ ↦
      (expressionWith hoperand hclose).next fun type ↦ advance.discard.next fun _ ↦ same type

theorem operandWith (hstop : (S.statements late).At stop stop') :
    S.Follows late Eq (Check.operandWith operand stop) (Check.operandWith operand stop') := by
  refine here fun i j hij ↦ guard (hstop.le_iff hij).1 (quits_violate _) <| peek.next fun t ↦ ?_
  have hcount : S.Follows late Eq
      (do
        Functor.discard Check.advance
        Check.requireInt (← Check.target operand)
        return DataType.int)
      (do
        Functor.discard Check.advance
        Check.requireInt (← Check.target operand)
        return DataType.int) :=
    advance.discard.next fun _ ↦ (target hoperand).follows.bind Target.Agrees.refl fun _ _ h ↦
      (requireInt h).next fun _ ↦ same _
  split
  · exact advance.discard.next fun _ ↦ same _
  split
  · exact parenthesised hoperand hstop
  · exact advance.discard.next fun _ ↦ (hoperand _ _ hstop).next fun found ↦
      guard id (quits_violateAt _ _) (same _)
  · exact hcount
  · exact hcount
  · exact nameOperand hoperand hphrase hstop t
  · exact violate
  · exact violate
  · exact violate

end

end

theorem tooDeep {α : Type} {rel : α → α → Prop} :
    S.Follows late rel Check.tooDeep Check.tooDeep :=
  limits fun _ _ _ ↦ violate

theorem operand (levels : Nat) (hstop : (S.statements late).At stop stop') :
    S.Follows late Eq (Check.operand levels stop) (Check.operand levels stop') := by
  induction levels generalizing stop stop' with
  | zero => exact tooDeep
  | succ levels ih => exact operandWith (fun _ _ ↦ ih) (takePhrases_operand levels) hstop

theorem expressionType (levels : Nat) (hstop : (S.statements late).At stop stop') :
    (S.statements late).FollowsTo stop Eq (Check.expressionType levels stop)
      (Check.expressionType levels stop') :=
  expressionWith (fun _ _ ↦ operand levels) hstop

theorem valueType (levels : Nat) (terminators : List Kind) :
    S.Follows late Eq (Check.valueType levels terminators) (Check.valueType levels terminators) :=
  expressionEnd terminators (fun _ _ hstop ↦ (expressionType levels hstop).follows)
    fun {c s i} hc _ hs _ ↦
      attains_expressionWith (Check.operand levels) i c s hc hs

end Passage.Follows

end FrontEnd
