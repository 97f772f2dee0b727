import FrontEnd.Proofs.Lexical.Abreast

/-!
# Expressions resolve names as a reader does

Nothing is declared in an expression, so the walk over it stays abreast of a reader who is in the middle
of a statement, and each name in it is looked up there.  What the walk passed is answered for
(`Looked`): a name that is not found stops it, unless it is that of a built-in function that is called.

That what is taken in is a phrase is known from the walk itself, and a reader sees the same behind a phrase
as in front of it.  What operands contain is a parameter (`ResolveOperands`).
-/

namespace FrontEnd

open Check

/-- A walk from one state to the other declared nothing, and answered for the names it passed. -/
abbrev Looked (v : View) (commas : Bool) : Context → State → State → Prop :=
  Arrives (Sees v commas)

/-- A check that resolves names where nothing is declared. -/
def ResolvesNames {α : Type} (c : Context) (x : Check α) : Prop :=
  ∀ ⦃v s⦄, Sees v false c s → Resolves x c s fun _ after ↦ Looked v false c s after

/-- Operands that resolve names. -/
structure ResolveOperands (c : Context) (operand : Nat → Check DataType) : Prop where
  closed : c.Closed
  take : TakePhrases operand
  resolve : ∀ stop, ResolvesNames c (operand stop)

section

variable {α : Type} {x : Check α} {c : Context} {s after : State} {v : View} {commas : Bool} {i : Nat}

namespace Looked

theorem took (hs : Sees v commas c s) (h : Took commas c s after)
    (hanswered : AnsweredTo c s.position after.position) : Looked v commas c s after :=
  ⟨hanswered, hs.took h⟩

/-- A token of an expression that is no name. -/
theorem step (hs : Sees v commas c s) {k : Kind} (hk : c.kindAt s.position = k) (hplain : k.isPlain)
    (hname : k ≠ .identifier) : Looked v commas c s (s.movedTo (c.after s.position)) :=
  .took hs (.step hk hplain) (.token hk hname)

/-- A name that is declared. -/
theorem name (hs : Sees v commas c s) (hk : c.kindAt s.position = .identifier)
    (hanswered : c.Answered s.position) : Looked v commas c s (s.movedTo (c.after s.position)) :=
  .took hs (.step hk rfl) (.one fun _ ↦ hanswered)

theorem comma (hs : Sees v true c s) (hk : c.kindAt s.position = .comma) :
    Looked v true c s (s.movedTo (c.after s.position)) :=
  .took hs ((Took.refl true c s).comma hk) (.token hk (by decide))

/-- A bracket that opens, what stands inside, and the bracket that closes it. -/
theorem brackets (hs : Sees v commas c s) {closing : Kind}
    (hopening : (c.kindAt s.position).closer? = some closing)
    (h : AnsweredTo c (c.after s.position) after.position)
    (hclosing : c.kindAt after.position = closing)
    (htook : Took commas c s (after.movedTo (c.after after.position))) :
    Looked v commas c s (after.movedTo (c.after after.position)) := by
  have hsorts : c.kindAt s.position ≠ .identifier ∧ closing ≠ .identifier := by
    rcases Kind.closer?_eq_some hopening with ⟨h, rfl⟩ | ⟨h, rfl⟩ | ⟨h, rfl⟩ <;> rw [h] <;> decide
  exact .took hs htook (((AnsweredTo.token rfl hsorts.1).trans h).trans (.token hclosing hsorts.2))

end Looked

/-- A check that takes in a phrase and answers for its names. -/
theorem Upholds.looked {E : SemanticError → Prop} (hs : Sees v commas c s)
    (h : Resolves x c s fun _ after ↦ AnsweredTo c s.position after.position)
    (htook : Ensures x c s E fun _ after ↦ Took commas c s after) :
    Resolves x c s fun _ after ↦ Looked v commas c s after :=
  (h.and htook).mono fun _ _ h ↦ .took hs h.2 h.1

theorem resolves_warn (hs : Sees v commas c s) (name : String) (t : Token) :
    Resolves (warn name t) c s fun _ after ↦ Looked v commas c s after :=
  (upholds_modify _).2 ⟨.refl c _, hs.of_view_eq rfl rfl⟩

/-! ### Chains -/

theorem resolves_operator? {stop floor : Nat} (hc : c.Closed) (hs : Sees v false c s)
    (hlt : s.position < stop) :
    Resolves (operator? stop floor) c s fun _ after ↦ Looked v false c s after := by
  have htook : Ensures (operator? stop floor) c s Unlost fun _ after ↦ Took false c s after :=
    ensures_operator? (hc.seesTo stop) hlt
  refine .looked hs ?_ htook
  simp only [operator?, upholds_bind, upholds_peek, hc.kind_tokenAt]
  split
  · exact upholds_pure.2 (.refl c _)
  next op hop =>
    have hname : c.kindAt s.position ≠ .identifier := fun hk ↦ by rw [hk] at hop; cases hop
    have hpassed : AnsweredTo c s.position (c.after s.position) := .token rfl hname
    simp [hpassed, AnsweredTo.refl]

theorem calm_apply (op : Operator) (t : Token) (left right : DataType) :
    Calm (apply op t left right) := by
  unfold apply
  split
  · exact .pure _
  · exact .violateAt rfl _

theorem resolves_chainRound {rightSide : Nat → Check DataType} {stop floor : Nat} {left : DataType}
    (hc : c.Closed) (h : ∀ floor, ResolvesNames c (rightSide floor)) (hs : Sees v false c s)
    (hlt : s.position < stop) :
    Resolves (chainRound rightSide stop floor left) c s fun _ after ↦ Looked v false c s after := by
  simp only [chainRound, upholds_bind]
  refine (resolves_operator? hc hs hlt).mono fun found after hfound ↦ ?_
  split
  · exact upholds_pure.2 hfound
  next op t =>
    simp only [upholds_bind, upholds_pure]
    refine (h _ hfound.there).mono fun right later hright ↦ ?_
    refine ((calm_apply op t left right).resolves ensures_apply).mono ?_
    rintro _ _ ⟨rfl, -⟩
    exact hfound.trans hright

section

variable {operand : Nat → Check DataType} (h : ResolveOperands c operand)

include h

theorem resolvesNames_chain (stop levels floor : Nat) :
    ResolvesNames c (chain operand stop levels floor) := by
  have hrounds : ∀ {rightSide : Nat → Check DataType}, (∀ floor, ResolvesNames c (rightSide floor)) →
      ∀ floor, ResolvesNames c (operand stop >>=
        roundsWhile (return (← here) < stop) (chainRound rightSide stop floor)) := by
    intro rightSide hright floor v s hs
    refine (upholds_bind _).2 ?_
    refine (h.resolve stop hs).mono fun value after hvalue ↦ ?_
    refine upholds_roundsWhile (I := fun _ later ↦ Looked v false c s later) (by simp) hvalue ?_
    intro left later hlater
    simp only [upholds_bind, upholds_here, upholds_pure, decide_eq_true_eq]
    refine ⟨fun hlt ↦ ?_, fun _ ↦ hlater⟩
    refine (resolves_chainRound h.closed hright hlater.there hlt).mono fun r last hlast ↦ ?_
    cases r <;> exact hlater.trans hlast
  induction levels generalizing floor with
  | zero => exact hrounds (fun _ ↦ h.resolve stop) floor
  | succ levels ih => exact hrounds ih floor

/-- The walk over an expression ends where it was to end. -/
theorem resolves_expressionWith (hs : Sees v false c s) {stop : Nat}
    (hstop : Bounds c.kindAt s.position stop) :
    Resolves (expressionWith operand stop) c s fun _ after ↦
      Looked v false c s after ∧ after.position = stop := by
  have hwalk : Resolves (expressionWith operand stop) c s fun _ after ↦ Looked v false c s after := by
    simp only [expressionWith, upholds_bind, upholds_here, upholds_ite, upholds_violate, upholds_peek,
      upholds_pure]
    refine ⟨fun _ ↦ by simp, fun _ ↦ ?_⟩
    exact (resolvesNames_chain h stop _ 0 hs).mono fun type after hafter ↦
      ⟨fun _ ↦ by simp, fun _ ↦ hafter⟩
  exact (hwalk.and (ensures_expressionWith_bounded h.take (fun _ ↦ h.closed.seesTo stop) hstop)).mono
    fun _ _ hafter ↦ ⟨hafter.1, hafter.2.2⟩

/-- A bracket, the expression inside and the closing bracket. -/
theorem resolves_inside (hs : Sees v commas c s) {close : Nat} {closing : Kind}
    (hopening : (c.kindAt s.position).closer? = some closing)
    (hbrace : c.kindAt s.position ≠ .leftBrace) (hclose : c.kindAt close = closing)
    (hbound : ∀ j, Phrase c.kindAt true (s.position + 1) j → j ≤ close) :
    Resolves (expressionWith operand close) c (s.movedTo (c.after s.position)) fun _ after ↦
      Looked v commas c s (after.movedTo (c.after after.position)) := by
  have hafter := Context.after_of_ne_eof (Kind.closer?_ne_eof hopening).1
  have hbounds : Bounds c.kindAt (s.movedTo (c.after s.position)).position close := by
    rw [State.position_movedTo, hafter]
    exact fun j hj ↦ hbound j hj.withCommas
  refine ((resolves_expressionWith h (hs.opened hopening hbrace).withoutCommas hbounds).and
    (ensures_expressionWith_bounded h.take (fun _ ↦ h.closed.seesTo close) hbounds)).mono ?_
  rintro _ after ⟨⟨hlooked, rfl⟩, htook, -⟩
  exact .brackets hs hopening hlooked.answered hclose (.brackets hopening hbrace htook.withCommas hclose)

/-! ### Elements, members and targets -/

end

theorem calm_checkLiteralIndex (index : Token) (size : Dimension) :
    Calm (checkLiteralIndex index size) := by
  unfold checkLiteralIndex
  split
  · exact .pure _
  · refine .ite ?_ (.pure _)
    split
    · exact .pure _
    · exact .ite (.violateAt rfl _) (.pure _)

theorem calm_requireInt (t : Target) : Calm (requireInt t) :=
  .ite (.violateAt rfl _) (.pure _)

section

variable {operand : Nat → Check DataType} (h : ResolveOperands c operand)

include h

theorem resolves_oneIndex (hs : Sees v commas c s) (hopen : c.kindAt s.position = .leftBracket)
    (size : Dimension) :
    Resolves (oneIndex operand size) c s fun _ after ↦ Looked v commas c s after := by
  have hcloser : (c.kindAt s.position).closer? = some .rightBracket := by rw [hopen]; rfl
  simp only [oneIndex, upholds_bind, upholds_here]
  refine ((Calm.matchingClose _).resolves (ensures_matchingClose hcloser)).mono ?_
  rintro close _ ⟨rfl, hclose, hbound⟩
  simp only [upholds_discard, upholds_advance, upholds_peek, upholds_ite, upholds_bind,
    upholds_violateAt]
  have hindex := resolves_inside h hs hcloser (by simp [hopen]) hclose hbound
  constructor
  · intro _
    refine ((calm_checkLiteralIndex _ size).resolves (ensures_checkLiteralIndex _ size)).mono ?_
    rintro _ _ rfl
    exact hindex.mono fun _ _ hafter ↦ ⟨fun _ ↦ by simp, fun _ ↦ hafter⟩
  · intro _
    exact hindex.mono fun _ _ hafter ↦ ⟨fun _ ↦ by simp, fun _ ↦ hafter⟩

theorem resolvesNames_indices {wrongCount : Check Unit}
    (hwrong : ∀ s, Resolves wrongCount c s fun _ _ ↦ False) (sizes : List Dimension) :
    ResolvesNames c (indices operand wrongCount sizes) := by
  induction sizes with
  | nil => exact fun v s hs ↦ upholds_pure.2 (.refl hs)
  | cons size sizes ih =>
    intro v s hs
    simp only [indices, upholds_bind, upholds_next?, upholds_ite, beq_iff_eq]
    refine ⟨fun hopen ↦ ?_, fun hother ↦ ?_⟩
    · refine (resolves_oneIndex h hs hopen size).mono fun _ after hafter ↦ ?_
      exact (ih hafter.there).mono fun _ later hlater ↦ hafter.trans hlater
    · exact (hwrong s).mono fun _ _ hfalse ↦ hfalse.elim

theorem resolvesNames_elementType (symbol : Symbol) (name : Token) :
    ResolvesNames c (elementType operand symbol name) := by
  intro v s hs
  unfold elementType
  split
  · simp
  next sizes _ =>
    simp only [upholds_bind, upholds_next?, upholds_ite, upholds_pure]
    refine (resolvesNames_indices h (fun s ↦ by simp) sizes hs).mono fun _ after hafter ↦ ?_
    exact ⟨fun _ ↦ by simp, fun _ ↦ hafter⟩

end

theorem resolvesNames_member (symbol : Symbol) (name : Token) :
    ResolvesNames c (member symbol name) := by
  intro v s hs
  unfold member
  split
  next structName members _ =>
    simp only [upholds_bind, upholds_discard, upholds_expectMark, upholds_expect]
    refine ⟨fun hdot ↦ ⟨fun hname ↦ ?_, fun _ ↦ by simp⟩, fun _ ↦ by simp⟩
    have hmember : Looked v false c s (s.movedTo (c.after (c.after s.position))) :=
      .took hs ((Took.step hdot rfl).advance hname rfl) (.member hdot)
    rw [upholds_resolve]
    have hbehind : c.after (c.after s.position) = s.position + 2 := by
      rw [Context.after_of_kindAt hdot (by decide)] at hname ⊢
      exact Context.after_of_kindAt hname (by decide)
    refine ⟨.struct hdot hbehind (hmember.there.abreast.found structName), ?_⟩
    split
    · split
      · exact upholds_pure.2 hmember
      · simp
    · simp
  next => simp

theorem resolves_writable (hs : Abreast c s) (hat : LooksAt c s i) :
    Resolves (writable (c.tokenAt i)) c s fun _ after ↦ after = s ∧ c.Answered i := by
  simp only [writable, upholds_bind, upholds_resolve]
  refine ⟨hs.lexical hat, ?_⟩
  split
  next hmissed => exact (upholds_violateAt _ _).2 (hs.blames_variable hat hmissed)
  next symbol hfound =>
    have hanswered := hs.answered hat hfound
    simp [hanswered]

section

variable {operand : Nat → Check DataType} (h : ResolveOperands c operand)

include h

/-- A target, wherever nothing is declared behind its name. -/
theorem resolves_target
    (hs : c.kindAt s.position = .identifier → Sees v false c (s.movedTo (c.after s.position))) :
    Resolves (target operand) c s fun _ after ↦ Looked v false c s after := by
  simp only [target, upholds_bind, upholds_expect, upholds_peekKind]
  refine ⟨fun hname ↦ ?_, fun _ ↦ by simp⟩
  have hsees := hs hname
  have hat : LooksAt c (s.movedTo (c.after s.position)) s.position :=
    ⟨hname, .inr (Context.after_of_kindAt hname (by decide))⟩
  refine (resolves_writable hsees.abreast hat).mono ?_
  rintro symbol _ ⟨rfl, hanswered⟩
  have hpassed : Looked v false c s (s.movedTo (c.after s.position)) := ⟨.one fun _ ↦ hanswered, hsees⟩
  split
  · rw [upholds_bind]
    exact (resolvesNames_elementType h symbol _ hsees).mono fun _ _ hafter ↦
      upholds_pure.2 (hpassed.trans hafter)
  · rw [upholds_bind]
    exact (resolvesNames_member symbol _ hsees).mono fun _ _ hafter ↦
      upholds_pure.2 (hpassed.trans hafter)
  · simp [hpassed]

/-! ### Calls -/

end

theorem resolves_callee (hs : Abreast c s) (hat : LooksAt c s i)
    (hparen : c.kindAt (i + 1) = .leftParen) :
    Resolves (callee (c.tokenAt i)) c s fun _ after ↦ after = s ∧ c.Answered i := by
  simp only [callee, upholds_bind, upholds_resolve]
  refine ⟨hs.lexical hat, ?_⟩
  split
  next symbol hfound =>
    have hanswered := hs.answered hat hfound
    split <;> simp [hanswered]
  next hmissed =>
    split
    next b hbuiltin => exact upholds_pure.2 ⟨rfl, .inr ⟨hparen, hbuiltin ▸ rfl⟩⟩
    next hbuiltin => exact (upholds_violateAt _ _).2 (hs.blames_function hat hmissed hbuiltin)

theorem calm_checkArity (name : Token) (function : String) (expected found : Nat) :
    Calm (checkArity name function expected found) :=
  .ite (.violateAt rfl _) (.pure _)

theorem calm_checkTypes : ∀ index arguments parameters, Calm (checkTypes index arguments parameters)
  | index, (_, _) :: arguments, _ :: parameters =>
    .guard (.violateAt rfl _) (calm_checkTypes (index + 1) arguments parameters)
  | _, [], _ => .pure _
  | _, _ :: _, [] => .pure _

theorem resolves_wholeArray (hc : c.Closed) (hs : Abreast c s) (close : Nat) :
    Resolves (wholeArray close) c s fun whole after ↦
      after = s ∧ (whole → c.kindAt s.position = .identifier ∧ c.Answered s.position) := by
  simp only [wholeArray, upholds_bind, upholds_peek, upholds_here, upholds_ite, upholds_resolve,
    upholds_pure]
  refine ⟨fun hname ↦ ?_, fun _ ↦ ⟨trivial, fun h ↦ absurd h Bool.false_ne_true⟩⟩
  have hkind : c.kindAt s.position = .identifier := by
    rw [← hc.kind_tokenAt]
    simpa using (Bool.and_eq_true_iff.1 hname).2
  have hat : LooksAt c s s.position := ⟨hkind, .inl rfl⟩
  refine ⟨hs.lexical hat, trivial, fun hwhole ↦ ?_⟩
  obtain ⟨symbol, hfound, -⟩ := (Option.any_eq_true _ _).1 hwhole
  exact ⟨hkind, hs.answered hat hfound⟩

section

variable {operand : Nat → Check DataType} (h : ResolveOperands c operand)

include h

theorem resolves_argumentRound (hs : Sees v true c s) {close : Nat}
    (hclose : ∀ j, Phrase c.kindAt true s.position j → j ≤ close) (before : List Argument) :
    Resolves (argumentRound operand close before) c s (AfterRound
      (fun _ after ↦ Looked v true c s after) fun _ after ↦ Looked v true c s after) := by
  simp only [argumentRound, upholds_bind, upholds_peek]
  refine ((Calm.expressionEnd _).resolves (ensures_expressionEnd (by simp [Kind.isPlain]))).mono ?_
  rintro stop _ ⟨rfl, hstop, -⟩
  have hbounds : Bounds c.kindAt _ (min stop close) := hstop.min fun j hj ↦ hclose j hj.withCommas
  refine ((resolves_expressionWith h hs.withoutCommas hbounds).and (ensures_expressionWith_bounded
    h.take (fun _ ↦ h.closed.seesTo _) hbounds)).mono fun type later hlater ↦ ?_
  have hthere : Looked v true c _ later := .took hs hlater.2.1.withCommas hlater.1.1.answered
  simp only [upholds_bind, upholds_here, upholds_ite, upholds_pure, upholds_discard, upholds_expect,
    afterRound_done, afterRound_yield]
  exact ⟨fun _ ↦ hthere, fun _ ↦ ⟨fun hcomma ↦ hthere.trans (Looked.comma hthere.there hcomma),
    fun _ ↦ by simp⟩⟩

/-- Arguments take in everything up to the closing parenthesis. -/
theorem resolves_arguments (hs : Sees v true c s) {close : Nat}
    (hclose : ∀ j, Phrase c.kindAt true s.position j → j ≤ close) :
    Resolves (arguments operand close) c s fun _ after ↦
      Looked v true c s after ∧ Took true c s after ∧ after.position = close := by
  refine Upholds.and ?_ (ensures_arguments h.take (h.closed.seesTo close) hclose)
  simp only [arguments, upholds_bind, upholds_here, upholds_ite, upholds_pure]
  refine ⟨fun _ ↦ .refl hs, fun _ ↦ ?_⟩
  refine upholds_rounds (by simp) (I := fun _ after ↦ Looked v true c s after ∧ Took true c s after)
    ⟨.refl hs, .refl true c s⟩ ?_
  intro before after hafter
  -- A phrase from here is one from the first argument, with the commas on the way.
  have hbound : ∀ j, Phrase c.kindAt true after.position j → j ≤ close :=
    fun j hj ↦ hclose j (hafter.2.phrase.trans hj)
  refine ((resolves_argumentRound h hafter.1.there hbound before).and
    (ensures_argumentRound_took h.take (h.closed.seesTo close) hbound before)).mono
      fun r later hlater ↦ ?_
  cases r with
  | done _ => exact hafter.1.trans hlater.1
  | yield _ => exact ⟨hafter.1.trans hlater.1, hafter.2.trans hlater.2⟩

/-- What comes behind the parenthesis of a call, through the one that closes it. -/
theorem resolves_declaredCall (hs : Sees v true c s) {close : Nat}
    (hclose : ∀ j, Phrase c.kindAt true s.position j → j ≤ close) (info : FunctionInfo)
    (name : Token) :
    Resolves (declaredCall operand info name close) c s fun _ after ↦
      ∃ last, AnsweredTo c s.position close ∧ Took true c s last ∧ last.position = close ∧
        after = last.movedTo (c.after close) := by
  simp only [declaredCall, upholds_bind, upholds_discard, upholds_expectMark, upholds_pure]
  refine (resolves_arguments h hs hclose).mono ?_
  rintro arguments last ⟨hlooked, htook, rfl⟩
  refine ⟨fun _ ↦ ?_, fun _ ↦ by simp⟩
  refine ((calm_checkArity _ _ _ _).resolves (ensures_checkArity ..)).mono ?_
  rintro _ _ rfl
  refine ((calm_checkTypes _ _ _).resolves (ensures_checkTypes ..)).mono ?_
  rintro _ _ rfl
  exact ⟨last, hlooked.answered, htook, rfl, rfl⟩

theorem resolves_builtinCall (hs : Sees v true c s) {close : Nat}
    (hclose : ∀ j, Phrase c.kindAt true s.position j → j ≤ close) (b : Builtin) (name : Token) :
    Resolves (builtinCall operand b name close) c s fun _ after ↦
      ∃ last, AnsweredTo c s.position close ∧ Took true c s last ∧ last.position = close ∧
        after = last.movedTo (c.after close) := by
  simp only [builtinCall, upholds_bind, upholds_discard, upholds_advance, upholds_expectMark,
    upholds_ite, upholds_pure]
  refine ((resolves_wholeArray h.closed hs.abreast close).and (ensures_wholeArray close)).mono ?_
  rintro whole _ ⟨⟨rfl, hwhole⟩, -, hsole⟩
  refine ⟨fun hlen ↦ ?_, fun _ ↦ ?_⟩
  · have hisWhole : whole = true := by simpa using (Bool.and_eq_true_iff.1 hlen).2
    obtain ⟨hname, hanswered⟩ := hwhole hisWhole
    obtain ⟨rfl, -⟩ := hsole hisWhole
    have hnext := Context.after_of_kindAt hname (by simp)
    have hpassed : AnsweredTo c _ (c.after _) := .one fun _ ↦ hanswered
    rw [hnext] at hpassed ⊢
    refine ⟨fun _ ↦ ⟨_, hpassed, .step hname rfl, hnext, ?_⟩, fun _ ↦ by simp⟩
    rw [State.position_movedTo, State.movedTo_movedTo, State.movedTo_movedTo]
  · refine (resolves_arguments h hs hclose).mono ?_
    rintro arguments last ⟨hlooked, htook, rfl⟩
    refine ⟨fun _ ↦ ?_, fun _ ↦ by simp⟩
    refine ((calm_checkArity _ _ _ _).resolves (ensures_checkArity ..)).mono ?_
    rintro _ _ rfl
    refine ((calm_checkTypes _ _ _).resolves (ensures_checkTypes ..)).mono ?_
    rintro _ _ rfl
    exact ⟨last, hlooked.answered, htook, rfl, rfl⟩

/-- A call, given that a parenthesis follows the name and nothing is declared between them. -/
theorem resolves_call
    (hs : c.kindAt s.position = .identifier → Sees v false c (s.movedTo (c.after s.position)))
    (hparen : c.kindAt (s.position + 1) = .leftParen) :
    Resolves (call operand) c s fun _ after ↦ Looked v false c s after := by
  simp only [call, upholds_bind, upholds_discard, upholds_expect, upholds_here, upholds_advance]
  refine ⟨fun hname ↦ ?_, fun _ ↦ by simp⟩
  have hsees := hs hname
  have hnext := Context.after_of_kindAt hname (by simp)
  refine (resolves_callee hsees.abreast ⟨hname, .inr hnext⟩ hparen).mono ?_
  rintro callee named ⟨hnamed, hanswered⟩
  have hpassed : Looked v false c s named := by
    rw [hnamed]
    exact ⟨.one fun _ ↦ hanswered, hsees⟩
  have hopen : c.kindAt named.position = .leftParen := by
    rw [hnamed, State.position_movedTo, hnext, hparen]
  have hcloser : (c.kindAt named.position).closer? = some .rightParen := by rw [hopen]; rfl
  refine ((Calm.matchingClose _).resolves (ensures_matchingClose hcloser)).mono ?_
  rintro close start ⟨hstart, hclose, hbound⟩
  subst hstart
  have hfirst := Context.after_of_ne_eof (Kind.closer?_ne_eof hcloser).1
  have hinside := hpassed.there.opened hcloser (by simp [hopen])
  rw [← hfirst] at hbound
  -- Both ways of reading the arguments end right after the parenthesis.
  have hrest : ∀ {rest : Check DataType},
      Resolves rest c (start.movedTo (c.after start.position)) (fun _ after ↦
        ∃ last, AnsweredTo c (c.after start.position) close ∧
          Took true c (start.movedTo (c.after start.position)) last ∧
            last.position = close ∧ after = last.movedTo (c.after close)) →
      Resolves rest c (start.movedTo (c.after start.position)) fun _ after ↦
        Looked v false c s after := by
    intro rest hrest
    refine hrest.mono ?_
    rintro _ _ ⟨last, hlast, htook, rfl, rfl⟩
    exact hpassed.trans (Looked.brackets hpassed.there hcloser hlast hclose
      (.brackets hcloser (by simp [hopen]) htook hclose))
  split
  · exact hrest (resolves_declaredCall h hinside hbound _ _)
  · exact hrest (resolves_builtinCall h hinside hbound _ _)

/-! ### Operands -/

end

theorem resolves_valueSymbol (hs : Abreast c s) (hat : LooksAt c s i) :
    Resolves (valueSymbol (c.tokenAt i)) c s fun _ after ↦ after = s ∧ c.Answered i := by
  simp only [valueSymbol, upholds_bind, upholds_resolve]
  refine ⟨hs.lexical hat, ?_⟩
  split
  next symbol hfound =>
    have hanswered := hs.answered hat hfound
    split <;> simp [hanswered]
  next hmissed =>
    simp only [upholds_ite, upholds_violateAt]
    exact ⟨fun _ ↦ by simp, fun _ ↦ hs.blames_variable hat hmissed⟩

section

variable {operand : Nat → Check DataType} (h : ResolveOperands c operand)

include h

/-- What comes behind a name that stands as an operand. -/
theorem resolves_nameType (hs : Sees v false c s) (symbol : Symbol) (t : Token) {after : Kind}
    (hafter : after = .eof ∨ c.kindAt s.position = after) :
    Resolves (nameType operand symbol t after) c s fun _ after ↦ Looked v false c s after := by
  have hcount : ∀ {k : Kind}, c.kindAt s.position = k → k.isPlain → k ≠ .identifier →
      Resolves (do
        if symbol.isConstant then violateAt (.constantReassignment symbol.name) t
        if symbol.isArray || symbol.type ≠ .int then violateAt (.countRequiresInt symbol.type) t
        discard advance
        return .int : Check DataType) c s fun _ after ↦ Looked v false c s after := by
    intro k hk hplain hname
    have hstep := Looked.step hs hk hplain hname
    simp [hstep]
  unfold nameType
  split
  · exact resolvesNames_elementType h symbol t hs
  · refine (upholds_bind _).2 ((resolvesNames_member symbol t hs).mono fun m after hm ↦ ?_)
    simp only [upholds_bind, upholds_ite, upholds_pure]
    exact ⟨fun _ ↦ hm, fun _ ↦ (resolves_warn hm.there _ _).mono fun _ _ hwarn ↦ hm.trans hwarn⟩
  · exact hcount (by simpa using hafter) rfl (by decide)
  · exact hcount (by simpa using hafter) rfl (by decide)
  · simp only [upholds_bind, upholds_ite, upholds_pure, upholds_violateAt]
    exact ⟨fun _ ↦ by simp, fun _ ↦ ⟨fun _ ↦ .refl hs, fun _ ↦ resolves_warn hs _ _⟩⟩

theorem resolves_nameOperand (hs : Sees v false c s) (hname : c.kindAt s.position = .identifier)
    (stop : Nat) :
    Resolves (nameOperand operand stop (c.tokenAt s.position)) c s fun _ after ↦
      Looked v false c s after := by
  have hnext := Context.after_of_kindAt hname (by simp)
  -- What follows is looked at only inside the expression.
  have hrest : ∀ {after : Kind}, after = .eof ∨ c.kindAt (s.position + 1) = after →
      Resolves (do
        if after = .leftParen then
          let type ← call operand
          if type = .void then
            violateAt (.voidInExpression (c.tokenAt s.position).lexeme) (c.tokenAt s.position)
          return type
        else
          let symbol ← valueSymbol (c.tokenAt s.position)
          discard advance
          nameType operand symbol (c.tokenAt s.position) after) c s fun _ after ↦
            Looked v false c s after := by
    intro after hafter
    simp only [upholds_ite, upholds_bind, upholds_violateAt, upholds_pure, upholds_discard,
      upholds_advance]
    refine ⟨fun hparen ↦ ?_, fun _ ↦ ?_⟩
    · subst hparen
      refine (resolves_call h (fun hname ↦ hs.took (.step hname rfl)) (by simpa using hafter)).mono
        fun _ _ hcall ↦ ?_
      exact ⟨fun _ ↦ by simp, fun _ ↦ hcall⟩
    · refine (resolves_valueSymbol hs.abreast ⟨hname, .inl rfl⟩).mono ?_
      rintro symbol _ ⟨rfl, hanswered⟩
      have hpassed := Looked.name hs hname hanswered
      refine (resolves_nameType h hpassed.there symbol _ ?_).mono fun _ _ htype ↦ hpassed.trans htype
      rwa [State.position_movedTo, hnext]
  simp only [nameOperand, upholds_bind, upholds_here, upholds_ite, upholds_secondKind,
    upholds_pure]
  exact ⟨fun _ ↦ by simpa using hrest (.inr rfl), fun _ ↦ by simpa using hrest (.inl rfl)⟩

theorem resolves_parenthesised (hs : Sees v false c s) (hparen : c.kindAt s.position = .leftParen)
    (stop : Nat) :
    Resolves (parenthesised operand stop) c s fun _ after ↦ Looked v false c s after := by
  have hcloser : (c.kindAt s.position).closer? = some .rightParen := by rw [hparen]; rfl
  simp only [parenthesised, upholds_bind, upholds_here, upholds_ite, upholds_violate,
    upholds_discard, upholds_advance, upholds_pure]
  refine ((Calm.matchingClose _).resolves (ensures_matchingClose hcloser)).mono ?_
  rintro close _ ⟨rfl, hclose, hbound⟩
  exact ⟨fun _ ↦ by simp, fun _ ↦ resolves_inside h hs hcloser (by simp [hparen]) hclose hbound⟩

/-- An operand resolves names, given that what it contains does. -/
theorem resolvesNames_operandWith (stop : Nat) : ResolvesNames c (operandWith operand stop) := by
  intro v s hs
  simp only [operandWith, upholds_bind, upholds_here, upholds_ite, upholds_violate, upholds_peek,
    h.closed.kind_tokenAt]
  refine ⟨fun _ ↦ by simp, fun hstart ↦ ?_⟩
  cases hliteral : DataType.ofLiteral? (c.kindAt s.position) with
  | some type =>
    have hname : c.kindAt s.position ≠ .identifier := fun hk ↦ by rw [hk] at hliteral; cases hliteral
    have hstep := Looked.step hs rfl (isPlain_of_literal hliteral) hname
    simpa using hstep
  | none =>
    have hcount : ∀ {k : Kind}, c.kindAt s.position = k → k.isPlain → k ≠ .identifier →
        Resolves (do discard advance; requireInt (← target operand); return .int : Check DataType)
          c s fun _ after ↦ Looked v false c s after := by
      intro k hk hplain hname
      have hstep := Looked.step hs hk hplain hname
      simp only [upholds_bind, upholds_discard, upholds_advance, upholds_pure]
      refine (resolves_target h fun hname ↦ hstep.there.took (.step hname rfl)).mono fun t after hafter ↦ ?_
      refine ((calm_requireInt t).resolves (ensures_requireInt t)).mono ?_
      rintro _ _ rfl
      exact hstep.trans hafter
    simp only
    split
    next hk => exact resolves_parenthesised h hs hk stop
    next hk =>
      have hstep := Looked.step hs hk rfl (by decide)
      simp only [upholds_bind, upholds_discard, upholds_advance, upholds_ite, upholds_violateAt,
        upholds_pure]
      refine (h.resolve stop hstep.there).mono fun found after hafter ↦ ⟨fun _ ↦ by simp, fun _ ↦ ?_⟩
      exact hstep.trans hafter
    next hk => exact hcount hk rfl (by decide)
    next hk => exact hcount hk rfl (by decide)
    next hk => exact resolves_nameOperand h hs hk stop
    all_goals simp

end

/-- Operands resolve names on every level. -/
theorem resolveOperands_operand (hc : c.Closed) (levels : Nat) :
    ResolveOperands c (operand levels) := by
  induction levels with
  | zero => exact ⟨hc, takePhrases_operand 0, fun stop v s hs ↦ by simp [operand, tooDeep]⟩
  | succ levels ih => exact ⟨hc, takePhrases_operand _, resolvesNames_operandWith ih⟩

/-- The expression at hand resolves names. -/
theorem resolvesNames_valueType (hc : c.Closed) (levels : Nat) {terminators : List Kind}
    (hterminators : ∀ k ∈ terminators, k.isPlain = false) :
    ResolvesNames c (valueType levels terminators) := by
  intro v s hs
  refine (upholds_bind _).2 ?_
  refine ((Calm.expressionEnd _).resolves (ensures_expressionEnd hterminators)).mono ?_
  rintro stop _ ⟨rfl, hstop, -⟩
  exact (resolves_expressionWith (resolveOperands_operand hc levels) hs hstop).mono fun _ _ h ↦ h.1

end

end FrontEnd
