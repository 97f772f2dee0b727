import FrontEnd.Check.Operand
import FrontEnd.Proofs.Check.Phrase

/-!
# What the walk over an expression takes in

Whatever an expression is checked for, a walk over it that succeeds has taken in a `Phrase` and
changed nothing but its place and the warnings: `TakesPhrase`.  This holds of every operand and
every chain of operands on any tokens, well formed or not, as long as the end they are to keep to is
no further than the tokens go: past the end the last token is seen again, whatever it is
(`Context.SeesTo`).  With the operands of the next level as a parameter it is the induction on levels
in `takePhrases_operand`.

An expression that is to end at an index never runs past it, if no phrase from its start does: the
walk over it ends exactly there (`ensures_expressionWith_bounded`).
-/

namespace FrontEnd

open Check

/-- A violation that is about the program or about the limits. -/
def Unlost (e : SemanticError) : Prop :=
  ∀ how, e.violation ≠ .lost how

@[simp]
theorem unlost_mk {v : Violation} {p : Position} : Unlost ⟨v, p⟩ ↔ ∀ how, v ≠ .lost how :=
  Iff.rfl

/-- The token seen past the end ends the input. -/
def Context.Closed (c : Context) : Prop :=
  c.last.kind = .eof

/-- Up to an index each token is seen as what it is. -/
def Context.SeesTo (c : Context) (stop : Nat) : Prop :=
  ∀ i < stop, (c.tokenAt i).kind = c.kindAt i

/-- The two states differ in their place and their warnings at most. -/
structure SameTables (s after : State) : Prop where
  arena : after.arena = s.arena
  functions : after.functions = s.functions
  headers : after.headers = s.headers
  sawReturn : after.sawReturn = s.sawReturn

/-- A walk from one state to the other took in a phrase and nothing else happened. -/
structure Took (commas : Bool) (c : Context) (s after : State) : Prop where
  phrase : Phrase c.kindAt commas s.position after.position
  tables : SameTables s after

/-- A check that takes in a phrase wherever it succeeds. -/
def TakesPhrase {α : Type} (c : Context) (x : Check α) : Prop :=
  ∀ s, Ensures x c s Unlost fun _ after ↦ Took false c s after

/-- Operands that take in phrases, where the tokens go as far as the expression. -/
def TakePhrases (operand : Nat → Check DataType) : Prop :=
  ∀ c stop, c.SeesTo stop → TakesPhrase c (operand stop)

section

variable {c : Context} {s after later : State} {commas : Bool} {i j : Nat}

@[simp]
theorem unlost_expected (i : Nat) (wanted : Wanted) : Unlost (c.expected i wanted) := by
  unfold Context.expected
  simp only [unlost_mk]
  split <;> simp

theorem Context.Closed.kind_tokenAt (hc : c.Closed) (i : Nat) :
    (c.tokenAt i).kind = c.kindAt i := by
  unfold Context.kindAt Context.tokenAt
  cases c.tokens[i]? with
  | none => exact hc
  | some t => rfl

theorem Context.Closed.seesTo (hc : c.Closed) (stop : Nat) : c.SeesTo stop :=
  fun i _ ↦ hc.kind_tokenAt i

theorem Context.SeesTo.mono (h : c.SeesTo j) (hle : i ≤ j) : c.SeesTo i :=
  fun k hk ↦ h k (Nat.lt_of_lt_of_le hk hle)

/-- In front of a token that does not end the input there are as many tokens. -/
theorem Context.seesTo_of_ne_eof (h : c.kindAt i ≠ .eof) : c.SeesTo (i + 1) := by
  have hsize := Context.lt_size_of_ne_eof h
  intro k hk
  have hlt : k < c.tokens.size := by omega
  unfold Context.tokenAt Context.kindAt
  rw [Array.getElem?_eq_getElem hlt]
  rfl

theorem Context.seesTo_of_closer {opening : Kind} (h : opening.closer? = some (c.kindAt i)) :
    c.SeesTo i :=
  (Context.seesTo_of_ne_eof (Kind.closer?_ne_eof h).2).mono (Nat.le_succ i)

namespace SameTables

@[simp]
theorem refl (s : State) : SameTables s s :=
  ⟨rfl, rfl, rfl, rfl⟩

theorem trans (h : SameTables s after) (h' : SameTables after later) : SameTables s later :=
  ⟨h'.arena.trans h.arena, h'.functions.trans h.functions, h'.headers.trans h.headers,
    h'.sawReturn.trans h.sawReturn⟩

@[simp]
theorem movedTo : SameTables s (after.movedTo i) ↔ SameTables s after :=
  ⟨fun h ↦ ⟨h.arena, h.functions, h.headers, h.sawReturn⟩,
    fun h ↦ ⟨h.arena, h.functions, h.headers, h.sawReturn⟩⟩

@[simp]
theorem of_movedTo : SameTables (s.movedTo i) after ↔ SameTables s after :=
  ⟨fun h ↦ ⟨h.arena, h.functions, h.headers, h.sawReturn⟩,
    fun h ↦ ⟨h.arena, h.functions, h.headers, h.sawReturn⟩⟩

end SameTables

namespace Took

@[simp]
theorem refl (commas : Bool) (c : Context) (s : State) : Took commas c s s :=
  ⟨.nil, .refl s⟩

theorem trans (h : Took commas c s after) (h' : Took commas c after later) :
    Took commas c s later :=
  ⟨h.phrase.trans h'.phrase, h.tables.trans h'.tables⟩

theorem withCommas (h : Took commas c s after) : Took true c s after :=
  ⟨h.phrase.withCommas, h.tables⟩

/-- A plain token more. -/
theorem advance (h : Took commas c s after) {k : Kind} (hk : c.kindAt after.position = k)
    (hplain : k.isPlain) : Took commas c s (after.movedTo (c.after after.position)) := by
  have hafter := Context.after_of_kindAt hk (Kind.isPlain_iff.1 hplain).2.2.1
  exact ⟨h.phrase.trans (hafter ▸ .one (hk ▸ hplain)), SameTables.movedTo.2 h.tables⟩

/-- A comma more, where commas may stand. -/
theorem comma (h : Took true c s after) (hk : c.kindAt after.position = .comma) :
    Took true c s (after.movedTo (c.after after.position)) := by
  have hafter := Context.after_of_kindAt hk (by simp)
  exact ⟨h.phrase.trans (hafter ▸ .comma hk .nil), SameTables.movedTo.2 h.tables⟩

/-- The first step of a walk. -/
theorem step {k : Kind} (hk : c.kindAt s.position = k) (hplain : k.isPlain) :
    Took commas c s (s.movedTo (c.after s.position)) :=
  (refl commas c s).advance hk hplain

/-- A whole bracket with what stands inside. -/
theorem brackets {closing : Kind} (hopening : (c.kindAt s.position).closer? = some closing)
    (hbrace : c.kindAt s.position ≠ .leftBrace)
    (h : Took true c (s.movedTo (c.after s.position)) after)
    (hclosing : c.kindAt after.position = closing) :
    Took commas c s (after.movedTo (c.after after.position)) := by
  have hfirst := Context.after_of_ne_eof (Kind.closer?_ne_eof hopening).1
  have hlast := Context.after_of_kindAt hclosing (Kind.closer?_ne_eof hopening).2
  obtain ⟨hphrase, htables⟩ := h
  rw [State.position_movedTo, hfirst] at hphrase
  refine ⟨?_, by simpa using htables⟩
  rw [State.position_movedTo, hlast]
  exact .brackets hopening hbrace hphrase hclosing

end Took

/-! ### Searches ahead -/

/-- At a bracket, a match is what the search for it comes to. -/
theorem ensures_matchingClose_iff {closing : Kind} (h : (c.kindAt i).closer? = some closing)
    {E : SemanticError → Prop} {Q : Nat → State → Prop} :
    Ensures (matchingClose i) c s E Q ↔
      (∀ k, c.searchClose (c.kindAt i) closing c.limits.scan i 0 = .found k → Q k s) ∧
      (c.searchClose (c.kindAt i) closing c.limits.scan i 0 = .ended →
        E ⟨.unclosed (c.kindAt i), (c.tokenAt i).position⟩) ∧
      (c.searchClose (c.kindAt i) closing c.limits.scan i 0 = .exhausted →
        E ⟨.scanLimit c.limits.scan, (c.tokenAt s.position).position⟩) := by
  simp only [matchingClose, ensures_bind, ensures_read, h]
  cases c.searchClose (c.kindAt i) closing c.limits.scan i 0 with
  | found k => simp
  | ended => simp
  | exhausted => simp

theorem ensures_matchingClose {closing : Kind} (h : (c.kindAt i).closer? = some closing) :
    Ensures (matchingClose i) c s Unlost fun k after ↦
      after = s ∧ c.kindAt k = closing ∧ ∀ j, Phrase c.kindAt true (i + 1) j → j ≤ k := by
  refine (ensures_matchingClose_iff h).2 ⟨fun k hfound ↦ ⟨rfl, ?_, fun j hj ↦ ?_⟩, by simp, by simp⟩
  · exact (le_of_searchClose hfound).2
  · exact hj.le_of_searchClose h hfound

/-- The search for the end of an expression does not run past the end of the input. -/
theorem seesTo_of_searchEnd {terminators : List Kind} {left depth k : Nat}
    (h : c.searchEnd terminators left i depth = .found k) (hlt : i < k) : c.SeesTo k := by
  fun_induction Context.searchEnd c terminators left i depth with
  | case1 => cases h
  | case2 | case4 | case6 =>
    cases h
    exact absurd hlt (Nat.lt_irrefl _)
  | case3 left i depth kind hkind _ ih | case5 left i depth kind hkind _ _ _ ih
  | case7 left i depth kind hkind _ _ _ ih =>
    obtain rfl | hnext := Nat.eq_or_lt_of_le (Nat.succ_le_of_lt hlt)
    · exact Context.seesTo_of_ne_eof fun heof ↦ hkind (.inl heof)
    · exact ih h hnext

theorem ensures_expressionEnd {terminators : List Kind}
    (h : ∀ k ∈ terminators, k.isPlain = false) :
    Ensures (expressionEnd terminators) c s Unlost fun k after ↦
      after = s ∧ Bounds c.kindAt s.position k ∧ (s.position < k → c.SeesTo k) := by
  simp only [expressionEnd, ensures_bind, ensures_read, ensures_here]
  cases hsearch : c.searchEnd terminators c.limits.scan s.position 0 with
  | found k => exact ⟨rfl, fun j hj ↦ hj.le_of_searchEnd h hsearch, seesTo_of_searchEnd hsearch⟩
  | ended => simp
  | exhausted => simp

/-! ### Chains -/

theorem isPlain_of_operator {k : Kind} {op : Operator} (h : Operator.ofKind? k = some op) :
    k.isPlain := by
  cases k <;> first | rfl | cases h

theorem isPlain_of_literal {k : Kind} {type : DataType} (h : DataType.ofLiteral? k = some type) :
    k.isPlain := by
  cases k <;> first | rfl | cases h

theorem ensures_operator? {stop floor : Nat} (hsees : c.SeesTo stop) (hlt : s.position < stop) :
    Ensures (operator? stop floor) c s Unlost fun _ after ↦ Took false c s after := by
  simp only [operator?, ensures_bind, ensures_peek]
  split
  · simp
  next op hop =>
    have hplain : (c.kindAt s.position).isPlain := by
      rw [← hsees _ hlt]
      exact isPlain_of_operator hop
    have hstep : Took false c s (s.movedTo (c.after s.position)) := .step rfl hplain
    simp [hstep]

theorem ensures_apply {op : Operator} {t : Token} {left right : DataType} :
    Ensures (apply op t left right) c s Unlost fun result after ↦
      after = s ∧ op.resultType left right = some result := by
  unfold apply
  split <;> simp [*]

theorem ensures_chainRound {rightSide : Nat → Check DataType} {stop floor : Nat} {left : DataType}
    (h : ∀ floor, TakesPhrase c (rightSide floor)) (hsees : c.SeesTo stop) (hlt : s.position < stop) :
    Ensures (chainRound rightSide stop floor left) c s Unlost fun _ after ↦ Took false c s after := by
  simp only [chainRound, ensures_bind]
  refine (ensures_operator? hsees hlt).mono fun found after hfound ↦ ?_
  split
  · simpa using hfound
  next op t =>
    simp only [ensures_bind]
    refine (h _ after).mono fun right later hright ↦ ?_
    refine ensures_apply.mono fun result last hlast ↦ ?_
    obtain ⟨rfl, -⟩ := hlast
    exact hfound.trans hright

theorem takesPhrase_chain {operand : Nat → Check DataType} {stop : Nat} (h : TakePhrases operand)
    (hsees : c.SeesTo stop) (levels floor : Nat) :
    TakesPhrase c (chain operand stop levels floor) := by
  have hrounds : ∀ {rightSide : Nat → Check DataType}, (∀ floor, TakesPhrase c (rightSide floor)) →
      ∀ floor, TakesPhrase c (operand stop >>=
        roundsWhile (return (← here) < stop) (chainRound rightSide stop floor)) := by
    intro rightSide hright floor s
    rw [ensures_bind]
    refine (h c stop hsees s).mono fun value after hvalue ↦ ?_
    refine ensures_roundsWhile (by simp) (I := fun _ later ↦ Took false c s later) hvalue ?_
    intro left later hlater
    simp only [ensures_bind, ensures_here, ensures_pure, decide_eq_true_eq]
    refine ⟨fun hlt ↦ (ensures_chainRound hright hsees hlt).mono fun r last hlast ↦ ?_, fun _ ↦ hlater⟩
    cases r <;> exact hlater.trans hlast
  induction levels generalizing floor with
  | zero => exact hrounds (fun _ ↦ h c stop hsees) floor
  | succ levels ih => exact hrounds ih floor

/-- The walk over an expression takes in a phrase that reaches the end at least. -/
theorem ensures_expressionWith {operand : Nat → Check DataType} (h : TakePhrases operand) {stop : Nat}
    (hsees : s.position < stop → c.SeesTo stop) :
    Ensures (expressionWith operand stop) c s Unlost fun _ after ↦
      Took false c s after ∧ stop ≤ after.position := by
  simp only [expressionWith, ensures_bind, ensures_here, ensures_ite, ensures_violate, ensures_peek,
    ensures_pure]
  refine ⟨by simp, fun hstart ↦ ?_⟩
  refine (takesPhrase_chain h (hsees (Nat.lt_of_not_le hstart)) _ 0 s).mono fun type after hafter ↦ ?_
  refine ⟨by simp, fun hstop ↦ ⟨hafter, by omega⟩⟩

/-- The walk over an expression ends where it was to end. -/
theorem ensures_expressionWith_bounded {operand : Nat → Check DataType} (h : TakePhrases operand)
    {stop : Nat} (hsees : s.position < stop → c.SeesTo stop) (hstop : Bounds c.kindAt s.position stop) :
    Ensures (expressionWith operand stop) c s Unlost fun _ after ↦
      Took false c s after ∧ after.position = stop :=
  (ensures_expressionWith h hsees).mono fun _ _ hafter ↦
    ⟨hafter.1, Nat.le_antisymm (hstop _ hafter.1.phrase) hafter.2⟩

/-! ### Elements, members and targets -/

theorem ensures_checkLiteralIndex (index : Token) (size : Dimension) :
    Ensures (checkLiteralIndex index size) c s Unlost fun _ after ↦ after = s := by
  unfold checkLiteralIndex
  split
  · simp
  · split
    · split
      · simp
      · simp
    · simp

section

variable {operand : Nat → Check DataType} (h : TakePhrases operand)

include h

/-- A bracket, the expression inside and the closing bracket. -/
theorem ensures_inside {close : Nat} {closing : Kind}
    (hopening : (c.kindAt s.position).closer? = some closing)
    (hbrace : c.kindAt s.position ≠ .leftBrace) (hclose : c.kindAt close = closing)
    (hbound : ∀ j, Phrase c.kindAt true (s.position + 1) j → j ≤ close) :
    Ensures (expressionWith operand close) c (s.movedTo (c.after s.position)) Unlost
      fun _ after ↦ Took false c s (after.movedTo (c.after after.position)) := by
  have hafter := Context.after_of_ne_eof (Kind.closer?_ne_eof hopening).1
  have hsees : c.SeesTo close := Context.seesTo_of_closer (hclose ▸ hopening)
  refine (ensures_expressionWith_bounded h (fun _ ↦ hsees) ?_).mono ?_
  · rw [State.position_movedTo, hafter]
    exact fun j hj ↦ hbound j hj.withCommas
  · rintro _ later ⟨hlater, rfl⟩
    exact .brackets hopening hbrace hlater.withCommas hclose

theorem ensures_oneIndex (hopen : c.kindAt s.position = .leftBracket)
    (size : Dimension) :
    Ensures (oneIndex operand size) c s Unlost fun _ after ↦ Took false c s after := by
  have hcloser : (c.kindAt s.position).closer? = some .rightBracket := by rw [hopen]; rfl
  simp only [oneIndex, ensures_bind, ensures_here]
  refine (ensures_matchingClose hcloser).mono ?_
  rintro close _ ⟨rfl, hclose, hbound⟩
  simp only [ensures_discard, ensures_advance, ensures_peek, ensures_ite, ensures_bind,
    ensures_violateAt]
  have hindex := ensures_inside h hcloser (by simp [hopen]) hclose hbound
  constructor
  · intro _
    refine (ensures_checkLiteralIndex _ size).mono ?_
    rintro _ _ rfl
    exact hindex.mono fun _ _ hafter ↦ ⟨by simp, fun _ ↦ hafter⟩
  · intro _
    exact hindex.mono fun _ _ hafter ↦ ⟨by simp, fun _ ↦ hafter⟩

theorem takesPhrase_indices {wrongCount : Check Unit}
    (hwrong : ∀ s, Ensures wrongCount c s Unlost fun _ _ ↦ False) (sizes : List Dimension) :
    TakesPhrase c (indices operand wrongCount sizes) := by
  induction sizes with
  | nil => exact fun s ↦ .refl false c s
  | cons size sizes ih =>
    intro s
    simp only [indices, ensures_bind, ensures_next?, ensures_ite, beq_iff_eq]
    refine ⟨fun hopen ↦ ?_, fun hother ↦ ?_⟩
    · refine (ensures_oneIndex h hopen size).mono fun _ after hafter ↦ ?_
      exact (ih after).mono fun _ later hlater ↦ hafter.trans hlater
    · exact (hwrong s).mono fun _ _ hfalse ↦ hfalse.elim

theorem takesPhrase_elementType (symbol : Symbol) (name : Token) :
    TakesPhrase c (elementType operand symbol name) := by
  intro s
  unfold elementType
  split
  · simp
  next sizes _ =>
    simp only [ensures_bind, ensures_next?, ensures_ite, ensures_pure]
    refine (takesPhrase_indices h (fun s ↦ by simp) sizes s).mono fun _ after hafter ↦ ?_
    exact ⟨fun _ ↦ by simp, fun _ ↦ hafter⟩

end

theorem takesPhrase_member (symbol : Symbol) (name : Token) : TakesPhrase c (member symbol name) := by
  intro s
  unfold member
  split
  next structName members _ =>
    simp only [ensures_bind, ensures_discard, ensures_expectMark, ensures_expect]
    refine ⟨fun hdot ↦ ⟨fun hname ↦ ?_, fun _ ↦ unlost_expected _ _⟩, fun _ ↦ unlost_expected _ _⟩
    have hmember : Took false c s (s.movedTo (c.after (c.after s.position))) :=
      (Took.step hdot rfl).advance hname rfl
    simp only [ensures_resolve]
    split
    · split
      · exact hmember
      · simp
    · simp
  next => simp

theorem ensures_writable (t : Token) :
    Ensures (writable t) c s Unlost fun _ after ↦ after = s := by
  simp only [writable, ensures_bind, ensures_resolve]
  split
  · simp
  · simp

theorem ensures_requireInt (t : Target) :
    Ensures (requireInt t) c s Unlost fun _ after ↦ after = s := by
  simp [requireInt]

section

variable {operand : Nat → Check DataType} (h : TakePhrases operand)

include h

theorem takesPhrase_target : TakesPhrase c (target operand) := by
  intro s
  simp only [target, ensures_bind, ensures_expect, ensures_peekKind]
  refine ⟨fun hname ↦ ?_, fun _ ↦ unlost_expected _ _⟩
  have hstep : Took false c s (s.movedTo (c.after s.position)) := .step hname rfl
  refine (ensures_writable _).mono ?_
  rintro symbol _ rfl
  split
  · rw [ensures_bind]
    exact (takesPhrase_elementType h symbol _ _).mono fun _ _ hafter ↦ hstep.trans hafter
  · rw [ensures_bind]
    exact (takesPhrase_member symbol _ _).mono fun _ _ hafter ↦ hstep.trans hafter
  · simp [hstep]

end

/-! ### Calls -/

theorem ensures_callee (name : Token) :
    Ensures (callee name) c s Unlost fun _ after ↦ after = s := by
  simp only [callee, ensures_bind, ensures_resolve]
  split
  · split <;> simp
  · split <;> simp

theorem ensures_checkArity (name : Token) (function : String) (expected found : Nat) :
    Ensures (checkArity name function expected found) c s Unlost fun _ after ↦ after = s := by
  simp [checkArity]

theorem ensures_checkTypes :
    ∀ (index : Nat) (arguments : List Argument) (parameters : List DataType),
      Ensures (checkTypes index arguments parameters) c s Unlost fun _ after ↦ after = s
  | index, (found, first) :: arguments, expected :: parameters => by
    simp only [checkTypes, ensures_bind, ensures_ite, ensures_violateAt]
    exact ⟨by simp, fun _ ↦ ensures_checkTypes (index + 1) arguments parameters⟩
  | _, [], _ => by simp [checkTypes]
  | _, _ :: _, [] => by simp [checkTypes]

theorem ensures_wholeArray (close : Nat) :
    Ensures (wholeArray close) c s Unlost fun whole after ↦
      after = s ∧ (whole → close = s.position + 1 ∧ (c.tokenAt s.position).kind = .identifier) := by
  simp only [wholeArray, ensures_bind, ensures_peek, ensures_here]
  split <;> simp_all [ensures_resolve]

section

variable {operand : Nat → Check DataType} (h : TakePhrases operand)

include h

/-- The end of an argument is that of an expression, and not behind the closing parenthesis. -/
theorem ensures_argumentRound_took {close : Nat} (hsees : c.SeesTo close)
    (hclose : ∀ j, Phrase c.kindAt true s.position j → j ≤ close) (before : List Argument) :
    Ensures (argumentRound operand close before) c s Unlost (AfterRound
      (fun _ after ↦ Took true c s after) fun _ after ↦ Took true c s after ∧ after.position = close) := by
  simp only [argumentRound, ensures_bind, ensures_peek]
  refine (ensures_expressionEnd (by simp [Kind.isPlain])).mono ?_
  rintro stop _ ⟨rfl, hstop, -⟩
  have hbounds : Bounds c.kindAt _ (min stop close) := hstop.min fun j hj ↦ hclose j hj.withCommas
  refine (ensures_expressionWith_bounded h (fun _ ↦ hsees.mono (Nat.min_le_right ..)) hbounds).mono
    fun type later hlater ↦ ?_
  have hthere : Took true c _ later := hlater.1.withCommas
  simp only [ensures_bind, ensures_here, ensures_ite, ensures_pure, ensures_discard, ensures_expect,
    afterRound_done, afterRound_yield]
  exact ⟨fun hend ↦ ⟨hthere, hend⟩, fun _ ↦ ⟨hthere.comma, fun _ ↦ unlost_expected _ _⟩⟩

/-- Arguments take in everything up to the closing parenthesis. -/
theorem ensures_arguments {close : Nat} (hsees : c.SeesTo close)
    (hclose : ∀ j, Phrase c.kindAt true s.position j → j ≤ close) :
    Ensures (arguments operand close) c s Unlost fun _ after ↦
      Took true c s after ∧ after.position = close := by
  simp only [arguments, ensures_bind, ensures_here, ensures_ite, ensures_pure]
  refine ⟨fun hempty ↦ ⟨.refl true c s, hempty⟩, fun _ ↦ ?_⟩
  refine ensures_rounds (by simp) (I := fun _ after ↦ Took true c s after) (.refl true c s) ?_
  intro before after hafter
  -- A phrase from here is one from the first argument, with the commas on the way.
  refine (ensures_argumentRound_took h hsees (fun j hj ↦ hclose j (hafter.phrase.trans hj)) before).mono
    fun r later hlater ↦ ?_
  cases r with
  | done _ => exact ⟨hafter.trans hlater.1, hlater.2⟩
  | yield _ => exact hafter.trans hlater

/-- The rest of a call takes in everything through the closing parenthesis. -/
theorem ensures_declaredCall {close : Nat} (hsees : c.SeesTo close)
    (hclose : ∀ j, Phrase c.kindAt true s.position j → j ≤ close) (info : FunctionInfo)
    (name : Token) :
    Ensures (declaredCall operand info name close) c s Unlost fun _ after ↦
      ∃ last, Took true c s last ∧ last.position = close ∧
        after = last.movedTo (c.after close) := by
  simp only [declaredCall, ensures_bind, ensures_discard, ensures_expectMark]
  refine (ensures_arguments h hsees hclose).mono ?_
  rintro arguments last ⟨hlast, rfl⟩
  refine ⟨fun _ ↦ ?_, fun _ ↦ unlost_expected _ _⟩
  refine (ensures_checkArity ..).mono ?_
  rintro _ _ rfl
  refine (ensures_checkTypes ..).mono ?_
  rintro _ _ rfl
  exact ⟨last, hlast, rfl, rfl⟩

theorem ensures_builtinCall {close : Nat} (hsees : c.SeesTo close)
    (hclose : ∀ j, Phrase c.kindAt true s.position j → j ≤ close) (b : Builtin) (name : Token) :
    Ensures (builtinCall operand b name close) c s Unlost fun _ after ↦
      ∃ last, Took true c s last ∧ last.position = close ∧
        after = last.movedTo (c.after close) := by
  simp only [builtinCall, ensures_bind, ensures_discard, ensures_advance, ensures_expectMark,
    ensures_ite, ensures_pure]
  refine (ensures_wholeArray close).mono ?_
  rintro whole _ ⟨rfl, hwhole⟩
  refine ⟨fun hlen ↦ ?_, fun _ ↦ ?_⟩
  · obtain ⟨rfl, hname⟩ := hwhole (by simpa using (Bool.and_eq_true_iff.1 hlen).2)
    rw [hsees _ (Nat.lt_succ_self _)] at hname
    have hnext := Context.after_of_kindAt hname (by simp)
    refine ⟨fun _ ↦ ⟨_, (Took.step hname rfl), hnext, ?_⟩, fun _ ↦ unlost_expected _ _⟩
    rw [State.position_movedTo, hnext]
  · refine (ensures_arguments h hsees hclose).mono ?_
    rintro arguments last ⟨hlast, rfl⟩
    refine ⟨fun _ ↦ ?_, fun _ ↦ unlost_expected _ _⟩
    refine (ensures_checkArity ..).mono ?_
    rintro _ _ rfl
    refine (ensures_checkTypes ..).mono ?_
    rintro _ _ rfl
    exact ⟨last, hlast, rfl, rfl⟩

/-- A call, given that a parenthesis follows the name. -/
theorem ensures_call (hparen : c.kindAt (s.position + 1) = .leftParen) :
    Ensures (call operand) c s Unlost fun _ after ↦ Took false c s after := by
  simp only [call, ensures_bind, ensures_discard, ensures_expect, ensures_here, ensures_advance]
  refine ⟨fun hname ↦ ?_, fun _ ↦ unlost_expected _ _⟩
  have hnext := Context.after_of_kindAt hname (by simp)
  have hstep : Took false c s (s.movedTo (c.after s.position)) := .step hname rfl
  refine (ensures_callee _).mono ?_
  rintro callee after rfl
  rw [← hnext] at hparen
  have hcloser : (c.kindAt (c.after s.position)).closer? = some .rightParen := by rw [hparen]; rfl
  refine (ensures_matchingClose hcloser).mono ?_
  rintro close _ ⟨rfl, hclose, hbound⟩
  have hfirst := Context.after_of_ne_eof (Kind.closer?_ne_eof hcloser).1
  have hsees : c.SeesTo close := Context.seesTo_of_closer (hclose ▸ hcloser)
  -- Both ways of reading the arguments end right after the parenthesis.
  have hrest : ∀ {rest : Check DataType},
      Ensures rest c (s.movedTo (c.after (c.after s.position))) Unlost (fun _ after ↦
        ∃ last, Took true c (s.movedTo (c.after (c.after s.position))) last ∧
          last.position = close ∧ after = last.movedTo (c.after close)) →
      Ensures rest c (s.movedTo (c.after (c.after s.position))) Unlost
        fun _ after ↦ Took false c s after := by
    intro rest hrest
    refine hrest.mono ?_
    rintro _ _ ⟨last, hlast, rfl, rfl⟩
    exact hstep.trans (.brackets hcloser (by simp [hparen]) hlast hclose)
  simp only [State.position_movedTo, State.movedTo_movedTo]
  split
  · refine hrest (ensures_declaredCall h hsees ?_ _ _)
    rwa [State.position_movedTo, hfirst]
  · refine hrest (ensures_builtinCall h hsees ?_ _ _)
    rwa [State.position_movedTo, hfirst]

end

/-! ### Operands -/

theorem ensures_valueSymbol (t : Token) :
    Ensures (valueSymbol t) c s Unlost fun _ after ↦ after = s := by
  simp only [valueSymbol, ensures_bind, ensures_resolve]
  split
  · split <;> simp
  · simp

theorem ensures_warn (name : String) (t : Token) :
    Ensures (warn name t) c s Unlost fun _ after ↦ Took false c s after :=
  ⟨.nil, rfl, rfl, rfl, rfl⟩

section

variable {operand : Nat → Check DataType} (h : TakePhrases operand)

include h

theorem ensures_nameType (symbol : Symbol) (t : Token) {after : Kind}
    (hafter : after = .eof ∨ c.kindAt s.position = after) :
    Ensures (nameType operand symbol t after) c s Unlost fun _ after ↦ Took false c s after := by
  have hcount : ∀ {k : Kind}, c.kindAt s.position = k → k.isPlain →
      Ensures (do
        if symbol.isConstant then violateAt (.constantReassignment symbol.name) t
        if symbol.isArray || symbol.type ≠ .int then violateAt (.countRequiresInt symbol.type) t
        discard advance
        return .int : Check DataType) c s Unlost fun _ after ↦ Took false c s after := by
    intro k hk hplain
    have hstep : Took false c s (s.movedTo (c.after s.position)) := .step hk hplain
    simp [hstep]
  unfold nameType
  split
  · exact takesPhrase_elementType h symbol t s
  · rw [ensures_bind]
    refine (takesPhrase_member symbol t s).mono fun m after hm ↦ ?_
    simp only [ensures_bind, ensures_ite, ensures_pure]
    exact ⟨fun _ ↦ hm, fun _ ↦ (ensures_warn _ _).mono fun _ _ hwarn ↦ hm.trans hwarn⟩
  · exact hcount (by simpa using hafter) rfl
  · exact hcount (by simpa using hafter) rfl
  · simp only [ensures_bind, ensures_ite, ensures_pure, ensures_violateAt]
    refine ⟨by simp, fun _ ↦ ⟨fun _ ↦ by simp, fun _ ↦ ?_⟩⟩
    exact ensures_warn _ _

theorem ensures_nameOperand (hname : c.kindAt s.position = .identifier) (stop : Nat) (t : Token) :
    Ensures (nameOperand operand stop t) c s Unlost fun _ after ↦ Took false c s after := by
  have hstep : Took false c s (s.movedTo (c.after s.position)) := .step hname rfl
  have hnext := Context.after_of_kindAt hname (by simp)
  -- What follows is looked at only inside the expression.
  have hrest : ∀ {after : Kind}, after = .eof ∨ c.kindAt (s.position + 1) = after →
      Ensures (do
        if after = .leftParen then
          let type ← call operand
          if type = .void then violateAt (.voidInExpression t.lexeme) t
          return type
        else
          let symbol ← valueSymbol t
          discard advance
          nameType operand symbol t after) c s Unlost fun _ after ↦ Took false c s after := by
    intro after hafter
    simp only [ensures_ite, ensures_bind, ensures_violateAt, ensures_pure, ensures_discard,
      ensures_advance]
    refine ⟨fun hparen ↦ ?_, fun _ ↦ ?_⟩
    · subst hparen
      refine (ensures_call h (by simpa using hafter)).mono fun _ _ hcall ↦ ?_
      exact ⟨by simp, fun _ ↦ hcall⟩
    · refine (ensures_valueSymbol t).mono ?_
      rintro symbol _ rfl
      refine (ensures_nameType h symbol t ?_).mono fun _ _ htype ↦ hstep.trans htype
      rwa [State.position_movedTo, hnext]
  simp only [nameOperand, ensures_bind, ensures_here, ensures_ite, ensures_secondKind,
    ensures_pure]
  exact ⟨fun _ ↦ by simpa using hrest (.inr rfl), fun _ ↦ by simpa using hrest (.inl rfl)⟩

theorem ensures_parenthesised (hparen : c.kindAt s.position = .leftParen) (stop : Nat) :
    Ensures (parenthesised operand stop) c s Unlost fun _ after ↦ Took false c s after := by
  have hcloser : (c.kindAt s.position).closer? = some .rightParen := by rw [hparen]; rfl
  simp only [parenthesised, ensures_bind, ensures_here, ensures_ite, ensures_violate,
    ensures_discard, ensures_advance, ensures_pure]
  refine (ensures_matchingClose hcloser).mono ?_
  rintro close _ ⟨rfl, hclose, hbound⟩
  exact ⟨by simp, fun _ ↦ ensures_inside h hcloser (by simp [hparen]) hclose hbound⟩

/-- What an operand takes in, given that what it contains takes in phrases. -/
theorem takePhrases_operandWith : TakePhrases (operandWith operand) := by
  intro c stop hsees s
  simp only [operandWith, ensures_bind, ensures_here, ensures_ite, ensures_violate, ensures_peek]
  refine ⟨by simp, fun hstart ↦ ?_⟩
  rw [hsees _ (Nat.lt_of_not_le hstart)]
  cases hliteral : DataType.ofLiteral? (c.kindAt s.position) with
  | some type =>
    have hstep : Took false c s (s.movedTo (c.after s.position)) :=
      .step rfl (isPlain_of_literal hliteral)
    simpa using hstep
  | none =>
    have hcount : ∀ {k : Kind}, c.kindAt s.position = k → k.isPlain →
        Ensures (do discard advance; requireInt (← target operand); return .int : Check DataType)
          c s Unlost fun _ after ↦ Took false c s after := by
      intro k hk hplain
      simp only [ensures_bind, ensures_discard, ensures_advance, ensures_pure]
      refine (takesPhrase_target h _).mono fun t after hafter ↦ ?_
      refine (ensures_requireInt t).mono ?_
      rintro _ _ rfl
      exact (Took.step hk hplain).trans hafter
    simp only
    split
    next hk => exact ensures_parenthesised h hk stop
    next hk =>
      simp only [ensures_bind, ensures_discard, ensures_advance, ensures_ite, ensures_violateAt,
        ensures_pure]
      refine (h c stop hsees _).mono fun found after hafter ↦ ⟨by simp, fun _ ↦ ?_⟩
      exact (Took.step hk rfl).trans hafter
    next hk => exact hcount hk rfl
    next hk => exact hcount hk rfl
    next hk => exact ensures_nameOperand h hk stop _
    all_goals simp

end

/-- Operands take in phrases on every level. -/
theorem takePhrases_operand (levels : Nat) : TakePhrases (operand levels) := by
  induction levels with
  | zero =>
    intro c stop _ s
    simp [operand, tooDeep]
  | succ levels ih => exact takePhrases_operandWith ih

/-- The walk over an expression that ends at a terminator takes in a phrase. -/
theorem takesPhrase_valueType (levels : Nat) {terminators : List Kind}
    (hterminators : ∀ k ∈ terminators, k.isPlain = false) :
    TakesPhrase c (valueType levels terminators) := by
  intro s
  rw [valueType, ensures_bind]
  refine (ensures_expressionEnd hterminators).mono ?_
  rintro stop _ ⟨rfl, hstop, hsees⟩
  exact (ensures_expressionWith_bounded (takePhrases_operand levels) hsees hstop).mono
    fun _ _ hafter ↦ hafter.1

end

end FrontEnd
