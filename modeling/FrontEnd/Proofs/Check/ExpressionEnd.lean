import FrontEnd.Proofs.Check.Operands
import FrontEnd.Proofs.Check.Traced

/-!
# Where expressions end

An expression is typed up to an index that a search ahead has found before it: the end of a value,
the closing bracket around it or, in a call, the end of an argument.  The searches count brackets in
two ways, and what stands inside an expression looks for its own closing brackets without regard to
that index.  On tokens whose brackets do not match these answers differ.

Still no expression that is typed runs past its end or stops short of it (`expressions_end_exactly`).
It cannot stop short, since that is refused.  It cannot run past: what it takes in is a `Phrase`, and
neither search ends inside one.  `ExpressionTo` lists where expressions are typed and up to where, and
`FindsEnds` says that the checks type them there and nowhere else.
-/

namespace FrontEnd

open Check

/-! ### Expressions and their ends -/

/-- A state stands behind an opening bracket, which is closed at an index. -/
def Context.Closes (c : Context) (s : State) (close : Nat) : Prop :=
  ∃ opening, s.position = opening + 1 ∧ ∀ t, (matchingClose opening).runFrom c t = (.ok close, t)

/-- The states in which a check comes to the arguments of a call, one after another. -/
inductive ComesToArgument (operand : Nat → Check DataType) (c : Context) (close : Nat) (start : State) :
    State → Prop
  | first : ComesToArgument operand c close start start
  | next {s t : State} {before arguments : List Argument} :
    ComesToArgument operand c close start s →
      (argumentRound operand close before).runFrom c s = (.ok (.yield arguments), t) →
        ComesToArgument operand c close start t

/-- In a state a check types an expression up to an index, which a search ahead has found. -/
inductive ExpressionTo (levels : Nat) (c : Context) (s : State) : Nat → Prop
  | value {terminators : List Kind} {stop : Nat} :
    (∀ k ∈ terminators, k = .comma ∨ k = .rightParen) →
      (expressionEnd terminators).runFrom c s = (.ok stop, s) → ExpressionTo levels c s stop
  | inside {stop : Nat} : c.Closes s stop → ExpressionTo levels c s stop
  | argument {start : State} {close stop : Nat} :
    c.Closes start close → ComesToArgument (operand levels) c close start s →
      (expressionEnd [.comma]).runFrom c s = (.ok stop, s) → ExpressionTo levels c s (min stop close)

/-- A check types one expression: what it does before finds the end. -/
def TypesExpression {α : Type} (levels : Nat) (x : Check α) (c : Context) (s : State) : Prop :=
  ∃ (β : Type) (before : Check (Nat × β)) (rest : Nat × β → DataType → Check α),
    (x = do
      let found ← before
      let type ← expressionType levels found.1
      rest found type) ∧
    ∀ found t, before.runFrom c s = (.ok found, t) → ExpressionTo levels c t found.1

/-- A call up to its arguments: the name, what it calls, and where it is closed. -/
def callHead : Check (Token × Callee × Nat) := do
  let name ← expect .identifier .functionName
  let callee ← callee name
  let close ← matchingClose (← here)
  discard advance
  return (name, callee, close)

/-- The rest of a call, from its arguments on. -/
def callTail (operand : Nat → Check DataType) : Token × Callee × Nat → Check DataType
  | (name, .declared info, close) => declaredCall operand info name close
  | (name, .builtin b, close) => builtinCall operand b name close

/-- A statement that prints values, up to the values: where they end. -/
def printHead : Check Nat := do
  discard advance
  let opening ← here
  discard <| expectMark .leftParen
  matchingClose opening

/-- The checks that type expressions, each in a state in which one is made, find their ends.  Those
that read arguments find the closing parenthesis before the first one. -/
structure FindsEnds (levels : Nat) (c : Context) (s : State) : Prop where
  value : ∀ terminators, (∀ k ∈ terminators, k = .comma ∨ k = .rightParen) →
    TypesExpression levels (valueType levels terminators) c s
  condition : TypesExpression levels (inParentheses levels) c s
  parenthesised : ∀ stop, TypesExpression levels (parenthesised (operand levels) stop) c s
  index : ∀ size, TypesExpression levels (oneIndex (operand levels) size) c s
  argument : ∀ start close before, c.Closes start close →
    ComesToArgument (operand levels) c close start s →
      TypesExpression levels (argumentRound (operand levels) close before) c s
  call : call (operand levels) = callHead >>= callTail (operand levels) ∧
    ∀ found t, callHead.runFrom c s = (.ok found, t) → c.Closes t found.2.2
  print :
    (printStatement levels = do
      discard <| arguments (operand levels) (← printHead)
      discard <| expectMark .rightParen
      discard <| expectMark .semicolon) ∧
    ∀ close t, printHead.runFrom c s = (.ok close, t) → c.Closes t close

/-- What is typed up to an index ends there: the walk went forward to the index, over brackets that
are closed by their own sort, and at no moment was it further. -/
structure EndsExactly (c : Context) (s : State) (stop : Nat) (t : State) (past : List Moment) : Prop where
  forward : s.position < stop
  position : t.position = stop
  nested : Phrase c.kindAt false s.position stop
  admitted : ∀ i, s.position ≤ i → i < stop →
    c.kindAt i ∉ [.leftBrace, .rightBrace, .semicolon, .eof]
  within : ∀ m ∈ past, s.position ≤ m.state.position ∧ m.state.position ≤ stop

/-- The rules of a walk that never goes back. -/
def Rules.forward : Rules :=
  ⟨fun _ s t ↦ s.position ≤ t.position, fun _ _ ↦ True⟩

section

variable {α : Type} {levels stop close i : Nat} {c : Context} {s t start : State} {x : Check α}
  {past : List Moment} {type : DataType} {operand : Nat → Check DataType}

/-! ### Walks go forward -/

theorem Context.le_after_self (c : Context) (i : Nat) : i ≤ c.after i := by
  unfold Context.after
  split <;> omega

instance : Rules.forward.Reading where
  passed := Context.le_after_self _ _
  warned _ := Nat.le_refl _

/-- Every moment of a walk that never goes back lies between its two ends. -/
theorem Trace.between (h : Trace .forward c s past t) : s.position ≤ t.position ∧
    ∀ m ∈ past, s.position ≤ m.state.position ∧ m.state.position ≤ t.position := by
  induction h with
  | nil => simp
  | lookup _ name ih =>
    refine ⟨ih.1, fun m hm ↦ ?_⟩
    obtain rfl | hm := List.mem_cons.1 hm
    · exact ⟨ih.1, Nat.le_refl _⟩
    · exact ih.2 m hm
  | @change c s t u past _ hchange ih =>
    have hchange : t.position ≤ u.position := hchange
    refine ⟨Nat.le_trans ih.1 hchange, fun m hm ↦ ?_⟩
    obtain rfl | hm := List.mem_cons.1 hm
    · exact ⟨Nat.le_trans ih.1 hchange, Nat.le_refl _⟩
    · exact ⟨(ih.2 m hm).1, Nat.le_trans (ih.2 m hm).2 hchange⟩
  | inside _ _ _ ih ihinner =>
    refine ⟨Nat.le_trans ih.1 ihinner.1, fun m hm ↦ ?_⟩
    obtain hm | hm := List.mem_append.1 hm
    · exact ⟨Nat.le_trans ih.1 (ihinner.2 m hm).1, (ihinner.2 m hm).2⟩
    · exact ⟨(ih.2 m hm).1, Nat.le_trans (ih.2 m hm).2 ihinner.1⟩
  | @inScope c s t u past inner _ label _ ih ihinner =>
    have hinner : t.position ≤ u.position := ihinner.1
    have hall : s.position ≤ u.position := Nat.le_trans ih.1 hinner
    refine ⟨hall, fun m hm ↦ ?_⟩
    obtain rfl | hm := List.mem_cons.1 hm
    · exact ⟨hall, Nat.le_refl _⟩
    obtain hm | hm := List.mem_append.1 hm
    · exact ⟨Nat.le_trans ih.1 (ihinner.2 m hm).1, (ihinner.2 m hm).2⟩
    obtain rfl | hm := List.mem_cons.1 hm
    · exact ⟨ih.1, hinner⟩
    · exact ⟨(ih.2 m hm).1, Nat.le_trans (ih.2 m hm).2 hinner⟩

/-- An expression is not typed where it has ended already. -/
theorem ensures_expressionWith_lt :
    Ensures (expressionWith operand stop) c s (fun _ ↦ True) fun _ _ ↦ s.position < stop := by
  by_cases hstart : s.position < stop
  · exact (ensures_runs _ c s).mono fun _ _ _ ↦ hstart
  · simp only [expressionWith, ensures_bind, ensures_here, ensures_ite, ensures_violate]
    exact ⟨fun _ ↦ trivial, fun h ↦ absurd (Nat.lt_of_not_le h) hstart⟩

/-! ### What the searches find -/

/-- A check that moves nothing where it succeeds runs to the state it started from. -/
theorem Ensures.still {E : SemanticError → Prop} {Q : α → Prop}
    (h : Ensures x c s E fun a after ↦ after = s ∧ Q a) :
    Ensures x c s (fun _ ↦ True) fun a after ↦ after = s ∧ x.runFrom c s = (.ok a, s) := by
  refine ((ensures_runs x c s).and h).mono ?_
  rintro a _ ⟨hrun, rfl, -⟩
  exact ⟨rfl, hrun⟩

theorem not_plain_of_terminator {terminators : List Kind}
    (h : ∀ k ∈ terminators, k = .comma ∨ k = .rightParen) : ∀ k ∈ terminators, k.isPlain = false := by
  intro k hk
  rcases h k hk with rfl | rfl <;> rfl

/-- What is found for a bracket does not depend on where the search is made. -/
theorem ensures_matchingClose_closes : Ensures (matchingClose i) c s (fun _ ↦ True) fun close after ↦
    after = s ∧ c.kindAt i ≠ .eof ∧ ∀ t, t.position = i + 1 → c.Closes t close := by
  cases hcloser : (c.kindAt i).closer? with
  | none => simp [matchingClose, hcloser]
  | some closing =>
    refine (ensures_matchingClose_iff hcloser).2
      ⟨fun close hfound ↦ ⟨rfl, fun heof ↦ ?_, fun t ht ↦ ⟨i, ht, fun u ↦ Ensures.run_eq ?_⟩⟩,
        fun _ ↦ trivial, fun _ ↦ trivial⟩
    · rw [heof] at hcloser
      cases hcloser
    · exact (ensures_matchingClose_iff hcloser).2
        ⟨fun k hk ↦ ⟨Search.found.inj (hk.symm.trans hfound), rfl⟩, by simp [hfound], by simp [hfound]⟩

/-- A closing bracket is there, and no phrase behind the opening one runs past it. -/
theorem Context.Closes.bound (h : c.Closes s close) :
    c.SeesTo close ∧ ∀ j, Phrase c.kindAt true s.position j → j ≤ close := by
  obtain ⟨opening, hs, hfound⟩ := h
  rw [hs]
  cases hcloser : (c.kindAt opening).closer? with
  | none =>
    have hlost : Ensures (matchingClose opening) c s (fun _ ↦ True) fun _ _ ↦ False := by
      simp [matchingClose, hcloser]
    exact (hlost.of_run (hfound s)).elim
  | some closing =>
    obtain ⟨-, hclose, hbound⟩ := (ensures_matchingClose hcloser).of_run (hfound s)
    exact ⟨Context.seesTo_of_closer (hclose ▸ hcloser), hbound⟩

/-- Between two arguments of a call stand the first ones with commas behind them. -/
theorem ComesToArgument.took (h : ComesToArgument (Check.operand levels) c close start s)
    (hcall : c.Closes start close) : Took true c start s := by
  obtain ⟨hsees, hbound⟩ := hcall.bound
  induction h with
  | first => exact .refl true c start
  | next _ hrun ih =>
    exact ih.trans ((ensures_argumentRound_took (takePhrases_operand levels) hsees
      (fun j hj ↦ hbound j (ih.phrase.trans hj)) _).of_run hrun)

/-- No phrase runs past the end that is found for an expression, and the tokens go as far. -/
theorem ExpressionTo.bounds (h : ExpressionTo levels c s stop) :
    Bounds c.kindAt s.position stop ∧ (s.position < stop → c.SeesTo stop) := by
  cases h with
  | @value terminators stop hterminators hrun =>
    exact ((ensures_expressionEnd (not_plain_of_terminator hterminators)).of_run hrun).2
  | inside hcloses =>
    obtain ⟨hsees, hbound⟩ := hcloses.bound
    exact ⟨fun j hj ↦ hbound j hj.withCommas, fun _ ↦ hsees⟩
  | @argument start close stop hcall hcomes hrun =>
    obtain ⟨hsees, hbound⟩ := hcall.bound
    obtain ⟨-, hend, -⟩ := (ensures_expressionEnd (by simp [Kind.isPlain])).of_run hrun
    exact ⟨hend.min fun j hj ↦ hbound j ((hcomes.took hcall).phrase.trans hj.withCommas),
      fun _ ↦ hsees.mono (Nat.min_le_right ..)⟩

/-- What is typed up to the end that is found for it ends there. -/
theorem ExpressionTo.endsExactly (h : ExpressionTo levels c s stop)
    (hrun : (expressionType levels stop).runFrom c s = (.ok type, t)) :
    EndsExactly c s stop t ((expressionType levels stop).momentsFrom c s) := by
  obtain ⟨hbounds, hsees⟩ := h.bounds
  obtain ⟨htook, rfl⟩ :=
    (ensures_expressionWith_bounded (takePhrases_operand levels) hsees hbounds).of_run hrun
  have htrace : Trace .forward c s _ _ := Traced.expressionType levels t.position c s
  rw [show (expressionType levels t.position).leaves c s = t from congrArg Prod.snd hrun] at htrace
  exact ⟨ensures_expressionWith_lt.of_run hrun, rfl, htook.phrase, fun _ ↦ htook.phrase.not_mem,
    htrace.between.2⟩

/-! ### Where the checks type expressions -/

/-- What is known wherever the part before an expression succeeds shows that it finds the end. -/
theorem TypesExpression.of_ensures {β : Type} (before : Check (Nat × β))
    (rest : Nat × β → DataType → Check α)
    (hx : x = do
      let found ← before
      let type ← expressionType levels found.1
      rest found type)
    (h : Ensures before c s (fun _ ↦ True) fun found after ↦ ExpressionTo levels c after found.1) :
    TypesExpression levels x c s :=
  ⟨β, before, rest, hx, fun _ _ hrun ↦ h.of_run hrun⟩

/-- The checks that type expressions find their ends before. -/
theorem findsEnds (levels : Nat) (c : Context) (s : State) : FindsEnds levels c s where
  value terminators hterminators := by
    refine .of_ensures (do return (← expressionEnd terminators, ())) (fun _ type ↦ return type)
      (by simp [valueType]) ?_
    simp only [ensures_bind, ensures_pure]
    refine (ensures_expressionEnd (not_plain_of_terminator hterminators)).still.mono ?_
    rintro stop _ ⟨rfl, hrun⟩
    exact .value hterminators hrun
  condition := by
    refine .of_ensures (do
      let opening ← here
      let t ← expectMark .leftParen
      return (← matchingClose opening, t)) (fun found type ↦ do
        discard <| expectMark .rightParen
        return (type, found.2)) (by simp [inParentheses]) ?_
    simp only [ensures_bind, ensures_here, ensures_expectMark, ensures_pure]
    refine ⟨fun hopen ↦ ensures_matchingClose_closes.mono ?_, fun _ ↦ trivial⟩
    rintro close after ⟨rfl, hne, hcloses⟩
    exact .inside (hcloses _ (Context.after_of_kindAt rfl hne))
  parenthesised stop := by
    refine .of_ensures (do
      let close ← matchingClose (← here)
      if close ≥ stop then violate (.unclosed .leftParen)
      discard advance
      return (close, ())) (fun _ type ↦ do
        discard advance
        return type) ?_ ?_
    · simp only [Check.parenthesised, expressionType, bind_assoc]
      refine bind_congr fun opening ↦ bind_congr fun close ↦ ?_
      split <;> simp
    · simp only [ensures_bind, ensures_here, ensures_ite, ensures_violate, ensures_discard,
        ensures_advance, ensures_pure]
      refine ensures_matchingClose_closes.mono ?_
      rintro close after ⟨rfl, hne, hcloses⟩
      exact ⟨fun _ ↦ trivial, fun _ ↦ .inside (hcloses _ (Context.after_of_kindAt rfl hne))⟩
  index size := by
    refine .of_ensures (do
      let close ← matchingClose (← here)
      discard advance
      let index ← peek
      if close = (← here) + 1 then checkLiteralIndex index size
      return (close, index)) (fun found type ↦ do
        if type ≠ .int then violateAt (.indexType type) found.2
        discard advance) ?_ ?_
    · simp only [oneIndex, expressionType, bind_assoc]
      refine bind_congr fun opening ↦ bind_congr fun close ↦ bind_congr fun _ ↦
        bind_congr fun index ↦ bind_congr fun first ↦ ?_
      split <;> simp
    · simp only [ensures_bind, ensures_here, ensures_peek, ensures_ite, ensures_discard,
        ensures_advance, ensures_pure]
      refine ensures_matchingClose_closes.mono ?_
      rintro close after ⟨rfl, hne, hcloses⟩
      have hinside := hcloses (after.movedTo _) (Context.after_of_kindAt rfl hne)
      refine ⟨fun _ ↦ (ensures_checkLiteralIndex _ size).imp (fun _ _ ↦ trivial) fun _ _ hsame ↦ ?_,
        fun _ ↦ .inside hinside⟩
      rw [hsame]
      exact .inside hinside
  -- An argument ends at its comma, or at the parenthesis of the call if that comes first.
  argument start close before hcall hcomes := by
    refine .of_ensures (do
      let first ← peek
      let stop := min (← expressionEnd [.comma]) close
      return (stop, first)) (fun found type ↦ do
        let arguments := before ++ [(type, found.2)]
        if (← here) = close then return .done arguments
        discard <| expect .comma (.eitherMark .comma .rightParen)
        return .yield arguments) (by simp [argumentRound, expressionType]) ?_
    simp only [ensures_bind, ensures_peek, ensures_pure]
    refine (ensures_expressionEnd (by simp [Kind.isPlain])).still.mono ?_
    rintro stop _ ⟨rfl, hrun⟩
    exact .argument hcall hcomes hrun
  call := by
    refine ⟨?_, fun found t hrun ↦ ?_⟩
    · simp only [Check.call, callHead, bind_assoc, pure_bind]
      refine bind_congr fun name ↦ bind_congr fun callee ↦ bind_congr fun opening ↦
        bind_congr fun close ↦ bind_congr fun _ ↦ ?_
      -- Declared and built-in functions are called by the same head.
      cases callee <;> rfl
    suffices hhead : Ensures callHead c s (fun _ ↦ True) fun found after ↦ c.Closes after found.2.2 from
      hhead.of_run hrun
    simp only [callHead, ensures_bind, ensures_expect, ensures_here, ensures_discard, ensures_advance,
      ensures_pure]
    refine ⟨fun _ ↦ (ensures_runs _ c _).mono fun callee u _ ↦ ?_, fun _ ↦ trivial⟩
    refine ensures_matchingClose_closes.mono ?_
    rintro close after ⟨rfl, hne, hcloses⟩
    exact hcloses _ (Context.after_of_kindAt rfl hne)
  print := by
    refine ⟨by simp [printStatement, printHead], fun close t hrun ↦ ?_⟩
    suffices hhead : Ensures printHead c s (fun _ ↦ True) fun close after ↦ c.Closes after close from
      hhead.of_run hrun
    simp only [printHead, ensures_bind, ensures_here, ensures_discard, ensures_advance,
      ensures_expectMark]
    refine ⟨fun _ ↦ ensures_matchingClose_closes.mono ?_, fun _ ↦ trivial⟩
    rintro close after ⟨rfl, hne, hcloses⟩
    exact hcloses _ (Context.after_of_kindAt rfl hne)

/-- Every expression is typed up to an end that was found before, whatever the tokens are, and a type
is only found for one that ends exactly there. -/
theorem expressions_end_exactly (levels : Nat) (c : Context) (s : State) :
    FindsEnds levels c s ∧
    ∀ stop type t, ExpressionTo levels c s stop →
      (expressionType levels stop).runFrom c s = (.ok type, t) →
        EndsExactly c s stop t ((expressionType levels stop).momentsFrom c s) :=
  ⟨findsEnds levels c s, fun _ _ _ h hrun ↦ h.endsExactly hrun⟩

end

/-- The tokens of `(1 + 2) * 3 ]`, of which the last bracket is open nowhere. -/
def groupTokens : List Token :=
  [⟨.leftParen, "(", ⟨1, 1⟩⟩, ⟨.intLit, "1", ⟨1, 2⟩⟩, ⟨.plus, "+", ⟨1, 4⟩⟩, ⟨.intLit, "2", ⟨1, 6⟩⟩,
    ⟨.rightParen, ")", ⟨1, 7⟩⟩, ⟨.star, "*", ⟨1, 9⟩⟩, ⟨.intLit, "3", ⟨1, 11⟩⟩,
    ⟨.rightBracket, "]", ⟨1, 13⟩⟩]

theorem expressions_end_exactly_group :
    (expressionEnd []).runFrom (.top .default groupTokens) .initial = (.ok 7, .initial) ∧
    ((expressionType 2 7).runFrom (.top .default groupTokens) .initial).2.position = 7 ∧
    Phrase (Context.top .default groupTokens).kindAt false 0 7 := by
  have hend : (expressionEnd []).runFrom (.top .default groupTokens) .initial = (.ok 7, .initial) := rfl
  have htype : ((expressionType 2 7).runFrom (.top .default groupTokens) .initial).1 = .ok .int := rfl
  have hexact := (expressions_end_exactly 2 (.top .default groupTokens) .initial).2 7 .int _
    (.value (by simp) hend) (Prod.ext htype rfl)
  exact ⟨hend, hexact.position, hexact.nested⟩

end FrontEnd
