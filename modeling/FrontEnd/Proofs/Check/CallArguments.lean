import FrontEnd.Proofs.Check.Completion

/-!
# The arguments of a call

A call of a declared function splits what stands between its parentheses where the commas of the call
are, not those of calls, indices and parentheses inside of the arguments, and holds the arguments
against the parameters one by one.

That an argument is well-typed is said by the rules (`ValueAt`), and that the walk over it comes to its
end is `Completes`; what is added here is what the check does with arguments of any number and any
types.
-/

namespace FrontEnd

open Check

/-- What is reported of a call whose arguments are not as many as the parameters of the function, or of
which one has another type than its parameter: the first of those. -/
inductive Mismatch (name : Token) (parameters : List DataType) (found : List Argument) :
    SemanticError → Prop
  | count : found.length ≠ parameters.length →
    Mismatch name parameters found
      ⟨.argumentCount name.lexeme parameters.length found.length, name.position⟩
  | type {i : Nat} {type expected : DataType} {first : Token} :
    found.length = parameters.length → found[i]? = some (type, first) →
      parameters[i]? = some expected → type ≠ expected →
        (∀ k < i, (found.map Prod.fst)[k]? = parameters[k]?) →
          Mismatch name parameters found ⟨.argumentType (i + 1) expected type, first.position⟩

section

variable {c : Context} {s : State} {j levels : Nat} {info : FunctionInfo} {symbol : Symbol}
  {E : SemanticError → Prop} {args : List (DataType × Nat)}

/-! ### Signatures -/

/-- Two lists of one length that differ do so at a first index. -/
theorem exists_first_ne {α : Type} : ∀ {xs ys : List α}, xs.length = ys.length → xs ≠ ys →
    ∃ (i : Nat) (x y : α), xs[i]? = some x ∧ ys[i]? = some y ∧ x ≠ y ∧ ∀ k < i, xs[k]? = ys[k]?
  | [], [], _, hne => absurd rfl hne
  | x :: xs, y :: ys, hlength, hne => by
    by_cases hxy : x = y
    · subst hxy
      obtain ⟨i, x', y', hx, hy, hother, hbefore⟩ :=
        exists_first_ne (Nat.succ.inj hlength) fun hsame ↦ hne (congrArg (x :: ·) hsame)
      refine ⟨i + 1, x', y', hx, hy, hother, fun k hk ↦ ?_⟩
      cases k with
      | zero => rfl
      | succ k => exact hbefore k (Nat.lt_of_succ_lt_succ hk)
    · exact ⟨0, x, y, rfl, rfl, hxy, fun k hk ↦ absurd hk (Nat.not_lt_zero k)⟩

/-- The types are checked up to the first that is not that of its parameter. -/
theorem ensures_checkTypes_mismatch {Q : Unit → State → Prop} {found : DataType × Token}
    {expected : DataType} (hother : found.1 ≠ expected) :
    ∀ {i index : Nat} {arguments : List Argument} {parameters : List DataType},
      arguments[i]? = some found → parameters[i]? = some expected →
        (∀ k < i, (arguments.map Prod.fst)[k]? = parameters[k]?) →
          E ⟨.argumentType (index + i) expected found.1, found.2.position⟩ →
            Ensures (checkTypes index arguments parameters) c s E Q
  | 0, index, (type, first) :: arguments, parameter :: parameters, hfound, hexpected, _, hE => by
    cases hfound
    cases hexpected
    simp only [checkTypes, ensures_bind, ensures_ite, ensures_violateAt]
    exact ⟨fun _ ↦ hE, fun hsame ↦ absurd hother hsame⟩
  | i + 1, index, (type, first) :: arguments, parameter :: parameters, hfound, hexpected, hbefore, hE => by
    obtain rfl : type = parameter := Option.some.inj (hbefore 0 (Nat.succ_pos i))
    simp only [checkTypes, ensures_bind, ensures_ite, ensures_violateAt]
    refine ⟨fun hdiffers ↦ absurd rfl hdiffers, fun _ ↦ ?_⟩
    refine ensures_checkTypes_mismatch hother hfound hexpected
      (fun k hk ↦ hbefore (k + 1) (Nat.succ_lt_succ hk)) ?_
    rwa [Nat.add_assoc, Nat.add_comm 1]

variable {name : Token} {parameters : List DataType} {found : List Argument} {e : SemanticError}

theorem Mismatch.ne (h : Mismatch name parameters found e) : found.map Prod.fst ≠ parameters := by
  rintro rfl
  cases h with
  | count hcount => exact hcount (List.length_map _).symm
  | type _ hfound hexpected hother _ =>
    rw [List.getElem?_map, hfound] at hexpected
    exact hother (Option.some.inj hexpected)

/-- A mismatch is no limit. -/
theorem Mismatch.isLimit_eq_false (h : Mismatch name parameters found e) :
    e.violation.isLimit = false := by
  cases h <;> rfl

/-- The check of a signature passes where the types are those of the parameters, and reports what does
not match. -/
theorem ensures_signature_matches (name : Token) (found : List Argument) (parameters : List DataType) :
    Ensures (do checkArity name name.lexeme parameters.length found.length; checkTypes 1 found parameters)
      c s (Mismatch name parameters found) fun _ after ↦
        found.map Prod.fst = parameters ∧ after = s := by
  simp only [checkArity, ensures_bind, ensures_ite, ensures_violateAt, ensures_pure]
  refine ⟨.count, fun harity ↦ ?_⟩
  have hlength : found.length = parameters.length := Decidable.not_not.1 harity
  by_cases htypes : found.map Prod.fst = parameters
  · exact ensures_checkTypes_of_eq htypes 1 ⟨htypes, rfl⟩
  · obtain ⟨i, type, expected, hi, hexpected, hother, hbefore⟩ :=
      exists_first_ne ((List.length_map _).trans hlength) htypes
    rw [List.getElem?_map] at hi
    obtain ⟨argument, hargument, rfl⟩ := Option.map_eq_some_iff.1 hi
    refine ensures_checkTypes_mismatch hother hargument hexpected hbefore ?_
    rw [Nat.add_comm]
    exact .type hlength hargument hexpected hother hbefore

/-! ### Calls -/

/-- A call of a declared function with well-typed arguments in its parentheses. -/
structure CallAt (c : Context) (s : State) (info : FunctionInfo) (args : List (DataType × Nat))
    (j : Nat) : Prop where
  name : c.kindAt s.position = .identifier
  callee : ∃ symbol, s.arena.lookup c.scope (c.tokenAt s.position).lexeme = some symbol ∧
    symbol.functionInfo? = some info
  opens : c.kindAt (s.position + 1) = .leftParen
  inside : ArgumentsAt c.text (s.arena.names c.scope) args (s.position + 2) j
  closes : c.kindAt j = .rightParen

/-- The parameters' types of a function. -/
abbrev FunctionInfo.types (info : FunctionInfo) : List DataType :=
  info.parameters.map TypedName.type

/-- A call is accepted or reports what does not match, unless a limit is too small for it. -/
theorem CallAt.ensures_call (h : CallAt c s info args j) :
    Ensures (call (operand levels)) c s
      (fun e ↦ Exhausted levels c.limits.scan s.position (j + 1) e ∨
        Mismatch (c.tokenAt s.position) info.types (args.map (Prod.map id c.tokenAt)) e)
      fun type after ↦ args.map Prod.fst = info.types ∧ type = info.returns ∧
        Reached s (j + 1) after := by
  obtain ⟨symbol, hfound, hinfo⟩ := h.callee
  refine ensures_call_of (.declared info) h.name h.opens h.inside.phrase h.closes
    (fun e he ↦ .inl (he.exhausted (Nat.le_succ _) (Nat.lt_succ_self j)))
    (fun harena hQ ↦ ensures_callee_declared (harena ▸ hfound) hinfo hQ) ?_
  simp only [declaredCall, ensures_bind, ensures_discard, ensures_expectMark]
  refine (ensures_arguments_at (completesOperands_operand levels) (s := s.movedTo (s.position + 2)) rfl
    h.inside h.closes).imp (fun e he ↦ .inl (he.widen (by simp) (Nat.le_refl _))) ?_
  rintro _ after ⟨rfl, hafter⟩
  rw [hafter.position]
  refine ⟨fun _ ↦ ?_, fun hother ↦ absurd h.closes hother⟩
  have hnext := hafter.of_movedTo.next (c := c) (by simp [h.closes])
  rw [hafter.position] at hnext
  have hsignature := ensures_signature_matches (c := c) (s := after.movedTo (c.after j)) (c.tokenAt s.position)
    (args.map (Prod.map id c.tokenAt)) info.types
  rw [ensures_bind, List.length_map] at hsignature
  refine hsignature.imp (fun e he ↦ .inr he) fun _ _ htypes ↦ htypes.imp (fun e he ↦ .inr he) ?_
  rintro _ _ ⟨htypes, rfl⟩
  rw [List.map_map] at htypes
  exact ⟨htypes, rfl, hnext⟩

/-- A call whose arguments come to a limit comes to one. -/
theorem CallAt.atLimit_call (h : CallAt c s info args j)
    (hlimit : AtLimit ((arguments (operand levels) j).runFrom c (s.movedTo (s.position + 2))).1) :
    AtLimit ((call (operand levels)).runFrom c s).1 := by
  obtain ⟨symbol, hfound, hinfo⟩ := h.callee
  obtain ⟨e, he, hlimit⟩ := hlimit
  have hrun : Ensures (call (operand levels)) c s (fun e ↦ e.violation.isLimit) fun _ _ ↦ False := by
    refine ensures_call_of (.declared info) h.name h.opens h.inside.phrase h.closes
      (fun e he ↦ he.1) (fun harena hQ ↦ ensures_callee_declared (harena ▸ hfound) hinfo hQ) ?_
    simp only [declaredCall, ensures_bind]
    unfold Ensures
    split
    next hok => rw [hok] at he; cases he
    next herror => rw [herror] at he; cases he; exact hlimit
  cases hresult : ((call (operand levels)).runFrom c s).1 with
  | ok type => exact (hrun.of_ok hresult).elim
  | error e => exact ⟨e, rfl, hrun.of_error hresult⟩

/-- Calls take their arguments apart and hold them against the parameters exactly.

Take any state in which the name at hand stands for a declared function, and any expressions of which
the rules know the types, with commas between them in the parentheses behind the name, or none.  The
calls, indices and parentheses inside of the expressions may hold commas of their own.

A limit is reached only if it is smaller than the stretch of the call.  If none is, then just these
expressions are read as the arguments, each with its type and its first token.  The call is accepted if
and only if their types are those of the parameters; then it has the type the function returns, and the
walk is behind the closing parenthesis and has changed no table.  Otherwise a wrong number of arguments
is reported, or the first of them that has another type than its parameter. -/
theorem call_matches_arguments (levels : Nat) (h : CallAt c s info args j) :
    let name := c.tokenAt s.position
    let found := args.map (Prod.map id c.tokenAt)
    let split := (arguments (operand levels) j).runFrom c (s.movedTo (s.position + 2))
    let run := (call (operand levels)).runFrom c s
    (AtLimit run.1 → s.position + levels < j + 1 ∨ s.position + c.limits.scan < j + 1) ∧
    (¬ AtLimit run.1 →
      split.1 = .ok found ∧ split.2.position = j ∧
      ((∃ type, run.1 = .ok type) ↔ args.map Prod.fst = info.types) ∧
      (args.map Prod.fst = info.types →
        run.1 = .ok info.returns ∧ run.2.position = j + 1 ∧ SameTables s run.2) ∧
      (args.map Prod.fst ≠ info.types →
        ∃ e, run.1 = .error e ∧ Mismatch name info.types found e)) := by
  intro name found split run
  have hrun : Ensures (call (operand levels)) c s _ _ := h.ensures_call
  -- The walk over the arguments is looked at twice, on its own and as a part of the call.
  have hsplit : Ensures (arguments (operand levels) j) c (s.movedTo (s.position + 2)) _ _ :=
    ensures_arguments_at (completesOperands_operand levels) rfl h.inside h.closes
  have htypes : found.map Prod.fst = args.map Prod.fst := by
    rw [List.map_map]
    rfl
  refine ⟨?_, fun hlimits ↦ ?_⟩
  · rintro ⟨e, he, hlimit⟩
    rcases hrun.of_error he with hexhausted | hmismatch
    · exact hexhausted.2
    · rw [hmismatch.isLimit_eq_false] at hlimit
      cases hlimit
  · have hread : split.1 = .ok found ∧ split.2.position = j := by
      cases hresult : split.1 with
      | ok arguments =>
        obtain ⟨rfl, hreached⟩ := hsplit.of_ok hresult
        exact ⟨rfl, hreached.position⟩
      | error e =>
        exact absurd (h.atLimit_call ⟨e, hresult, (hsplit.of_error hresult).1⟩) hlimits
    refine ⟨hread.1, hread.2, ?_⟩
    cases hresult : run.1 with
    | ok type =>
      obtain ⟨hsame, rfl, hreached⟩ := hrun.of_ok hresult
      exact ⟨⟨fun _ ↦ hsame, fun _ ↦ ⟨_, rfl⟩⟩, fun _ ↦ ⟨rfl, hreached.position, hreached.tables⟩,
        fun hother ↦ absurd hsame hother⟩
    | error e =>
      rcases hrun.of_error hresult with hexhausted | hmismatch
      · exact absurd ⟨e, hresult, hexhausted.1⟩ hlimits
      · have hother := htypes ▸ hmismatch.ne
        exact ⟨⟨fun ⟨_, hok⟩ ↦ (by cases hok), fun hsame ↦ absurd hsame hother⟩,
          fun hsame ↦ absurd hsame hother, fun _ ↦ ⟨e, rfl, hmismatch⟩⟩

end

/-- The tokens of `g(f(1, 2), (t[0]), len(t))`. -/
def nestedCallTokens : List Token :=
  [⟨.identifier, "g", ⟨1, 1⟩⟩, ⟨.leftParen, "(", ⟨1, 2⟩⟩, ⟨.identifier, "f", ⟨1, 3⟩⟩,
    ⟨.leftParen, "(", ⟨1, 4⟩⟩, ⟨.intLit, "1", ⟨1, 5⟩⟩, ⟨.comma, ",", ⟨1, 6⟩⟩, ⟨.intLit, "2", ⟨1, 8⟩⟩,
    ⟨.rightParen, ")", ⟨1, 9⟩⟩, ⟨.comma, ",", ⟨1, 10⟩⟩, ⟨.leftParen, "(", ⟨1, 12⟩⟩,
    ⟨.identifier, "t", ⟨1, 13⟩⟩, ⟨.leftBracket, "[", ⟨1, 14⟩⟩, ⟨.intLit, "0", ⟨1, 15⟩⟩,
    ⟨.rightBracket, "]", ⟨1, 16⟩⟩, ⟨.rightParen, ")", ⟨1, 17⟩⟩, ⟨.comma, ",", ⟨1, 18⟩⟩,
    ⟨.identifier, "len", ⟨1, 20⟩⟩, ⟨.leftParen, "(", ⟨1, 23⟩⟩, ⟨.identifier, "t", ⟨1, 24⟩⟩,
    ⟨.rightParen, ")", ⟨1, 25⟩⟩, ⟨.rightParen, ")", ⟨1, 26⟩⟩]

/-- A function of some numbers. -/
def numbersFunction (parameters : List String) (returns : DataType) : FunctionInfo :=
  ⟨returns, parameters.map fun name ↦ ⟨name, .int, .start⟩, 1, ⟨0, 0⟩, false, false⟩

/-- Two functions and an array. -/
def nestedCallState : State :=
  { State.initial with
    arena := ⟨#[⟨"global", none,
      [.ofFunction "g" (numbersFunction ["a", "b", "c"] .bool) .start,
        .ofFunction "f" (numbersFunction ["a", "b"] .int) .start,
        { Symbol.ofVariable "t" .int .start with array := some [.literal 2] }]⟩]⟩ }

/-- The only index is within its dimension. -/
theorem nestedCall_faultless : (Context.top .default nestedCallTokens).text.Faultless
    (nestedCallState.arena.names 0) 2 20 := by
  have hdivision : ∀ k < 20, ((Context.top .default nestedCallTokens).kindAt k).isDivision = false := by
    decide
  have harrays : ∀ k < 20, (Context.top .default nestedCallTokens).kindAt k = .identifier →
      (nestedCallState.arena.names 0
        ((Context.top .default nestedCallTokens).tokenAt k).lexeme).any Symbol.isArray →
        k = 10 ∨ k = 18 := by
    decide +kernel
  have harray : (nestedCallState.arena.names 0 "t").bind Symbol.array = some [.literal 2] := by
    decide +kernel
  refine ⟨fun k _ hk hdivides ↦ ?_, fun k symbol sizes m _ hk hname hsizes hindices ↦ ?_⟩
  · simp [hdivision k hk] at hdivides
  · have hsome : (nestedCallState.arena.names 0
        ((Context.top .default nestedCallTokens).tokenAt k).lexeme).any Symbol.isArray := by
      rw [show nestedCallState.arena.names 0 _ = some symbol from hname.2, Option.any_some,
        Symbol.isArray, hsizes]
      rfl
    rcases harrays k hk hname.1 hsome with rfl | rfl
    · rw [show nestedCallState.arena.names 0 "t" = some symbol from hname.2, Option.bind_some,
        hsizes] at harray
      cases harray
      cases hindices with | index hopen hvalue hclose hrest => ?_
      cases hrest
      refine ⟨hopen, .cons hopen hvalue hclose (fun n hn _ _ v hv ↦ ?_) .nil⟩
      cases hn
      have hzero : Text.integer? "0" = some 0 := by decide
      obtain rfl : 0 = v := Option.some.inj (hzero.symm.trans hv)
      decide
    · obtain ⟨size, sizes, rfl⟩ : ∃ size rest, sizes = size :: rest := by
        rw [show nestedCallState.arena.names 0 "t" = some symbol from hname.2, Option.bind_some,
          hsizes] at harray
        exact ⟨_, _, Option.some.inj harray⟩
      cases hindices with | index hopen => cases hopen

/-- A call, an element in parentheses and the length of an array, with commas between them. -/
theorem nestedCall_arguments : ArgumentsAt (Context.top .default nestedCallTokens).text
    (nestedCallState.arena.names 0) [(.int, 2), (.int, 9), (.int, 16)] 2 20 := by
  set text := (Context.top .default nestedCallTokens).text
  set names := nestedCallState.arena.names 0
  have hf : names "f" = some (Symbol.ofFunction "f" (numbersFunction ["a", "b"] .int) .start).declared := by
    decide +kernel
  let t : Symbol := { Symbol.ofVariable "t" .int .start with array := some [.literal 2] }
  have ht : names "t" = some t.declared := by decide +kernel
  have hlen : names "len" = none := by decide +kernel
  have hvalue {i j : Nat} (h : Typed text names (.operand .int) i j) : Typed text names (.value .int) i j :=
    .value (.one h (by decide))
  have hliteral {i : Nat} (h : text.kind i = .intLit) : Typed text names (.operand .int) i (i + 1) :=
    .literal (by rw [h]; rfl)
  have hwell {i j : Nat} (h : Typed text names (.operand .int) i j) (hi : 2 ≤ i) (hj : j ≤ 20) :
      ValueAt text names .int i j :=
    ⟨hvalue h, nestedCall_faultless.mono hi hj⟩
  have hcall : Typed text names (.call (numbersFunction ["a", "b"] .int).returns) 2 8 :=
    .declared ⟨rfl, hf⟩ rfl rfl
      (.arguments (.nextValue (.firstValue (hvalue (hliteral rfl))) rfl (hvalue (hliteral rfl)))) rfl
  have hplace : Typed text names (.place t.declared t.declared.type) 10 14 :=
    .element ⟨rfl, ht⟩ rfl rfl (.index rfl (hvalue (hliteral rfl)) rfl .noIndex)
  have helement : Typed text names (.operand .int) 9 15 := .parenthesised rfl (hvalue (.read hplace)) rfl
  have hlength : Typed text names (.operand .int) 16 20 :=
    .result (.lengthOfArray rfl hlen rfl rfl ⟨rfl, ht⟩ rfl rfl)
  exact .some (.cons (hwell (.result hcall) (by decide) (by decide)) rfl
    (.cons (hwell helement (by decide) (by decide)) rfl (.last (hwell hlength (by decide) (by decide)))))

theorem call_matches_arguments_nestedCall :
    ((call (operand 32)).runFrom (.top .default nestedCallTokens) nestedCallState).1 = .ok .bool := by
  have hcall : CallAt (.top .default nestedCallTokens) nestedCallState
      (numbersFunction ["a", "b", "c"] .bool) [(.int, 2), (.int, 9), (.int, 16)] 20 :=
    ⟨rfl, ⟨.ofFunction "g" (numbersFunction ["a", "b", "c"] .bool) .start, by decide +kernel, rfl⟩, rfl,
      nestedCall_arguments, rfl⟩
  obtain ⟨hlimit, hmatches⟩ := call_matches_arguments 32 hcall
  obtain ⟨-, -, -, haccepted, -⟩ := hmatches fun h ↦ absurd (hlimit h) (by decide)
  exact (haccepted rfl).1

end FrontEnd
