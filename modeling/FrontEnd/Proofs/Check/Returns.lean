import FrontEnd.Proofs.Check.ControlWords
import FrontEnd.Proofs.Check.Underway
import FrontEnd.Proofs.Typing.Returns

/-!
# What is recorded of returns

The flag that the check of a body leaves says whether a word that returns stands in the body
(`ensures_bodyStatements_returns`), and that is what the symbol of the function is given.  No later round
changes it, since every function has one word that starts it and the walk passes each word once
(`Told`).  So in the table of an accepted program a function is said to return exactly if its text does.

What each return returns is a matter of the text (`WellTypedFrom.returnsFrom`).
-/

namespace FrontEnd

open Check

/-- Whether a word that returns stands in a body. -/
def Context.returnsIn (c : Context) (body : BodyRange) : Bool :=
  body.tokens.any fun k ↦ c.kindAt k == .returnWord

/-- A function of which it is known whether its body returns. -/
def Context.told (c : Context) (info : FunctionInfo) : FunctionInfo :=
  { info with hasReturn := c.returnsIn info.body }

/-- It is known of a function whether its body returns, and it lacks no return. -/
structure ToldOf (c : Context) (s : State) (name : String) (info : FunctionInfo) : Prop where
  info? : s.arena.info? name = some (c.told info)
  returns : ¬ info.lacksReturn (c.returnsIn info.body)

/-- In the walk over the bodies: of each function whose word was passed it is known whether its body
returns. -/
def Told (c : Context) (f s : State) : Prop :=
  ∀ word name info, word < s.position → HeaderAt c word name info →
    f.headers.lookup word = some name.lexeme → Recorded f name info → ToldOf c s name.lexeme info

section

variable {c : Context} {f s t : State} {name : String} {info : FunctionInfo} {body : BodyRange}

theorem BodyRange.mem_tokens {k : Nat} :
    k ∈ body.tokens ↔ body.start ≤ k ∧ k ≤ body.start + (body.stop - body.start) := by
  rw [BodyRange.tokens, List.mem_range'_1]
  omega

theorem Context.returnsIn_iff : c.returnsIn body = true ↔
    ∃ k ∈ body.tokens, c.kindAt k = .returnWord := by
  simp [Context.returnsIn]

/-- The brace that closes a body does not return. -/
theorem BodyRange.mem_tokens_of_closes {k : Nat} (hle : body.start ≤ body.stop)
    (hclose : c.kindAt body.stop = .rightBrace) (hk : c.kindAt k = .returnWord)
    (hmem : k ∈ body.tokens) : body.start ≤ k ∧ k < body.stop := by
  obtain ⟨hstart, hstop⟩ := BodyRange.mem_tokens.1 hmem
  refine ⟨hstart, Nat.lt_of_le_of_ne (by omega) ?_⟩
  rintro rfl
  cases hclose.symm.trans hk

theorem Context.returnsIn_iff_of_closes (hle : body.start ≤ body.stop)
    (hclose : c.kindAt body.stop = .rightBrace) : c.returnsIn body = true ↔
      ∃ k, body.start ≤ k ∧ k < body.stop ∧ c.kindAt k = .returnWord := by
  rw [Context.returnsIn_iff]
  constructor
  · rintro ⟨k, hmem, hk⟩
    obtain ⟨hstart, hstop⟩ := BodyRange.mem_tokens_of_closes hle hclose hk hmem
    exact ⟨k, hstart, hstop, hk⟩
  · rintro ⟨k, hstart, hstop, hk⟩
    exact ⟨k, BodyRange.mem_tokens.2 ⟨hstart, by omega⟩, hk⟩

/-! ### The flag behind a body -/

/-- Behind the statements of a body the flag says whether one of them returns. -/
theorem ensures_bodyStatements_returns (hc : c.Closed) (name : String) (info : FunctionInfo)
    (s : State) :
    Ensures (bodyStatements name info) c s (fun _ ↦ True) fun _ after ↦
      after.position = info.body.stop ∧ after.sawReturn = c.returnsIn info.body := by
  refine (ensures_bodyStatements_noted hc name info).mono fun _ after ⟨hstop, hclose, hnoted⟩ ↦ ?_
  refine ⟨hstop, Bool.eq_iff_iff.2 ?_⟩
  have hreturns := hnoted.sawReturn
  rw [hstop] at hreturns
  rw [Context.returnsIn_iff_of_closes (hstop ▸ hnoted.le) hclose]
  exact hreturns.trans (or_iff_right Bool.false_ne_true)

/-- The signature of a function is read and nothing changes. -/
theorem ensures_signature_same (name : String) (c : Context) (s : State) :
    Ensures (signature name) c s (fun _ ↦ True) fun _ after ↦ after = s := by
  simp only [signature, ensures_bind, ensures_get]
  split
  · split
    · exact rfl
    · trivial
  · trivial

/-- The check of a recorded function: that of its statements and, if it meets no error, whether a
return is missing. -/
theorem runFrom_functionBody (hc : c.Closed) {p : Position}
    (hsignature : (signature name).runFrom c s = (.ok (info, p), s)) :
    ((functionBody name).runFrom c s).1 = match ((bodyStatements name info).runFrom c s).1 with
      | .error e => .error e
      | .ok () => if info.lacksReturn (c.returnsIn info.body) then
          .error ⟨.missingReturn name info.returns, p⟩ else .ok () := by
  have hresult {r : Except SemanticError Unit} (h : Ensures (functionBody name) c s
      (fun e ↦ r = .error e) fun _ _ ↦ r = .ok ()) : ((functionBody name).runFrom c s).1 = r := by
    unfold Ensures at h
    split at h
    next hrun => rw [hrun, h]
    next hrun => rw [hrun, h]
  refine hresult ((ensures_functionBody_iff hsignature).2 ?_)
  have hreturns := ensures_bodyStatements_returns hc name info s
  unfold Ensures at hreturns ⊢
  cases hrun : (bodyStatements name info).runFrom c s with
  | mk result after =>
    rw [hrun] at hreturns
    cases result with
    | error e => rfl
    | ok _ =>
      obtain ⟨-, hsaw⟩ := hreturns
      dsimp only
      rw [hsaw]
      exact ⟨fun hlacks ↦ if_pos hlacks, fun hlacks ↦ if_neg hlacks⟩

/-! ### What is known of a function -/

/-- The symbol that a global name stands for is changed. -/
theorem Arena.lookup_modify_zero {a : Arena} {symbol : Symbol} {g : Symbol → Symbol}
    (hg : ∀ symbol, (g symbol).name = symbol.name) (h : a.lookup 0 name = some symbol) :
    (a.modify 0 name g).lookup 0 name = some (g symbol) := by
  rw [Arena.lookup_zero] at h ⊢
  obtain ⟨global, hglobal, hfind⟩ := Option.bind_eq_some_iff.1 h
  have hthere : a.scopes[0]? = some global := hglobal
  have howner : a.owner? 0 name = some 0 := by
    have hcontains : global.contains name = true := by rw [← Scope.isSome_find?, hfind]; rfl
    rw [Arena.owner?, hthere]
    simp [hcontains]
  have hchanged : (a.modify 0 name g).scope? 0 = some (global.modify name g) := by
    unfold Arena.modify Arena.scope?
    rw [howner]
    show (a.scopes.modify 0 _)[0]? = _
    rw [Array.getElem?_modify, if_pos rfl, hthere]
    rfl
  have hname : symbol.name = name := by simpa using List.find?_some hfind
  rw [hchanged, Option.bind_some, Scope.find?_modify hg, hfind]
  simp [hname]

/-- Whether a body returns is known of the function it was recorded for. -/
theorem Arena.info?_recordReturn {a : Arena} (h : a.info? name = some info) (sawReturn : Bool) :
    (a.modify 0 name (Symbol.withReturn sawReturn)).info? name =
      some { info with hasReturn := sawReturn } := by
  obtain ⟨symbol, hsymbol, hinfo⟩ := Option.bind_eq_some_iff.1 h
  rw [Arena.info?, Arena.lookup_modify_zero (fun symbol ↦ symbol.name_withReturn _) hsymbol,
    Option.bind_some]
  cases hkind : symbol.kind with
  | function kept =>
    obtain rfl : kept = info := by simpa [Symbol.functionInfo?, hkind] using hinfo
    simp [Symbol.functionInfo?, Symbol.withReturn, hkind]
  | _ => simp [Symbol.functionInfo?, hkind] at hinfo

/-- A name stands for one function. -/
theorem Recorded.eq_of_lexeme {token other : Token} {otherInfo : FunctionInfo}
    (h : Recorded f token info) (h' : Recorded f other otherInfo) (hname : token.lexeme = other.lexeme) :
    info = otherInfo := by
  have hsymbol := h.symbol
  rw [hname, h'.symbol, Option.some.injEq] at hsymbol
  exact (SymbolKind.function.inj (congrArg Symbol.kind hsymbol)).symm

/-! ### Rounds -/

/-- A body that is checked successfully is told of, and nothing else about functions changes. -/
theorem AtFunction.toldOf (hf : Headed c f) (hs : Underway c f s) {name : Token}
    (h : AtFunction c f s name info) (hrun : programRound.runFrom c s = (.ok (), t)) :
    ToldOf c t name.lexeme info ∧ ∀ other, other ≠ name.lexeme →
      ∀ info, s.arena.info? other = some info → t.arena.info? other = some info := by
  have hbody := h.runFrom_programRound.symm.trans hrun
  obtain ⟨p, hsignature⟩ := hs.unchecked.runFrom_signature h.recorded (Nat.le_of_lt h.lt)
  have hinfo := (hs.unchecked.info?_bodyStatements h.recorded (Nat.le_of_lt h.lt)).1
  constructor
  · have htold : Ensures (functionBody name.lexeme) c s (fun _ ↦ True) fun _ after ↦
        ToldOf c after name.lexeme info := by
      refine (ensures_functionBody_iff hsignature).2 (((ensures_bodyStatements_returns hf.closed _ _ _).and
        (ensures_leaves _ c s)).mono ?_)
      rintro _ after ⟨⟨-, hreturns⟩, hleaves⟩
      rw [← hleaves] at hinfo
      refine ⟨fun _ ↦ trivial, fun hlacks ↦ ⟨?_, hreturns ▸ hlacks⟩⟩
      rw [Context.told, ← hreturns]
      exact Arena.info?_recordReturn hinfo _
    exact htold.of_run hbody
  · intro other hother info hbefore
    -- The function marks no other than itself.
    have hkept := (Traced.functionBody (R := .keepingInfo (· ≠ name.lexeme) s) (fun c u sawReturn hu ↦
      ⟨(Arena.size_modify _).symm ▸ hu.1, fun other hother info hinfo ↦
        (Arena.info?_modify_of_ne hother _ fun symbol ↦ symbol.name_withReturn _).trans
          (hu.2 other hother info hinfo)⟩) c s).info hs.unchecked.distinct.1
            (fun _ _ _ hinfo ↦ hinfo) hother hbefore
    rwa [show (functionBody name.lexeme).leaves c s = t from congrArg Prod.snd hbody] at hkept

theorem Told.next (hf : Headed c f) (hs : Underway c f s) (h : Told c f s)
    (hrun : programRound.runFrom c s = (.ok (), t)) : Told c f t := by
  obtain ⟨-, hinside⟩ := hf.next hs hrun
  intro word name info hword hheader hlookup hrecorded
  by_cases hbefore : word < s.position
  · obtain ⟨hinfo, hreturns⟩ := h word name info hbefore hheader hlookup hrecorded
    refine ⟨?_, hreturns⟩
    by_cases hstarts : c.startsFunction s.position
    · obtain ⟨other, otherInfo, hat⟩ := hs.atFunction hstarts
      refine (hat.toldOf hf hs hrun).2 _ (fun hsame ↦ ?_) _ hinfo
      -- one name stands for one function, whose header starts at one place
      obtain rfl := hrecorded.eq_of_lexeme hat.recorded hsame
      have hstart := hheader.start_eq.symm.trans hat.header.start_eq
      omega
    · have hword : ¬(c.kindAt s.position = .functionWord ∨ c.kindAt s.position = .mainWord) := by
        simpa [Context.startsFunction] using hstarts
      have hkept := (Trace.programRound (R := .keepingInfo (fun _ ↦ True) s) hword).info
        hs.unchecked.distinct.1 (fun _ _ _ hinfo ↦ hinfo) trivial hinfo
      rwa [show programRound.leaves c s = t from congrArg Prod.snd hrun] at hkept
  · obtain rfl | hlt := Nat.eq_or_lt_of_le (Nat.le_of_not_lt hbefore)
    · obtain ⟨other, otherInfo, hat⟩ := hs.atFunction hheader.startsFunction
      have hname : name.lexeme = other.lexeme := by
        have hsame := hat.lookup
        rw [hs.unchecked.inStep.keeps.headers, hlookup] at hsame
        exact Option.some.inj hsame
      rw [hname, hrecorded.eq_of_lexeme hat.recorded hname]
      exact (hat.toldOf hf hs hrun).1
    · exact absurd hheader.startsFunction (by simp [hinside word hlt hword])

/-! ### Programs -/

/-- What is known when the walk over the bodies has come to its end: the program is well typed, and of
each function whose word stands in it it is known whether its body returns. -/
structure BodiesTold (c : Context) (f t : State) (symbols : List Symbol) : Prop where
  typed : WellTypedFrom c (Names.declaring (fun _ ↦ none) symbols) 0 symbols
  told : Told c f t
  distinct : t.arena.Distinct
  ended : c.kindAt t.position = .eof

theorem TwoWalks.bodiesTold {symbols : List Symbol} (h : TwoWalks c .initial f t) (hf : Headed c f)
    (hsurveyed : Surveyed c .initial symbols f) : BodiesTold c f t symbols := by
  let start := Names.declaring (fun _ ↦ none) symbols
  let I : Unit → State → Prop := fun _ after ↦
    Underway c f after ∧ Told c f after ∧ PieceTyped c f start (f.movedTo 0) symbols after
  have hrounds : Ensures (bodyRounds c.limits.scan) c (f.movedTo 0) (fun _ ↦ True) fun _ after ↦
      I () after ∧ c.kindAt after.position = .eof := by
    refine ensures_roundsFrom (I := I) (fun _ ↦ trivial) ?_ _ _ _
      ⟨hf.underway, fun word _ _ hword ↦ absurd hword (Nat.not_lt_zero word), start, symbols,
        hsurveyed.typedSoFar hf.scope rfl rfl hf.distinct, hsurveyed.laid, id⟩
    rintro _ after ⟨hunder, htold, names, rest, htyped, hlaid, hwell⟩
    simp only [ensures_bind, ensures_atEnd, ensures_pure, afterRound_yield]
    refine ⟨fun _ ↦ ?_, fun hend ↦ ⟨⟨hunder, htold, names, rest, htyped, hlaid, hwell⟩, by simpa using hend⟩⟩
    refine ((ensures_runs _ c after).and (ensures_programRound_typed hf.closed hf.scope hf.function
      (hsurveyed.own rfl) htyped hlaid)).mono ?_
    rintro _ later ⟨hrun, names', rest', htyped', hlaid', hwell'⟩
    exact ⟨(hf.next hunder hrun).1, htold.next hf hunder hrun, names', rest', htyped', hlaid',
      fun h ↦ hwell (hwell' h)⟩
  obtain ⟨⟨hunder, htold, names, rest, -, hlaid, hwell⟩, hend⟩ := hrounds.of_run h.bodies
  obtain rfl := hlaid.of_ended hend
  exact ⟨hwell (.ended hend), htold, hunder.unchecked.distinct.2, hend⟩

/-- A function of a row has a word that starts it. -/
theorem Laid.exists_word {i : Nat} {symbols : List Symbol} (h : Laid c f i symbols) :
    ∀ g ∈ symbols.filterMap Symbol.function?, ∃ word name,
      g.1 = .ofFunction name.lexeme g.2 name.position ∧ HeaderAt c word name g.2 ∧
        f.headers.lookup word = some name.lexeme ∧ Recorded f name g.2 := by
  induction h with
  | ended => exact fun g hg ↦ absurd hg List.not_mem_nil
  | @function i name info symbols hheader hlookup hrecorded _ _ _ ih =>
    intro g hg
    obtain rfl | hg := List.mem_cons.1 hg
    · exact ⟨i, name, rfl, hheader, hlookup, hrecorded⟩
    · exact ih g hg
  | struct _ _ ih | braces _ _ ih | other _ _ ih => exact ih

/-- What the table says of a global function is what is known under its name. -/
theorem Arena.Distinct.info?_of_mem {functions : List (String × Nat)} (h : t.arena.Distinct)
    {g : Symbol × FunctionInfo} (hg : g ∈ SymbolTable.globalFunctions ⟨t.arena, functions⟩) :
    t.arena.info? g.1.name = some g.2 := by
  obtain ⟨symbol, hmem, hsymbol⟩ := List.mem_filterMap.1 hg
  obtain ⟨info, hinfo, rfl⟩ := Option.map_eq_some_iff.1 hsymbol
  unfold SymbolTable.global? at hmem
  cases hglobal : t.arena.scope? 0 with
  | none =>
    rw [hglobal] at hmem
    cases hmem
  | some global =>
    rw [hglobal] at hmem
    obtain ⟨found, hfound⟩ : ∃ found, global.find? symbol.name = some found := by
      refine Option.isSome_iff_exists.1 ?_
      rw [Scope.isSome_find?]
      exact List.any_eq_true.2 ⟨symbol, hmem, by simp⟩
    obtain rfl := h.eq_of_find? hglobal hfound hmem rfl
    rw [Arena.info?, Arena.lookup_zero, hglobal, Option.bind_some, hfound, Option.bind_some, hinfo]

/-- A function of the table is one that the program declares, with whether its body returns. -/
structure TellsOf (c : Context) (symbols : List Symbol) (g : Symbol × FunctionInfo)
    (info : FunctionInfo) : Prop where
  declared : ∃ p, .ofFunction g.1.name info p ∈ symbols
  header : ∃ word name, HeaderAt c word name info
  eq : g.2 = c.told info
  returns : ¬ info.lacksReturn (c.returnsIn info.body)
  le : info.body.start ≤ info.body.stop
  closes : c.kindAt info.body.stop = .rightBrace

/-- The functions of the table are those that the program declares. -/
theorem Covered.tellsOf {symbols : List Symbol} (h : Covered c f t symbols)
    (htold : BodiesTold c f t symbols) (hlast : ∀ k, c.kindAt k = .eof → c.tokens.size ≤ k + 1)
    {g : Symbol × FunctionInfo} (hg : g ∈ SymbolTable.globalFunctions ⟨t.arena, t.functions⟩) :
    ∃ info, TellsOf c symbols g info := by
  obtain ⟨g', hg', hsame⟩ := List.mem_map.1 (h.globalFunctions ▸ List.mem_map_of_mem hg)
  obtain ⟨word, name, hsymbol, hheader, hlookup, hrecorded⟩ := h.surveyed.laid.exists_word g' hg'
  obtain ⟨word', -, htext⟩ := exists_word (h.walk.functionWords hlast) g' hg'
  have hname : g.1.name = name.lexeme :=
    (congrArg Prod.fst hsame).symm.trans (congrArg Symbol.name hsymbol)
  -- the walk over the bodies has passed the word of every function
  have hpassed : word < t.position := by
    have hsize := hlast _ htold.ended
    have hword := Context.lt_size_of_startsFunction hheader.startsFunction
    refine Nat.lt_of_le_of_ne (by omega) ?_
    rintro rfl
    exact absurd hheader.startsFunction (by simp [Context.startsFunction, htold.ended])
  obtain ⟨hinfo, hreturns⟩ := htold.told word name g'.2 hpassed hheader hlookup hrecorded
  have htable := htold.distinct.info?_of_mem hg
  rw [hname, hinfo, Option.some.injEq] at htable
  obtain ⟨symbol, hmem, hfunction⟩ := List.mem_filterMap.1 hg'
  obtain ⟨_, -, hsame⟩ := Option.map_eq_some_iff.1 hfunction
  obtain rfl : symbol = g'.1 := congrArg Prod.fst hsame
  exact ⟨g'.2, ⟨name.position, hname ▸ hsymbol ▸ hmem⟩, ⟨word, name, hheader⟩, htable.symm, hreturns,
    htext.balanced.le, htext.closes⟩

/-- Each function that the program declares is in the table. -/
theorem Covered.exists_tellsOf {symbols : List Symbol} (h : Covered c f t symbols) {p : Position}
    (hmem : .ofFunction name info p ∈ symbols) :
    ∃ g ∈ SymbolTable.globalFunctions ⟨t.arena, t.functions⟩, g.2.body = info.body := by
  have hg : (Symbol.ofFunction name info p, info) ∈ symbols.filterMap Symbol.function? :=
    List.mem_filterMap.2 ⟨_, hmem, rfl⟩
  obtain ⟨g, hg, hsame⟩ := List.mem_map.1 (h.globalFunctions.symm ▸ List.mem_map_of_mem hg)
  exact ⟨g, hg, congrArg (fun header ↦ header.2.2.body) hsame⟩

/-- A return at an index in the body of a function returns what the function does: a value of its type,
nothing, or zero from the entry point. -/
structure ReturnsRightly (c : Context) (start : Names) (g : Symbol × FunctionInfo) (k : Nat) :
    Prop where
  value : g.2.returns ≠ .void → ∃ names j, ReadWith c start g.1.name g.2 names k ∧
    Typed c.text names (.value g.2.returns) (k + 1) j ∧ c.kindAt j = .semicolon
  bare : g.2.returns = .void → g.2.isEntryPoint = false → c.kindAt (k + 1) = .semicolon
  zero : g.2.isEntryPoint → c.kindAt (k + 1) = .semicolon ∨
    c.kindAt (k + 1) = .intLit ∧ (c.tokenAt (k + 1)).lexeme = "0" ∧ c.kindAt (k + 2) = .semicolon

/-- The entry point has no value. -/
theorem HeaderAt.returns_of_isEntryPoint {word : Nat} {name : Token}
    (h : HeaderAt c word name info) (hentry : info.isEntryPoint) : info.returns = .void := by
  cases h with
  | function _ _ _ _ _ _ _ _ hother => exact absurd hentry (by simp [hother])
  | entryPoint _ _ _ _ hreturns => exact hreturns

theorem ReturnsAt.rightly {start : Names} {g : Symbol × FunctionInfo} {k : Nat}
    (h : ReturnsAt c start g.1.name g.2 k) : ReturnsRightly c start g k := by
  obtain ⟨names, j, hread, hreturn, hend⟩ := h
  obtain ⟨_, _, _, -, hheader, -, -⟩ := hread.header
  have hvoid := hheader.returns_of_isEntryPoint
  cases hreturn with
  | nothing hnothing =>
    have hnone : g.2.returns = .void := hnothing.elim hvoid id
    exact ⟨fun hvalue ↦ absurd hnone hvalue, fun _ _ ↦ hend, fun _ ↦ .inl hend⟩
  | zero hentry hliteral hlexeme =>
    exact ⟨fun hvalue ↦ absurd (hvoid hentry) hvalue,
      fun _ hother ↦ absurd hentry (by simp [hother]), fun _ ↦ .inr ⟨hliteral, hlexeme, hend⟩⟩
  | value hvalue htyped =>
    exact ⟨fun _ ↦ ⟨names, j, hread, htyped, hend⟩, fun hnone ↦ absurd hnone hvalue,
      fun hentry ↦ absurd (hvoid hentry) hvalue⟩

theorem ReturnsAt.of_hasReturn {start : Names} {name : String} {hasReturn : Bool} {k : Nat}
    (h : ReturnsAt c start name info k) :
    ReturnsAt c start name { info with hasReturn := hasReturn } k := by
  obtain ⟨names, j, ⟨i, token, top, htop, hheader, hname, hcomes⟩, hreturn, hend⟩ := h
  exact ⟨names, j, ⟨i, token, top, htop, hheader.of_hasReturn, hname, hcomes⟩, hreturn, hend⟩

end

/-- What is recorded of returns is what the text has.

In the table of an accepted program a function has a return exactly if a word that returns stands in its
body; every function with a value has one, and such a word stands nowhere else.  Each of them returns
what its function does: a value of its type, with the names that the declarations before it on the way
give, nothing, or a literal zero from the entry point.

Where the statements of a body meet no error, the check of the function fails exactly if it has a
value, is not the entry point and has no such word, and then with a missing return. -/
theorem returns_are_exact (limits : Limits) (wordLimit : Nat) (source : String) :
    let c := Context.top limits (scan wordLimit source).tokens
    let analysis := analyze limits (scan wordLimit source).tokens
    (analysis.accepted → ∃ symbols, WellTypedFrom c (.declaring (fun _ ↦ none) symbols) 0 symbols ∧
      (∀ g ∈ analysis.symbols.globalFunctions,
        (g.2.hasReturn = true ↔ ∃ k ∈ g.2.body.tokens, c.kindAt k = .returnWord) ∧
        (g.2.returns ≠ .void → ∃ k ∈ g.2.body.tokens, c.kindAt k = .returnWord) ∧
        ∀ k ∈ g.2.body.tokens, c.kindAt k = .returnWord →
          ReturnsRightly c (.declaring (fun _ ↦ none) symbols) g k) ∧
      ∀ k, c.kindAt k = .returnWord →
        ∃ g ∈ analysis.symbols.globalFunctions, k ∈ g.2.body.tokens) ∧
    ∀ (s t : State) (name : String) (info : FunctionInfo) (p : Position),
      (signature name).runFrom c s = (.ok (info, p), s) →
      (bodyStatements name info).runFrom c s = (.ok (), t) →
        let result := ((functionBody name).runFrom c s).1
        ((∃ e, result = .error e) ↔ info.returns ≠ .void ∧ info.isEntryPoint = false ∧
          ∀ k ∈ info.body.tokens, c.kindAt k ≠ .returnWord) ∧
        ∀ e, result = .error e → e = ⟨.missingReturn name info.returns, p⟩ := by
  intro c analysis
  have hc : c.Closed := closed_scan limits wordLimit source
  have hw : c.Worded := worded_scan limits wordLimit source
  refine ⟨fun haccepted ↦ ?_, fun s t name info p hsignature hbody ↦ ?_⟩
  · obtain ⟨t, hrun⟩ := runFrom_of_accepted haccepted
    have htable : analysis.symbols = ⟨t.arena, t.functions⟩ := by
      show (analyze limits (scan wordLimit source).tokens).symbols = _
      unfold analyze
      rw [hrun]
    have hlast : ∀ k, c.kindAt k = .eof → c.tokens.size ≤ k + 1 :=
      fun _ ↦ size_le_of_eof limits wordLimit source
    -- From the headers on, what a function is told to be is what its header says in the text.
    obtain ⟨f, hwalks⟩ := twoWalks_of_run hrun
    obtain ⟨symbols, hcovered⟩ := hwalks.covered hc hw rfl
    have htold := hwalks.bodiesTold (.of_run hc hw rfl rfl hwalks.headers) hcovered.surveyed
    have hreturns := htold.typed.returnsFrom hlast .start
    rw [htable]
    refine ⟨symbols, htold.typed, fun g hg ↦ ?_, fun k hk ↦ ?_⟩
    · obtain ⟨info, htells⟩ := hcovered.tellsOf htold hlast hg
      obtain ⟨p, hmem⟩ := htells.declared
      obtain ⟨_, _, hheader⟩ := htells.header
      have hinside {k : Nat} (hk : c.kindAt k = .returnWord) (htoken : k ∈ g.2.body.tokens) :
          ReturnsAt c (.declaring (fun _ ↦ none) symbols) g.1.name g.2 k := by
        rw [htells.eq] at htoken ⊢
        obtain ⟨hstart, hstop⟩ := BodyRange.mem_tokens_of_closes htells.le htells.closes hk htoken
        exact (hreturns.returns _ _ _ hmem k hstart hstop hk).of_hasReturn
      refine ⟨?_, fun hvalue ↦ ?_, fun k htoken hk ↦ (hinside hk htoken).rightly⟩
      · rw [htells.eq]
        exact Context.returnsIn_iff
      · rw [htells.eq] at hvalue ⊢
        refine Context.returnsIn_iff.1 ?_
        -- The entry point is void, so this is another function, which was not refused for lack of a return.
        have hentry : info.isEntryPoint = false := by
          by_contra hentry
          exact hvalue (hheader.returns_of_isEntryPoint (by simpa using hentry))
        have hreturns : c.returnsIn info.body = true := by
          simpa [FunctionInfo.lacksReturn, hentry, show info.returns ≠ .void from hvalue] using
            htells.returns
        exact hreturns
    · obtain ⟨name, info, p, hmem, hstart, hstop⟩ := hreturns.inside k (Nat.zero_le k) hk
      obtain ⟨g, hg, hbody⟩ := hcovered.exists_tellsOf hmem
      exact ⟨g, hg, hbody ▸ BodyRange.mem_tokens.2 ⟨hstart, by omega⟩⟩
  · intro result
    -- Behind the statements only the missing return is left to fail.
    have hresult : result = if info.lacksReturn (c.returnsIn info.body) then
        .error ⟨.missingReturn name info.returns, p⟩ else .ok () := by
      refine (runFrom_functionBody hc hsignature).trans ?_
      rw [hbody]
    have hlacks : info.lacksReturn (c.returnsIn info.body) = true ↔ info.returns ≠ .void ∧
        info.isEntryPoint = false ∧ ∀ k ∈ info.body.tokens, c.kindAt k ≠ .returnWord := by
      have hnone : c.returnsIn info.body = false ↔
          ∀ k ∈ info.body.tokens, c.kindAt k ≠ .returnWord := by
        simp [← Bool.not_eq_true, Context.returnsIn_iff]
      simp only [FunctionInfo.lacksReturn, Bool.and_eq_true, Bool.not_eq_true', decide_eq_true_eq, hnone]
      exact ⟨fun ⟨⟨hentry, hvalue⟩, hall⟩ ↦ ⟨hvalue, hentry, hall⟩,
        fun ⟨hvalue, hentry, hall⟩ ↦ ⟨⟨hentry, hvalue⟩, hall⟩⟩
    rw [← hlacks, hresult]
    by_cases h : info.lacksReturn (c.returnsIn info.body) = true
    · rw [if_pos h]
      exact ⟨iff_of_true ⟨_, rfl⟩ h, fun e he ↦ (Except.error.inj he).symm⟩
    · rw [if_neg h]
      exact ⟨iff_of_false (fun ⟨_, he⟩ ↦ nomatch he) h, fun e he ↦ nomatch he⟩

/-- A program whose functions return a value, nothing and zero. -/
def returningProgram : String :=
  "fnctn nt g(nt a) \x7b f (a > 0) \x7b rtrn 1; \x7d rtrn a; \x7d fnctn vd h() \x7b rtrn; \x7d " ++
    "mn() \x7b h(); rtrn 0; end; \x7d"

/-- A program with a function that has a value and returns none. -/
def unreturningProgram : String :=
  "fnctn nt g() \x7b prnt(1); \x7d mn() \x7b end; \x7d"

/-- A check that succeeds and then another one: so do both. -/
theorem exists_runs_of_isOk {α β : Type} {x : Check α} {y : α → Check β} {c : Context} {s : State}
    (h : ((x >>= y).runFrom c s).1.isOk = true) :
    ∃ a t b u, x.runFrom c s = (.ok a, t) ∧ (y a).runFrom c t = (.ok b, u) := by
  rw [Check.runFrom_bind] at h
  cases hx : x.runFrom c s with
  | mk result t =>
    rw [hx] at h
    cases result with
    | error e => cases h
    | ok a =>
      dsimp only at h
      cases hy : (y a).runFrom c t with
      | mk result u =>
        rw [hy] at h
        cases result with
        | error e => cases h
        | ok b => exact ⟨a, t, b, u, rfl, hy⟩

/-- The functions of one program return as recorded; the other one is refused for the function that
does not. -/
theorem returns_are_exact_returningProgram :
    let returning := analyze .default (scan 64 returningProgram).tokens
    let c := Context.top .default (scan 64 returningProgram).tokens
    let d := Context.top .default (scan 64 unreturningProgram).tokens
    let s := headers.leaves d .initial
    returning.accepted ∧ returning.symbols.globalFunctions.length = 3 ∧
      (∀ g ∈ returning.symbols.globalFunctions,
        (g.2.hasReturn = true ↔ ∃ k ∈ g.2.body.tokens, c.kindAt k = .returnWord)) ∧
      ∃ info p t, (signature "g").runFrom d s = (.ok (info, p), s) ∧
        (bodyStatements "g" info).runFrom d s = (.ok (), t) ∧
          ((functionBody "g").runFrom d s).1 = .error ⟨.missingReturn "g" info.returns, p⟩ := by
  intro returning c d s
  obtain ⟨haccepted, hlength, hwalked, hrefused⟩ : returning.accepted = true ∧
      returning.symbols.globalFunctions.length = 3 ∧
      ((signature "g" >>= fun found ↦ bodyStatements "g" found.1).runFrom d s).1.isOk = true ∧
        ((functionBody "g").runFrom d s).1.isOk = false := by
    decide +kernel
  obtain ⟨_, -, hfunctions, -⟩ := (returns_are_exact .default 64 returningProgram).1 haccepted
  refine ⟨haccepted, hlength, fun g hg ↦ (hfunctions g hg).1, ?_⟩
  obtain ⟨⟨info, p⟩, u, _, t, hsignature, hbody⟩ := exists_runs_of_isOk hwalked
  obtain rfl : u = s := (ensures_signature_same "g" d s).of_run hsignature
  refine ⟨info, p, t, hsignature, hbody, ?_⟩
  have hexact := (returns_are_exact .default 64 unreturningProgram).2 s t "g" info p hsignature hbody
  cases hresult : ((functionBody "g").runFrom d s).1 with
  | error e => rw [hexact.2 e hresult]
  | ok _ =>
    rw [hresult] at hrefused
    cases hrefused

end FrontEnd
