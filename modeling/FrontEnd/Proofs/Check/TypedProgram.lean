import FrontEnd.Proofs.Check.TypedStatement

/-!
# An accepted program is well typed

The walk over the bodies checks each piece of the row that the headers laid out, and each piece that
is checked successfully is well typed with the names at its place (`ensures_programRound_typed`).
`TypedSoFar` is the invariant of its rounds: what names stand for at the top, and that the scopes of
functions whose bodies are still to come have nothing but their parameters.  The latter needs that
functions have scopes of their own, which the walk over the headers sees to (`OwnScopes`).

The names at the start are those of all functions and structs, so a program is well typed from the
names that its own pieces declare (`values_fit_their_slots`).
-/

namespace FrontEnd

open Check

/-- In the walk over the bodies: what names stand for at the top, and that the scopes of functions
whose body ends further on have their parameters only. -/
structure TypedSoFar (c : Context) (f : State) (names : Names) (s : State) : Prop where
  unchecked : Unchecked c f s
  shows : c.Shows s names
  scopes : ∀ {name : Token} {info : FunctionInfo}, Recorded f name info →
    s.position ≤ info.body.stop → s.arena.shape? info.scope =
      some (some 0, (info.parameters.map TypedName.parameter).map Symbol.declared)

section

variable {c : Context} {f s after : State} {names : Names} {i j : Nat} {symbols : List Symbol}

/-! ### Proper symbols -/

theorem TypedNameAt.ne_void {n : TypedName} (h : TypedNameAt c i n) : n.type ≠ .void := by
  have hword : c.text.TypeWordAt i n.type := h.type
  exact hword.ne_void

theorem TypedNamesAt.ne_void {mark : Kind} {ns : List TypedName} (h : TypedNamesAt c mark i ns j) :
    ∀ n ∈ ns, n.type ≠ .void := by
  induction h with
  | nil => exact fun n hn ↦ absurd hn List.not_mem_nil
  | snoc _ hname _ ih =>
    intro n hn
    obtain hn | hn := List.mem_append.1 hn
    · exact ih n hn
    · exact List.mem_singleton.1 hn ▸ hname.ne_void

theorem ParametersAt.ne_void {ns : List TypedName} (h : ParametersAt c i ns j) :
    ∀ n ∈ ns, n.type ≠ .void := by
  cases h with
  | none => exact fun n hn ↦ absurd hn List.not_mem_nil
  | some h hname =>
    intro n hn
    obtain hn | hn := List.mem_append.1 hn
    · exact h.ne_void n hn
    · exact List.mem_singleton.1 hn ▸ hname.ne_void

/-- The parameters of a function have values. -/
theorem HeaderAt.proper {name : Token} {info : FunctionInfo} (h : HeaderAt c i name info) :
    ∀ symbol ∈ info.parameters.map TypedName.parameter, symbol.Proper := by
  have hne : ∀ n ∈ info.parameters, n.type ≠ .void := by
    cases h with
    | function _ _ _ _ _ parameters => exact parameters.ne_void
    | entryPoint _ _ _ _ _ parameters => exact fun n hn ↦ by simp [parameters] at hn
  intro symbol hsymbol
  obtain ⟨n, hn, rfl⟩ := List.mem_map.1 hsymbol
  exact ⟨fun _ ↦ hne n hn, nofun⟩

theorem Laid.proper (h : Laid c f i symbols) : ∀ symbol ∈ symbols, symbol.Proper := by
  induction h with
  | ended => exact fun symbol hsymbol ↦ absurd hsymbol List.not_mem_nil
  | function _ _ _ _ _ _ ih =>
    intro symbol hsymbol
    obtain rfl | hsymbol := List.mem_cons.1 hsymbol
    · exact .ofFunction _ _ _
    · exact ih symbol hsymbol
  | struct hstruct _ ih =>
    intro symbol hsymbol
    obtain rfl | hsymbol := List.mem_cons.1 hsymbol
    · exact .ofStruct _ hstruct.members.ne_void _
    · exact ih symbol hsymbol
  | braces _ _ ih => exact ih
  | other _ _ ih => exact ih

/-- At the end of the text no piece is left. -/
theorem Laid.of_ended (h : Laid c f i symbols) (hend : c.kindAt i = .eof) : symbols = [] := by
  cases h with
  | ended => rfl
  | function h =>
    cases h with
    | function word => simp [hend] at word
    | entryPoint word => simp [hend] at word
  | struct h => exact absurd (h.word.symm.trans hend) (by simp)
  | braces h => exact absurd (h.opens.symm.trans hend) (by simp)
  | other h => simp [hend] at h

/-! ### Functions -/

/-- The signature of a function is what is known of it. -/
theorem ensures_signature_typed {name : String} {info : FunctionInfo}
    (h : s.arena.info? name = some info) :
    Ensures (signature name) c s (fun _ ↦ True) fun found after ↦ found.1 = info ∧ after = s := by
  obtain ⟨symbol, hsymbol, hinfo⟩ := Option.bind_eq_some_iff.1 h
  simp only [signature, ensures_bind, ensures_get, hsymbol, hinfo, ensures_pure]
  exact ⟨trivial, trivial⟩

/-- What the check of the body of a function gives: its statements are well typed, and no scope but
its own shows what they declare. -/
structure BodyTyped (c : Context) (names : Names) (name : String) (info : FunctionInfo)
    (s after : State) : Prop where
  typed : ∃ inner, WellTyped c.text (some ⟨name, info.returns, info.isEntryPoint⟩) .statements
    (names.declaring (info.parameters.map TypedName.parameter)) info.body.start info.body.stop inner
  closes : c.kindAt info.body.stop = .rightBrace
  size : after.arena.size = s.arena.size
  shape? : ∀ other, other ≠ info.scope → after.arena.shape? other = s.arena.shape? other

/-- In the body of a function names stand for its parameters, or for what they stand for at the top. -/
theorem Context.Shows.inFunction (h : c.Shows s names) (hscope : c.scope = 0) (name : String)
    {info : FunctionInfo} (hinner : info.scope ≠ 0)
    (hshape : s.arena.shape? info.scope =
      some (some 0, (info.parameters.map TypedName.parameter).map Symbol.declared))
    (hproper : ∀ symbol ∈ info.parameters.map TypedName.parameter, symbol.Proper) :
    (inFunction name info c).Shows { s with position := info.body.start, sawReturn := false }
      (names.declaring (info.parameters.map TypedName.parameter)) := by
  obtain ⟨scope, hthere, -⟩ := Option.map_eq_some_iff.1 hshape
  refine ⟨Arena.scope?_isSome_iff.1 (hthere ▸ rfl), ?_, h.proper.declaring hproper⟩
  show s.arena.names info.scope = _
  rw [Arena.names_of_shape? (Nat.pos_iff_ne_zero.2 hinner) hshape, ← h.names_eq, hscope]

theorem ensures_bodyStatements_typed (hc : c.Closed) (hscope : c.scope = 0) (hshows : c.Shows s names)
    (name : String) {info : FunctionInfo} (hinner : info.scope ≠ 0)
    (hshape : s.arena.shape? info.scope =
      some (some 0, (info.parameters.map TypedName.parameter).map Symbol.declared))
    (hproper : ∀ symbol ∈ info.parameters.map TypedName.parameter, symbol.Proper) :
    Ensures (bodyStatements name info) c s (fun _ ↦ True) fun _ after ↦
      BodyTyped c names name info s after := by
  simp only [bodyStatements, ensures_bind, ensures_read, ensures_withReader, ensures_modify,
    ensures_discard, ensures_here, ensures_ite, ensures_violate, ensures_pure]
  have hinside := hshows.inFunction hscope name hinner hshape hproper
  have hlive : info.scope < s.arena.size := hinside.live
  have hbody := typesBody_statementsBelow (c.limits.nesting + 1) [.rightBrace]
  refine (((hbody.typed (c := inFunction name info c) hc hinside).and
    (walks_statementsBelow (c.limits.nesting + 1) [.rightBrace] (inFunction name info c) _ hc)).and
    (ensures_leaves _ _ _)).mono ?_
  rintro _ after ⟨⟨⟨inner, hflows⟩, -, hclose⟩, hleaves⟩
  have hadds := (hbody.traced (inFunction name info c)
    { s with position := info.body.start, sawReturn := false }).addsTo (Nat.zero_lt_of_lt hlive)
  rw [← hleaves] at hadds
  refine ⟨fun _ ↦ trivial, fun hstop ↦ ?_⟩
  have hstop : after.position = info.body.stop := Decidable.not_not.1 hstop
  have hclose : (inFunction name info c).kindAt after.position = .rightBrace := by simpa using hclose
  exact ⟨⟨inner, hstop ▸ hflows.typed⟩, hstop ▸ hclose, hadds.size, fun other hne ↦ hadds.shape? hne⟩

theorem ensures_functionBody_typed (hc : c.Closed) (hscope : c.scope = 0)
    (h : TypedSoFar c f names s) {name : Token} {info : FunctionInfo} (hheader : HeaderAt c i name info)
    (hrecorded : Recorded f name info) (hstop : s.position ≤ info.body.stop) :
    Ensures (functionBody name.lexeme) c s (fun _ ↦ True) fun _ after ↦
      after.position = info.body.stop + 1 ∧ BodyTyped c names name.lexeme info s after := by
  have hinfo := h.unchecked.info _ _ hrecorded.info? hstop
  simp only [functionBody, ensures_bind]
  refine (ensures_signature_typed hinfo).mono ?_
  rintro ⟨found, position⟩ later ⟨hfound, hstay⟩
  obtain rfl : info = found := hfound.symm
  obtain rfl : s = later := hstay.symm
  refine (ensures_bodyStatements_typed hc hscope h.shows name.lexeme hrecorded.inner
    (h.scopes hrecorded hstop) hheader.proper).mono fun _ after hbody ↦ ?_
  simp only [ensures_moveTo, ensures_get, recordReturn, ensures_modify, ensures_ite, ensures_refuse,
    ensures_pure]
  refine ⟨fun _ ↦ trivial, fun _ ↦ ⟨rfl, hbody.typed, hbody.closes, ?_, fun other hne ↦ ?_⟩⟩
  · exact (Arena.size_modify _).trans hbody.size
  · exact (Arena.shape?_modify (Symbol.declared_withReturn _) _ _ _ _).trans (hbody.shape? other hne)

/-! ### Rounds -/

/-- What a round of the walk over the bodies gives: the piece it passed is well typed, in front of
whatever is well typed from there on. -/
def PieceTyped (c : Context) (f : State) (names : Names) (s : State) (symbols : List Symbol)
    (after : State) : Prop :=
  ∃ names' rest, TypedSoFar c f names' after ∧ Laid c f after.position rest ∧
    (WellTypedFrom c names' after.position rest → WellTypedFrom c names s.position symbols)

/-- A round goes over one piece. -/
theorem ensures_programRound_typed (hc : c.Closed) (hscope : c.scope = 0) (hfunction : c.function = none)
    (hown : ∀ {name name' : Token} {info info' : FunctionInfo}, Recorded f name info →
      Recorded f name' info' → info.scope = info'.scope → info = info')
    (h : TypedSoFar c f names s)
    (hlaid : Laid c f s.position symbols) :
    Ensures programRound c s (fun _ ↦ True) fun _ after ↦ PieceTyped c f names s symbols after := by
  -- where a walk goes on, the invariant of all walks over bodies holds
  have hnext : Ensures programRound c s (fun _ ↦ True) fun _ after ↦ Unchecked c f after :=
    (ensures_runs _ c s).mono fun _ _ hrun ↦ h.unchecked.next hc hrun
  by_cases hword : c.kindAt s.position = .functionWord ∨ c.kindAt s.position = .mainWord
  · obtain ⟨name, info, rest, rfl, hheader, hlookup, hrecorded, hbody, hstop, hrest⟩ :=
      hlaid.of_function hword
    have hrun : Ensures programRound c s (fun _ ↦ True) fun _ after ↦
        after.position = info.body.stop + 1 ∧ BodyTyped c names name.lexeme info s after := by
      unfold Ensures Check.runFrom
      rw [run_programRound_function hword (h.unchecked.inStep.keeps.headers ▸ hlookup)]
      exact ensures_functionBody_typed hc hscope h hheader hrecorded (Nat.le_of_lt hstop)
    refine (hrun.and hnext).mono ?_
    rintro _ after ⟨⟨hposition, htyped⟩, hafter⟩
    have hzero : c.scope ≠ info.scope := hscope ▸ hrecorded.inner.symm
    have hnames : after.arena.names c.scope = names := by
      rw [← h.shows.names_eq]
      refine Arena.names_congr fun other hother ↦ htyped.shape? other fun hsame ↦ ?_
      exact hrecorded.inner (Nat.le_zero.1 (hsame ▸ hscope ▸ hother))
    have hlive : c.scope < after.arena.size := htyped.size ▸ h.shows.live
    refine ⟨names, rest, ⟨hafter, ⟨hlive, hnames, h.shows.proper⟩, fun hother hle ↦ ?_⟩,
      hposition ▸ hrest, fun hwell ↦ ?_⟩
    · -- a function whose body is still to come is another one and has another scope
      rw [htyped.shape? _ fun hsame ↦ ?_]
      · exact h.scopes hother (by omega)
      · rw [hown hother hrecorded hsame, hposition] at hle
        omega
    · obtain ⟨inner, hstatements⟩ := htyped.typed
      exact .function hheader hbody hstatements htyped.closes (hposition ▸ hwell)
  · suffices hround : Ensures programRound c s (fun _ ↦ True) fun _ after ↦
        Unchecked c f after → PieceTyped c f names s symbols after from
      (hround.and hnext).mono fun _ _ hboth ↦ hboth.1 hboth.2
    simp only [programRound, ensures_bind, ensures_peekKind]
    split
    next hk => exact absurd (.inl hk) hword
    next hk => exact absurd (.inr hk) hword
    next hk =>
      obtain ⟨name, members, m, rest, rfl, hstruct, hrest⟩ := hlaid.of_struct hk
      refine (ensures_skipStruct hk hstruct.kind hstruct.opens (hstruct.members.balanced rfl)
        hstruct.closes hstruct.ends).imp (fun _ _ ↦ trivial) ?_
      rintro _ _ rfl hafter
      have hle := (hstruct.members.balanced rfl).le
      refine ⟨names, rest, ⟨hafter, h.shows.movedTo _, fun hother hstop ↦ h.scopes hother ?_⟩, hrest,
        fun hwell ↦ .struct hstruct hwell⟩
      rw [State.position_movedTo] at hstop
      omega
    next =>
      simp only [ensures_bind, ensures_read, ensures_discard]
      refine (((typesStatement_statement hc h.shows c.limits.nesting).and
        (walks_statement c.limits.nesting c s hc)).and (ensures_leaves _ c s)).mono ?_
      rintro _ after ⟨⟨⟨names', hflows⟩, hpassed⟩, hleaves⟩ hafter
      have hadds := (Traced.statement (R := .statements) c.limits.nesting c s).addsTo
        (Nat.zero_lt_of_lt h.shows.live)
      rw [← hleaves, hscope] at hadds
      have htyped : WellTyped c.text none .statement names s.position after.position names' :=
        hfunction ▸ hflows.typed
      refine ⟨names', symbols, ⟨hafter, hflows.shows, fun hother hstop ↦ ?_⟩,
        hlaid.of_balanced hpassed.balanced, fun hwell ↦ .statement htyped hwell⟩
      rw [hadds.shape? hother.inner]
      exact h.scopes hother (Nat.le_trans hpassed.balanced.le hstop)

/-! ### Programs -/

/-- The functions that a walk over all headers recorded have scopes of their own. -/
theorem Surveyed.own {start : State} (h : Surveyed c start symbols f) (hstart : start.globals = [])
    {name name' : Token} {info info' : FunctionInfo} (hrecorded : Recorded f name info)
    (hrecorded' : Recorded f name' info') (hsame : info.scope = info'.scope) : info = info' := by
  have hmem {name : Token} {info : FunctionInfo} (hrecorded : Recorded f name info) :
      Symbol.ofFunction name.lexeme info name.position ∈ symbols := by
    obtain ⟨global, hglobal, rfl⟩ := h.global hstart
    have hfound := hrecorded.symbol
    rw [Arena.lookup_zero, hglobal, Option.bind_some] at hfound
    exact List.mem_of_find?_eq_some hfound
  have heq := h.scopes.eq_of_scope (hmem hrecorded) (hmem hrecorded') rfl
    (congrArg some hsame.symm)
  exact SymbolKind.function.inj (congrArg Symbol.kind heq)

/-- At the start of the walk over the bodies, names stand for the functions and structs. -/
theorem Surveyed.typedSoFar {start : State} (h : Surveyed c start symbols f) (hscope : c.scope = 0)
    (hstart : start.globals = []) (hposition : start.position = 0) (hdistinct : f.arena.Distinct) :
    TypedSoFar c f (Names.declaring (fun _ ↦ none) symbols) (f.movedTo 0) := by
  have hlaid := h.laid
  rw [hposition] at hlaid
  obtain ⟨global, hglobal, hsymbols⟩ := h.global hstart
  have hnames : f.arena.names c.scope = Names.declaring (fun _ ↦ none) symbols := by
    rw [hscope, Arena.names_zero hglobal, hsymbols]
  have hproper : (Names.declaring (fun _ ↦ none) symbols).Proper :=
    Names.Proper.declaring (fun _ _ hnone ↦ by cases hnone) hlaid.proper
  refine ⟨⟨⟨⟨symbols, hlaid⟩, (SameTables.movedTo.2 (.refl f)).keeps⟩, ⟨h.orderly.size_pos, hdistinct⟩,
    fun _ _ hinfo _ ↦ hinfo⟩, ⟨hscope ▸ h.orderly.size_pos, hnames, hproper⟩, fun hrecorded _ ↦ ?_⟩
  obtain ⟨label, hthere⟩ := hrecorded.scope
  show (f.arena.scope? _).map _ = _
  rw [hthere]
  rfl

/-- A program that is checked successfully is well typed. -/
theorem ensures_program_typed (hc : c.Closed) (hw : c.Worded) (hs : Orderly s)
    (hdistinct : s.arena.Distinct) (hstart : s.position = 0) (hglobals : s.globals = [])
    (hscope : c.scope = 0) (hfunction : c.function = none) :
    Ensures program c s (fun _ ↦ True) fun _ _ ↦ IsWellTyped c := by
  simp only [program, ensures_bind, ensures_read, ensures_ite, ensures_violate, ensures_moveTo]
  refine ⟨fun _ ↦ trivial, fun _ ↦ ?_⟩
  refine Ensures.mono (Ensures.and ((ensures_headers hc hw hs).imp (fun _ _ ↦ trivial)
    fun _ _ hf ↦ hf) (ensures_leaves headers c s)) ?_
  rintro _ f ⟨⟨symbols, hf⟩, hleaves⟩
  have hdistinct := (TracedFrom.headers hc hw hs).distinct ⟨hs.size_pos, hdistinct⟩
  rw [← hleaves] at hdistinct
  have hlaid := hf.laid
  rw [hstart] at hlaid
  -- What was passed is well typed, given that what is to come is.
  refine ensures_roundsWhile (fun _ ↦ trivial) (I := fun _ after ↦
    PieceTyped c f (Names.declaring (fun _ ↦ none) symbols) (f.movedTo 0) symbols after)
    ⟨_, symbols, hf.typedSoFar hscope hglobals hstart hdistinct.2, hlaid, id⟩ ?_
  rintro _ after ⟨names, rest, hafter, hrest, hwell⟩
  simp only [ensures_bind, ensures_atEnd, ensures_pure, afterRound_yield]
  refine ⟨fun _ ↦ ?_, fun hend ↦ ?_⟩
  · refine (ensures_programRound_typed hc hscope hfunction (hf.own hglobals) hafter hrest).mono ?_
    rintro _ later ⟨names', rest', hlater, hrest', hwell'⟩
    exact ⟨names', rest', hlater, hrest', fun h ↦ hwell (hwell' h)⟩
  · have hend : c.kindAt after.position = .eof := by simpa using hend
    obtain rfl := hrest.of_ended hend
    exact ⟨symbols, hwell (.ended hend)⟩

end

/-- Values fit the slots they flow into.

Every accepted program is well typed.  So wherever it assigns to a variable, an element or a member,
plainly or with an operator, initializes a variable, a constant or the element of an array, starts a
counted loop, gives an argument to a function or returns a value, the type of the expression there is
the one of the slot: the rules have one type for both and convert nothing.  A target of a compound
assignment is numeric, and what is counted up or down is an integer.

No expression has the type without values, whatever its names stand for. -/
theorem values_fit_their_slots (limits : Limits) (wordLimit : Nat) (source : String)
    (haccepted : (analyze limits (scan wordLimit source).tokens).accepted) :
    let c := Context.top limits (scan wordLimit source).tokens
    IsWellTyped c ∧ ∀ (names : Names) (i j : Nat) (type : DataType),
      Typed c.text names (.value type) i j → type ≠ .void := by
  refine ⟨?_, fun names i j type htyped ↦ htyped.value_ne_void⟩
  exact (ensures_program_typed (closed_scan limits wordLimit source)
    (worded_scan limits wordLimit source) orderly_initial .initial rfl rfl rfl
      rfl).of_accepted haccepted

/-- A program in which a value flows through a function, a member and an element. -/
def flowProgram : String :=
  "strct p \x7b nt x; \x7d; fnctn nt g(nt a) \x7b rtrn a + 1; \x7d mn() \x7b dfstrct p q; " ++
    "nt v[2]; q.x = g(4); v[0] = q.x; v[1] += v[0]; end; \x7d"

theorem values_fit_their_slots_flowProgram :
    (analyze .default (scan 64 flowProgram).tokens).accepted ∧
      IsWellTyped (.top .default (scan 64 flowProgram).tokens) := by
  have haccepted : (analyze .default (scan 64 flowProgram).tokens).accepted := by decide +kernel
  exact ⟨haccepted, (values_fit_their_slots .default 64 flowProgram haccepted).1⟩

end FrontEnd
