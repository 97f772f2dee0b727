import FrontEnd.Proofs.Check.Coverage
import FrontEnd.Proofs.Check.KeepsScopes

/-!
# Between the rounds of the walk over the bodies

`Headed c f` says that the walk over the headers of a program ended in the state `f`, and `Underway c f s`
that the walk over the bodies is between two of its rounds in the state `s`.  It starts so and each round
that succeeds leads on to such a state (`Headed.underway`, `Headed.next`).

Where a function comes next, what is known of it is `AtFunction`: its header, its record and its body.
Nothing is declared yet in its scope but the parameters (`Underway.functionScope`), and its body starts
where its parameters say (`HeaderAt.start_eq`).
-/

namespace FrontEnd

open Check

/-- The walk over the headers of a program ended in a state. -/
structure Headed (c : Context) (f : State) : Prop where
  closed : c.Closed
  scope : c.scope = 0
  function : c.function = none
  distinct : f.arena.Distinct
  surveyed : ∃ symbols, Surveyed c .initial symbols f

/-- The walk over the bodies is between two rounds. -/
structure Underway (c : Context) (f s : State) : Prop where
  typed : ∃ names, TypedSoFar c f names s
  gains : f.arena.Gains s.arena

/-- What is known of a function that comes next. -/
structure AtFunction (c : Context) (f s : State) (name : Token) (info : FunctionInfo) : Prop where
  header : HeaderAt c s.position name info
  lookup : s.headers.lookup s.position = some name.lexeme
  recorded : Recorded f name info
  body : IsBody c info.body
  lt : s.position < info.body.stop

/-- How far behind its first word the body of a function starts. -/
def FunctionInfo.headerLength (info : FunctionInfo) : Nat :=
  if info.isEntryPoint then 4 else 3 * info.parameters.length - 1 + 6

/-- Whether a function should have had a return statement and had none. -/
def FunctionInfo.lacksReturn (info : FunctionInfo) (sawReturn : Bool) : Bool :=
  !info.isEntryPoint && info.returns ≠ .void && !sawReturn

/-- The state behind the body of a function, when its statements were checked. -/
def State.behindBody (s : State) (name : String) (info : FunctionInfo) : State :=
  { s with
    position := info.body.stop + 1
    arena := s.arena.modify 0 name (Symbol.withReturn s.sawReturn) }

section

variable {c : Context} {f s t : State} {name : Token} {info : FunctionInfo} {i j : Nat}

/-! ### Headers and their lengths -/

theorem TypedNamesAt.eq_length {mark : Kind} {ns : List TypedName} (h : TypedNamesAt c mark i ns j) :
    j = i + 3 * ns.length := by
  induction h with
  | nil => rfl
  | snoc _ _ _ ih =>
    rw [ih, List.length_append, List.length_singleton]
    omega

theorem ParametersAt.eq_length {ns : List TypedName} (h : ParametersAt c i ns j) :
    j = i + (3 * ns.length - 1) := by
  cases h with
  | none => rfl
  | some h _ =>
    rw [h.eq_length, List.length_append, List.length_singleton]
    omega

/-- The body of a function starts where its parameters say. -/
theorem HeaderAt.start_eq (h : HeaderAt c i name info) : info.body.start = i + info.headerLength := by
  unfold FunctionInfo.headerLength
  cases h with
  | function _ _ _ _ _ parameters _ start isEntryPoint =>
    have hlength := parameters.eq_length
    rw [isEntryPoint, if_neg Bool.false_ne_true]
    omega
  | entryPoint _ _ _ _ _ _ start isEntryPoint => rw [isEntryPoint, if_pos rfl, start]

/-- The name of a function stands two tokens behind its first word, and the entry point is the word. -/
theorem HeaderAt.name_eq (h : HeaderAt c i name info) :
    name = c.tokenAt (if info.isEntryPoint then i else i + 2) := by
  cases h with
  | function _ _ _ hname _ _ _ _ isEntryPoint => rw [isEntryPoint, if_neg Bool.false_ne_true, hname]
  | entryPoint _ hname _ _ _ _ _ isEntryPoint => rw [isEntryPoint, if_pos rfl, hname]

/-! ### Checking the body of a function -/

/-- The check of a function is that of its statements, and then of whether they return. -/
theorem ensures_functionBody_iff {E : SemanticError → Prop} {Q : Unit → State → Prop} {name : String}
    {p : Position} (h : (signature name).runFrom c s = (.ok (info, p), s)) :
    Ensures (functionBody name) c s E Q ↔ Ensures (bodyStatements name info) c s E fun _ after ↦
      (info.lacksReturn after.sawReturn → E ⟨.missingReturn name info.returns, p⟩) ∧
        (¬ info.lacksReturn after.sawReturn → Q () (after.behindBody name info)) := by
  have hsignature {R : FunctionInfo × Position → State → Prop} :
      Ensures (signature name) c s E R ↔ R (info, p) s := by
    unfold Ensures
    rw [h]
  simp only [functionBody, ensures_bind, hsignature, ensures_moveTo, ensures_get, recordReturn,
    ensures_modify, ensures_ite, ensures_refuse, ensures_pure]
  exact Iff.rfl

/-- What surrounds the statements of a body is there behind them. -/
theorem runFrom_bodyStatements_outline {name : String} (hs : 0 < s.arena.size)
    (hrun : (bodyStatements name info).runFrom c s = (.ok (), t)) :
    t.arena.outline = s.arena.outline := by
  have hkept := (Traced.bodyStatements (R := .keepingScopes) name info).keepsScopes c s hs
  rw [show (bodyStatements name info).leaves c s = t from congrArg Prod.snd hrun] at hkept
  exact hkept.outline

/-! ### Rounds -/

namespace Headed

theorem of_run (hc : c.Closed) (hw : c.Worded) (hscope : c.scope = 0) (hfunction : c.function = none)
    (hrun : headers.runFrom c .initial = (.ok (), f)) : Headed c f := by
  have hdistinct :=
    (TracedFrom.headers hc hw orderly_initial).distinct ⟨orderly_initial.size_pos, .initial⟩
  rw [show Check.headers.leaves c .initial = f from congrArg Prod.snd hrun] at hdistinct
  exact ⟨hc, hscope, hfunction, hdistinct.2, (ensures_headers hc hw orderly_initial).of_run hrun⟩

theorem underway (h : Headed c f) : Underway c f (f.movedTo 0) := by
  obtain ⟨symbols, hsurveyed⟩ := h.surveyed
  exact ⟨⟨_, hsurveyed.typedSoFar h.scope rfl rfl h.distinct⟩, .refl _⟩

/-- A round that succeeds leads on, and passes no word that starts a function but its first. -/
theorem next (h : Headed c f) (hs : Underway c f s) (hrun : programRound.runFrom c s = (.ok (), t)) :
    Underway c f t ∧ ∀ k, s.position < k → k < t.position → c.startsFunction k = false := by
  obtain ⟨symbols, hsurveyed⟩ := h.surveyed
  obtain ⟨names, htyped⟩ := hs.typed
  obtain ⟨rest, hlaid⟩ := htyped.unchecked.inStep.laid
  obtain ⟨names', _, hafter, -⟩ := (ensures_programRound_typed h.closed h.scope h.function
    (hsurveyed.own rfl) htyped hlaid).of_run hrun
  have hwalked := htyped.unchecked.roundWalked h.closed h.function hlaid hrun
  exact ⟨⟨⟨names', hafter⟩, hs.gains.trans hwalked.gains⟩, hwalked.inside⟩

end Headed

namespace Underway

theorem unchecked (h : Underway c f s) : Unchecked c f s := by
  obtain ⟨names, htyped⟩ := h.typed
  exact htyped.unchecked

theorem atFunction (h : Underway c f s) (hword : c.startsFunction s.position) :
    ∃ name info, AtFunction c f s name info := by
  obtain ⟨symbols, hlaid⟩ := h.unchecked.inStep.laid
  obtain ⟨name, info, _, -, hheader, hlookup, hrecorded, hbody, hlt, -⟩ :=
    hlaid.of_function (by simpa [Context.startsFunction] using hword)
  exact ⟨name, info, hheader, h.unchecked.inStep.keeps.headers ▸ hlookup, hrecorded, hbody, hlt⟩

/-- The scope of a function whose body is still to come has the parameters and nothing else. -/
theorem functionScope (h : Underway c f s) (hrecorded : Recorded f name info)
    (hstop : s.position ≤ info.body.stop) : ∃ label, s.arena.scope? info.scope =
      some ⟨label, some 0, info.parameters.map TypedName.parameter⟩ := by
  obtain ⟨names, htyped⟩ := h.typed
  obtain ⟨label, hscope⟩ := hrecorded.scope
  obtain ⟨⟨label', parent, symbols⟩, hthere, hgains⟩ := h.gains.exists_scope hscope
  obtain ⟨kept, gained, hsymbols, hkept, -⟩ := hgains.exists_append
  obtain rfl := eq_of_later_parameters hkept
  -- what is declared there is no more than the parameters, so nothing was gained
  have hshape := htyped.scopes hrecorded hstop
  rw [Arena.shape?, hthere, Option.map_some, Option.some.injEq, Prod.mk.injEq] at hshape
  have hlength := congrArg List.length hshape.2
  obtain rfl : symbols = _ := hsymbols
  rw [List.length_map, List.length_map, List.length_append, Nat.add_eq_left,
    List.length_eq_zero_iff] at hlength
  obtain rfl : parent = some 0 := hshape.1
  exact ⟨label', by rw [hthere, hlength, List.append_nil]⟩

/-- The scope of such a function is inside of the global one. -/
theorem outline (h : Underway c f s) (hrecorded : Recorded f name info)
    (hstop : s.position ≤ info.body.stop) :
    ∃ label, s.arena.outline[info.scope]? = some (label, some 0) := by
  obtain ⟨label, hscope⟩ := h.functionScope hrecorded hstop
  have hthere : s.arena.scopes[info.scope]? = _ := hscope
  refine ⟨label, ?_⟩
  rw [Arena.outline, List.getElem?_map, Array.getElem?_toList, hthere]
  rfl

end Underway

namespace AtFunction

theorem startsFunction (h : AtFunction c f s name info) : c.startsFunction s.position :=
  h.header.startsFunction

/-- The round that comes to a function checks its body. -/
theorem runFrom_programRound (h : AtFunction c f s name info) :
    programRound.runFrom c s = (functionBody name.lexeme).runFrom c s :=
  congrArg Prod.fst (run_programRound_function
    (by simpa [Context.startsFunction] using h.startsFunction) h.lookup [])

/-- The body is checked up to its closing brace, and passed with it. -/
theorem position_eq (h : AtFunction c f s name info) (hf : Headed c f) (hs : Underway c f s)
    (hrun : programRound.runFrom c s = (.ok (), t)) : t.position = info.body.stop + 1 :=
  (hs.unchecked.bodyWalked hf.closed hf.function h.recorded (Nat.le_of_lt h.lt)
    (h.runFrom_programRound.symm.trans hrun)).position

theorem start_le (h : AtFunction c f s name info) : info.body.start ≤ info.body.stop := by
  obtain ⟨opening, hstart, hbraced⟩ := h.body
  exact hstart ▸ hbraced.lt

end AtFunction

end

end FrontEnd
