import FrontEnd.Proofs.Check.AttentiveStatement
import FrontEnd.Proofs.Check.CarefulProgram
import FrontEnd.Proofs.Check.ScopeLife
import FrontEnd.Proofs.Check.TypedProgram
import FrontEnd.Proofs.Lexeme.Value

/-!
# Arrays are indexed in bounds

Headers and structs have no brackets, and their names are parts of them; every other token of an
accepted program is passed by a statement, which is attentive.  That needs lookups where an arena
shows its names.  A walk over statements declares only what holds values, so if names are shown where
it starts, they are at all of its moments (`Trace.shown`); where the statements of a program start,
the walk over the bodies sees to it (`TypedSoFar`).

So in an accepted program each name of an array has an index in bounds for each dimension behind it,
or is the sole argument of the built-in length (`arrays_are_indexed_in_bounds`).
-/

namespace FrontEnd

open Check

/-- The rules of a walk over statements that says what its steps are. -/
def Rules.stepping : Rules :=
  ⟨Step, fun c d ↦ ∃ kind, d = { c with blocks := kind :: c.blocks }⟩

instance : Rules.stepping.Stepping :=
  ⟨id, fun _ kind ↦ ⟨kind, rfl⟩⟩

/-- The lookups that are made where an arena shows names. -/
def Lookups.whereShown (M : Lookups) : Lookups :=
  fun c s name ↦ M c s name ∧ ∃ names, c.Shows s names

section

variable {M M' : Lookups} {α : Type} {x : Check α} {c : Context} {f s t : State} {names : Names}
  {past : List Moment} {text : Text} {i j b : Nat} {name : Token} {info : FunctionInfo}
  {symbols : List Symbol} {E : SemanticError → Prop} {Q : α → State → Prop}

/-! ### Moments at which names are shown -/

theorem Trace.mono {R R' : Rules} (h : Trace R c s past t)
    (hchange : ∀ c s t, R.change c s t → R'.change c s t)
    (hinside : ∀ c d, R.inside c d → R'.inside c d) : Trace R' c s past t := by
  induction h with
  | nil c s => exact .nil c s
  | lookup _ name ih => exact ih.lookup name
  | change _ h ih => exact ih.change (hchange _ _ _ h)
  | inside _ h _ ih ihinner => exact ih.inside (hinside _ _ h) ihinner
  | inScope _ label _ ih ihinner => exact ih.inScope label ihinner

theorem Context.Shows.step (h : c.Shows s names) (hstep : Step c s t) :
    ∃ names', c.Shows t names' := by
  cases hstep with
  | passed => exact ⟨names, h.movedTo _⟩
  | warned | returned => exact ⟨names, h.live, h.names_eq, h.proper⟩
  | marked name part _ => exact ⟨names, h.marked name part⟩
  | declared hvalue hformed hinsert =>
    refine ⟨_, h.declared ⟨hformed.type_ne_void, fun members hkind ↦ ?_⟩ hinsert⟩
    simp [Symbol.isValue, hkind] at hvalue
  | refused => exact ⟨names, h⟩

/-- Names are shown at all moments of a walk over statements if they are shown at its start. -/
theorem Trace.shown (h : Trace .stepping c s past t) (hs : c.Shows s names) :
    (∃ names', c.Shows t names') ∧ ∀ m ∈ past, ∃ names', m.context.Shows m.state names' := by
  -- Along the trace; the names that are known change with each declaration and go with their scope.
  induction h generalizing names with
  | nil => exact ⟨⟨names, hs⟩, by simp⟩
  | lookup _ _ ih =>
    obtain ⟨hlast, hpast⟩ := ih hs
    exact ⟨hlast, List.forall_mem_cons.2 ⟨hlast, hpast⟩⟩
  | change _ hchange ih =>
    obtain ⟨⟨_, hlast⟩, hpast⟩ := ih hs
    exact ⟨hlast.step hchange, List.forall_mem_cons.2 ⟨hlast.step hchange, hpast⟩⟩
  | inside _ hinside _ ih ihinner =>
    obtain ⟨kind, rfl⟩ := hinside
    obtain ⟨⟨_, hlast⟩, hpast⟩ := ih hs
    obtain ⟨⟨names', hafter⟩, hinner⟩ := ihinner (hlast.inBlocks _)
    exact ⟨⟨names', hafter.live, hafter.names_eq, hafter.proper⟩,
      List.forall_mem_append.2 ⟨hinner, hpast⟩⟩
  | @inScope c s t u _ _ _ label hinner ih ihinner =>
    obtain ⟨⟨names', hlast⟩, hpast⟩ := ih hs
    have hentered := hlast.entered label
    have hstatements : Trace .statements (c.entering t) (t.entered c label) _ u :=
      hinner.mono (fun _ _ _ h ↦ Step.change h) fun _ _ h ↦ h
    have hreleased : ∃ names', c.Shows (u.released t.arena.size) names' :=
      ⟨names', hlast.released (hstatements.addsTo (t.size_entered_pos c label))⟩
    refine ⟨hreleased, List.forall_mem_cons.2 ⟨hreleased, List.forall_mem_append.2
      ⟨(ihinner hentered).2, List.forall_mem_cons.2 ⟨⟨names', hentered⟩, hpast⟩⟩⟩⟩

theorem Lookups.shown_whereShown (M : Lookups) : M.whereShown.Shown :=
  fun _ _ _ h ↦ h.2

/-- All lookups of a walk over statements are where names are shown, if it starts there. -/
theorem Secures.of_whereShown (hx : Traced .stepping x) (hs : c.Shows s names)
    (h : Secures M.whereShown x c s E Q) : Secures M x c s E Q :=
  fun hM ↦ h fun d t name hm ↦ ⟨hM d t name hm, ((hx c s).shown hs).2 _ hm⟩

/-! ### Headers and structs -/

theorem TypedNameAt.used {n : TypedName} (h : TypedNameAt c i n) (huse : NameUse M c.text (i + 1)) :
    UsedTo M c.text i (i + 2) := by
  obtain ⟨hword, -⟩ := Option.filter_eq_some_iff.1 h.type
  refine (UsedTo.token rfl ?_).trans (.name h.kind huse)
  show (c.kindAt i).isBystander
  cases hk : c.kindAt i <;> rw [hk] at hword <;> first | rfl | cases hword

theorem TypedNamesAt.used {mark : Kind} {ns : List TypedName} (h : TypedNamesAt c mark i ns j)
    (hmark : mark.isBystander) (huse : ∀ b, i ≤ b → b < j → NameUse M c.text b) :
    UsedTo M c.text i j := by
  induction h with
  | nil => exact .refl M c.text i
  | @snoc _ _ j hbefore hname hafter ih =>
    have hle := (ih fun b hi hj ↦ huse b hi (by omega)).le
    exact ((ih fun b hi hj ↦ huse b hi (by omega)).trans
      (hname.used (huse _ (by omega) (by omega)))).trans (.token hafter hmark)

theorem ParametersAt.used {ns : List TypedName} (h : ParametersAt c i ns j)
    (huse : ∀ b, i ≤ b → b < j → NameUse M c.text b) : UsedTo M c.text i j := by
  cases h with
  | none => exact .refl M c.text i
  | @some _ _ j h hname =>
    have hbefore := h.used (M := M) rfl fun b hi hj ↦ huse b hi (by omega)
    have hle := hbefore.le
    exact hbefore.trans (hname.used (huse _ (by omega) (by omega)))

/-- The header of a function up to the start of its body. -/
theorem HeaderAt.used (h : HeaderAt c i name info)
    (hopens : ∃ opening, info.body.start = opening + 1 ∧ c.kindAt opening = .leftBrace) :
    UsedTo M c.text i info.body.start := by
  have huse : ∀ b, i < b → b < info.body.start → NameUse M c.text b := fun b hi hb ↦
    .header rfl h hi hb
  obtain ⟨opening, hopening, hbrace⟩ := hopens
  have hend : UsedTo M c.text opening info.body.start := hopening ▸ .token hbrace rfl
  cases h with
  | @function j word returns kind _ opens parameters closes start =>
    obtain rfl : opening = j + 1 := by omega
    have htype : UsedTo M c.text (i + 1) (i + 2) := by
      refine .token rfl ?_
      show (c.kindAt (i + 1)).isBystander
      cases hk : c.kindAt (i + 1) <;> rw [hk] at returns <;> first | rfl | cases returns
    have hparameters := parameters.balanced.le
    exact (((((UsedTo.token word rfl).trans htype).trans
      (.name kind (huse _ (by omega) (by omega)))).trans (.token opens rfl)).trans
        (parameters.used fun b hi hj ↦ huse b (by omega) (by omega))).trans
          ((UsedTo.token closes rfl).trans hend)
  | entryPoint word _ opens closes _ _ start =>
    obtain rfl : opening = i + 3 := by omega
    exact ((UsedTo.token word rfl).trans (.token opens rfl)).trans
      ((UsedTo.token closes rfl).trans hend)

theorem StructAt.used {members : List TypedName} {stop : Nat} (h : StructAt c i name members stop) :
    UsedTo M c.text i (stop + 2) := by
  have huse : ∀ b, i < b → b < stop → NameUse M c.text b := fun b hi hb ↦ .inStruct rfl h hi hb
  have hmembers := (h.members.balanced rfl).le
  exact ((((UsedTo.token h.word rfl).trans (.name h.kind (huse _ (by omega) (by omega)))).trans
    (.token h.opens rfl)).trans (h.members.used rfl fun b hi hj ↦ huse b (by omega) (by omega))).trans
      ((UsedTo.token h.closes rfl).trans (.token h.ends rfl))

/-! ### Bodies and rounds -/

/-- The statements of a body with the brace that closes it. -/
theorem secures_bodyStatements_used (hc : c.Closed) (name : String) (info : FunctionInfo)
    (hshows : (inFunction name info c).Shows
      { s with position := info.body.start, sawReturn := false } names) :
    Secures M (bodyStatements name info) c s (fun _ ↦ True) fun _ _ ↦
      UsedTo M.whereShown c.text info.body.start (info.body.stop + 1) := by
  simp only [bodyStatements, secures_bind, secures_read, secures_withReader, secures_modify,
    secures_discard, secures_here, secures_ite, secures_violate, secures_pure]
  have hstatements : Attentive M.whereShown (fun _ ↦ True) (statementsOf c) :=
    .statementsUntil (.statement M.shown_whereShown c.limits.nesting) [.rightBrace]
  have hrun := (hstatements (c := inFunction name info c)
    (s := { s with position := info.body.start, sawReturn := false }) hc trivial).of_whereShown
      (Traced.statementsUntil (.statement c.limits.nesting) [.rightBrace]) hshows
  refine (hrun.and (walks_statementsUntil (walks_statement c.limits.nesting) [.rightBrace] _ _ hc)).mono ?_
  rintro _ after ⟨hused, -, hclose⟩
  refine ⟨fun _ ↦ trivial, fun hstop ↦ ?_⟩
  have hstop : after.position = info.body.stop := Decidable.not_not.1 hstop
  have hclose : (inFunction name info c).kindAt after.position = .rightBrace := by
    simpa using hclose
  exact hstop ▸ UsedTo.trans hused (.token hclose rfl)

theorem secures_functionBody_used (hc : c.Closed) (hscope : c.scope = 0) (h : TypedSoFar c f names s)
    (hheader : HeaderAt c s.position name info) (hrecorded : Recorded f name info)
    (hbody : IsBody c info.body) (hstop : s.position ≤ info.body.stop) :
    Secures M (functionBody name.lexeme) c s (fun _ ↦ True) fun _ after ↦
      UsedTo M.whereShown c.text s.position after.position := by
  obtain ⟨opening, hstart, hbraced⟩ := hbody
  have hinfo := h.unchecked.info _ _ hrecorded.info? hstop
  simp only [functionBody, secures_bind]
  refine .of_ensures ((ensures_signature_typed hinfo).mono ?_)
  rintro ⟨found, position⟩ later ⟨hfound, hstay⟩
  obtain rfl : info = found := hfound.symm
  obtain rfl : s = later := hstay.symm
  refine (secures_bodyStatements_used hc name.lexeme info
    (h.shows.inFunction hscope name.lexeme hrecorded.inner (h.scopes hrecorded hstop)
      hheader.proper)).mono fun _ after hused ↦ ?_
  have hall := (hheader.used ⟨opening, hstart, hbraced.opens⟩).trans hused
  simp only [secures_moveTo, secures_get, recordReturn, secures_modify, secures_ite,
    secures_refuse, secures_pure]
  exact ⟨fun _ ↦ trivial, fun _ ↦ hall⟩

/-- What a round passes is used as it may be. -/
theorem secures_programRound_used (hc : c.Closed) (hscope : c.scope = 0) (h : TypedSoFar c f names s)
    (hlaid : Laid c f s.position symbols) :
    Secures M programRound c s (fun _ ↦ True) fun _ after ↦
      UsedTo M.whereShown c.text s.position after.position := by
  by_cases hword : c.kindAt s.position = .functionWord ∨ c.kindAt s.position = .mainWord
  · obtain ⟨name, info, rest, -, hheader, hlookup, hrecorded, hbody, hstop, -⟩ :=
      hlaid.of_function hword
    rw [secures_congr (run_programRound_function hword (h.unchecked.inStep.keeps.headers ▸ hlookup) [])]
    exact secures_functionBody_used hc hscope h hheader hrecorded hbody (Nat.le_of_lt hstop)
  · simp only [programRound, secures_bind, secures_peekKind]
    split
    next hk => exact absurd (.inl hk) hword
    next hk => exact absurd (.inr hk) hword
    next hk =>
      obtain ⟨name, members, m, rest, -, hstruct, -⟩ := hlaid.of_struct hk
      refine .of_ensures ((ensures_skipStruct hk hstruct.kind hstruct.opens
        (hstruct.members.balanced rfl) hstruct.closes hstruct.ends).imp (fun _ _ ↦ trivial) ?_)
      rintro _ _ rfl
      exact hstruct.used
    next =>
      rw [secures_bind, secures_read]
      have hstatement : Attentive M.whereShown (fun _ ↦ True) (statement c.limits.nesting) :=
        .statement M.shown_whereShown c.limits.nesting
      exact (hstatement.discard hc trivial).of_whereShown
        (Traced.statement c.limits.nesting).discard h.shows

/-! ### Programs -/

/-- In a program that is checked successfully all tokens are used as they may be. -/
theorem secures_program_used (hc : c.Closed) (hw : c.Worded) (hs : Orderly s)
    (hdistinct : s.arena.Distinct) (hstart : s.position = 0) (hglobals : s.globals = [])
    (hscope : c.scope = 0) (hfunction : c.function = none)
    (hlast : ∀ k, c.kindAt k = .eof → c.tokens.size ≤ k + 1) :
    Secures M program c s (fun _ ↦ True) fun _ _ ↦ ∀ k, Used M.whereShown c.text k := by
  simp only [program, secures_bind, secures_read, secures_ite, secures_violate]
  refine ⟨fun _ ↦ trivial, fun _ ↦ ?_⟩
  refine .of_ensures (Ensures.mono (Ensures.and ((ensures_headers hc hw hs).imp (fun _ _ ↦ trivial)
    fun _ _ hf ↦ hf) (ensures_leaves headers c s)) ?_)
  rintro _ f ⟨⟨symbols, hf⟩, hleaves⟩
  have hdistinct := (TracedFrom.headers hc hw hs).distinct ⟨hs.size_pos, hdistinct⟩
  rw [← hleaves] at hdistinct
  have hlaid := hf.laid
  rw [hstart] at hlaid
  rw [secures_moveTo]
  refine secures_roundsWhile (fun _ ↦ trivial) (I := fun _ after ↦
    (∃ names rest, TypedSoFar c f names after ∧ Laid c f after.position rest) ∧
      UsedTo M.whereShown c.text 0 after.position)
    ⟨⟨_, symbols, hf.typedSoFar hscope hglobals hstart hdistinct.2, hlaid⟩, .refl _ c.text 0⟩ ?_
  rintro _ after ⟨⟨names, rest, hafter, hrest⟩, hused⟩
  simp only [secures_bind, atEnd, secures_next?, secures_pure]
  refine ⟨fun _ ↦ ?_, fun hend k ↦ ?_⟩
  · refine ((secures_programRound_used hc hscope hafter hrest).and
      (ensures_programRound_typed hc hscope hfunction (hf.own hglobals) hafter hrest)).mono ?_
    rintro _ later ⟨hpassed, names', rest', hlater, hrest', -⟩
    exact ⟨⟨names', rest', hlater, hrest'⟩, hused.trans hpassed⟩
  · have hend : c.kindAt after.position = .eof := by simpa using hend
    by_cases hk : k < after.position
    · exact hused.used k (Nat.zero_le k) hk
    · -- from the end of the input on no token is of another kind
      refine .of_bystander (?_ : (c.kindAt k).isBystander)
      by_cases heof : c.kindAt k = .eof
      · rw [heof]
        rfl
      · have hsize := hlast _ hend
        have hlt := Context.lt_size_of_ne_eof heof
        obtain rfl : k = after.position := by omega
        exact absurd hend heof

/-! ### Fewer lookups -/

namespace Lookups

theorem FindsAt.mono {symbol : Symbol} (h : M.FindsAt text b names symbol)
    (hM : ∀ c s name, M c s name → M' c s name) : M'.FindsAt text b names symbol := by
  obtain ⟨c, s, hlooked, hfound⟩ := h
  exact ⟨c, s, hM _ _ _ hlooked, hfound⟩

theorem MissesAt.mono (h : M.MissesAt text b) (hM : ∀ c s name, M c s name → M' c s name) :
    M'.MissesAt text b := by
  obtain ⟨c, s, hlooked, hmissed⟩ := h
  exact ⟨c, s, hM _ _ _ hlooked, hmissed⟩

end Lookups

section

variable (hM : ∀ c s name, M c s name → M' c s name)

include hM

theorem Access.mono (h : Access M text b) : Access M' text b := by
  obtain ⟨names, symbol, sizes, j, hfinds, hrest⟩ := h
  exact ⟨names, symbol, sizes, j, hfinds.mono hM, hrest⟩

theorem WholeArgument.mono (h : WholeArgument M text i) : WholeArgument M' text i := by
  obtain ⟨names, symbol, hfinds, harray⟩ := h.array
  exact ⟨h.callee, h.builtin, h.unhidden.mono hM, h.opens, ⟨names, symbol, hfinds.mono hM, harray⟩,
    h.closes⟩

theorem CalledName.mono (h : CalledName M text b) : CalledName M' text b := by
  cases h with
  | declared h hinfo => exact .declared (h.mono hM) hinfo
  | builtin h hname => exact .builtin (h.mono hM) hname

theorem NameUse.mono (h : NameUse M text b) : NameUse M' text b := by
  cases h with
  | declared h => exact .declared h
  | instantiated h => exact .instantiated h
  | struct hi h => exact .struct hi h
  | member hi h => exact .member hi h
  | called h hcallee => exact .called h (hcallee.mono hM)
  | header hc h hi hb => exact .header hc h hi hb
  | inStruct hc h hi hb => exact .inStruct hc h hi hb
  | single h hsymbol => exact .single (h.mono hM) hsymbol
  | selected h hsymbol hdot => exact .selected (h.mono hM) hsymbol hdot
  | element h => exact .element (h.mono hM)
  | whole ha h => exact .whole ha (h.mono hM)

end

end

/-- Arrays are indexed in bounds.

In an accepted program every name is declared, a part of a header or a struct, called, or it is looked
up where it stands and has one of these uses.  It is no array; it is an instance with a member behind
it; it is an array with as many indices behind it as it has dimensions, each of them an integer, and if
one is a single literal and the dimension has a literal size, the literal is at least zero and less than
that; or it is an array that is the sole argument of the built-in length.  So wherever a bracket opens
behind a name, the name is declared there or an array with such indices.

Every integer literal has a value that can be compared. -/
theorem arrays_are_indexed_in_bounds (limits : Limits) (wordLimit : Nat) (source : String)
    (haccepted : (analyze limits (scan wordLimit source).tokens).accepted) :
    let tokens := (scan wordLimit source).tokens
    let text := (Context.top limits tokens).text
    (∀ b, text.kind b = .identifier → NameUse (lookupsOf limits tokens) text b) ∧
      (∀ b, text.kind b = .identifier → text.kind (b + 1) = .leftBracket →
        DeclaresFrom text.kind b ∨ Access (lookupsOf limits tokens) text b) ∧
        ∀ i, text.kind i = .intLit ∨ text.kind i = .negIntLit →
          ∃ v, Text.integer? (text.token i).lexeme = some v := by
  intro tokens text
  have hused : Ensures program (.top limits tokens) .initial (fun _ ↦ True) fun _ _ ↦
      ∀ k, Used (lookupsOf limits tokens).whereShown text k :=
    (secures_program_used (closed_scan limits wordLimit source) (worded_scan limits wordLimit source)
      orderly_initial .initial rfl rfl rfl rfl
        fun _ ↦ size_le_of_eof limits wordLimit source).ensures
  have hused := hused.of_accepted haccepted
  have hfewer : ∀ c s name, (lookupsOf limits tokens).whereShown c s name →
      lookupsOf limits tokens c s name := fun _ _ _ h ↦ h.1
  refine ⟨fun b hname ↦ ((hused b).name hname).mono hfewer, fun b hname hopen ↦ ?_, fun i hi ↦ ?_⟩
  · exact ((hused (b + 1)).opening hopen b rfl hname).imp_right fun h ↦ h.mono hfewer
  · have hne : text.kind i ≠ .eof := by rcases hi with h | h <;> simp [h]
    obtain ⟨htoken, hkind⟩ := Context.exists_token rfl hne
    have hmem : text.token i ∈ tokens.toArray := Array.mem_of_getElem? htoken
    rw [List.mem_toArray] at hmem
    exact integer?_of_mem_scan hmem (hkind ▸ hi)

/-- A program that writes an element of an array and takes the length of one. -/
def indexedProgram : String :=
  "nt t[2][3]; mn() \x7b nt v[4]; v[t[1][2]] = len(t); end; \x7d"

theorem arrays_are_indexed_in_bounds_indexedProgram :
    (analyze .default (scan 64 indexedProgram).tokens).accepted ∧
      let tokens := (scan 64 indexedProgram).tokens
      let text := (Context.top .default tokens).text
      ∀ b, text.kind b = .identifier → text.kind (b + 1) = .leftBracket →
        DeclaresFrom text.kind b ∨ Access (lookupsOf .default tokens) text b := by
  have haccepted : (analyze .default (scan 64 indexedProgram).tokens).accepted := by decide +kernel
  exact ⟨haccepted, (arrays_are_indexed_in_bounds .default 64 indexedProgram haccepted).2.1⟩

end FrontEnd
