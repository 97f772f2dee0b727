import FrontEnd.Proofs.Check.ControlWords
import FrontEnd.Proofs.Check.Underway
import FrontEnd.Proofs.Lexical.Headers
import FrontEnd.Proofs.Lexical.Statement

/-!
# Lexical scoping

Every name that a check looks up is found where a reader of the text has it declared, and no other name is
reported as undefined (`names_are_scoped_lexically`).

The walk over the headers leaves the global scope with the names that the reader has in mind from the
start.  In front of a body the reader goes through the header, whose parameters are the names of the first
block (`HeaderAt.seen`), while the walk enters the scope in which they were declared; it leaves that scope
in front of the brace that ends the body, and the reader the block with it.  A struct is passed by both.
So the two are abreast where a round of the second walk starts, and where it ends.
-/

namespace FrontEnd

open Check

/-- At an index a reader has a view, and the names used since another index are answered for. -/
structure Seen (c : Context) (i j : Nat) (v : View) : Prop where
  view : c.view j = v
  answered : AnsweredTo c i j

section

variable {c : Context} {f s after : State} {v w : View} {k : Kind} {i j m : Nat} {names : List Nat}
  {block : List Nat} {blocks : List (List Nat)} {name : Token} {info : FunctionInfo} {n : TypedName}
  {ns : List TypedName}

/-! ### Reading a header -/

theorem Seen.step (h : Seen c i j v) (hk : c.kindAt j = k)
    (hname : k = .identifier → v.mode.uses = false) (hnext : v.next k j = w) : Seen c i (j + 1) w := by
  refine ⟨by rw [Context.view_succ, h.view, hk, hnext], h.answered.trans (.next fun huse ↦ ?_)⟩
  have huses := huse.mode
  rw [h.view, hname (hk.symm.trans huse.kind)] at huses
  cases huses

/-- A token that is no name. -/
theorem Seen.other (h : Seen c i j v) (hk : c.kindAt j = k) (hname : k ≠ .identifier)
    (hnext : v.next k j = w) : Seen c i (j + 1) w :=
  h.step hk (absurd · hname) hnext

theorem TypedNameAt.namedAt (h : TypedNameAt c j n) : n.parameter.NamedAt c (j + 1) :=
  ⟨h.name.symm, h.position.symm⟩

/-- A parameter is kept in mind. -/
theorem TypedNameAt.seen (h : TypedNameAt c j n) (hseen : Seen c i j ⟨.parameters names, blocks⟩) :
    Seen c i (j + 2) ⟨.parameters (names ++ [j + 1]), blocks⟩ := by
  obtain ⟨hname, -, -, hbrace⟩ := DataType.word_ne (Option.filter_eq_some_iff.1 h.type).1
  have htype : Seen c i (j + 1) ⟨.parameters names, blocks⟩ :=
    hseen.other rfl hname (by simp [View.next, hname, hbrace])
  exact htype.step h.kind (fun _ ↦ rfl) rfl

theorem TypedNamesAt.seen (h : TypedNamesAt c .comma j ns m)
    (hseen : Seen c i j ⟨.parameters [], blocks⟩) :
    ∃ names, Seen c i m ⟨.parameters names, blocks⟩ ∧
      List.Forall₂ (Symbol.NamedAt c) (ns.map TypedName.parameter) names := by
  induction h with
  | nil => exact ⟨[], hseen, .nil⟩
  | snoc _ hname hmark ih =>
    obtain ⟨names, hnames, hnamed⟩ := ih
    refine ⟨_, (hname.seen hnames).other hmark (by decide) rfl, ?_⟩
    rw [List.map_append]
    exact List.rel_append hnamed (.cons hname.namedAt .nil)

theorem ParametersAt.seen (h : ParametersAt c j ns m) (hseen : Seen c i j ⟨.parameters [], blocks⟩) :
    ∃ names, Seen c i m ⟨.parameters names, blocks⟩ ∧
      List.Forall₂ (Symbol.NamedAt c) (ns.map TypedName.parameter) names := by
  cases h with
  | none => exact ⟨[], hseen, .nil⟩
  | some h hname =>
    obtain ⟨names, hnames, hnamed⟩ := h.seen hseen
    refine ⟨_, hname.seen hnames, ?_⟩
    rw [List.map_append]
    exact List.rel_append hnamed (.cons hname.namedAt .nil)

/-- In front of a body its parameters are declared. -/
theorem HeaderAt.seen (h : HeaderAt c i name info) (hbody : IsBody c info.body)
    (hview : c.view i = ⟨.start, blocks⟩) :
    ∃ names, Seen c i info.body.start ⟨.start, names :: blocks⟩ ∧
      List.Forall₂ (Symbol.NamedAt c) (info.parameters.map TypedName.parameter) names := by
  obtain ⟨opening, hstart, hbraced⟩ := hbody
  have hfirst : Seen c i i ⟨.start, blocks⟩ := ⟨hview, .refl c i⟩
  cases h with
  | @function j word returns kind _ opens parameters closes start =>
    obtain ⟨hname, -, hparen, -⟩ := DataType.word_ne returns
    have hword : Seen c i (i + 1) ⟨.function, blocks⟩ := hfirst.other word (by decide) rfl
    have htype : Seen c i (i + 2) ⟨.function, blocks⟩ :=
      hword.other rfl hname (by simp [View.next, hparen])
    have hidentifier : Seen c i (i + 3) ⟨.function, blocks⟩ := htype.step kind (fun _ ↦ rfl) rfl
    obtain ⟨names, hnames, hnamed⟩ := parameters.seen (hidentifier.other opens (by decide) rfl)
    obtain rfl : opening = j + 1 := by omega
    have hclose : Seen c i (j + 1) ⟨.parameters names, blocks⟩ := hnames.other closes (by decide) rfl
    exact ⟨names, hstart ▸ hclose.other hbraced.opens (by decide) rfl, hnamed⟩
  | entryPoint word _ opens closes _ parameters start =>
    obtain rfl : opening = i + 3 := by omega
    have hword : Seen c i (i + 1) ⟨.function, blocks⟩ := hfirst.other word (by decide) rfl
    have hopen : Seen c i (i + 2) ⟨.parameters [], blocks⟩ := hword.other opens (by decide) rfl
    have hclose : Seen c i (i + 3) ⟨.parameters [], blocks⟩ := hopen.other closes (by decide) rfl
    exact ⟨[], hstart ▸ hclose.other hbraced.opens (by decide) rfl, by rw [parameters]; exact .nil⟩

/-- The members of a struct are names of a block of their own. -/
theorem TypedNamesAt.seen_members (h : TypedNamesAt c .semicolon j ns m)
    (hseen : Seen c i j ⟨.start, block :: blocks⟩) : ∃ block, Seen c i m ⟨.start, block :: blocks⟩ := by
  induction h with
  | nil => exact ⟨block, hseen⟩
  | @snoc _ _ j _ hname hmark ih =>
    obtain ⟨block, hblock⟩ := ih
    have hword := (DataType.word_ne (Option.filter_eq_some_iff.1 hname.type).1).1
    have htype : Seen c i (j + 1) ⟨.name, block :: blocks⟩ :=
      hblock.other rfl hword (View.next_typeWord hname.type _ _)
    have hmember : Seen c i (j + 2) ⟨.declarator (j + 1) 0, block :: blocks⟩ :=
      htype.step hname.kind (fun _ ↦ rfl) rfl
    exact ⟨block ++ [j + 1], hmember.other hmark (by decide) rfl⟩

/-- Behind a struct all is as it was in front of it. -/
theorem StructAt.seen (h : StructAt c i name ns m) (hview : c.view i = ⟨.start, blocks⟩) :
    Seen c i (m + 2) ⟨.start, blocks⟩ := by
  have hfirst : Seen c i i ⟨.start, blocks⟩ := ⟨hview, .refl c i⟩
  have hword : Seen c i (i + 1) ⟨.structName, blocks⟩ := hfirst.other h.word (by decide) rfl
  have hname : Seen c i (i + 2) ⟨.inside, blocks⟩ := hword.step h.kind (fun _ ↦ rfl) rfl
  obtain ⟨block, hblock⟩ := h.members.seen_members (hname.other h.opens (by decide) rfl)
  have hclose : Seen c i (m + 1) ⟨.start, blocks⟩ := hblock.other h.closes (by decide) rfl
  exact hclose.other h.ends (by decide) rfl

/-! ### Bodies -/

theorem calm_signature (name : String) : Calm (signature name) := by
  refine .bind .get fun s ↦ ?_
  split
  · split
    · exact .pure _
    · exact .violate rfl
  · exact .violate rfl

section

variable (hf : Headed c f) (hs : Underway c f s) (hat : AtFunction c f s name info)
  (hstart : At .start c s)

include hf hs hat hstart

/-- In the scope of a function the walk is beside the block that has its parameters. -/
theorem AtFunction.entered :
    AnsweredTo c s.position info.body.start ∧
      At .start (inFunction name.lexeme info c)
        { s with position := info.body.start, sawReturn := false } := by
  have htext : (inFunction name.lexeme info c).SameText c := ⟨rfl, rfl⟩
  have hview : c.view s.position = ⟨.start, (c.view s.position).blocks⟩ := by
    rw [← hstart.mode]
  obtain ⟨names, hseen, hnamed⟩ := hat.header.seen hat.body hview
  obtain ⟨label, hscope⟩ := hs.functionScope hat.recorded (Nat.le_of_lt hat.lt)
  have hrows := hstart.abreast.rows
  rw [hf.scope] at hrows
  refine ⟨hseen.answered, ?_, Arena.scope?_isSome_iff.1 (hscope ▸ rfl), ?_⟩
  · rw [htext.view_eq]
    exact congrArg View.mode hseen.view
  · rw [htext.view_eq, htext.lists_eq]
    show List.Forall₂ _ (s.arena.around info.scope) (c.view info.body.start).blocks
    rw [hseen.view, Arena.around_of_parent hscope rfl (Nat.pos_of_ne_zero hat.recorded.inner)]
    exact .cons hnamed hrows

/-- The statements of a body resolve names up to its closing brace. -/
theorem resolves_bodyStatements :
    Resolves (bodyStatements name.lexeme info) c s fun _ after ↦
      after.position = info.body.stop ∧ c.kindAt after.position = .rightBrace ∧
        Arrives (Left .start) c s after := by
  have htext : (inFunction name.lexeme info c).SameText c := ⟨rfl, rfl⟩
  have hclosed : (inFunction name.lexeme info c).Closed := hf.closed
  obtain ⟨hpassed, hentered⟩ := hat.entered hf hs hstart
  have hinside := resolves_statementsUntil hentered
    (fun _ ht ↦ resolves_statement hclosed ht c.limits.nesting) [.rightBrace]
  have hbody : Resolves (bodyStatements name.lexeme info) c s fun _ after ↦
      Arrives (At .start) (inFunction name.lexeme info c)
        { s with position := info.body.start, sawReturn := false } after := by
    simp only [bodyStatements, upholds_bind, upholds_read, upholds_withReader, upholds_modify,
      upholds_discard, upholds_here, upholds_ite, upholds_violate, upholds_pure]
    exact (htext.resolves hinside).mono fun _ _ h ↦ ⟨fun _ ↦ by simp, fun _ ↦ h.1⟩
  refine ((hbody.and (ensures_bodyStatements_noted hf.closed name.lexeme info)).and
    (ensures_runs _ c s)).mono ?_
  rintro _ after ⟨⟨harrives, hstop, hclose, -⟩, hrun⟩
  -- What surrounds the scope of the function is still what surrounded it before.
  obtain ⟨label, hscope⟩ := hs.outline hat.recorded (Nat.le_of_lt hat.lt)
  rw [← runFrom_bodyStatements_outline hs.unchecked.distinct.1 hrun] at hscope
  have hinner : c.scope < info.scope := hf.scope ▸ Nat.pos_of_ne_zero hat.recorded.inner
  obtain ⟨scope, haround⟩ := Arena.around_of_outline hscope (Nat.pos_of_ne_zero hat.recorded.inner)
  rw [← hf.scope] at haround
  exact ⟨hstop, hstop ▸ hclose, hpassed.trans (htext.answeredTo_eq ▸ harrives.answered),
    harrives.there.left htext hinner haround⟩

theorem resolves_functionBody :
    Resolves (functionBody name.lexeme) c s fun _ after ↦ Arrives (At .start) c s after := by
  obtain ⟨p, hsignature⟩ := hs.unchecked.runFrom_signature hat.recorded (Nat.le_of_lt hat.lt)
  have hfound : Ensures (signature name.lexeme) c s (fun _ ↦ True) fun found after ↦
      found = (info, p) ∧ after = s := by
    unfold Ensures
    rw [hsignature]
    exact ⟨rfl, rfl⟩
  simp only [functionBody, upholds_bind, upholds_moveTo, upholds_get, recordReturn, upholds_modify,
    upholds_ite, upholds_refuse, upholds_pure]
  refine ((calm_signature _).resolves hfound).mono ?_
  rintro _ _ ⟨rfl, rfl⟩
  refine (resolves_bodyStatements hf hs hat hstart).mono ?_
  rintro _ after ⟨hstop, hclose, hleft⟩
  refine ⟨fun _ ↦ by simp, fun _ ↦ ?_⟩
  have hclosed := hleft.trans (hleft.there.closed hclose)
  rw [Context.after_of_kindAt hclose (by decide), hstop] at hclosed
  have hmarked := hclosed.there.abreast.modify (f := Symbol.withReturn after.sawReturn)
    (fun symbol ↦ ⟨symbol.name_withReturn _,
      (congrArg Symbol.position (symbol.declared_withReturn _) :)⟩) name.lexeme
  rw [hf.scope] at hmarked
  exact ⟨hclosed.answered, hclosed.there.mode, hmarked⟩

end

/-! ### Rounds -/

theorem calm_skipStruct : Calm skipStruct :=
  .bind (.roundsWhile (.bind (.next? _) fun _ ↦ .pure _) fun _ ↦
    .bind .atEnd fun _ ↦ .guard (.violate rfl) (.bind (.discard .advance) fun _ ↦ .pure _)) fun _ ↦
      .bind .here fun _ ↦ .bind (.matchingClose _) fun _ ↦ .bind (.moveTo _) fun _ ↦
        .discard (.expectMark _)

/-- A round of the walk over the bodies goes from where a statement may start to another such place. -/
theorem resolves_programRound (hf : Headed c f) (hs : Underway c f s) (hstart : At .start c s) :
    Resolves programRound c s fun _ after ↦ Arrives (At .start) c s after := by
  by_cases hword : c.startsFunction s.position
  · obtain ⟨name, info, hat⟩ := hs.atFunction hword
    have hbody := resolves_functionBody hf hs hat hstart
    have hmoments : programRound.momentsFrom c s = (functionBody name.lexeme).momentsFrom c s :=
      congrArg Prod.snd (run_programRound_function
        (by simpa [Context.startsFunction] using hword) hat.lookup [])
    refine ⟨hmoments ▸ hbody.lookups, ?_⟩
    unfold Ensures
    rw [hat.runFrom_programRound]
    exact hbody.ensures
  simp only [programRound, upholds_bind, upholds_peekKind]
  split
  next hk => exact absurd (by simp [Context.startsFunction, hk]) hword
  next hk => exact absurd (by simp [Context.startsFunction, hk]) hword
  next hk =>
    obtain ⟨symbols, hlaid⟩ := hs.unchecked.inStep.laid
    obtain ⟨name, members, m, rest, -, hstruct, -⟩ := hlaid.of_struct hk
    have hview : c.view s.position = ⟨.start, (c.view s.position).blocks⟩ := by
      rw [← hstart.mode]
    have hseen := hstruct.seen hview
    refine (calm_skipStruct.resolves (ensures_skipStruct hk hstruct.kind hstruct.opens
      (hstruct.members.balanced rfl) hstruct.closes hstruct.ends)).mono ?_
    rintro _ _ rfl
    have hblocks := congrArg View.blocks hseen.view
    exact ⟨hseen.answered, congrArg View.mode hseen.view, hstart.abreast.of_eq rfl hblocks⟩
  next =>
    simp only [upholds_bind, upholds_read, upholds_discard]
    exact resolves_statement hf.closed hstart _

/-! ### Programs -/

/-- Where the second walk starts the global scope has the names that are known in advance. -/
theorem HeadersSeen.start (h : HeadersSeen c f) (hend : c.kindAt f.position = .eof)
    (hends : ∀ i, c.kindAt i = .eof → c.tokens.size ≤ i + 1) (hscope : c.scope = 0)
    (hthere : 0 < f.arena.size) : At .start c (f.movedTo 0) := by
  obtain ⟨scope, hglobal⟩ := Option.isSome_iff_exists.1 (Arena.scope?_isSome_iff.2 hthere)
  have hnamed := h.named
  rw [globalNames_of_eof hends hend, State.globals, hglobal] at hnamed
  refine ⟨rfl, hscope ▸ hthere, ?_⟩
  rw [hscope]
  show List.Forall₂ _ (f.arena.around 0) _
  rw [Arena.around_zero hglobal]
  exact .cons hnamed .nil

/-- The walk over the bodies resolves all names up to the end of the input. -/
theorem resolves_secondWalk (hf : Headed c f) (hstart : At .start c (f.movedTo 0)) :
    Resolves (roundsWhile (return !(← atEnd)) (fun _ ↦ do programRound; return .yield ()) ()) c
      (f.movedTo 0) fun _ after ↦
        AnsweredTo c 0 after.position ∧ c.kindAt after.position = .eof := by
  refine upholds_roundsWhile (by simp) (I := fun _ s ↦
    Underway c f s ∧ Arrives (At .start) c (f.movedTo 0) s) ⟨hf.underway, .refl hstart⟩ ?_
  intro _ s hs
  simp only [upholds_bind, upholds_atEnd, upholds_pure, afterRound_yield, Bool.not_eq_true',
    Bool.not_eq_false', beq_eq_false_iff_ne, beq_iff_eq]
  refine ⟨fun _ ↦ ?_, fun hend ↦ ⟨hs.2.answered, hend⟩⟩
  refine ((resolves_programRound hf hs.1 hs.2.there).and (ensures_runs _ c s)).mono ?_
  rintro _ after ⟨hround, hrun⟩
  exact ⟨(hf.next hs.1 hrun).1, hs.2.trans hround⟩

theorem resolves_program (hc : c.Closed) (hw : c.Worded) (hscope : c.scope = 0)
    (hfunction : c.function = none) (hends : ∀ i, c.kindAt i = .eof → c.tokens.size ≤ i + 1) :
    Resolves program c .initial fun _ after ↦
      AnsweredTo c 0 after.position ∧ c.kindAt after.position = .eof := by
  simp only [program, upholds_bind, upholds_read, upholds_ite, upholds_moveTo]
  refine ⟨fun _ ↦ by simp, fun _ ↦ ?_⟩
  refine ((Calm.headers.resolves (ensures_headers_seen hc hw)).and (ensures_runs _ c .initial)).mono ?_
  rintro _ f ⟨⟨hseen, hend⟩, hrun⟩
  have hf : Headed c f := .of_run hc hw hscope hfunction hrun
  exact resolves_secondWalk hf (hseen.start hend hends hscope hf.underway.unchecked.distinct.1)

end

/-- Names are scoped lexically.

Take the tokens of any text.  Whatever name the check of them looks up, as an operand, a target, a size or
an element of an array, a function that is called or the struct of an instance, it finds the declaration
that the name stands for where it is in the text, and finds nothing if there is none.  A name is reported
as that of no variable or function only where no declaration of it is known, and if it was called, only if
it is not built in.  And in an accepted program each name that is used has a declaration or is that of a
built-in function that is called. -/
theorem names_are_scoped_lexically (limits : Limits) (wordLimit : Nat) (source : String) :
    let c := Context.top limits (scan wordLimit source).tokens
    (∀ m ∈ program.momentsFrom c .initial, ∀ name, m.lookup = some name →
        c.Lexical m.context m.state name) ∧
      (∀ e, (analyze limits (scan wordLimit source).tokens).error = some e → c.Blames e) ∧
      ((analyze limits (scan wordLimit source).tokens).accepted → ∀ i, c.IsUse i → c.Answered i) := by
  intro c
  have hends : ∀ i, c.kindAt i = .eof → c.tokens.size ≤ i + 1 :=
    fun _ ↦ size_le_of_eof limits wordLimit source
  have hprogram := resolves_program (closed_scan limits wordLimit source)
    (worded_scan limits wordLimit source) rfl rfl hends
  refine ⟨fun m hm name hlookup ↦ ?_, fun e he ↦ hprogram.ensures.of_analyze he,
    fun haccepted i huse ↦ ?_⟩
  · obtain ⟨d, t, lookup⟩ := m
    obtain rfl : lookup = some name := hlookup
    exact hprogram.lookups d t name hm
  · obtain ⟨t, hrun⟩ := runFrom_of_accepted haccepted
    obtain ⟨hanswered, hend⟩ := hprogram.ensures.of_run hrun
    refine hanswered i (Nat.zero_le i) (Nat.lt_of_not_le fun hle ↦ ?_) huse
    cases huse.kind.symm.trans (kindAt_of_eof_le hends hend hle)

/-- A program in which a name stands for three declarations, each inside of the one before. -/
def shadowingProgram : String :=
  "nt x = 1; mn() \x7b nt x = x + 1; f (x > 0) \x7b nt x = x; prnt(x); \x7d end; \x7d"

/-- A program in which a name is used behind the block of its declaration. -/
def leavingProgram : String :=
  "mn() \x7b f (tr) \x7b nt x = 1; \x7d prnt(x); end; \x7d"

/-- A name in its own initializer stands for a declaration outside; behind a block it is not known. -/
theorem names_are_scoped_lexically_shadowingProgram :
    let c := Context.top .default (scan 16 shadowingProgram).tokens
    let d := Context.top .default (scan 16 leavingProgram).tokens
    (∃ m ∈ program.momentsFrom c .initial, m.lookup = some "x" ∧ m.state.position = 26 ∧
        c.Lexical m.context m.state "x") ∧
      (c.declared? 26 "x" = some 10 ∧ c.IsUse 26 ∧ c.Answered 26) ∧
      ∃ e, (analyze .default (scan 16 leavingProgram).tokens).error = some e ∧
        e.violation = .undefinedVariable "x" ∧ d.Blames e := by
  intro c d
  obtain ⟨hlexical, -, hanswered⟩ := names_are_scoped_lexically .default 16 shadowingProgram
  obtain ⟨-, hblames, -⟩ := names_are_scoped_lexically .default 16 leavingProgram
  obtain ⟨⟨m, hm, hlookup, hplace⟩, haccepted, hdeclared, hkind, hmode, hbefore⟩ :
      (∃ m ∈ program.momentsFrom c .initial, m.lookup = some "x" ∧ m.state.position = 26) ∧
        (analyze .default (scan 16 shadowingProgram).tokens).accepted = true ∧
        c.declared? 26 "x" = some 10 ∧ c.kindAt 26 = .identifier ∧ (c.view 26).mode.uses = true ∧
        c.kindAt 25 ≠ .dot := by
    decide +kernel
  have huse : c.IsUse 26 := by
    refine ⟨hkind, hmode, fun j hj ↦ ?_⟩
    obtain rfl : j = 25 := by omega
    exact hbefore
  have hrefused : (analyze .default (scan 16 leavingProgram).tokens).error =
      some ⟨.undefinedVariable "x", ⟨1, 34⟩⟩ := by decide +kernel
  exact ⟨⟨m, hm, hlookup, hplace, hlexical m hm "x" hlookup⟩,
    ⟨hdeclared, huse, hanswered haccepted 26 huse⟩, _, hrefused, rfl, hblames _ hrefused⟩

end FrontEnd
