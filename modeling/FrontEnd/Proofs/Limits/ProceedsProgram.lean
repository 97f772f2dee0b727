import FrontEnd.Proofs.Check.NeverLost
import FrontEnd.Proofs.Check.ScopeLife
import FrontEnd.Proofs.Check.SymbolLife
import FrontEnd.Proofs.Limits.ProceedsStatement

/-!
# Programs proceed

The walk over the headers passes a token in each round, whatever stands there.  The walk over the
program goes into bodies, so it gets on only because each recorded body ends behind the header it
was recorded for: `BodiesWithin`, which the first walk establishes and the second one keeps.

Main statement: on any tokens the check of a program, allowed more rounds and levels than there are
tokens, comes to no limit (`limits_beyond_tokens`).
-/

namespace FrontEnd

open Check

namespace Proceeds

variable {w : Stage}

/-! ### Headers -/

theorem typedName (wantedType wantedName : Wanted) :
    MovesOn w (Check.typedName wantedType wantedName) :=
  (typeWord _).next fun _ ↦ (expect (by decide) _).andThen fun _ ↦ pure _

theorem parameterRound (scope : Nat) (before : List TypedName) :
    Proceeds w Again (Check.parameterRound scope before) :=
  (typedName _ _).andThen fun _ ↦ (insertSymbol _ _).next fun _ ↦ otherwise (refuse rfl) <|
    (next? .comma).next fun _ ↦ ite (advance.discard.next fun _ ↦ pure _) (pure _)

theorem parameters (scope : Nat) : Stays w (Check.parameters scope) :=
  (next? .rightParen).next fun _ ↦ ite (pure _) (rounds (parameterRound scope) [])

theorem memberRound (structName : String) (before : List TypedName) :
    Proceeds w Again (Check.memberRound structName before) :=
  (typedName _ _).andThen fun _ ↦ guard (refuse rfl) <|
    (expectMark (by decide)).discard.next fun _ ↦ pure _

theorem roundsOn_memberRound (structName : String) :
    RoundsOn w (return !(← Check.next? .rightBrace)) (Check.memberRound structName) :=
  .of_proceeds (fun _ _ ↦ rfl) (memberRound structName)

theorem requireFree (what : Redeclared) (name : Token) : Stays w (Check.requireFree what name) :=
  get.next fun _ ↦ ite (violateAt rfl) (pure _)

theorem isRecorded (name : String) : Stays w (Check.isRecorded name) :=
  of_unmoved fun _ _ ↦ rfl

theorem openFunctionScope (label : String) : Stays w (Check.openFunctionScope label) :=
  of_unmoved fun _ _ ↦ rfl

theorem declareGlobal (symbol : Symbol) (t : Token) : Stays w (Check.declareGlobal symbol t) :=
  (insertSymbol _ _).next fun _ ↦ ite (pure _) (violateAt rfl)

theorem recordFunction (keyword : Nat) (t : Token) (info : FunctionInfo) :
    Stays w (Check.recordFunction keyword t info) := by
  refine next (of_unmoved fun _ s ↦ ?_) fun _ ↦ ite (pure _) (violateAt rfl)
  show (recording keyword t info s).2.position = s.position
  unfold recording
  dsimp only
  split <;> rfl

/-- Behind the bracket that closes the one at hand. -/
theorem behindClose {α : Type} {r : α → Prop} {f : Nat → Nat → Check α}
    (hf : ∀ opening close, Stays w (f opening close)) : Proceeds w r (do
      let opening ← Check.here
      let close ← Check.matchingClose opening
      moveTo (close + 1)
      f opening close) := by
  intro c s hc hstart _
  simp only [ensures_bind, ensures_here, ensures_moveTo]
  refine (ensures_matchingClose_size s.position).mono ?_
  rintro close t ⟨rfl, hle, hclose⟩
  rw [hc] at hclose
  have hrest := hf t.position close (s := t.movedTo (close + 1)) hc
    (Nat.le_succ_of_le (Nat.le_trans hstart hle)) hclose
  exact hrest.mono fun _ after hon ↦
    ⟨Nat.le_trans (Nat.le_succ_of_le hle) hon.le, hon.le_size,
      fun _ ↦ Nat.lt_of_lt_of_le (Nat.lt_succ_of_le hle) hon.le⟩

theorem bodyRange : MovesOn w Check.bodyRange :=
  (next? .leftBrace).next fun _ ↦ otherwise (expectMark (by decide)).discard.stays <|
    behindClose fun _ _ ↦ pure _

/-- A brace more is looked for as long as none stands here. -/
theorem structRound (value : Unit) : Proceeds w Again (Check.structRound value) := by
  intro c s hc hstart hsize
  simp only [Check.structRound, ensures_bind, ensures_atEnd, ensures_ite, ensures_violate,
    beq_iff_eq]
  refine ⟨fun _ ↦ excused_of_isLimit rfl, fun hend ↦ ?_⟩
  have hlt := Context.lt_size_of_ne_eof hend
  have hpass : FromToken w Again (do Functor.discard Check.advance; return .yield ()) :=
    .first FromToken.advance.discard fun _ ↦ pure (ForInStep.yield ())
  exact (ensures_bind _).1 (hpass hc hstart (hc ▸ hlt))

theorem skipStruct : MovesOn w Check.skipStruct :=
  have hround : RoundsOn w (return !(← Check.next? .leftBrace)) Check.structRound :=
    .of_proceeds (fun _ _ ↦ rfl) structRound
  (hround.roundsWhile ()).next fun _ ↦ behindClose fun _ _ ↦ (expectMark (by decide)).discard.stays

end Proceeds

namespace FromToken

variable {w : Stage}

theorem functionHeader : FromToken w (fun _ ↦ True) Check.functionHeader := by
  refine .after (fun _ _ ↦ rfl) fun keyword ↦ FromToken.advance.discard.first fun _ ↦
    Proceeds.advance.next fun t ↦ ?_
  split
  · exact .violateAt rfl
  · exact (Proceeds.expect (by decide) _).next fun _ ↦ (Proceeds.requireFree _ _).next fun _ ↦
      (Proceeds.openFunctionScope _).next fun scope ↦
        (Proceeds.expectMark (by decide)).discard.next fun _ ↦
          (Proceeds.parameters scope).next fun _ ↦
            (Proceeds.expectMark (by decide)).discard.next fun _ ↦ Proceeds.bodyRange.next fun _ ↦
              Proceeds.recordFunction _ _ _

theorem entryPointHeader : FromToken w (fun _ ↦ True) Check.entryPointHeader := by
  refine .after (fun _ _ ↦ rfl) fun keyword ↦ FromToken.advance.first fun _ ↦
    (Proceeds.isRecorded _).next fun _ ↦ .guard (.violateAt rfl) ?_
  exact (Proceeds.openFunctionScope _).next fun _ ↦
    (Proceeds.expectMark (by decide)).discard.next fun _ ↦
      (Proceeds.expectMark (by decide)).discard.next fun _ ↦ Proceeds.bodyRange.next fun _ ↦
        Proceeds.recordFunction _ _ _

theorem structHeader : FromToken w (fun _ ↦ True) Check.structHeader :=
  FromToken.advance.discard.first fun _ ↦ (Proceeds.expect (by decide) _).next fun name ↦
    (Proceeds.requireFree _ _).next fun _ ↦ (Proceeds.expectMark (by decide)).discard.next fun _ ↦
      ((Proceeds.roundsOn_memberRound name.lexeme).roundsWhile []).next fun _ ↦
        (Proceeds.expectMark (by decide)).discard.next fun _ ↦
          (Proceeds.expectMark (by decide)).discard.next fun _ ↦ Proceeds.declareGlobal _ _

/-- Whatever token stands here, the walk over the headers passes it. -/
theorem headerRound : FromToken w (fun _ ↦ True) Check.headerRound := by
  refine .after (fun _ _ ↦ rfl) fun _ ↦ ?_
  split
  · exact functionHeader
  · exact entryPointHeader
  · exact structHeader
  · exact .of_proceeds (.behindClose (f := fun _ _ ↦ pure ()) fun _ _ ↦ .pure ())
  · exact fun c s _ _ hsize ↦ ⟨Nat.le_succ _, hsize, fun _ ↦ Nat.lt_succ_self _⟩

theorem roundsOn_headersRound : RoundsOn w (return !(← Check.atEnd)) Check.headersRound := by
  refine .of_fromToken (fun c s ↦ ?_) fun _ ↦ headerRound.first fun _ ↦ .pure _
  simp only [ensures_bind, ensures_atEnd, ensures_pure]
  exact ⟨trivial, fun hmore hend ↦ by simp [hend] at hmore⟩

end FromToken

theorem Proceeds.headers {w : Stage} : Stays w Check.headers :=
  (FromToken.roundsOn_headersRound.roundsWhile ()).next fun _ ↦ (isRecorded _).next fun _ ↦
    ite (pure _) (violate rfl)

/-! ### Recorded bodies -/

/-- The body of each recorded function ends behind the index it was recorded for, at a token. -/
def BodiesWithin (size : Nat) (s : State) : Prop :=
  ∀ i name, s.headers.lookup i = some name → ∃ body, s.arena.body? name = some body ∧
    i ≤ body.stop ∧ body.start ≤ body.stop + 1 ∧ body.stop < size

/-- The rules of a walk that keeps the recorded bodies. -/
def Rules.keepingBodies (size : Nat) : Rules :=
  .keeping fun s ↦ 0 < s.arena.size ∧ BodiesWithin size s

section

variable {size : Nat} {α : Type} {x : Check α} {c : Context} {s t : State}

theorem BodiesWithin.of_keeps (h : BodiesWithin size s) (hkeeps : Keeps s t) :
    BodiesWithin size t := by
  intro i name hname
  rw [hkeeps.headers] at hname
  obtain ⟨body, hbody, hwithin⟩ := h i name hname
  exact ⟨body, hkeeps.bodies name body hbody, hwithin⟩

theorem Part.keepsBodies (part : Part) : KeepsBodies part.mark := by
  cases part with
  | whole | element => exact keepsBodies_withValue
  | member name => exact keepsBodies_withMember name

theorem Change.keeps (h : Change c s t) : Keeps s t := by
  cases h with
  | moved | warned | returned => exact ⟨rfl, rfl, fun _ _ hbody ↦ hbody⟩
  | marked name part =>
    exact ⟨rfl, rfl, fun _ _ hbody ↦ (Arena.body?_modify part.keepsBodies _).trans hbody⟩
  | declared hinsert => exact keeps_insert hinsert

instance (size : Nat) : (Rules.keepingBodies size).Ordinary :=
  ⟨fun h hs ↦ ⟨h.size_eq ▸ hs.1, hs.2.of_keeps h.keeps⟩, fun _ _ ↦ trivial⟩

instance (size : Nat) : (Rules.keepingBodies size).Declaring :=
  ⟨fun _ h hs ↦ ⟨(Arena.size_insert h).symm ▸ hs.1, hs.2.of_keeps (keeps_insert h)⟩⟩

instance (size : Nat) : (Rules.keepingBodies size).Entering :=
  ⟨fun _ hs ↦ hs, fun _ _ _ ↦ trivial⟩

/-- What a check leaves behind has the recorded bodies within the tokens, as before. -/
theorem Traced.bodiesWithin (hx : Traced (.keepingBodies size) x) (c : Context)
    (hs : 0 < s.arena.size ∧ BodiesWithin size s) :
    Ensures x c s (fun _ ↦ True) fun _ after ↦ 0 < after.arena.size ∧ BodiesWithin size after := by
  have hkept := (hx c s).keeps
    (fun s c label _ h ↦ h.of_keeps (t := s.entered c label)
      ⟨rfl, rfl, fun _ _ hbody ↦ Arena.body?_push _ _ hbody⟩)
    (fun s scope hscope h ↦ h.of_keeps (t := s.released scope)
      ⟨rfl, rfl, fun _ _ hbody ↦ (Arena.body?_release hscope).trans hbody⟩) hs
  unfold Check.leaves at hkept
  unfold Ensures
  split
  next heq =>
    rw [heq] at hkept
    exact hkept
  next => trivial

/-- Between the keyword of a header and the record of its function. -/
structure Recording (size keyword : Nat) (s : State) : Prop where
  le : keyword ≤ s.position
  bodies : 0 < s.arena.size ∧ BodiesWithin size s

theorem Recording.next {keyword : Nat} (h : Recording size keyword s) (hx : Forward x)
    (htraced : Traced (.keepingBodies size) x) (c : Context) :
    Ensures x c s (fun _ ↦ True) fun _ after ↦ Recording size keyword after :=
  ((hx c s).and (htraced.bodiesWithin c h.bodies)).mono fun _ _ hafter ↦
    ⟨Nat.le_trans h.le hafter.1, hafter.2⟩

/-- What is recorded of a function is its own body, and the others stay. -/
theorem Recording.recordFunction {keyword : Nat} (h : Recording size keyword s) (name : Token)
    {info : FunctionInfo} (hkeyword : keyword ≤ info.body.stop)
    (hbody : info.body.start ≤ info.body.stop + 1) (hstop : info.body.stop < size) :
    Ensures (Check.recordFunction keyword name info) c s (fun _ ↦ True) fun _ after ↦
      0 < after.arena.size ∧ BodiesWithin size after := by
  simp only [ensures_recordFunction_iff, declareGlobal, ensures_bind, ensures_insertSymbol, ensures_ite, ensures_violateAt, ensures_pure]
  refine ⟨fun arena harena ↦ ⟨fun _ ↦ ?_, fun _ ↦ trivial⟩, fun _ ↦ ⟨by simp, fun _ ↦ trivial⟩⟩
  have hdeclares := Declares.of_insert (s := { s with arena := s.arena }) harena
  refine ⟨hdeclares.size ▸ h.bodies.1, fun i found hfound ↦ ?_⟩
  rw [List.lookup_cons] at hfound
  split at hfound
  next hi =>
    obtain rfl : name.lexeme = found := Option.some.inj hfound
    rw [beq_iff_eq.1 hi]
    refine ⟨info.body, ?_, hkeyword, hbody, hstop⟩
    have hself := hdeclares.lookup_self
    show (arena.lookup 0 name.lexeme).bind Symbol.body? = some info.body
    rw [show arena.lookup 0 name.lexeme = _ from hself]
    rfl
  next hi =>
    obtain ⟨body, hold, hwithin⟩ := h.bodies.2 i found hfound
    exact ⟨body, hdeclares.bodies found body hold, hwithin⟩

theorem ensures_bodyRange_within :
    Ensures bodyRange c s (fun _ ↦ True) fun body after ↦ s.position ≤ body.stop ∧
      body.start ≤ body.stop + 1 ∧ body.stop < c.tokens.size ∧ s.position ≤ after.position := by
  simp only [bodyRange, ensures_bind, ensures_next?, ensures_ite, ensures_here, ensures_moveTo,
    ensures_pure, beq_iff_eq, ensures_discard, ensures_expectMark]
  refine ⟨fun _ ↦ ?_, fun hother ↦ ⟨fun hopen ↦ absurd hopen hother, fun _ ↦ trivial⟩⟩
  have hsearch : Ensures (matchingClose s.position) c s (Excused c fun _ ↦ True) fun close after ↦
      after = s ∧ s.position ≤ close ∧ close < c.tokens.size :=
    ensures_matchingClose_size s.position
  refine hsearch.imp (fun _ _ ↦ trivial) ?_
  rintro close t ⟨rfl, hle, hclose⟩
  exact ⟨hle, Nat.succ_le_succ hle, hclose, Nat.le_succ_of_le hle⟩

/-- A function from the opening of its scope on. -/
theorem Recording.functionRest {keyword : Nat} (h : Recording size keyword s)
    (hc : c.tokens.size = size) (label : String) {parameters : Nat → Check (List TypedName)}
    (hforward : ∀ scope, Forward (parameters scope))
    (htraced : ∀ scope, Traced (.keepingBodies size) (parameters scope)) (name : Token)
    {info : Nat → List TypedName → BodyRange → FunctionInfo}
    (hinfo : ∀ scope parameters body, (info scope parameters body).body = body) :
    Ensures (do
      let scope ← openFunctionScope label
      discard <| expectMark .leftParen
      let parameters ← parameters scope
      discard <| expectMark .rightParen
      let body ← bodyRange
      Check.recordFunction keyword name (info scope parameters body)) c s (fun _ ↦ True)
        fun _ after ↦ 0 < after.arena.size ∧ BodiesWithin size after := by
  rw [ensures_bind, ensures_openFunctionScope, ensures_bind]
  have hopened : Recording size keyword { s with arena := s.arena.push 0 label } :=
    ⟨h.le, by simp [Arena.push, Arena.size], h.bodies.2.of_keeps
      ⟨rfl, rfl, fun _ _ hbody ↦ Arena.body?_push _ _ hbody⟩⟩
  refine (hopened.next (Forward.expect _ _).discard (Traced.expect _ _).discard c).mono
    fun _ _ h ↦ ?_
  rw [ensures_bind]
  refine (h.next (hforward _) (htraced _) c).mono fun parameters _ h ↦ ?_
  rw [ensures_bind]
  refine (h.next (Forward.expect _ _).discard (Traced.expect _ _).discard c).mono fun _ t h ↦ ?_
  rw [ensures_bind]
  have hrange := (ensures_bodyRange_within (c := c) (s := t)).and
    ((Traced.bodyRange (R := .keepingBodies size)).bodiesWithin c h.bodies)
  refine hrange.mono fun body u hu ↦ ?_
  obtain ⟨⟨hle, hstart, hstop, hpassed⟩, hkept⟩ := hu
  have hrecording : Recording size keyword u := ⟨Nat.le_trans h.le hpassed, hkept⟩
  have hkeyword : keyword ≤ body.stop := Nat.le_trans h.le hle
  rw [← hc]
  refine (hc ▸ hrecording).recordFunction name ?_ ?_ ?_ <;> rw [hinfo]
  · exact hkeyword
  · exact hstart
  · exact hstop

theorem ensures_functionHeader_bodies (hs : 0 < s.arena.size ∧ BodiesWithin c.tokens.size s) :
    Ensures functionHeader c s (fun _ ↦ True) fun _ after ↦
      0 < after.arena.size ∧ BodiesWithin c.tokens.size after := by
  have hstart : Recording c.tokens.size s.position s := ⟨Nat.le_refl _, hs⟩
  rw [functionHeader, ensures_bind, ensures_here, ensures_bind]
  refine (hstart.next Forward.advance.discard Traced.advance.discard c).mono fun _ _ h ↦ ?_
  rw [ensures_bind]
  refine (h.next Forward.advance Traced.advance c).mono fun t _ h ↦ ?_
  split
  · trivial
  rw [ensures_bind]
  refine (h.next (Forward.expect _ _) (Traced.expect _ _) c).mono fun name _ h ↦ ?_
  rw [ensures_bind]
  refine (h.next (Forward.requireFree _ _) (Traced.requireFree _ _) c).mono fun _ _ h ↦ ?_
  exact h.functionRest rfl _ Forward.parameters (fun scope ↦ Traced.parameters scope) name
    fun _ _ _ ↦ rfl

theorem ensures_entryPointHeader_bodies (hs : 0 < s.arena.size ∧ BodiesWithin c.tokens.size s) :
    Ensures entryPointHeader c s (fun _ ↦ True) fun _ after ↦
      0 < after.arena.size ∧ BodiesWithin c.tokens.size after := by
  have hstart : Recording c.tokens.size s.position s := ⟨Nat.le_refl _, hs⟩
  rw [entryPointHeader, ensures_bind, ensures_here, ensures_bind]
  refine (hstart.next Forward.advance Traced.advance c).mono fun name t h ↦ ?_
  have hbody (scope : Nat) (parameters : List TypedName) (body : BodyRange) :
      (FunctionInfo.mk .void parameters scope body false true).body = body :=
    rfl
  have hrest := h.functionRest rfl "entry point mn" (fun _ ↦ .pure []) (fun _ ↦ .pure []) name hbody
  simp only [pure_bind] at hrest
  simp only [ensures_bind, isRecorded, ensures_get, ensures_pure, ensures_ite, ensures_violateAt]
  exact ⟨fun _ ↦ trivial, fun _ ↦ by simpa only [ensures_bind] using hrest⟩

/-- After the headers the recorded bodies are within the tokens. -/
theorem ensures_headers_bodies (hs : 0 < s.arena.size ∧ BodiesWithin c.tokens.size s) :
    Ensures headers c s (fun _ ↦ True) fun _ after ↦
      0 < after.arena.size ∧ BodiesWithin c.tokens.size after := by
  have hround {s : State} (hs : 0 < s.arena.size ∧ BodiesWithin c.tokens.size s) :
      Ensures headerRound c s (fun _ ↦ True) fun _ after ↦
        0 < after.arena.size ∧ BodiesWithin c.tokens.size after := by
    rw [headerRound, ensures_bind, ensures_peekKind]
    split
    · exact ensures_functionHeader_bodies hs
    · exact ensures_entryPointHeader_bodies hs
    · exact Traced.structHeader.bodiesWithin c hs
    · exact (Traced.here.bind fun _ ↦ (Traced.matchingClose _).bind fun _ ↦
        .moveTo _).bodiesWithin c hs
    · exact (Traced.here.bind fun _ ↦ .moveTo _).bodiesWithin c hs
  rw [headers, ensures_bind]
  refine (ensures_roundsWhile (I := fun _ s ↦ 0 < s.arena.size ∧ BodiesWithin c.tokens.size s)
    (D := fun _ s ↦ 0 < s.arena.size ∧ BodiesWithin c.tokens.size s) (fun _ ↦ trivial) hs
    fun _ s hs ↦ ?_).mono fun _ _ h ↦ ?_
  · simp only [ensures_bind, ensures_atEnd, ensures_pure]
    exact ⟨fun _ ↦ (hround hs).mono fun _ _ h ↦ h, fun _ ↦ hs⟩
  · simp only [ensures_bind, isRecorded, ensures_get, ensures_pure, ensures_ite, ensures_violate]
    exact ⟨fun _ ↦ h, fun _ ↦ trivial⟩

/-! ### The walk over a program -/

/-- The stage of the second walk: a statement may open as many levels as the limits allow. -/
def Context.stage (c : Context) : Stage :=
  .ofLevels c.tokens 0 (c.limits.nesting + 1)

/-- A body is walked over from its first token on, wherever the walk was. -/
theorem ensures_bodyStatements_stop (name : String) {info : FunctionInfo}
    (hstart : info.body.start ≤ c.tokens.size) :
    Ensures (bodyStatements name info) c s (Excused c c.stage.Below) fun _ after ↦
      after.position = info.body.stop := by
  simp only [bodyStatements, ensures_bind, ensures_read, ensures_withReader, ensures_modify,
    ensures_discard, ensures_here, ensures_ite, ensures_violate, ensures_pure]
  have hstatements : Stays c.stage (statementsUntil (statement c.limits.nesting) [.rightBrace]) :=
    (fromToken_statement c.limits.nesting 0).stays_statementsUntil [.rightBrace]
  have hrun := hstatements (c := inFunction name info c)
    (s := { s with position := info.body.start, sawReturn := false }) rfl (Nat.zero_le _) hstart
  refine hrun.mono fun _ after _ ↦ ⟨fun _ ↦ excused_of_isLimit rfl, fun hstop ↦ ?_⟩
  exact not_not.1 hstop

theorem ensures_functionBody_stop {name : String} {body : BodyRange}
    (hbody : s.arena.body? name = some body) (hstart : body.start ≤ c.tokens.size) :
    Ensures (functionBody name) c s (Excused c c.stage.Below) fun _ after ↦
      after.position = body.stop + 1 := by
  obtain ⟨symbol, hsymbol, hsymbolBody⟩ := Option.bind_eq_some_iff.1 hbody
  obtain ⟨info, hinfo, rfl⟩ : ∃ info, symbol.functionInfo? = some info ∧ info.body = body :=
    Option.map_eq_some_iff.1 hsymbolBody
  simp only [functionBody, signature, ensures_bind, ensures_get, hsymbol, hinfo, ensures_pure]
  refine (ensures_bodyStatements_stop name hstart).mono fun _ t _ ↦ ?_
  simp only [ensures_moveTo, recordReturn, ensures_modify, ensures_ite, ensures_refuse,
    ensures_pure]
  exact ⟨fun _ ↦ excused_of_isLimit rfl, fun _ ↦ rfl⟩

/-- A round of the walk over a program passes a token, if the recorded bodies are within the
tokens. -/
theorem ensures_programRound_onward (hs : BodiesWithin c.tokens.size s)
    (hlt : s.position < c.tokens.size) :
    Ensures programRound c s (Excused c c.stage.Below) fun _ after ↦
      Onward c.tokens.size True s after := by
  rw [programRound, ensures_bind, ensures_peekKind]
  split
  iterate 2
    · simp only [ensures_bind, ensures_get, ensures_here]
      split
      next name hname =>
        obtain ⟨body, hbody, hle, hstart, hstop⟩ := hs _ name hname
        refine (ensures_functionBody_stop hbody (Nat.le_trans hstart hstop)).mono fun _ after h ↦ ?_
        exact ⟨by omega, by omega, fun _ ↦ by omega⟩
      next => exact excused_of_isLimit rfl
  · exact Proceeds.skipStruct (w := c.stage) rfl (Nat.zero_le _) (Nat.le_of_lt hlt)
  · rw [ensures_bind, ensures_read]
    exact (fromToken_statement c.limits.nesting 0).discard rfl (Nat.zero_le _) hlt

theorem ensures_programRound_bodies (hs : 0 < s.arena.size ∧ BodiesWithin c.tokens.size s) :
    Ensures programRound c s (fun _ ↦ True) fun _ after ↦
      0 < after.arena.size ∧ BodiesWithin c.tokens.size after := by
  refine (Traced.programRound (fun _ _ _ _ ⟨hs, hbodies⟩ ↦ ?_)).bodiesWithin c hs
  exact ⟨(Arena.size_modify _).symm ▸ hs, hbodies.of_keeps
    ⟨rfl, rfl, fun _ _ hbody ↦ (Arena.body?_modify (keepsBodies_withReturn _) _).trans hbody⟩⟩

/-- A program is checked without a limit in the way, unless there are as many tokens as it allows
rounds, or levels. -/
theorem ensures_program_excused (hsize : s.position ≤ c.tokens.size)
    (hs : 0 < s.arena.size ∧ BodiesWithin c.tokens.size s) :
    Ensures program c s (Excused c c.stage.Below) fun _ _ ↦ True := by
  rw [program, ensures_bind, ensures_read]
  refine (ensures_ite _ _).2 ⟨fun _ ↦ excused_of_isLimit rfl, fun _ ↦ ?_⟩
  rw [ensures_bind]
  have hheaders := (Proceeds.headers (w := c.stage) rfl (Nat.zero_le _) hsize).and
    (ensures_headers_bodies hs)
  refine hheaders.mono fun _ f hf ↦ ?_
  rw [ensures_bind, ensures_moveTo]
  refine (ensures_roundsFrom_onward (I := fun t ↦ 0 < t.arena.size ∧ BodiesWithin c.tokens.size t)
    (fun _ t ht hsize ↦ ?_) _ _ (s := f.movedTo 0) hf.2 (Nat.zero_le _)
    (Nat.le_add_left _ _)).mono fun _ _ _ ↦ trivial
  simp only [ensures_bind, ensures_atEnd, ensures_pure]
  refine ⟨trivial, fun hmore ↦ ?_⟩
  have hlt : t.position < c.tokens.size :=
    Context.lt_size_of_ne_eof fun hend ↦ by simp [hend] at hmore
  refine ((ensures_programRound_onward ht.2 hlt).and (ensures_programRound_bodies ht)).mono ?_
  exact fun _ after h ↦ ⟨h.1.mono fun _ ↦ trivial, h.2⟩

/-! ### Loops -/

/-- The states in which the rounds of the walk over a program start. -/
inductive AtRound (c : Context) : State → Prop
  | first {s : State} (h : headers.runFrom c .initial = (.ok (), s)) : AtRound c (s.movedTo 0)
  | next {s after : State} (h : AtRound c s) (hround : programRound.runFrom c s = (.ok (), after)) :
    AtRound c after

theorem bodiesWithin_initial (size : Nat) :
    0 < State.initial.arena.size ∧ BodiesWithin size .initial :=
  ⟨by decide, fun _ _ h ↦ nomatch h⟩

theorem AtRound.bodiesWithin (h : AtRound c s) :
    0 < s.arena.size ∧ BodiesWithin c.tokens.size s := by
  induction h with
  | first h =>
    have hheaders := (ensures_headers_bodies (bodiesWithin_initial _)).of_run h
    exact hheaders
  | next _ hround ih => exact (ensures_programRound_bodies ih).of_run hround

/-- The rounds of each counted loop pass tokens. -/
theorem CountedLoop.roundsOn {tokens : Array Token} {σ : Type} {due : Check Bool}
    {round : σ → Check (ForInStep σ)} (h : CountedLoop tokens due round) :
    ∃ Below, RoundsOn ⟨tokens, 0, Below⟩ due round := by
  have hoperand (levels : Nat) (stop : Nat) (hstop : stop ≤ tokens.size) :
      MovesOn (.ofLevels tokens 0 levels) (operand levels stop) :=
    movesOn_operand levels 0 hstop
  have hinner (levels : Nat) (terminators : List Kind) :
      Stays (.ofLevels tokens 0 levels) (statementsBelow levels terminators) :=
    stays_statementsBelow levels 0 terminators
  have hrounds {σ : Type} {round : σ → Check (ForInStep σ)} {Below : SemanticError → Prop}
      (h : ∀ value, Proceeds ⟨tokens, 0, Below⟩ Again (round value)) :
      ∃ Below, RoundsOn ⟨tokens, 0, Below⟩ (return true) round :=
    ⟨Below, .of_proceeds (fun _ _ ↦ rfl) h⟩
  have hflat {σ : Type} {round : σ → Check (ForInStep σ)}
      (h : ∀ value, Proceeds ⟨tokens, 0, fun _ ↦ False⟩ Again (round value)) :
      ∃ Below, RoundsOn ⟨tokens, 0, Below⟩ (return true) round :=
    hrounds h
  cases h with
  | chain levels precedences floor hstop =>
    exact ⟨_, Proceeds.roundsOn_chainRound hstop
      (Proceeds.chain (hoperand levels) hstop precedences) floor⟩
  | tightest levels floor hstop =>
    exact ⟨_, Proceeds.roundsOn_chainRound hstop (fun _ ↦ hoperand levels _ hstop) floor⟩
  | «arguments» levels close => exact hrounds (Proceeds.argumentRound (hoperand levels) close)
  | declarators levels type isConstant =>
    exact hrounds (Proceeds.declaratorRound (.declarator (hoperand levels) type isConstant))
  | instances structName =>
    exact hflat (Proceeds.declaratorRound (.instanceDeclarator structName))
  | elements type => exact hflat (Proceeds.elementRound type)
  | rows type columns isConstant =>
    exact ⟨fun _ ↦ False, Proceeds.roundsOn_rowRound type columns isConstant⟩
  | statements levels terminators =>
    exact hrounds (FromToken.statementRound (fromToken_statement levels 0) terminators)
  | elseIfs levels =>
    exact ⟨_, Proceeds.roundsOn_elseIfRound (hinner levels) (hoperand levels)⟩
  | cases levels selector => exact hrounds (Proceeds.switchRound (hinner levels) selector)
  | parameters scope => exact hflat (Proceeds.parameterRound scope)
  | members structName => exact ⟨fun _ ↦ False, Proceeds.roundsOn_memberRound structName⟩
  | headers => exact ⟨fun _ ↦ False, FromToken.roundsOn_headersRound⟩
  | structs => exact ⟨fun _ ↦ False, .of_proceeds (fun _ _ ↦ rfl) Proceeds.structRound⟩

/-- A round that asks for another one has passed a token. -/
theorem CountedLoop.passes {σ : Type} {due : Check Bool} {round : σ → Check (ForInStep σ)}
    (h : CountedLoop c.tokens due round) (hsize : s.position ≤ c.tokens.size)
    (hdue : due.runFrom c s = (.ok true, t)) {value next : σ} {after : State}
    (hround : (round value).runFrom c t = (.ok (.yield next), after)) :
    s.position < after.position ∧ after.position ≤ c.tokens.size := by
  obtain ⟨Below, hrounds⟩ := h.roundsOn
  obtain ⟨rfl, hyields⟩ := (hrounds value rfl (Nat.zero_le _) hsize).of_run hdue
  have hon := (hyields rfl).of_run hround
  exact ⟨hon.lt ⟨next, rfl⟩, hon.le_size⟩

/-! ### Levels -/

/-- All of the tokens, where any error may come from below. -/
def Stage.all (tokens : Array Token) : Stage :=
  ⟨tokens, 0, fun _ ↦ True⟩

/-- An error that one of some checks came to, started further on than at an index. -/
def MetLater {ι β : Type} (below : ι → Check β) (index : Nat) (e : SemanticError) : Prop :=
  ∃ i c s t, index < s.position ∧ (below i).runFrom c s = (.error e, t)

/-- Errors may be said to come from the checks that come to them. -/
theorem Proceeds.of_all {tokens : Array Token} {p : α → Prop} (hx : Proceeds (.all tokens) p x)
    {start : Nat} {Below : SemanticError → Prop} (hbelow : ∀ c s e t, start ≤ s.position →
      x.runFrom c s = (.error e, t) → Below e) : Proceeds ⟨tokens, start, Below⟩ p x := by
  intro c s hc hstart hsize
  have hon := hx hc (Nat.zero_le _) hsize
  unfold Ensures at hon ⊢
  split
  next heq =>
    rw [heq] at hon
    exact hon
  next e t heq => exact fun _ ↦ .inr (hbelow c s e t hstart heq)

theorem Proceeds.all {tokens : Array Token} {levels : Nat} {p : α → Prop}
    (hx : Proceeds (.ofLevels tokens 0 levels) p x) : Proceeds (.all tokens) p x :=
  fun _ _ hc hstart hsize ↦ (hx hc hstart hsize).imp (fun _ _ _ ↦ .inr trivial) fun _ _ h ↦ h

/-- The levels that an operand opens start at later tokens: what ends them ends it. -/
theorem ensures_operandWith_later {below : Nat → Check DataType} {tokens : Array Token}
    (hbelow : ∀ stop ≤ tokens.size, MovesOn (.all tokens) (below stop)) {stop : Nat}
    (hstop : stop ≤ tokens.size) (hc : c.tokens = tokens) (hsize : s.position ≤ tokens.size) :
    Ensures (operandWith below stop) c s (Excused c (MetLater below s.position)) fun _ after ↦
      Onward tokens.size True s after := by
  refine Proceeds.operandWith (w := ⟨tokens, s.position, MetLater below s.position⟩)
    (fun stop hstop ↦ ?_) hstop hc (Nat.le_refl _) hsize
  exact (hbelow stop hstop).of_all fun c t e u hlt hrun ↦ ⟨stop, c, t, u, hlt, hrun⟩

/-- The levels that a statement opens start at later tokens: what ends them ends it. -/
theorem ensures_statementWith_later {inner : Inner} {tokens : Array Token} (levels : Nat)
    (hinner : ∀ terminators, Stays (.all tokens) (inner terminators)) (hc : c.tokens = tokens)
    (hlt : s.position < tokens.size) :
    Ensures (statementWith levels inner) c s
      (Excused c fun e ↦ MetLater (operand levels) s.position e ∨ MetLater inner s.position e)
      fun _ after ↦ Onward tokens.size True s after := by
  have hoperand {stop : Nat} (hstop : stop ≤ tokens.size) :
      MovesOn (.all tokens) (operand levels stop) :=
    (movesOn_operand levels 0 hstop).all
  refine FromToken.statementWith (w := ⟨tokens, s.position, fun e ↦
      MetLater (operand levels) s.position e ∨ MetLater inner s.position e⟩)
    (fun stop hstop ↦ ?_) (fun terminators ↦ ?_) hc (Nat.le_refl _) hlt
  · exact (hoperand hstop).of_all fun c t e u hlt hrun ↦ .inl ⟨stop, c, t, u, hlt, hrun⟩
  · exact (hinner terminators).of_all fun c t e u hlt hrun ↦ .inr ⟨terminators, c, t, u, hlt, hrun⟩

end

/-- Checks are bounded by the tokens and not by their limits.

On any tokens, a check that is allowed more rounds than there are tokens and as many levels ends at
no limit.  For each round of a counted loop that another one follows passes a token, wherever it
starts, and so does each round of the walk over a program; a search ahead that is given up has
passed a token at each step; and the levels that an operand or a statement opens start at later
tokens than it does itself, so a limit that is met there is met behind it. -/
theorem walks_bounded_by_tokens (tokens : List Token) :
    (∀ limits : Limits, tokens.length + 1 ≤ limits.scan → tokens.length ≤ limits.nesting →
      ∀ e, (analyze limits tokens).error = some e → e.violation.isLimit = false) ∧
    ∀ c : Context, c.tokens = tokens.toArray →
      (∀ {σ : Type} (due : Check Bool) (round : σ → Check (ForInStep σ)),
        CountedLoop c.tokens due round → ∀ s t after value next, s.position ≤ tokens.length →
          due.runFrom c s = (.ok true, t) →
            (round value).runFrom c t = (.ok (.yield next), after) →
              s.position < after.position ∧ after.position ≤ tokens.length) ∧
      (∀ s after, AtRound c s → s.position < tokens.length →
        programRound.runFrom c s = (.ok (), after) →
          s.position < after.position ∧ after.position ≤ tokens.length) ∧
      (∀ index left depth opening closing, index ≤ tokens.length →
        c.searchClose opening closing left index depth = .exhausted →
          index + left ≤ tokens.length) ∧
      (∀ index left depth terminators, index ≤ tokens.length →
        c.searchEnd terminators left index depth = .exhausted → index + left ≤ tokens.length) ∧
      (∀ below, (∀ stop ≤ tokens.length, MovesOn (.all c.tokens) (below stop)) →
        ∀ stop ≤ tokens.length, ∀ s t e, s.position ≤ tokens.length →
          (operandWith below stop).runFrom c s = (.error e, t) → e.violation.isLimit →
            c.limits.scan ≤ tokens.length ∨ MetLater below s.position e) ∧
      (∀ levels inner, (∀ terminators, Stays (.all c.tokens) (inner terminators)) →
        ∀ s t e, s.position < tokens.length →
          (statementWith levels inner).runFrom c s = (.error e, t) → e.violation.isLimit →
            c.limits.scan ≤ tokens.length ∨ MetLater (operand levels) s.position e ∨
              MetLater inner s.position e) := by
  refine ⟨fun limits hscan hnesting e he ↦ ?_, fun c hc ↦ ?_⟩
  -- An error of a limit takes as many rounds or levels as there are tokens, or more.
  · have hprogram := ensures_program_excused (c := .top limits tokens) (s := .initial)
      (Nat.zero_le _) (bodiesWithin_initial _)
    have hlimit : Excused (.top limits tokens) (Context.top limits tokens).stage.Below e :=
      hprogram.of_analyze he
    have hsize : (Context.top limits tokens).tokens.size = tokens.length := List.size_toArray
    refine Bool.eq_false_iff.2 fun h ↦ ?_
    rcases hlimit h with hrounds | hlevels
    · have hrounds : limits.scan ≤ (Context.top limits tokens).tokens.size := hrounds
      omega
    · have hlevels : 0 + (limits.nesting + 1) ≤ (Context.top limits tokens).tokens.size := hlevels
      omega
  have hn : c.tokens.size = tokens.length := by rw [hc, List.size_toArray]
  simp only [← hn]
  refine ⟨fun due round hloop s t after value next hs hdue hround ↦ hloop.passes hs hdue hround,
    fun s after hat hlt hround ↦ ?_,
    fun _ _ _ _ _ hindex h ↦ Context.le_size_of_searchClose_exhausted hindex h,
    fun _ _ _ _ hindex h ↦ Context.le_size_of_searchEnd_exhausted hindex h,
    fun below hbelow stop hstop s t e hs hrun ↦ ?_, fun levels inner hinner s t e hs hrun ↦ ?_⟩
  · have hon := (ensures_programRound_onward hat.bodiesWithin.2 hlt).of_run hround
    exact ⟨hon.lt trivial, hon.le_size⟩
  · exact (ensures_operandWith_later hbelow hstop rfl hs).of_error (congrArg Prod.fst hrun)
  · exact (ensures_statementWith_later levels hinner rfl hs).of_error (congrArg Prod.fst hrun)

/-- The tokens of a program with a condition, without the end of the input. -/
def conditionTokens : List Token :=
  (scan 64 "mn() \x7b f (!tr) \x7b \x7d end; \x7d a = 1;").tokens.dropLast

/-- The check of the program ends at a name.  Its headers, its first round and a search ahead pass
tokens, and where no level is left, the operand and the block of its condition are ended behind
their starts. -/
theorem walks_bounded_by_tokens_conditionTokens :
    let n := conditionTokens.length
    let c := Context.top ⟨n + 1, n⟩ conditionTokens
    let s := State.initial
    (n + 1 ≤ c.limits.scan ∧ n ≤ c.limits.nesting ∧
      ∃ e, (analyze c.limits conditionTokens).error = some e ∧ e.violation.isLimit = false) ∧
    (s.position ≤ n ∧ s.position < ((headersRound ()).leaves c s).position) ∧
    (AtRound c ((headers.leaves c s).movedTo 0) ∧
      0 < (programRound.leaves c ((headers.leaves c s).movedTo 0)).position) ∧
    (c.searchClose .leftParen .rightParen 2 5 0 = .exhausted ∧ 5 + 2 ≤ n) ∧
    (c.searchEnd [] 2 6 0 = .exhausted ∧ 6 + 2 ≤ n) ∧
    (∃ e, ((operandWith (operand 0) 8).runFrom c (s.movedTo 6)).1 = .error e ∧
      (c.limits.scan ≤ n ∨ MetLater (operand 0) 6 e)) ∧
    ∃ e, ((statementWith 2 (statementsBelow 0)).runFrom c (s.movedTo 4)).1 = .error e ∧
      (c.limits.scan ≤ n ∨ MetLater (operand 2) 4 e ∨ MetLater (statementsBelow 0) 4 e) := by
  intro n c s
  obtain ⟨hlimits, hwalks⟩ := walks_bounded_by_tokens conditionTokens
  obtain ⟨hloops, hrounds, hclose, hend, hoperand, hstatement⟩ := hwalks c rfl
  have herror : (analyze c.limits conditionTokens).error =
      some ⟨.undefinedVariable "a", ⟨1, 27⟩⟩ := by decide +kernel
  have hrun {α : Type} (x : Check α) (t : State) :
      x.runFrom c t = ((x.runFrom c t).1, x.leaves c t) :=
    rfl
  have hdue : (do return !(← atEnd) : Check Bool).runFrom c s = (.ok true, s) :=
    congrArg (fun more ↦ (Except.ok more, s)) (show (!c.kindAt 0 == .eof) = true by decide +kernel)
  have hheader : (headerRound.runFrom c s).1 = .ok () := by decide +kernel
  have hyields : ((headersRound ()).runFrom c s).1 = .ok (.yield ()) := by
    rw [headersRound, Check.runFrom_bind, hrun headerRound, hheader]
    rfl
  have hheaders : (headers.runFrom c s).1 = .ok () := by decide +kernel
  have hround : (programRound.runFrom c ((headers.leaves c s).movedTo 0)).1 = .ok () := by
    decide +kernel
  have hat : AtRound c ((headers.leaves c s).movedTo 0) := .first (hheaders ▸ hrun headers s)
  have hexhausted {r : Search} (h : (r matches .exhausted) = true) : r = .exhausted := by
    cases r with
    | exhausted => rfl
    | found | ended => cases h
  have hclosed : c.searchClose .leftParen .rightParen 2 5 0 = .exhausted :=
    hexhausted (by decide +kernel)
  have hended : c.searchEnd [] 2 6 0 = .exhausted := hexhausted (by decide +kernel)
  have hnegation : ((operandWith (operand 0) 8).runFrom c (s.movedTo 6)).1 =
      .error ⟨.nestingLimit 18, ⟨1, 12⟩⟩ := by decide +kernel
  have hblock : ((statementWith 2 (statementsBelow 0)).runFrom c (s.movedTo 4)).1 =
      .error ⟨.nestingLimit 18, ⟨1, 18⟩⟩ := by decide +kernel
  refine ⟨⟨Nat.le_refl _, Nat.le_refl _, _, herror,
    hlimits c.limits (Nat.le_refl _) (Nat.le_refl _) _ herror⟩,
    ⟨Nat.zero_le _, ?_⟩, ⟨hat, ?_⟩, ⟨hclosed, hclose 5 2 0 _ _ (by decide +kernel) hclosed⟩,
    ⟨hended, hend 6 2 0 _ (by decide +kernel) hended⟩, ⟨_, hnegation, ?_⟩, ⟨_, hblock, ?_⟩⟩
  · exact (hloops _ _ .headers s s _ () () (Nat.zero_le _) hdue
      (hyields ▸ hrun (headersRound ()) s)).1
  · exact (hrounds _ _ hat (by decide +kernel) (hround ▸ hrun programRound _)).1
  · exact hoperand (operand 0) (fun stop hstop ↦ (movesOn_operand 0 0 hstop).all) 8
      (by decide +kernel) (s.movedTo 6) _ _ (by decide +kernel)
      (hnegation ▸ hrun (operandWith (operand 0) 8) _) rfl
  · exact hstatement 2 (statementsBelow 0)
      (fun terminators ↦ (stays_statementsBelow 0 0 terminators).all) (s.movedTo 4) _ _
      (by decide +kernel) (hblock ▸ hrun (statementWith 2 (statementsBelow 0)) _) rfl

end FrontEnd
