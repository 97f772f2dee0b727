import FrontEnd.Proofs.Check.ControlWords
import FrontEnd.Proofs.Check.Underway
import FrontEnd.Proofs.Check.UnsetStatement

/-!
# Programs account for their warnings

The first walk over a program looks no name up and warns of nothing (`Course.unlooking`).  The second
goes forward through the text, for the body of a function stands behind its header, and accounts for its
warnings from round to round: a name may start behind every one of them.

So the warnings of a run are those of what it reads and passes, each of another name and each given once
(`warnings_are_of_reads`).  What is counted by `++` or `--` is looked up as well, in front of its sign or
behind it, and never warned of.
-/

namespace FrontEnd

open Check Course

/-- Parts of runs that look nothing up and warn of nothing. -/
def Course.unlooking : Course :=
  fun s past t _ ↦ t.warnings = s.warnings ∧ ∀ m ∈ past, m.lookup = none

/-- The warnings of a run are those of what it reads, matched by the index of the name: no name is warned
of twice, each warning is of something that is read there, and what the run got past is warned of. -/
structure WarnsOfReads (past : List Moment) (t : State) (ended : Prop) (reads : List (Nat × Warning)) :
    Prop where
  warnings : t.warnings.toList = reads.map Prod.snd
  nodup : (reads.map Prod.fst).Nodup
  warranted : ∀ r ∈ reads, ∃ m ∈ past, m.Warrants r.1 r.2
  answered : ∀ m ∈ past, ∀ {i stop w}, m.ReadsUnset i stop w → ended ∨ stop < t.position →
    (i, w) ∈ reads

section

variable {P : Course} {c : Context} {f s t u : State} {name : Token} {info : FunctionInfo}
  {past later : List Moment} {ended : Prop} {reads : List (Nat × Warning)} {i : Nat}

instance : Course.unlooking.Easy where
  nil _ _ := ⟨rfl, fun _ hm ↦ absurd hm List.not_mem_nil⟩
  append h h' := ⟨h'.1.trans h.1, fun m hm ↦ (List.mem_append.1 hm).elim (h'.2 m) (h.2 m)⟩
  change _ h _ hwarnings _ := ⟨hwarnings.trans h.1, fun m hm ↦
    (List.mem_cons.1 hm).elim (fun hm ↦ hm ▸ rfl) (h.2 m)⟩

/-! ### The first walk -/

theorem ensures_matchingClose_le :
    Ensures (matchingClose i) c s (fun _ ↦ True) fun close after ↦ after = s ∧ i ≤ close := by
  cases hcloser : (c.kindAt i).closer? with
  | none => simp [matchingClose, hcloser]
  | some closing =>
    refine (ensures_matchingClose hcloser).imp (fun _ _ ↦ trivial) fun close after h ↦ ⟨h.1, ?_⟩
    exact Nat.le_of_succ_le (h.2.2 _ .nil)

namespace Course.Takes

variable [P.Easy]

/-- Brackets are passed over as a whole. -/
theorem pastClose : P.Takes (do Check.moveTo ((← Check.matchingClose (← Check.here)) + 1)) c := by
  intro s
  refine .bind (here s) fun i after hhere ↦ ?_
  cases hhere
  refine .next (matchingClose _ s) ensures_matchingClose_le ?_
  rintro close _ ⟨rfl, hle⟩
  exact .moveTo (Nat.le_succ_of_le hle)

theorem bodyRange : P.Takes Check.bodyRange c := by
  have hrest : P.Takes (do
      let opening ← Check.here
      let close ← Check.matchingClose opening
      Check.moveTo (close + 1)
      return ⟨opening + 1, close⟩ : Check BodyRange) c := by
    intro s
    refine .bind (here s) fun i after hhere ↦ ?_
    cases hhere
    refine .next (matchingClose _ s) ensures_matchingClose_le ?_
    rintro close after ⟨rfl, hle⟩
    exact .bind (.moveTo (Nat.le_succ_of_le hle)) fun _ _ _ ↦ pure _ _
  exact (next? .leftBrace).bind fun _ ↦ ite hrest ((expectMark .leftBrace).discard.bind fun _ ↦ hrest)

theorem typedName (wantedType wantedName : Wanted) :
    P.Takes (Check.typedName wantedType wantedName) c :=
  (typeWord _).bind fun _ ↦ (expect .identifier _).bind fun _ ↦ pure _

theorem parameters (scope : Nat) : P.Takes (Check.parameters scope) c := by
  have hround (before : List TypedName) : P.Takes (Check.parameterRound scope before) c :=
    (typedName _ _).bind fun _ ↦ (insertSymbol _ _).bind fun _ ↦ otherwise (refuse _) <|
      (next? .comma).bind fun _ ↦ ite (advance.discard.bind fun _ ↦ pure _) (pure _)
  exact (next? .rightParen).bind fun _ ↦ ite (pure _) (rounds hround)

theorem openFunctionScope (label : String) : P.Takes (Check.openFunctionScope label) c :=
  modifyGet (fun _ ↦ Nat.le_refl _) fun _ ↦ rfl

theorem recordFunction (keyword : Nat) (name : Token) (info : FunctionInfo) :
    P.Takes (Check.recordFunction keyword name info) c := by
  refine (modifyGet (fun s ↦ ?_) fun s ↦ ?_).bind fun _ ↦ ite (pure _) (violateAt _ _)
  · simp only [recording]
    split <;> exact Nat.le_refl _
  · simp only [recording]
    split <;> rfl

theorem functionHeader : P.Takes Check.functionHeader c := by
  refine here.bind fun keyword ↦ advance.discard.bind fun _ ↦ advance.bind fun typeToken ↦ ?_
  split
  · exact violateAt _ _
  · exact (expect .identifier _).bind fun name ↦ (requireFree _ name).bind fun _ ↦
      (openFunctionScope _).bind fun scope ↦ (expectMark .leftParen).discard.bind fun _ ↦
        (parameters scope).bind fun _ ↦ (expectMark .rightParen).discard.bind fun _ ↦
          bodyRange.bind fun _ ↦ recordFunction keyword name _

theorem entryPointHeader : P.Takes Check.entryPointHeader c :=
  here.bind fun keyword ↦ advance.bind fun name ↦ (isRecorded _).bind fun _ ↦
    guard (violateAt _ _) <| (openFunctionScope _).bind fun _ ↦
      (expectMark .leftParen).discard.bind fun _ ↦ (expectMark .rightParen).discard.bind fun _ ↦
        bodyRange.bind fun _ ↦ recordFunction keyword name _

theorem structHeader : P.Takes Check.structHeader c := by
  have hround (structName : String) (before : List TypedName) :
      P.Takes (Check.memberRound structName before) c :=
    (typedName _ _).bind fun _ ↦ guard (refuse _) <|
      (expectMark .semicolon).discard.bind fun _ ↦ pure _
  exact advance.discard.bind fun _ ↦ (expect .identifier _).bind fun name ↦
    (requireFree _ name).bind fun _ ↦ (expectMark .leftBrace).discard.bind fun _ ↦
      (roundsWhile ((next? .rightBrace).bind fun _ ↦ pure _) (hround _)).bind fun _ ↦
        (expectMark .rightBrace).discard.bind fun _ ↦ (expectMark .semicolon).discard.bind fun _ ↦
          (insertSymbol _ _).bind fun _ ↦ ite (pure _) (violateAt _ _)

theorem headers : P.Takes Check.headers c := by
  have hround : P.Takes Check.headerRound c := by
    refine peekKind.bind fun k ↦ ?_
    split
    · exact functionHeader
    · exact entryPointHeader
    · exact structHeader
    · exact pastClose
    · exact fun s ↦ .bind (here s) fun i after hhere ↦ by
        cases hhere
        exact .moveTo (Nat.le_succ _)
  exact (roundsWhile (atEnd.bind fun _ ↦ pure _) fun _ ↦ hround.bind fun _ ↦ pure _).bind fun _ ↦
    (isRecorded _).bind fun _ ↦ ite (pure _) (violate _)

theorem signature (name : String) : P.Takes (Check.signature name) c := by
  refine get.bind fun s ↦ ?_
  split
  · split
    · exact pure _
    · exact violate _
  · exact violate _

end Course.Takes

/-! ### The second walk -/

namespace Check.Orderly

theorem skipStruct : Check.skipStruct.Orderly c s := by
  have hround : accounted.Takes (do
      if ← Check.atEnd then Check.violate .unexpectedEnd
      Functor.discard Check.advance
      return ForInStep.yield ()) c :=
    Takes.atEnd.bind fun _ ↦ .guard (.violate _) <| Takes.advance.discard.bind fun _ ↦ .pure _
  have hrounds : accounted.Takes (Check.roundsWhile (return !(← Check.next? .leftBrace)) (fun _ ↦ do
      if ← Check.atEnd then Check.violate .unexpectedEnd
      Functor.discard Check.advance
      return ForInStep.yield ()) ()) c :=
    .roundsWhile ((Takes.next? .leftBrace).bind fun _ ↦ .pure _) fun _ ↦ hround
  refine .bind (hrounds s) fun _ u _ ↦ .bind (Takes.here u) fun i after hhere ↦ ?_
  cases hhere
  refine .next (Takes.matchingClose _ u) ensures_matchingClose_le ?_
  rintro close u ⟨rfl, hle⟩
  exact .bind (.moveTo (Nat.le_succ_of_le hle)) fun _ _ _ ↦ .mark (by decide) rfl

/-- A body that stands behind the place it is come to from. -/
theorem functionBody (hf : Headed c f) (hs : Underway c f s) (hat : AtFunction c f s name info) :
    (Check.functionBody name.lexeme).Orderly c s := by
  obtain ⟨p, hsignature⟩ := hs.unchecked.runFrom_signature hat.recorded (Nat.le_of_lt hat.lt)
  obtain ⟨opening, hstart, hbraced⟩ := hat.body
  refine .bind (Takes.signature _ s) fun found after hrun ↦ ?_
  cases hsignature.symm.trans hrun
  let d := inFunction name.lexeme info c
  let entered : State := { s with position := info.body.start, sawReturn := false }
  have hforward : s.position ≤ info.body.start := hat.header.start_eq ▸ Nat.le_add_right _ _
  have hinside : d.Detached info.body.start := by
    rw [hstart]
    exact detached_succ (hbraced.opens ▸ rfl)
  have hclosed : d.Closed := hf.closed
  have hbody : accounted.Taken (Check.bodyStatements name.lexeme info) c s := by
    refine .bind (Takes.read s) fun e u hread ↦ ?_
    cases hread
    have hstatements : accounted.Taken (do
        (modify fun s ↦ { s with position := info.body.start, sawReturn := false } : Check Unit)
        Functor.discard <| Check.statementsUntil (Check.statement c.limits.nesting) [.rightBrace]
        if (← Check.here) ≠ info.body.stop then Check.violate (.lost (.bodyEndedEarly name.lexeme))) d s := by
      refine .bind (.modify hforward rfl) fun _ u hmodify ↦ ?_
      cases hmodify
      have hrows := (statementsUntil (c := d) (s := entered)
        (fun _ hu ↦ .statement hclosed hu c.limits.nesting) hinside [.rightBrace]).taken
      exact hrows.discard.bind fun _ v _ ↦ (Takes.here.bind fun _ ↦ .ite (.violate _) (.pure _)) v
    exact hstatements
  refine .next hbody (ensures_bodyStatements_noted hf.closed name.lexeme info) ?_
  rintro - u ⟨hu, hclose, -⟩
  refine .bind (.moveTo (by omega)) fun _ v hmove ↦ ?_
  cases hmove
  refine .bind (Takes.get _) fun w x hget ↦ ?_
  cases hget
  -- Behind the body only the mark of the function is left, and what follows its brace is detached.
  have hbehind : c.Detached (info.body.stop + 1) := detached_succ (hclose ▸ rfl)
  refine .bind (.modify (Nat.le_refl _) rfl) fun _ y hrecord ↦ ?_
  cases hrecord
  exact .ite (fun _ ↦ ⟨Takes.refuse _ _, trivial⟩) fun _ ↦ .pure hbehind _

/-- A round that comes to a function. -/
theorem functionRound (hf : Headed c f) (hs : Underway c f s) (hword : c.startsFunction s.position) :
    Check.Orderly (do
      match (← get).headers.lookup (← Check.here) with
      | some name => Check.functionBody name
      | none => Check.violate (.lost .bodyNotRecorded)) c s := by
  obtain ⟨name, info, hat⟩ := hs.atFunction hword
  refine .bind (Takes.get s) fun u after hget ↦ ?_
  cases hget
  refine .bind (Takes.here s) fun i after hhere ↦ ?_
  cases hhere
  rw [hat.lookup]
  exact functionBody hf hs hat

/-- One round, where a name may start. -/
theorem programRound (hf : Headed c f) (hs : Underway c f s) (hname : c.Detached s.position) :
    Check.programRound.Orderly c s := by
  refine .bind (Takes.peekKind s) fun k after hpeek ↦ ?_
  cases hpeek
  split
  next hword => exact functionRound hf hs (by simp [Context.startsFunction, hword])
  next hword => exact functionRound hf hs (by simp [Context.startsFunction, hword])
  next => exact skipStruct
  next =>
    refine .bind (Takes.read s) fun d after hread ↦ ?_
    cases hread
    exact .discard (.statement hf.closed hname _)

end Check.Orderly

/-! ### Programs -/

/-- The warnings of the run of a check are those of what it reads. -/
def Check.WarnsRightly {α : Type} (x : Check α) (c : Context) (s : State) : Prop :=
  ∃ reads, WarnsOfReads (x.momentsFrom c s) (x.leaves c s) (x.Succeeds c s) reads

theorem WarnsOfReads.of_unlooking (h : unlooking s past t ended) (hs : s.warnings = #[]) :
    WarnsOfReads past t ended [] where
  warnings := by rw [h.1, hs]; rfl
  nodup := .nil
  warranted r hr := absurd hr List.not_mem_nil
  answered m hm _ _ _ hreads _ := absurd (h.2 m hm) hreads.lookup_ne_none

/-- What accounts for its warnings may come behind what looks nothing up. -/
theorem WarnsOfReads.behind {looked : Prop} (h : unlooking s past t looked) (hs : s.warnings = #[])
    (h' : Account [] t later u ended reads) : WarnsOfReads (later ++ past) u ended reads where
  warnings := by rw [h'.warnings, h.1, hs]; simp
  nodup := h'.nodup
  warranted r hr := by
    obtain ⟨m, hm, hwarrants⟩ := h'.warranted r hr
    exact ⟨m, List.mem_append_left _ hm, hwarrants⟩
  answered m hm _ _ _ hreads hpassed := by
    rcases List.mem_append.1 hm with hm | hm
    · exact h'.answered m hm hreads hpassed
    · exact absurd (h.2 m hm) hreads.lookup_ne_none

theorem Check.WarnsRightly.bind {α β : Type} {x : Check α} {g : α → Check β}
    (hx : unlooking.Taken x c s) (hs : s.warnings = #[])
    (hg : ∀ a after, x.runFrom c s = (.ok a, after) → accounted.Taken (g a) c after) :
    (x >>= g).WarnsRightly c s := by
  unfold Course.Taken Check.leaves at hx
  unfold Check.WarnsRightly
  rw [Check.momentsFrom_bind, Check.leaves_bind, Check.succeeds_bind]
  cases hrun : x.runFrom c s with
  | mk result after =>
    rw [hrun] at hx
    cases result with
    | error e => exact ⟨[], .of_unlooking hx hs⟩
    | ok a =>
      obtain ⟨reads, h⟩ := hg a after hrun
      exact ⟨reads, .behind hx hs h⟩

/-- The second walk starts at the first token, where a name may start. -/
theorem accounted_secondWalk (hf : Headed c f) :
    accounted.Taken (Check.roundsWhile (return !(← Check.atEnd))
      (fun _ ↦ do Check.programRound; return .yield ()) ()) c (f.movedTo 0) := by
  refine .roundsWhile (I := fun _ s ↦ Underway c f s ∧ c.Detached s.position)
    ⟨hf.underway, detached_zero c⟩ (Takes.atEnd.bind fun _ ↦ .pure _) fun _ s hs ↦ ?_
  simp only [atEnd, ensures_bind, ensures_next?, ensures_pure]
  intro _
  have hround := Check.Orderly.programRound hf hs.1 hs.2
  refine ⟨hround.taken.bind fun _ after _ ↦ Takes.pure _ after, ?_⟩
  refine ((ensures_runs _ c s).and hround.apart).mono ?_
  rintro _ after ⟨hrun, hapart⟩ _ -
  exact ⟨(hf.next hs.1 hrun).1, hapart⟩

theorem warnsRightly_program (hc : c.Closed) (hw : c.Worded) (hscope : c.scope = 0)
    (hfunction : c.function = none) : program.WarnsRightly c .initial := by
  let second : Check Unit := Check.roundsWhile (return !(← Check.atEnd))
    (fun _ ↦ do Check.programRound; return .yield ()) ()
  have hwalks : (do Check.headers; Check.moveTo 0; second : Check Unit).WarnsRightly c .initial := by
    rw [← bind_assoc]
    refine .bind (x := do Check.headers; Check.moveTo 0) ?_ rfl fun _ after hrun ↦ ?_
    · exact (Takes.headers _).bind fun _ _ _ ↦ ⟨rfl, List.forall_mem_singleton.2 rfl⟩
    · rw [Check.runFrom_bind] at hrun
      split at hrun
      next f hheaders =>
        cases hrun
        exact accounted_secondWalk (.of_run hc hw hscope hfunction hheaders)
      next => cases hrun
  have hprogram : program.run c .initial [] = (if c.tokens.isEmpty = true then
      Check.violate .unexpectedEnd >>= fun _ ↦ do Check.headers; Check.moveTo 0; second
    else do Check.headers; Check.moveTo 0; second).run c .initial [] := rfl
  unfold Check.WarnsRightly Check.momentsFrom Check.leaves Check.Succeeds Check.runFrom
  rw [hprogram]
  split
  · exact ⟨[], .of_unlooking (s := .initial) ⟨rfl, fun m hm ↦ absurd hm List.not_mem_nil⟩ rfl⟩
  · exact hwalks

end

/-- The warnings of a run are those of what it reads and passes, and no others.

Take the tokens of any text.  Whether the check accepts them or stops, its warnings are those of a row of
reads, each at the index of a name that no other of them has.  Each read is of a variable or of a member of
an instance that had no value when its name was looked up, as an operand or as the target of a compound
assignment, or else of an array without a value, an element of which was such a target; and the warning
names it at its position.  And whatever is read without a value, as an operand or as such a target, is
among them, if the run got past it. -/
theorem warnings_are_of_reads (limits : Limits) (wordLimit : Nat) (source : String) :
    let c := Context.top limits (scan wordLimit source).tokens
    ∃ reads, (analyze limits (scan wordLimit source).tokens).warnings = reads.map Prod.snd ∧
      WarnsOfReads (program.momentsFrom c .initial) (program.leaves c .initial)
        ((analyze limits (scan wordLimit source).tokens).accepted = true) reads := by
  intro c
  obtain ⟨reads, h⟩ := warnsRightly_program (closed_scan limits wordLimit source)
    (worded_scan limits wordLimit source) rfl rfl
  have haccepted : ((analyze limits (scan wordLimit source).tokens).accepted = true) =
      program.Succeeds c .initial := by
    refine propext ⟨fun h ↦ ?_, fun h ↦ ?_⟩
    · obtain ⟨t, hrun⟩ := runFrom_of_accepted h
      exact ⟨(), congrArg Prod.fst hrun⟩
    · obtain ⟨_, hrun⟩ := h
      simp [analyze, Analysis.accepted, show (program.runFrom c .initial).1 = .ok _ from hrun, c]
  exact ⟨reads, h.warnings, haccepted ▸ h⟩

example : (analyze .default (scan 16 "mn() \x7b nt x; x += 1; bln b = x > 0; x++; end; \x7d").tokens).warnings =
    [⟨"x", ⟨1, 14⟩⟩, ⟨"x", ⟨1, 30⟩⟩] := by
  decide +kernel

/-- The name at an index is that of a variable that has no value when it is looked up behind the name, and a
sign of counting stands in front of it or behind it. -/
structure Moment.CountsUnset (m : Moment) (i : Nat) (symbol : Symbol) : Prop where
  kind : m.context.kindAt i = .identifier
  behind : m.state.position = i + 1
  looked : m.lookup = some (m.context.tokenAt i).lexeme
  found : m.state.arena.lookup m.context.scope (m.context.tokenAt i).lexeme = some symbol
  value : symbol.isValue
  single : symbol.isArray = false
  unset : symbol.initialized = false
  counted : ∃ j, (j + 1 = i ∨ j = i + 1) ∧
    (m.context.kindAt j = .increment ∨ m.context.kindAt j = .decrement)

/-- What is counted before it has a value is not warned of. -/
theorem exists_count_unwarned : ¬ ∀ (limits : Limits) (wordLimit : Nat) (source : String),
    (analyze limits (scan wordLimit source).tokens).accepted → ∀ m ∈ program.momentsFrom
      (.top limits (scan wordLimit source).tokens) .initial, ∀ i symbol, m.CountsUnset i symbol →
        ∃ w ∈ (analyze limits (scan wordLimit source).tokens).warnings, w.name = symbol.name := by
  intro hwarned
  let source := "mn() \x7b nt x; x++; end; \x7d"
  have haccepted : (analyze .default (scan 16 source).tokens).accepted := by decide +kernel
  have hnone : (analyze .default (scan 16 source).tokens).warnings = [] := by decide +kernel
  have hcounts : (program.momentsFrom (.top .default (scan 16 source).tokens) .initial).any fun m ↦
      m.state.position = 8 && m.context.kindAt 7 = .identifier && m.context.kindAt 8 = .increment &&
        m.lookup = some (m.context.tokenAt 7).lexeme &&
          (m.state.arena.lookup m.context.scope (m.context.tokenAt 7).lexeme).any fun symbol ↦
            symbol.isValue && !symbol.isArray && !symbol.initialized := by
    decide +kernel
  obtain ⟨m, hm, hat⟩ := List.any_eq_true.1 hcounts
  simp only [Bool.and_eq_true, decide_eq_true_eq, Option.any_eq_true, Bool.not_eq_true'] at hat
  obtain ⟨⟨⟨⟨hposition, hkind⟩, hsign⟩, hlooked⟩, symbol, hfound, ⟨hvalue, hsingle⟩, hunset⟩ := hat
  obtain ⟨w, hw, -⟩ := hwarned .default 16 source haccepted m hm 7 symbol
    ⟨hkind, hposition, hlooked, hfound, hvalue, hsingle, hunset, 8, .inr rfl, .inl hsign⟩
  rw [hnone] at hw
  exact absurd hw List.not_mem_nil

end FrontEnd
