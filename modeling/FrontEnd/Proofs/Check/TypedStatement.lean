import FrontEnd.Proofs.Check.TypedDeclaration

/-!
# The walk over a statement types it

A statement that is checked successfully is well typed with the names at its start, and what names
stand for behind it is what the rules say.  What a block declares is gone behind it: its check only
adds to the scope it opened (`Trace.addsTo`), and that one is released.

The check of the statements of a block is a parameter again, and `typesBody_statementsBelow` is the
induction on levels.
-/

namespace FrontEnd

open Check

/-- A check of the statements of a block: they are well typed, and it does to the scopes what
statements do. -/
structure TypesBody {α : Type} (x : Check α) : Prop where
  traced : Traced .statements x
  typed : ∀ {c : Context} {s : State} {names : Names}, c.Closed → c.Shows s names →
    Ensures x c s (fun _ ↦ True) fun _ after ↦ ∃ names', c.Flows .statements names s names' after

section

variable {α : Type} {x : Check α} {c : Context} {names names' : Names} {s t after : State}
  {i levels : Nat} {part : BodyPart} {inner : Inner}

/-! ### Blocks -/

namespace Context.Shows

/-- A new block has the names around it. -/
theorem entered (h : c.Shows s names) (label : String) :
    (c.entering s).Shows (s.entered c label) names := by
  refine ⟨?_, (Arena.names_push h.live label).trans h.names_eq, h.proper⟩
  show s.arena.size < (s.arena.push c.scope label).size
  simp [Arena.push, Arena.size]

/-- A block that was left does not show. -/
theorem released (h : c.Shows s names) {label : String}
    (hadds : (s.entered c label).arena.AddsTo s.arena.size after.arena) :
    c.Shows (after.released s.arena.size) names :=
  h.of_addsTo (Nat.lt_succ_self _) (hadds.released (Nat.zero_lt_of_lt h.live) _)

/-- The loops and switches around do not matter for names. -/
theorem inBlocks (h : c.Shows s names) (blocks : List BlockKind) :
    Context.Shows { c with blocks := blocks } s names :=
  ⟨h.live, h.names_eq, h.proper⟩

end Context.Shows

theorem Context.Flows.of_inBlocks {blocks : List BlockKind}
    (h : Context.Flows { c with blocks := blocks } part names s names' after) :
    c.Flows part names s names' after :=
  ⟨h.typed, h.shows.live, h.shows.names_eq, h.shows.proper⟩

theorem TypesBody.inBlock (h : TypesBody x) (kind : BlockKind) : TypesBody (inBlock kind x) := by
  refine ⟨h.traced.inBlock kind, fun {c s names} hc hshows ↦ ?_⟩
  rw [ensures_inBlock]
  refine (h.typed (c := { c with blocks := kind :: c.blocks }) hc (hshows.inBlocks _)).mono ?_
  rintro _ after ⟨names', hflows⟩
  exact ⟨names', hflows.of_inBlocks⟩

/-- The statements of a block are typed in the scope that it opens. -/
theorem ensures_inScope_typed (hx : TypesBody x) (hc : c.Closed) (hshows : c.Shows s names)
    (label : String) :
    Ensures (inScope label x) c s (fun _ ↦ True) fun _ after ↦
      (∃ names', WellTyped c.text c.function .statements names s.position after.position names') ∧
        c.Shows after names := by
  rw [ensures_inScope]
  have htyped := hx.typed (c := c.entering s) hc (hshows.entered label)
  refine (htyped.and (ensures_leaves x (c.entering s) (s.entered c label))).mono ?_
  rintro _ after ⟨⟨names', hflows⟩, hleaves⟩
  have hadds := (hx.traced (c.entering s) (s.entered c label)).addsTo (s.size_entered_pos c label)
  rw [← hleaves] at hadds
  exact ⟨⟨names', hflows.typed⟩, hshows.released hadds⟩

theorem ensures_block_typed (hinner : ∀ terminators, TypesBody (inner terminators)) (hc : c.Closed)
    (hshows : c.Shows s names) (label : String) :
    Ensures (block inner label) c s (fun _ ↦ True) fun _ after ↦
      c.Flows .block names s names after := by
  simp only [block, ensures_bind, ensures_discard]
  refine ensures_expectMark_of (by decide) fun hopen ↦ ?_
  refine (ensures_inScope_typed (hinner _) hc (hshows.movedTo _) label).mono ?_
  rintro _ after ⟨⟨names', hstatements⟩, hafter⟩
  refine ensures_expectMark_of (by decide) fun hclose ↦ ?_
  exact ⟨.block hopen hstatements hclose, hafter.movedTo _⟩

theorem ensures_loopBlock_typed (hinner : ∀ terminators, TypesBody (inner terminators))
    (hc : c.Closed) (hshows : c.Shows s names) (label : String) :
    Ensures (inBlock .loop (block inner label)) c s (fun _ ↦ True) fun _ after ↦
      c.Flows .block names s names after := by
  rw [ensures_inBlock]
  refine (ensures_block_typed (c := { c with blocks := .loop :: c.blocks }) hinner hc
    (hshows.inBlocks _) label).mono ?_
  exact fun _ _ hblock ↦ hblock.of_inBlocks

/-! ### Simple statements -/

theorem typesStatement_nameStatement (hc : c.Closed) (hshows : c.Shows s names) (levels : Nat) :
    TypesStatement (nameStatement levels) c s names := by
  have hoperands := typesOperands_operand levels
  unfold TypesStatement
  simp only [nameStatement, ensures_bind, ensures_secondKind, ensures_ite, ensures_discard]
  refine ⟨fun hparen ↦ ?_, fun _ ↦ ?_⟩
  · refine (ensures_call_typed hoperands hc hshows hparen).mono fun type after hcall ↦ ?_
    refine ensures_expectMark_of (by decide) fun hend ↦ ?_
    exact ⟨names, .call hcall.typed hend, (hshows.of_tables hcall.tables).movedTo _⟩
  · refine (ensures_target_typed hoperands hc hshows).mono fun t after htarget ↦ ?_
    refine (ensures_assignmentTail_typed hc (hshows.of_tables htarget.tables) (by simp) t
      htarget.typed).mono ?_
    rintro _ last ⟨hassigned, hlast⟩
    refine ensures_expectMark_of (by decide) fun hend ↦ ?_
    exact ⟨names, .assignment hassigned hend, hlast.movedTo _⟩

theorem typesStatement_countStatement (hc : c.Closed) (hshows : c.Shows s names)
    (hcount : c.text.CountAt s.position) (levels : Nat) :
    TypesStatement (countStatement levels) c s names := by
  have hne : c.kindAt s.position ≠ .eof := by
    rcases hcount with hk | hk <;> exact fun heof ↦ nomatch hk.symm.trans heof
  have htarget := ensures_countTarget_typed (typesOperands_operand levels) hc
    (hshows.movedTo (s.position + 1))
  rw [ensures_bind] at htarget
  unfold TypesStatement
  simp only [countStatement, ensures_bind, ensures_discard, ensures_advance,
    Context.after_of_ne_eof hne]
  refine htarget.mono fun t after ht ↦ ht.mono fun _ last hlast ↦ ?_
  refine ensures_expectMark_of (by decide) fun hend ↦ ?_
  exact ⟨names, .count hcount hlast.typed hend, ((hshows.movedTo _).of_tables hlast.tables).movedTo _⟩

theorem typesStatement_printStatement (hc : c.Closed) (hshows : c.Shows s names)
    (hk : c.kindAt s.position = .printWord) (levels : Nat) :
    TypesStatement (printStatement levels) c s names := by
  unfold TypesStatement
  simp only [printStatement, ensures_bind, ensures_discard, ensures_here]
  refine ensures_advance_of hk (by decide) (ensures_expectMark_of (by decide) fun hopen ↦ ?_)
  have hcloser : (c.kindAt (s.position + 1)).closer? = some .rightParen := by
    rw [show c.kindAt (s.position + 1) = .leftParen from hopen]
    rfl
  refine ensures_matchingClose_of hcloser fun close _ _ ↦ ?_
  refine (ensures_arguments_typed (typesOperands_operand levels) hc
    (hshows.movedTo (s.position + 2)) close).mono fun found after harguments ↦ ?_
  refine ensures_expectMark_of (by decide) fun hclose ↦ ensures_expectMark_of (by decide) fun hend ↦ ?_
  exact ⟨names, .print hk hopen harguments.typed hclose hend,
    ((hshows.movedTo _).of_tables harguments.tables).movedTo _⟩

/-! ### Conditionals -/

/-- An expression between parentheses. -/
theorem ensures_inParentheses_typed (hc : c.Closed) (hshows : c.Shows s names) (levels : Nat) :
    Ensures (inParentheses levels) c s (fun _ ↦ True) fun found after ↦
      ∃ j, c.kindAt s.position = .leftParen ∧
        Typed c.text names (.value found.1) (s.position + 1) j ∧ c.kindAt j = .rightParen ∧
          after.position = j + 1 ∧ SameTables s after := by
  simp only [inParentheses, ensures_bind, ensures_here, ensures_discard, ensures_pure]
  refine ensures_expectMark_of (by decide) fun hopen ↦ ?_
  have hcloser : (c.kindAt s.position).closer? = some .rightParen := by
    rw [hopen]
    rfl
  refine ensures_matchingClose_of hcloser fun close _ _ ↦ ?_
  refine (ensures_expressionWith_typed (typesOperands_operand levels) hc
    (hshows.movedTo (s.position + 1)) close).mono fun type after hvalue ↦ ?_
  refine ensures_expectMark_of (by decide) fun hclose ↦ ?_
  exact ⟨_, hopen, hvalue.typed, hclose, rfl, SameTables.movedTo.2 (SameTables.of_movedTo.1 hvalue.tables)⟩

theorem ensures_condition_typed (hc : c.Closed) (hshows : c.Shows s names) (levels : Nat)
    (construct : Guarded) :
    Ensures (condition levels construct) c s (fun _ ↦ True) fun _ after ↦
      GuardAt c.text names s.position after.position ∧ c.Shows after names := by
  simp only [condition, ensures_bind, ensures_ite, ensures_violateAt, ensures_pure]
  refine (ensures_inParentheses_typed hc hshows levels).mono ?_
  rintro ⟨found, _⟩ after ⟨j, hopen, hvalue, hclose, hj, hsame⟩
  refine ⟨fun _ ↦ trivial, fun hfound ↦ ⟨?_, hshows.of_tables hsame⟩⟩
  have htype : found = .bool ∨ found = .int := by
    simpa [Decidable.or_iff_not_imp_left] using hfound
  exact hj ▸ .mk hopen hvalue htype hclose

section

variable (hinner : ∀ terminators, TypesBody (inner terminators)) (hc : c.Closed)

include hinner hc

/-- A condition with the block it guards. -/
theorem ensures_guarded_typed (hshows : c.Shows s names) (levels : Nat) (construct : Guarded)
    (label : String) :
    Ensures (condition levels construct) c s (fun _ ↦ True) fun _ middle ↦
      Ensures (block inner label) c middle (fun _ ↦ True) fun _ after ↦
        ∃ m, GuardAt c.text names s.position m ∧
          WellTyped c.text c.function .block names m after.position names ∧ c.Shows after names := by
  refine (ensures_condition_typed hc hshows levels construct).mono ?_
  rintro _ middle ⟨hguard, hmiddle⟩
  refine (ensures_block_typed hinner hc hmiddle label).mono fun _ after hblock ↦ ?_
  exact ⟨_, hguard, hblock.typed, hblock.shows⟩

theorem typesStatement_ifStatement (hshows : c.Shows s names) (hk : c.kindAt s.position = .ifWord)
    (levels : Nat) : TypesStatement (ifStatement levels inner) c s names := by
  have hbranches {after : State} (hafter : c.Flows .branches names s names after) :
      Ensures (roundsWhile (next? .elseIfWord) (fun _ ↦ do
        discard advance
        condition levels .elseIfBlock
        block inner "else-if block"
        return .yield ()) ()) c after (fun _ ↦ True) fun _ later ↦
          c.Flows .branches names s names later := by
    refine ensures_roundsWhile (fun _ ↦ trivial)
      (I := fun _ later ↦ c.Flows .branches names s names later) hafter ?_
    intro _ later hlater
    simp only [ensures_next?, beq_iff_eq, beq_eq_false_iff_ne, ensures_bind, ensures_discard,
      ensures_pure, afterRound_yield]
    refine ⟨fun helse ↦ ensures_advance_of helse (by decide) ?_, fun _ ↦ hlater⟩
    refine (ensures_guarded_typed hinner hc (hlater.shows.movedTo _) levels _ _).mono
      fun _ _ h ↦ h.mono ?_
    rintro _ last ⟨m, hguard, hblock, hlast⟩
    exact ⟨.elseIfBranch hlater.typed helse hguard hblock, hlast⟩
  unfold TypesStatement
  simp only [ifStatement, ensures_bind, ensures_discard, ensures_next?, ensures_ite, beq_iff_eq,
    ensures_pure]
  refine ensures_advance_of hk (by decide) ?_
  refine (ensures_guarded_typed hinner hc (hshows.movedTo _) levels _ _).mono fun _ _ h ↦ h.mono ?_
  rintro _ after ⟨m, hguard, hblock, hafter⟩
  refine (hbranches ⟨.ifBranch hk hguard hblock, hafter⟩).mono fun _ later hlater ↦ ?_
  refine ⟨fun helse ↦ ensures_advance_of helse (by decide) ?_,
    fun _ ↦ ⟨names, .conditional hlater.typed, hlater.shows⟩⟩
  refine (ensures_block_typed hinner hc (hlater.shows.movedTo _) _).mono fun _ last hblock ↦ ?_
  exact ⟨names, .otherwise hlater.typed helse hblock.typed, hblock.shows⟩

/-! ### Switches -/

/-- The colon behind a label and the statements behind it. -/
theorem ensures_caseBlock_typed (hshows : c.Shows s names) (keyword : Token) (which : CaseBlock) :
    Ensures (caseBlock inner keyword which) c s (fun _ ↦ True) fun _ after ↦
      c.kindAt s.position = .colon ∧ (∃ names', WellTyped c.text c.function .statements names
        (s.position + 1) after.position names') ∧ c.Shows after names := by
  simp only [caseBlock, ensures_bind, ensures_discard, ensures_ite, ensures_violateAt, ensures_pure]
  refine ensures_expectMark_of (by decide) fun hcolon ↦ ?_
  refine (ensures_inScope_typed ((hinner _).inBlock .case) hc (hshows.movedTo _) _).mono ?_
  rintro _ after ⟨hstatements, hafter⟩
  exact ⟨fun _ ↦ trivial, fun _ ↦ ⟨hcolon, hstatements, hafter⟩⟩

omit hinner in
theorem ensures_caseLabel_typed (selector : DataType) (labels : List String) :
    Ensures (caseLabel selector labels) c s (fun _ ↦ True) fun _ after ↦
      (labelKinds selector).contains (c.kindAt s.position) ∧ after = s.movedTo (s.position + 1) := by
  simp only [caseLabel, ensures_bind, ensures_advance, ensures_ite, ensures_violateAt, ensures_pure,
    hc.kind_tokenAt]
  refine ⟨fun hlabel ↦ ⟨fun _ ↦ trivial, fun _ ↦ ⟨hlabel, ?_⟩⟩, fun _ ↦ trivial⟩
  rw [Context.after_of_ne_eof (Kind.isOrdinary_iff.1 (isOrdinary_of_label hlabel)).2.2.1]

/-- A round of a switch leaves it with one more case or as it was. -/
theorem ensures_switchRound_typed {selector : DataType} (soFar : SwitchSoFar)
    (hafter : c.Flows (.cases selector) names s names after) :
    Ensures (switchRound inner selector soFar) c after (fun _ ↦ True)
      (AfterRound (fun _ ↦ c.Flows (.cases selector) names s names)
        (fun _ ↦ c.Flows (.cases selector) names s names)) := by
  simp only [switchRound, ensures_bind, ensures_peek, hc.kind_tokenAt]
  split
  next => exact hafter
  next hk =>
    simp only [ensures_bind, ensures_discard, ensures_pure, afterRound_yield]
    refine ensures_advance_of hk (by decide) ((ensures_caseLabel_typed hc _ _).mono ?_)
    rintro label _ ⟨hlabel, rfl⟩
    refine (ensures_caseBlock_typed hinner hc ((hafter.shows.movedTo _).movedTo _) _ _).mono ?_
    rintro _ last ⟨hcolon, ⟨names', hstatements⟩, hlast⟩
    exact ⟨.labelled hafter.typed hk hlabel hcolon hstatements, hlast⟩
  next hk =>
    simp only [ensures_bind, ensures_ite, ensures_violateAt, ensures_discard, ensures_pure,
      afterRound_yield]
    refine ⟨fun _ ↦ trivial, fun _ ↦ ensures_advance_of hk (by decide) ?_⟩
    refine (ensures_caseBlock_typed hinner hc (hafter.shows.movedTo _) _ _).mono ?_
    rintro _ last ⟨hcolon, ⟨names', hstatements⟩, hlast⟩
    exact ⟨.default hafter.typed hk hcolon hstatements, hlast⟩
  all_goals trivial

theorem ensures_switchRounds_typed (hshows : c.Shows s names) (selector : DataType) :
    Ensures (rounds (switchRound inner selector) ⟨[], false⟩) c s (fun _ ↦ True) fun _ after ↦
      c.Flows (.cases selector) names s names after :=
  ensures_rounds (fun _ ↦ trivial) (I := fun _ after ↦ c.Flows (.cases selector) names s names after)
    ⟨.noCase, hshows⟩ fun soFar _ hafter ↦ ensures_switchRound_typed hinner hc soFar hafter

theorem typesStatement_switchStatement (hshows : c.Shows s names)
    (hk : c.kindAt s.position = .switchWord) (levels : Nat) :
    TypesStatement (switchStatement levels inner) c s names := by
  have hrounds (selector : DataType) {after : State} (hafter : c.Shows after names) :
      Ensures (inBlock .switch (rounds (switchRound inner selector) ⟨[], false⟩)) c after
        (fun _ ↦ True) fun _ later ↦ c.Flows (.cases selector) names after names later := by
    rw [ensures_inBlock]
    refine (ensures_switchRounds_typed (c := { c with blocks := .switch :: c.blocks }) hinner hc
      (hafter.inBlocks _) selector).mono ?_
    exact fun _ _ hlater ↦ hlater.of_inBlocks
  unfold TypesStatement
  simp only [switchStatement, ensures_bind, ensures_read, ensures_ite, ensures_violateAt,
    ensures_discard]
  refine ensures_advance_of hk (by decide) ⟨fun _ ↦ trivial, fun _ ↦ ?_⟩
  refine (ensures_inParentheses_typed hc (hshows.movedTo _) levels).mono ?_
  rintro ⟨selector, _⟩ after ⟨m, hopen, hvalue, hclose, hm, hsame⟩
  have hafter := (hshows.movedTo _).of_tables hsame
  refine ⟨fun _ ↦ trivial, fun hselector ↦ ensures_expectMark_of (by decide) fun hbrace ↦ ?_⟩
  have htype : selector = .int ∨ selector = .char := by
    simpa [Decidable.or_iff_not_imp_left] using hselector
  refine (hrounds selector (hafter.movedTo _)).mono fun _ last hcases ↦ ?_
  refine ensures_expectMark_of (by decide) fun hend ↦ ?_
  refine ⟨names, .switch hk hopen hvalue htype hclose (hm ▸ hbrace) ?_ hend, hcases.shows.movedTo _⟩
  have htyped := hcases.typed
  rwa [State.position_movedTo, hm] at htyped

/-! ### Loops -/

theorem typesStatement_whileStatement (hshows : c.Shows s names)
    (hk : c.kindAt s.position = .whileWord) (levels : Nat) :
    TypesStatement (whileStatement levels inner) c s names := by
  unfold TypesStatement
  simp only [whileStatement, ensures_bind, ensures_discard]
  refine ensures_advance_of hk (by decide) ?_
  refine (ensures_condition_typed hc (hshows.movedTo _) levels _).mono ?_
  rintro _ middle ⟨hguard, hmiddle⟩
  refine (ensures_loopBlock_typed hinner hc hmiddle _).mono fun _ after hblock ↦ ?_
  exact ⟨names, .whileLoop hk hguard hblock.typed, hblock.shows⟩

theorem typesStatement_doStatement (hshows : c.Shows s names) (hk : c.kindAt s.position = .doWord)
    (levels : Nat) : TypesStatement (doStatement levels inner) c s names := by
  unfold TypesStatement
  simp only [doStatement, ensures_bind, ensures_discard]
  refine ensures_advance_of hk (by decide) ?_
  refine (ensures_loopBlock_typed hinner hc (hshows.movedTo _) _).mono fun _ middle hblock ↦ ?_
  refine ensures_expectMark_of (by decide) fun hwhile ↦ ?_
  refine (ensures_condition_typed hc (hblock.shows.movedTo _) levels _).mono ?_
  rintro _ after ⟨hguard, hafter⟩
  refine ensures_expectMark_of (by decide) fun hend ↦ ?_
  exact ⟨names, .doLoop hk hblock.typed hwhile hguard hend, hafter.movedTo _⟩

omit hinner hc in
theorem ensures_requireForVariable_typed (clause : ForClause) (t : Target) :
    Ensures (requireForVariable clause t) c s (fun _ ↦ True) fun _ after ↦
      after = s ∧ t.type = .int := by
  simp [requireForVariable]

omit hinner in
/-- A target that the header of a counted loop names. -/
theorem ensures_forVariable_typed (hshows : c.Shows s names) (levels : Nat) (clause : ForClause) :
    Ensures (target (operand levels)) c s (fun _ ↦ True) fun t after ↦
      Ensures (requireForVariable clause t) c after (fun _ ↦ True) fun _ last ↦ last = after ∧
        t.type = .int ∧ TypedTo c names (.target .int) s last := by
  refine (ensures_target_typed (typesOperands_operand levels) hc hshows).mono fun t after htarget ↦ ?_
  refine (ensures_requireForVariable_typed clause t).mono ?_
  rintro _ _ ⟨rfl, hint⟩
  exact ⟨rfl, hint, hint ▸ htarget⟩

omit hinner in
/-- The first clause of a header with its semicolon. -/
theorem ensures_forStart_typed (hshows : c.Shows s names) (levels : Nat) :
    Ensures (forStart levels) c s (fun _ ↦ True) fun _ after ↦ ∃ sign first,
      Typed c.text names (.target .int) s.position sign ∧ c.kindAt sign = .assign ∧
        Typed c.text names (.value .int) (sign + 1) first ∧ c.kindAt first = .semicolon ∧
          after.position = first + 1 ∧ c.Shows after names := by
  simp only [forStart, ensures_bind, ensures_discard]
  refine (ensures_forVariable_typed hc hshows levels _).mono fun t _ h ↦ h.mono ?_
  rintro _ after ⟨rfl, hint, htarget⟩
  refine ensures_expectMark_of (by decide) fun hsign ↦ ?_
  have hafter := (hshows.of_tables htarget.tables).movedTo (after.position + 1)
  refine (ensures_valueOfType_typed hc hafter (by simp) .int _).mono fun _ _ h ↦ h.mono ?_
  rintro _ later hvalue
  refine (ensures_markInitialized_typed (hafter.of_tables hvalue.tables) t).mono ?_
  rintro _ last ⟨hposition, hlast⟩
  refine ensures_expectMark_of (by decide) fun hend ↦ ?_
  exact ⟨_, later.position, htarget.typed, hsign, hvalue.typed, hposition ▸ hend, by rw [hposition]; rfl,
    hlast.movedTo _⟩

omit hinner in
/-- The second clause of a header with its semicolon. -/
theorem ensures_forCondition_typed (hshows : c.Shows s names) (levels : Nat) :
    Ensures (forCondition levels) c s (fun _ ↦ True) fun _ after ↦ ∃ second,
      Typed c.text names (.value .bool) s.position second ∧ c.kindAt second = .semicolon ∧
        after.position = second + 1 ∧ c.Shows after names := by
  simp only [forCondition, ensures_bind, ensures_ite, ensures_violate, ensures_discard]
  refine (ensures_valueType_typed hc hshows levels (by simp)).mono fun found after hvalue ↦ ?_
  refine ⟨fun _ ↦ trivial, fun hbool ↦ ensures_expectMark_of (by decide) fun hend ↦ ?_⟩
  obtain rfl : found = .bool := Decidable.not_not.1 hbool
  exact ⟨_, hvalue.typed, hend, rfl, (hshows.of_tables hvalue.tables).movedTo _⟩

omit hinner in
/-- The last clause of a header. -/
theorem ensures_forUpdate_typed (hshows : c.Shows s names) (levels : Nat) :
    Ensures (forUpdate levels) c s (fun _ ↦ True) fun _ after ↦
      UpdateAt c.text names s.position after.position ∧ c.Shows after names := by
  have hcount {k : Kind} (hk : c.kindAt s.position = k) (hsign : k = .increment ∨ k = .decrement) :
      Ensures (do discard advance; requireForVariable .update (← target (operand levels))) c s
        (fun _ ↦ True) fun _ after ↦
          UpdateAt c.text names s.position after.position ∧ c.Shows after names := by
    simp only [ensures_bind, ensures_discard]
    refine ensures_advance_of hk (by rcases hsign with rfl | rfl <;> decide) ?_
    refine (ensures_forVariable_typed hc (hshows.movedTo _) levels _).mono fun _ _ h ↦ h.mono ?_
    rintro _ last ⟨-, -, htarget⟩
    exact ⟨.before (hsign.imp hk.trans hk.trans) htarget.typed,
      (hshows.movedTo _).of_tables htarget.tables⟩
  simp only [forUpdate, ensures_bind, ensures_peekKind]
  split
  next hk => exact hcount hk (.inl rfl)
  next hk => exact hcount hk (.inr rfl)
  next =>
    simp only [ensures_bind, ensures_peekKind, ensures_ite, ensures_violate]
    refine (ensures_forVariable_typed hc hshows levels _).mono fun t _ h ↦ h.mono ?_
    rintro _ after ⟨rfl, hint, htarget⟩
    refine ⟨fun hupdates ↦ ?_, fun _ ↦ trivial⟩
    refine (ensures_assignmentTail_typed hc (hshows.of_tables htarget.tables)
      (by simp [Kind.isPlain, Kind.isCloser]) t (hint ▸ htarget.typed)).mono ?_
    rintro _ last ⟨hassigned, hlast⟩
    refine ⟨.behind (hint ▸ hassigned) fun hassign ↦ ?_, hlast⟩
    rw [show c.kindAt after.position = .assign from hassign] at hupdates
    exact absurd hupdates (by decide)
  next => trivial

theorem typesStatement_forStatement (hshows : c.Shows s names)
    (hk : c.kindAt s.position = .forWord) (levels : Nat) :
    TypesStatement (forStatement levels inner) c s names := by
  unfold TypesStatement
  simp only [forStatement, ensures_bind, ensures_discard, ensures_here, ensures_ite, ensures_violate,
    ensures_peek]
  refine ensures_advance_of hk (by decide) (ensures_expectMark_of (by decide) fun hopen ↦ ?_)
  have hcloser : (c.kindAt (s.position + 1)).closer? = some .rightParen := by
    rw [show c.kindAt (s.position + 1) = .leftParen from hopen]
    rfl
  refine ensures_matchingClose_of hcloser fun close _ _ ↦ ?_
  refine (ensures_forStart_typed hc (hshows.movedTo (s.position + 2)) levels).mono ?_
  rintro _ start ⟨sign, first, htarget, hsign, hvalue, hfirst, hstart, hshows⟩
  refine (ensures_forCondition_typed hc hshows levels).mono ?_
  rintro _ middle ⟨second, hcondition, hsecond, hmiddle, hshows⟩
  refine (ensures_forUpdate_typed hc hshows levels).mono ?_
  rintro _ last ⟨hupdate, hshows⟩
  refine ⟨fun _ ↦ trivial, fun _ ↦ ensures_expectMark_of (by decide) fun hclose ↦ ?_⟩
  refine (ensures_loopBlock_typed hinner hc (hshows.movedTo _) _).mono fun _ after hblock ↦ ?_
  have hheader : ForHeaderAt c.text names (s.position + 1) (last.position + 1) :=
    .mk hopen htarget hsign hvalue hfirst (hstart ▸ hcondition) hsecond (hmiddle ▸ hupdate) hclose
  exact ⟨names, .forLoop hk hheader hblock.typed, hblock.shows⟩

end

/-! ### Jumps -/

theorem typesStatement_breakStatement (hshows : c.Shows s names)
    (hk : c.kindAt s.position = .breakWord) : TypesStatement breakStatement c s names := by
  unfold TypesStatement
  simp only [breakStatement, ensures_bind, ensures_read, ensures_ite, ensures_violateAt,
    ensures_discard]
  refine ensures_advance_of hk (by decide) ⟨fun _ ↦ trivial, fun _ ↦ ?_⟩
  refine ensures_expectMark_of (by decide) fun hend ↦ ?_
  exact ⟨names, .jump (by simp [hk]) hend, hshows.movedTo _⟩

theorem typesStatement_continueStatement (hshows : c.Shows s names)
    (hk : c.kindAt s.position = .continueWord) : TypesStatement continueStatement c s names := by
  unfold TypesStatement
  simp only [continueStatement, ensures_bind, ensures_read]
  refine ensures_advance_of hk (by decide) ?_
  split
  · rw [ensures_discard]
    refine ensures_expectMark_of (by decide) fun hend ↦ ?_
    exact ⟨names, .jump (by simp [hk]) hend, hshows.movedTo _⟩
  all_goals trivial

theorem typesStatement_endStatement (hshows : c.Shows s names)
    (hk : c.kindAt s.position = .endWord) : TypesStatement endStatement c s names := by
  unfold TypesStatement
  simp only [endStatement, ensures_bind, ensures_read, ensures_ite, ensures_violateAt,
    ensures_discard, ensures_next?, ensures_pure]
  refine ensures_advance_of hk (by decide) ⟨fun _ ↦ ?_, fun _ ↦ trivial⟩
  refine ensures_expectMark_of (by decide) fun hend ↦ ⟨fun _ ↦ ?_, fun _ ↦ trivial⟩
  exact ⟨names, .jump (by simp [hk]) hend, hshows.movedTo _⟩

/-- What a function returns, in each of the three ways. -/
theorem ensures_returned_typed (hc : c.Closed) (hshows : c.Shows s names) (levels : Nat)
    (f : FunctionContext) (keyword : Token) :
    Ensures (if f.isEntryPoint then entryPointReturn keyword
      else if f.returns = .void then voidReturn f keyword
      else valueReturn levels f keyword) c s (fun _ ↦ True) fun _ after ↦
        ReturnAt c.text names f s.position after.position ∧ SameTables s after := by
  rw [ensures_ite, ensures_ite]
  refine ⟨fun hentry ↦ ?_, fun _ ↦ ⟨fun hvoid ↦ ?_, fun hvalue ↦ ?_⟩⟩
  · simp only [entryPointReturn, ensures_bind, ensures_next?, ensures_ite, ensures_peek,
      ensures_secondKind, ensures_discard, ensures_violateAt, ensures_pure, hc.kind_tokenAt,
      Bool.and_eq_true, decide_eq_true_eq, beq_iff_eq]
    refine ⟨fun _ ↦ ⟨.nothing (.inl hentry), .refl s⟩, fun _ ↦ ⟨fun hzero ↦ ?_, fun _ ↦ trivial⟩⟩
    exact ensures_advance_of hzero.1.1 (by decide) ⟨.zero hentry hzero.1.1 hzero.1.2, by simp⟩
  · simp only [voidReturn, ensures_bind, ensures_next?, ensures_ite, ensures_violateAt, ensures_pure]
    exact ⟨fun _ ↦ ⟨.nothing (.inr hvoid), .refl s⟩, fun _ ↦ trivial⟩
  · simp only [valueReturn, ensures_bind, ensures_next?, ensures_ite, ensures_violateAt, ensures_pure]
    refine ⟨fun _ ↦ trivial, fun _ ↦ ?_⟩
    refine (ensures_valueType_typed hc hshows levels (by simp)).mono fun found after hfound ↦ ?_
    refine ⟨fun _ ↦ trivial, fun hsame ↦ ?_⟩
    obtain rfl : found = f.returns := Decidable.not_not.1 hsame
    exact ⟨.value hvalue hfound.typed, hfound.tables⟩

theorem typesStatement_returnStatement (hc : c.Closed) (hshows : c.Shows s names)
    (hk : c.kindAt s.position = .returnWord) (levels : Nat) :
    TypesStatement (returnStatement levels) c s names := by
  unfold TypesStatement
  simp only [returnStatement, ensures_bind, ensures_read]
  refine ensures_advance_of hk (by decide) ?_
  split
  · trivial
  next f hf =>
    have hreturned := ensures_returned_typed hc (hshows.movedTo (s.position + 1)) levels f
      (c.tokenAt s.position)
    have hrest {after : State}
        (h : ReturnAt c.text names f (s.position + 1) after.position ∧
          SameTables (s.movedTo (s.position + 1)) after) :
        Ensures (modify fun s ↦ { s with sawReturn := true }) c after (fun _ ↦ True) fun _ later ↦
          Ensures (discard (expectMark .semicolon)) c later (fun _ ↦ True) fun _ last ↦
            ∃ names', c.Flows .statement names s names' last := by
      obtain ⟨hvalue, hsame⟩ := h
      have hafter := (hshows.movedTo _).of_tables hsame
      rw [ensures_modify, ensures_discard]
      refine ensures_expectMark_of (by decide) fun hend ↦ ?_
      exact ⟨names, .returns hf hk hvalue hend, hafter.live, hafter.names_eq, hafter.proper⟩
    rw [ensures_ite, ensures_ite] at hreturned
    simp only [ensures_ite, ensures_bind]
    exact ⟨fun hentry ↦ (hreturned.1 hentry).mono fun _ _ ↦ hrest,
      fun hother ↦ ⟨fun hvoid ↦ ((hreturned.2 hother).1 hvoid).mono fun _ _ ↦ hrest,
        fun hvalue ↦ ((hreturned.2 hother).2 hvalue).mono fun _ _ ↦ hrest⟩⟩

/-! ### All statements -/

theorem typesStatement_ordinaryStatement (hinner : ∀ terminators, TypesBody (inner terminators))
    (hc : c.Closed) (hshows : c.Shows s names) (levels : Nat) {token : Token}
    (htoken : token.kind = c.kindAt s.position) :
    TypesStatement (ordinaryStatement levels inner token) c s names := by
  unfold ordinaryStatement
  split
  next => exact typesStatement_variableDeclaration hc hshows levels
  next => exact typesStatement_variableDeclaration hc hshows levels
  next => exact typesStatement_variableDeclaration hc hshows levels
  next => exact typesStatement_variableDeclaration hc hshows levels
  next => exact typesStatement_variableDeclaration hc hshows levels
  next hk => exact typesStatement_constantDeclaration hc hshows (htoken.symm.trans hk) levels
  next hk => exact typesStatement_instanceDeclaration hshows (htoken.symm.trans hk)
  next => exact typesStatement_nameStatement hc hshows levels
  next hk => exact typesStatement_countStatement hc hshows (.inl (htoken.symm.trans hk)) levels
  next hk => exact typesStatement_countStatement hc hshows (.inr (htoken.symm.trans hk)) levels
  next hk => exact typesStatement_printStatement hc hshows (htoken.symm.trans hk) levels
  next hk => exact typesStatement_ifStatement hinner hc hshows (htoken.symm.trans hk) levels
  next hk => exact typesStatement_switchStatement hinner hc hshows (htoken.symm.trans hk) levels
  next hk => exact typesStatement_forStatement hinner hc hshows (htoken.symm.trans hk) levels
  next hk => exact typesStatement_whileStatement hinner hc hshows (htoken.symm.trans hk) levels
  next hk => exact typesStatement_doStatement hinner hc hshows (htoken.symm.trans hk) levels
  next hk => exact typesStatement_returnStatement hc hshows (htoken.symm.trans hk) levels
  next hk => exact typesStatement_continueStatement hshows (htoken.symm.trans hk)
  next hk => exact typesStatement_endStatement hshows (htoken.symm.trans hk)
  all_goals trivial

theorem typesStatement_statementWith (hinner : ∀ terminators, TypesBody (inner terminators))
    (hc : c.Closed) (hshows : c.Shows s names) (levels : Nat) :
    TypesStatement (statementWith levels inner) c s names := by
  unfold TypesStatement
  simp only [statementWith, ensures_bind, ensures_peek, ensures_ite, ensures_pure]
  refine ⟨fun hword ↦ ?_, fun _ ↦ ?_⟩
  · rw [hc.kind_tokenAt] at hword
    exact typesStatement_breakStatement hshows hword
  · exact typesStatement_ordinaryStatement hinner hc hshows levels (hc.kind_tokenAt _)

/-- The statements of blocks are typed on every level. -/
theorem typesBody_statementsBelow (levels : Nat) (terminators : List Kind) :
    TypesBody (statementsBelow levels terminators) := by
  induction levels generalizing terminators with
  | zero =>
    refine ⟨Traced.statementsBelow 0 terminators, fun _ _ ↦ ?_⟩
    simp [statementsBelow, tooDeep]
  | succ levels ih =>
    refine ⟨Traced.statementsBelow (levels + 1) terminators, fun {c s names} hc hshows ↦ ?_⟩
    refine ensures_rounds (fun _ ↦ trivial)
      (I := fun _ after ↦ ∃ names', c.Flows .statements names s names' after)
      ⟨names, .noStatement, hshows⟩ ?_
    rintro last after ⟨names', hafter⟩
    simp only [ensures_bind, ensures_peekKind, ensures_ite, ensures_pure, ensures_violate,
      afterRound_done, afterRound_yield]
    refine ⟨fun _ ↦ ⟨names', hafter⟩, fun _ ↦ ⟨fun _ ↦ trivial, fun _ ↦ ?_⟩⟩
    refine (typesStatement_statementWith ih hc hafter.shows levels).mono ?_
    rintro _ later ⟨names'', hlater⟩
    exact ⟨names'', .next hafter.typed hlater.typed, hlater.shows⟩

/-- A statement that is checked successfully is well typed. -/
theorem typesStatement_statement (hc : c.Closed) (hshows : c.Shows s names) (levels : Nat) :
    TypesStatement (statement levels) c s names :=
  typesStatement_statementWith (typesBody_statementsBelow levels) hc hshows levels

end

end FrontEnd
