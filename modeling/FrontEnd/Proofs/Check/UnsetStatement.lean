import FrontEnd.Proofs.Check.UnsetExpression

/-!
# Statements account for their warnings

What comes behind a target sees to the read of it (`Check.Settles`): only a compound assignment reads
it, and warns before it goes on to its value.

A name can only be read where nothing in front of it has it for itself, so a statement accounts for its
warnings where a name may start (`Context.Detached`), and such a place is behind every statement, for it
ends with a semicolon or a brace (`Check.Orderly`).  What the blocks of a statement contain is a
parameter (`AccountingInner`).
-/

namespace FrontEnd

open Check Course

/-- What comes behind a target accounts for its warnings and sees to the target. -/
def Check.Settles {α : Type} (c : Context) (t : Target) (u : State) (x : Check α) : Prop :=
  ∃ paid reads, Pays c t u (x.momentsFrom c u) (x.leaves c u) (x.Succeeds c u) paid reads

/-- A run accounts for its warnings, and if it comes to a result a name may start behind it. -/
structure Check.Orderly {α : Type} (x : Check α) (c : Context) (s : State) : Prop where
  taken : accounted.Taken x c s
  apart : Ensures x c s (fun _ ↦ True) fun _ after ↦ c.Detached after.position

/-- The statements of a block account for their warnings where a name may start. -/
def AccountingInner (inner : Inner) : Prop :=
  ∀ {c : Context} {s : State}, c.Closed → c.Detached s.position → ∀ terminators,
    accounted.Taken (inner terminators) c s

section

variable {α β σ : Type} {x y : Check α} {c : Context} {s u : State} {t : Target}
  {operand : Nat → Check DataType}

/-! ### Behind targets -/

namespace Check.Settles

/-- Where the sign reads the target, the run stops in front of it or at it. -/
theorem of_taken (h : accounted.Taken x c u)
    (hm : c.Owes t u → ¬ x.Succeeds c u ∧ (x.leaves c u).position ≤ u.position + 1) :
    x.Settles c t u := by
  obtain ⟨reads, h⟩ := h
  refine ⟨[], reads, h, .inl rfl, fun howes hend ↦ ?_⟩
  obtain ⟨hfails, hle⟩ := hm howes
  rcases hend with hsucceeds | hlt
  · exact absurd hsucceeds hfails
  · exact absurd hlt (Nat.not_lt.2 hle)

/-- A check that looks at nothing and leaves the state as it is may stand in front. -/
theorem behind {f : α → Check β} (hmoments : x.momentsFrom c u = []) (hleaves : x.leaves c u = u)
    (hf : ∀ a, x.runFrom c u = (.ok a, u) → (f a).Settles c t u) : (x >>= f).Settles c t u := by
  unfold Settles
  rw [Check.momentsFrom_bind, Check.leaves_bind, Check.succeeds_bind, hmoments]
  unfold Check.leaves at hleaves
  cases hrun : x.runFrom c u with
  | mk result after =>
    rw [hrun] at hleaves
    obtain rfl : after = u := hleaves
    cases result with
    | ok a =>
      dsimp only
      rw [List.append_nil]
      exact hf a hrun
    | error e =>
      refine ⟨[], [], .nil _ _, .inl rfl, fun _ hend ↦ ?_⟩
      rcases hend with hfalse | hlt
      · exact hfalse.elim
      · exact absurd hlt (Nat.not_lt.2 (Nat.le_succ _))

theorem bind {f : α → Check β} (hx : x.Settles c t u)
    (hf : ∀ a after, x.runFrom c u = (.ok a, after) → accounted.Taken (f a) c after) :
    (x >>= f).Settles c t u := by
  obtain ⟨paid, reads, hx⟩ := hx
  unfold Settles
  rw [Check.momentsFrom_bind, Check.leaves_bind, Check.succeeds_bind]
  unfold Check.leaves Check.Succeeds at hx
  cases hrun : x.runFrom c u with
  | mk result after =>
    rw [hrun] at hx
    cases result with
    | ok a =>
      rw [eq_true (⟨a, rfl⟩ : ∃ b, (Except.ok a : Except SemanticError α) = .ok b)] at hx
      obtain ⟨reads', h'⟩ := hf a after hrun
      exact ⟨paid, reads ++ reads', hx.account.append h', hx.due, fun howes _ ↦ hx.owed howes (.inl trivial)⟩
    | error e =>
      rw [eq_false (by simp : ¬ ∃ b, (Except.error e : Except SemanticError α) = .ok b)]
        at hx
      exact ⟨paid, reads, hx⟩

end Check.Settles

/-- A target and what comes behind it, where a name may start. -/
theorem Course.Taken.assigned (hc : c.Closed) (hoperand : AccountingOperands c operand)
    (hs : c.Detached s.position) {f : Target → Check β} (hf : ∀ t u, (f t).Settles c t u) :
    accounted.Taken (Check.target operand >>= f) c s := by
  rcases target_cases hoperand hc s with ⟨t, u, rest, reads, hrun, h⟩ | ⟨hfails, htaken⟩
  · obtain ⟨paid, reads', h'⟩ := hf t u
    unfold Course.Taken
    rw [Check.momentsFrom_bind, Check.leaves_bind, Check.succeeds_bind, hrun]
    exact ⟨_, h'.joined h hs⟩
  · exact htaken.bind fun a after hrun ↦ absurd ⟨a, congrArg Prod.fst hrun⟩ hfails

/-! ### Assignments -/

theorem not_owes_of_kindAt {k : Kind} (hat : c.kindAt u.position = k)
    (hk : Operator.ofCompound? k = none) : ¬ c.Owes t u := fun howes ↦ by
  have hsome := howes.2
  rw [hat, hk] at hsome
  cases hsome

theorem Operator.attaches_of_ofCompound? {k : Kind} {op : Operator}
    (h : Operator.ofCompound? k = some op) : k.attaches = false := by
  cases k <;> first | rfl | cases h

theorem Course.Taken.plainAssignment (hc : c.Closed) {terminators : List Kind}
    (hterminators : ∀ k ∈ terminators, k.extendsName = false) (hs : c.Detached s.position)
    (levels : Nat) (t : Target) (sign : Token) :
    accounted.Taken (Check.plainAssignment levels terminators t sign) c s := by
  refine .bind (Takes.next? .inputWord s) fun isInput after hnext ↦ ?_
  cases hnext
  refine .ite (fun _ ↦ ?_) fun _ ↦ ?_
  · exact ((Takes.inputValue _).bind fun _ ↦ .markInitialized t) s
  · exact (valueType hc hterminators hs levels).bind fun _ later _ ↦
      ((Takes.requireType _ _ _).bind fun _ ↦ .markInitialized t) later

/-- The value of a compound assignment, behind the warning of its target. -/
theorem Course.Taken.compoundValue (hc : c.Closed) {terminators : List Kind}
    (hterminators : ∀ k ∈ terminators, k.extendsName = false) (hs : c.Detached s.position)
    (levels : Nat) (t : Target) (sign : Token) : accounted.Taken (do
      Check.requireType t.type (← Check.valueType levels terminators) sign) c s :=
  (valueType hc hterminators hs levels).bind fun _ later _ ↦ Takes.requireType _ _ _ later

/-- A compound assignment warns of a target that has no value, unless it stops at its sign. -/
theorem Check.Settles.compoundAssignment (hc : c.Closed) {terminators : List Kind}
    (hterminators : ∀ k ∈ terminators, k.extendsName = false) {op : Operator}
    (hsign : Operator.ofCompound? (c.kindAt u.position) = some op) (levels : Nat) (sign : Token) :
    Check.Settles c t u (do
      Functor.discard Check.advance
      Check.compoundAssignment levels terminators op t sign) := by
  have hne : c.kindAt u.position ≠ .eof := fun heof ↦ by rw [heof] at hsign; cases hsign
  have hbehind : c.Detached (u.position + 1) := detached_succ (Operator.attaches_of_ofCompound? hsign)
  have hskip := run_skip (c := c) (s := u) rfl hne
  -- A check that stops right behind the sign has not got past the read of its target.
  have hstops {x : Check Unit} {e : SemanticError} (hx : accounted.Taken x c (u.movedTo (u.position + 1)))
      (hrun : x.runFrom c (u.movedTo (u.position + 1)) = (.error e, u.movedTo (u.position + 1))) :
      Check.Settles c t u (Functor.discard Check.advance >>= fun _ ↦ x) := by
    refine .of_taken (.next (Takes.advance.discard u) (ensures_skip rfl hne) ?_) fun _ ↦ ?_
    · rintro - _ rfl
      exact hx
    rw [Check.succeeds_bind, Check.leaves_bind, Check.runFrom, hskip]
    dsimp only
    unfold Check.Succeeds Check.leaves
    rw [hrun]
    exact ⟨by simp, Nat.le_refl _⟩
  have hpeek {f : Token → Check Unit} : (Check.peek >>= f).run c (u.movedTo (u.position + 1)) [] =
      (f (c.tokenAt (u.position + 1))).run c (u.movedTo (u.position + 1)) [] := rfl
  unfold Check.compoundAssignment
  cases t.type.isNumeric with
  | false => exact hstops (.bind (Takes.violateAt _ _ _) fun _ _ hrun ↦ by cases hrun) rfl
  | true =>
    simp only [if_true]
    cases hzero : (op.isDivision && (c.tokenAt (u.position + 1)).isZeroLiteral) with
    | true =>
      refine hstops (e := ⟨.divisionByZero, (c.tokenAt (u.position + 1)).position⟩) ?_ ?_
      · refine .bind (Takes.peek _) fun first after hrun ↦ ?_
        cases hrun
        exact .ite (fun _ ↦ .bind (Takes.violate _ _) fun _ _ hrun ↦ by cases hrun)
          fun hnot ↦ absurd hzero hnot
      · rw [Check.runFrom, hpeek, if_pos hzero]
        rfl
    | false =>
      have hvalue {v : State} (hv : c.Detached v.position) :=
        Course.Taken.compoundValue hc hterminators hv levels t sign
      cases hset : t.initialized with
      | true =>
        refine .of_taken (.next (Takes.advance.discard u) (ensures_skip rfl hne) ?_)
          fun howes ↦ by cases hset.symm.trans howes.1
        rintro - _ rfl
        refine .bind (Takes.peek _) fun first after hrun ↦ ?_
        cases hrun
        exact .ite (fun _ ↦ .bind (Takes.violate _ _) fun _ _ hrun ↦ by cases hrun)
          fun _ ↦ hvalue hbehind
      | false =>
        -- The one case with a warning; what it answers for is the target in front of the sign.
        let warned := (u.movedTo (u.position + 1)).warned t.warning
        obtain ⟨reads, h⟩ := hvalue (v := warned) hbehind
        have hjoined := ((Account.passing c u).warned c t.warning True).append h
        have hwarn {f : Unit → Check Unit} :
            (Check.warn t.name t.token >>= f).run c (u.movedTo (u.position + 1)) [] =
              (f ()).run c warned [⟨c, warned, none⟩] := rfl
        unfold Check.Settles
        rw [Check.momentsFrom_bind, Check.leaves_bind, Check.succeeds_bind, Check.runFrom, hskip,
          Check.momentsFrom, hskip]
        unfold Check.momentsFrom Check.leaves Check.Succeeds Check.runFrom
        dsimp only
        rw [hpeek, if_neg (by rw [hzero]; decide), if_neg Bool.false_ne_true, hwarn, Check.run_eq]
        rw [List.append_cons] at hjoined
        exact ⟨[t.warning], reads, hjoined, .inr ⟨rfl, hset, by rw [hsign]; rfl⟩, fun _ _ ↦ rfl⟩

theorem Check.Settles.assignmentTail (hc : c.Closed) {terminators : List Kind}
    (hterminators : ∀ k ∈ terminators, k.extendsName = false) (levels : Nat) (t : Target) (u : State) :
    (Check.assignmentTail levels terminators t).Settles c t u := by
  refine .behind rfl rfl fun sign hpeek ↦ ?_
  cases hpeek
  have hcounts {k : Kind} (hat : c.kindAt u.position = k) (hk : Operator.ofCompound? k = none) :
      Check.Settles c t u (do
        Functor.discard Check.advance
        Check.requireInt t) :=
    .of_taken ((Takes.advance.discard.bind fun _ ↦ .requireInt t) u)
      fun howes ↦ absurd howes (not_owes_of_kindAt hat hk)
  split
  next hkind =>
    have hat : c.kindAt u.position = .assign := hc.kind_tokenAt _ ▸ hkind
    refine .of_taken (.next (Takes.advance.discard u) (ensures_skip hat (by decide)) ?_)
      fun howes ↦ absurd howes (not_owes_of_kindAt hat rfl)
    rintro - _ rfl
    exact .plainAssignment hc hterminators (detached_succ (by rw [hat]; rfl)) levels t _
  next hkind => exact hcounts (hc.kind_tokenAt _ ▸ hkind) rfl
  next hkind => exact hcounts (hc.kind_tokenAt _ ▸ hkind) rfl
  next =>
    rw [hc.kind_tokenAt]
    split
    next op hop => exact .compoundAssignment hc hterminators hop levels _
    next hnone =>
      exact .of_taken (Takes.violate _ u) fun howes ↦ absurd howes (not_owes_of_kindAt rfl hnone)

/-! ### Runs behind which a name may start -/

namespace Check.Orderly

theorem bind {f : α → Check β} (hx : accounted.Taken x c s)
    (hf : ∀ a after, x.runFrom c s = (.ok a, after) → (f a).Orderly c after) :
    (x >>= f).Orderly c s where
  taken := hx.bind fun a after hrun ↦ (hf a after hrun).taken
  apart := (ensures_bind f).2 <| (ensures_runs x c s).mono fun a after hrun ↦ (hf a after hrun).apart

theorem next {f : α → Check β} {E : SemanticError → Prop} {Q : α → State → Prop}
    (hx : accounted.Taken x c s) (hensures : Ensures x c s E Q)
    (hf : ∀ a after, Q a after → (f a).Orderly c after) : (x >>= f).Orderly c s :=
  .bind hx fun a after hrun ↦ hf a after (hensures.of_run hrun)

/-- What comes behind a run may start with a name. -/
theorem andThen {f : α → Check β} (hx : x.Orderly c s)
    (hf : ∀ a after, c.Detached after.position → (f a).Orderly c after) : (x >>= f).Orderly c s :=
  .next hx.taken hx.apart hf

theorem ite {p : Prop} [Decidable p] (hx : p → x.Orderly c s) (hy : ¬p → y.Orderly c s) :
    (if p then x else y).Orderly c s := by
  split
  next h => exact hx h
  next h => exact hy h

theorem pure (hs : c.Detached s.position) (a : α) : (pure a : Check α).Orderly c s where
  taken := Takes.pure a s
  apart := hs

theorem violateAt (v : Violation) (place : Token) :
    (Check.violateAt v place : Check α).Orderly c s where
  taken := Takes.violateAt v place s
  apart := trivial

theorem violate (v : Violation) : (Check.violate v : Check α).Orderly c s where
  taken := Takes.violate v s
  apart := trivial

/-- A check that stops may come before another one. -/
theorem violateAt_then (v : Violation) (place : Token) (f : α → Check β) :
    (Check.violateAt v place >>= f).Orderly c s :=
  .bind (Takes.violateAt v place s) fun _ _ hrun ↦ by cases hrun

theorem violate_then (v : Violation) (f : α → Check β) : (Check.violate v >>= f).Orderly c s :=
  .bind (Takes.violate v s) fun _ _ hrun ↦ by cases hrun

theorem discard (hx : x.Orderly c s) : (Functor.discard x).Orderly c s where
  taken := hx.taken.discard
  apart := ensures_discard.2 hx.apart

theorem expect {k : Kind} (hk : k ≠ .eof) (hattaches : k.attaches = false) (wanted : Wanted) :
    (Check.expect k wanted).Orderly c s where
  taken := Takes.expect k wanted s
  apart := (ensures_expect_passed hk wanted).mono fun _ _ h ↦
    h.2.2 ▸ detached_succ (h.1 ▸ hattaches)

theorem mark {k : Kind} (hk : k ≠ .eof) (hattaches : k.attaches = false) :
    (Functor.discard (Check.expectMark k)).Orderly c s :=
  .discard (.expect hk hattaches (.mark k))

/-- Rounds that each end where a name may start. -/
theorem roundsWhile {due : Check Bool} {round : σ → Check (ForInStep σ)} {value : σ}
    {I : State → Prop} (hs : I s) (hstart : ∀ {u : State}, c.Detached u.position → I u)
    (hdue : accounted.Takes due c) (hmore : ∀ u, I u → Ensures due c u (fun _ ↦ True) fun more after ↦
      after = u ∧ (more = false → c.Detached u.position))
    (hround : ∀ value u, I u → (round value).Orderly c u) :
    (Check.roundsWhile due round value).Orderly c s where
  taken := by
    refine .roundsWhile (I := fun _ u ↦ I u) hs hdue fun value u hu ↦ (hmore u hu).mono ?_
    rintro more after ⟨rfl, -⟩ -
    exact ⟨(hround value after hu).taken,
      (hround value after hu).apart.mono fun _ _ hapart _ _ ↦ hstart hapart⟩
  apart := by
    refine ensures_roundsWhile (I := fun _ u ↦ I u) (fun _ ↦ trivial) hs fun value u hu ↦
      (hmore u hu).mono ?_
    rintro more after ⟨rfl, hend⟩
    refine ⟨fun _ ↦ (hround value after hu).apart.mono fun step later hapart ↦ ?_, hend⟩
    cases step with
    | done value => exact hapart
    | yield value => exact hstart hapart

end Check.Orderly

/-! ### Declarations -/

/-- A lookup that reads nothing, or behind which the run stops at once. -/
theorem Check.Orderly.lookupSettled {name : String} {f : Option Symbol → Check α}
    (h : (f (s.arena.lookup c.scope name)).Orderly c s)
    (hsettled : ∀ symbol, s.arena.lookup c.scope name = some symbol → symbol.Settled ∨
      (¬ (f (some symbol)).Succeeds c s ∧ ((f (some symbol)).leaves c s).position = s.position)) :
    (Check.resolve name >>= f).Orderly c s where
  taken := .lookupSettled h.taken hsettled
  apart := (ensures_bind f).2 (ensures_resolve.2 h.apart)

namespace Course.Takes

/-- The length of an array may be held by a variable, which must have a value. -/
theorem namedSize (token : Token) : accounted.Takes (Check.namedSize token) c := by
  refine fun s ↦ .lookupSettled ?_ fun symbol _ ↦ ?_
  · split
    · exact violateAt _ _ s
    · exact guard (violateAt _ _) (otherwise (violateAt _ _) (pure _)) s
  · dsimp only
    cases hwrong : (!symbol.isScalar || decide (symbol.type ≠ .int)) with
    | true => exact .inr ⟨Check.not_succeeds rfl, rfl⟩
    | false =>
      cases hset : symbol.initialized with
      | true =>
        have hscalar : symbol.isScalar = true := by simpa using (Bool.or_eq_false_iff.1 hwrong).1
        exact .inl (.of_scalar hscalar hset)
      | false => exact .inr ⟨Check.not_succeeds rfl, rfl⟩

theorem arraySize : accounted.Takes Check.arraySize c := by
  refine advance.bind fun token ↦ ?_
  split
  · show accounted.Takes (Check.literalSize token) c
    unfold Check.literalSize
    split
    · exact violateAt _ _
    · exact guard (violateAt _ _) (pure _)
  · exact violateAt _ _
  · exact namedSize token
  · exact violateAt _ _

theorem arrayShape (name : Token) : accounted.Takes (Check.arrayShape name) c := by
  have hdimension : accounted.Takes Check.dimension c :=
    advance.discard.bind fun _ ↦ arraySize.bind fun _ ↦
      (expectMark .rightBracket).discard.bind fun _ ↦ pure _
  exact hdimension.bind fun _ ↦ (next? .leftBracket).bind fun _ ↦ ite
    (hdimension.bind fun _ ↦ (next? .leftBracket).bind fun _ ↦ guard (violate _) (pure _)) (pure _)

/-- An element may be a variable, which must have a value. -/
theorem element (type : DataType) : accounted.Takes (Check.element type) c := by
  refine advance.bind fun token ↦ ?_
  split
  · exact ite (violateAt _ _) (pure _)
  · refine guard (violateAt _ _) fun s ↦ .lookupSettled ?_ fun symbol _ ↦ ?_
    · split
      · exact violateAt _ _ s
      · exact guard (violateAt _ _) (ite (pure _) (violateAt _ _)) s
    · dsimp only
      cases hwrong : (!symbol.isScalar || decide (symbol.type ≠ type)) with
      | true => exact .inr ⟨Check.not_succeeds rfl, rfl⟩
      | false =>
        cases hset : symbol.initialized with
        | true =>
          have hscalar : symbol.isScalar = true := by simpa using (Bool.or_eq_false_iff.1 hwrong).1
          exact .inl (.of_scalar hscalar hset)
        | false => exact .inr ⟨Check.not_succeeds rfl, rfl⟩

theorem row (type : DataType) : accounted.Takes (Check.row type) c := by
  have hround (count : Nat) : accounted.Takes (do
      Check.element type
      if ← Check.next? .comma then
        Functor.discard Check.advance
        return ForInStep.yield (count + 1)
      else
        return ForInStep.done (count + 1)) c :=
    (element type).bind fun _ ↦ (next? .comma).bind fun _ ↦
      ite (advance.discard.bind fun _ ↦ pure _) (pure _)
  have hend (count : Nat) : accounted.Takes (do
      Functor.discard (Check.expectMark .rightBrace)
      return count) c :=
    (expectMark .rightBrace).discard.bind fun _ ↦ pure count
  exact (expectMark .leftBrace).discard.bind fun _ ↦ (next? .rightBrace).bind fun _ ↦
    ite (hend _) ((rounds hround).bind hend)

theorem arrayInitializer (type : DataType) (isConstant : Bool) (shape : Check.Shape) :
    accounted.Takes (Check.arrayInitializer type isConstant shape) c := by
  cases shape with
  | row size => exact peek.bind fun _ ↦ (row type).bind fun _ ↦ checkCount _ _ _ _ _
  | table rowCount columns =>
    have hrows : accounted.Takes (Check.rows type columns isConstant) c :=
      roundsWhile ((next? .rightBrace).bind fun _ ↦ pure _) fun _ ↦ peek.bind fun _ ↦
        (row type).bind fun _ ↦ (checkCount _ _ _ _ _).bind fun _ ↦ (next? .comma).bind fun _ ↦
          ite (advance.discard.bind fun _ ↦ pure _) (pure _)
    exact (expectMark .leftBrace).bind fun _ ↦ hrows.bind fun _ ↦
      (expectMark .rightBrace).discard.bind fun _ ↦ checkCount _ _ _ _ _

theorem arrayDeclarator (type : DataType) (isConstant : Bool) (name : Token) :
    accounted.Takes (Check.arrayDeclarator type isConstant name) c :=
  (arrayShape name).bind fun shape ↦ (next? .assign).bind fun _ ↦ ite
    (advance.discard.bind fun _ ↦ (arrayInitializer type isConstant shape).bind fun _ ↦ pure _)
    (guard (violateAt _ _) (pure _))

end Course.Takes

theorem Course.Taken.initializer (hc : c.Closed) (hs : c.Detached s.position) (levels : Nat)
    (type : DataType) (sign : Token) :
    accounted.Taken (Check.initializer levels type sign) c s := by
  refine .bind (Takes.next? .inputWord s) fun isInput after hnext ↦ ?_
  cases hnext
  refine .ite (fun _ ↦ Takes.inputValue _ s) fun _ ↦ ?_
  exact (valueType hc (by decide) hs levels).bind fun _ later _ ↦ Takes.requireType _ _ _ later

theorem Course.Takes.declarator (hc : c.Closed) (levels : Nat) (type : DataType)
    (isConstant : Bool) : accounted.Takes (Check.declarator levels type isConstant) c := by
  refine (expect .identifier .name).bind fun name ↦ (declaredHere _).bind fun _ ↦
    guard (violateAt _ _) <| (next? .leftBracket).bind fun _ ↦ ite ?_ fun s ↦ ?_
  · exact (arrayDeclarator type isConstant name).bind fun _ ↦ declare _ _
  · refine .bind (next? .assign s) fun assigns after hnext ↦ ?_
    cases hnext
    refine .ite (fun hassign ↦ ?_) fun _ ↦ guard (violateAt _ _) (declare _ _) s
    have hat : c.kindAt s.position = .assign := beq_iff_eq.1 hassign
    refine .next (advance s) (ensures_advance_passed hat (by decide)) ?_
    rintro sign _ ⟨-, rfl⟩
    exact (Taken.initializer hc (detached_succ (by rw [hat]; rfl)) levels type sign).bind
      fun _ later _ ↦ declare _ _ later

namespace Check.Orderly

theorem another : Check.another.Orderly c s := by
  refine .bind (Takes.next? .comma s) fun more after hnext ↦ ?_
  cases hnext
  refine .ite (fun hcomma ↦ ?_) fun _ ↦ ?_
  · have hat : c.kindAt s.position = .comma := beq_iff_eq.1 hcomma
    refine .next (Takes.advance.discard s) (ensures_skip hat (by decide)) ?_
    rintro - _ rfl
    exact .pure (detached_succ (by rw [hat]; rfl)) true
  · exact .andThen (.discard (.expect (by decide) rfl _)) fun _ _ hafter ↦ .pure hafter false

theorem declarators {one : Check Unit} (hone : accounted.Takes one c) :
    (Check.declarators one).Orderly c s :=
  .roundsWhile (I := fun _ ↦ True) trivial (fun _ ↦ trivial) (Takes.pure true)
    (fun _ _ ↦ (ensures_pure true).2 ⟨rfl, by simp⟩) fun _ u _ ↦
      .bind (hone u) fun _ _ _ ↦ .andThen another fun _ _ hafter ↦ .pure hafter _

theorem variableDeclaration (hc : c.Closed) (levels : Nat) :
    (Check.variableDeclaration levels).Orderly c s :=
  .bind (Takes.typeWord _ s) fun _ _ _ ↦ .declarators (.declarator hc levels _ false)

theorem constantDeclaration (hc : c.Closed) (levels : Nat) :
    (Check.constantDeclaration levels).Orderly c s :=
  .bind (Takes.advance.discard s) fun _ _ _ ↦ .bind (Takes.typeWord _ _) fun _ _ _ ↦
    .declarators (.declarator hc levels _ true)

theorem instanceDeclaration : Check.instanceDeclaration.Orderly c s := by
  refine .bind (Takes.advance.discard s) fun _ after _ ↦
    .bind (Takes.expect .identifier .structTypeName after) fun structName u _ ↦
      .lookupSettled ?_ fun symbol _ ↦ ?_
  · split
    · exact .declarators ((Takes.expect .identifier .name).bind fun _ ↦ .declare _ _)
    · exact .violateAt _ _
  · simp only [Option.map_some]
    split
    next members hstruct => exact .inl (.of_struct (Option.some.inj hstruct))
    next => exact .inr ⟨Check.not_succeeds rfl, rfl⟩

end Check.Orderly

/-! ### Simple statements -/

theorem Course.Taken.inParentheses (hc : c.Closed) (levels : Nat) :
    accounted.Taken (Check.inParentheses levels) c s := by
  refine .bind (Takes.here s) fun i after hhere ↦ ?_
  cases hhere
  refine .next (Takes.expectMark .leftParen s) (ensures_expect_passed (by decide) _) ?_
  rintro opening _ ⟨hopen, -, rfl⟩
  have hcloser : (c.kindAt s.position).closer? = some .rightParen := by rw [hopen]; rfl
  refine .next (Takes.matchingClose _ _) (ensures_matchingClose hcloser) ?_
  rintro close _ ⟨rfl, hclose, -⟩
  have hinside : c.Detached (s.position + 1) := detached_succ (by rw [hopen]; rfl)
  exact (expressionType hc (by rw [hclose]; rfl) hinside levels).bind fun _ later _ ↦
    ((Takes.expectMark .rightParen).discard.bind fun _ ↦ .pure _) later

theorem Course.Taken.condition (hc : c.Closed) (levels : Nat) (construct : Guarded) :
    accounted.Taken (Check.condition levels construct) c s :=
  (inParentheses hc levels).bind fun _ later _ ↦ Takes.ite (.violateAt _ _) (.pure _) later

theorem Course.Taken.valueReturn (hc : c.Closed) (hs : c.Detached s.position) (levels : Nat)
    (f : FunctionContext) (keyword : Token) :
    accounted.Taken (Check.valueReturn levels f keyword) c s := by
  refine .bind (Takes.next? .semicolon s) fun isEmpty after hnext ↦ ?_
  cases hnext
  refine .ite (fun _ ↦ .bind (Takes.violateAt _ _ s) fun _ _ hrun ↦ by cases hrun) fun _ ↦ ?_
  exact (valueType hc (by decide) hs levels).bind fun _ later _ ↦
    Takes.ite (.violateAt _ _) (.pure _) later

namespace Check.Orderly

/-- A statement that starts with a name, where a name may start. -/
theorem nameStatement (hc : c.Closed) (hs : c.Detached s.position) (levels : Nat) :
    (Check.nameStatement levels).Orderly c s := by
  have hoperand := accountingOperands_operand hc levels
  refine .bind (Takes.secondKind s) fun second after hsecond ↦ ?_
  cases hsecond
  refine .ite (fun hparen ↦ ?_) fun _ ↦ ?_
  · exact .bind (Course.Taken.call hoperand hc hparen).discard fun _ _ _ ↦ .mark (by decide) rfl
  · refine ⟨.assigned hc hoperand hs fun t u ↦ .bind (.assignmentTail hc (by decide) levels t u)
      fun _ after _ ↦ (Takes.expectMark .semicolon).discard after, ?_⟩
    refine (ensures_bind _).2 ((ensures_leaves _ c s).mono fun t u _ ↦ ?_)
    exact (ensures_bind _).2 ((ensures_leaves _ c u).mono fun _ v _ ↦
      (mark (by decide) rfl : (Functor.discard (Check.expectMark .semicolon)).Orderly c v).apart)

/-- A target behind a sign of counting. -/
theorem countStatement (hc : c.Closed) (hat : (c.kindAt s.position).attaches = true)
    (hk : c.kindAt s.position ≠ .eof) (levels : Nat) :
    (Check.countStatement levels).Orderly c s := by
  refine .next (Takes.advance.discard s) (ensures_skip rfl hk) ?_
  rintro - _ rfl
  have hattached : ¬ c.Detached (s.position + 1) := fun hdetached ↦ by
    cases hat.symm.trans (hdetached _ rfl)
  exact .bind (Taken.countedTarget (accountingOperands_operand hc levels) hc hattached) fun t u _ ↦
    .bind (Takes.requireInt t u) fun _ _ _ ↦ .mark (by decide) rfl

theorem printStatement (hc : c.Closed) (levels : Nat) : (Check.printStatement levels).Orderly c s := by
  refine .bind (Takes.advance.discard s) fun _ u _ ↦ .bind (Takes.here u) fun i after hhere ↦ ?_
  cases hhere
  refine .next (Takes.expectMark .leftParen u).discard (ensures_skipMark (by decide)) ?_
  rintro - _ ⟨hopen, rfl⟩
  have hcloser : (c.kindAt u.position).closer? = some .rightParen := by rw [hopen]; rfl
  refine .next (Takes.matchingClose _ _) (ensures_matchingClose hcloser) ?_
  rintro close _ ⟨rfl, hclose, -⟩
  have hinside : c.Detached (u.position + 1) := detached_succ (by rw [hopen]; rfl)
  have harguments : accounted.Taken (Check.arguments (Check.operand levels) close) c
      (u.movedTo (u.position + 1)) :=
    .arguments (accountingOperands_operand hc levels) hc (by rw [hclose]; rfl) hinside
  exact .bind harguments.discard fun _ later _ ↦
    .bind (Takes.expectMark .rightParen later).discard fun _ _ _ ↦ .mark (by decide) rfl

theorem breakStatement : Check.breakStatement.Orderly c s :=
  .bind (Takes.advance s) fun _ u _ ↦ .bind (Takes.read u) fun _ _ _ ↦
    .ite (fun _ ↦ .violateAt_then _ _ _) fun _ ↦ .mark (by decide) rfl

theorem continueStatement : Check.continueStatement.Orderly c s := by
  refine .bind (Takes.advance s) fun _ u _ ↦ .bind (Takes.read u) fun _ _ _ ↦ ?_
  split
  · exact .mark (by decide) rfl
  · exact .violateAt _ _
  · exact .violateAt _ _

theorem endStatement : Check.endStatement.Orderly c s := by
  have hend (keyword : Token) {u : State} : Check.Orderly (do
      Functor.discard (Check.expectMark .semicolon)
      unless ← Check.next? .rightBrace do Check.violateAt .misplacedEnd keyword) c u := by
    refine .andThen (.mark (by decide) rfl) fun _ v hv ↦
      .bind (Takes.next? .rightBrace v) fun closes after hnext ↦ ?_
    cases hnext
    exact .ite (fun _ ↦ .pure hv _) fun _ ↦ .violateAt _ _
  exact .bind (Takes.advance s) fun keyword u _ ↦ .bind (Takes.read u) fun _ _ _ ↦
    .ite (fun _ ↦ hend keyword) fun _ ↦ .violateAt_then _ _ _

/-- A return, from its word on. -/
theorem returnStatement (hc : c.Closed) (hat : c.kindAt s.position = .returnWord) (levels : Nat) :
    (Check.returnStatement levels).Orderly c s := by
  refine .next (Takes.advance s) (ensures_advance_passed hat (by decide)) ?_
  rintro keyword _ ⟨-, rfl⟩
  have hbehind : c.Detached (s.position + 1) := detached_succ (by rw [hat]; rfl)
  have hmark {u : State} : Check.Orderly (do
      (MonadState.modifyGet fun s ↦ ((), { s with sawReturn := true }) : Check Unit)
      Functor.discard (Check.expectMark .semicolon)) c u :=
    .bind (Takes.modifyGet (fun _ ↦ Nat.le_refl _) (fun _ ↦ rfl) u) fun _ _ _ ↦ .mark (by decide) rfl
  refine .bind (Takes.read _) fun d u hread ↦ ?_
  cases hread
  split
  · exact .violateAt _ _
  next f _ =>
    have hentry : accounted.Takes (Check.entryPointReturn keyword) c :=
      (Takes.next? .semicolon).bind fun _ ↦ .ite (.pure _) <| Takes.peek.bind fun _ ↦
        Takes.secondKind.bind fun _ ↦ .ite Takes.advance.discard (.violateAt _ _)
    have hvoid : accounted.Takes (Check.voidReturn f keyword) c :=
      (Takes.next? .semicolon).bind fun _ ↦ .ite (.pure _) (.violateAt _ _)
    refine .ite (fun _ ↦ .bind (hentry _) fun _ _ _ ↦ hmark) fun _ ↦
      .ite (fun _ ↦ .bind (hvoid _) fun _ _ _ ↦ hmark) fun _ ↦ ?_
    exact .bind (Taken.valueReturn hc hbehind levels f keyword) fun _ _ _ ↦ hmark

end Check.Orderly

/-! ### Headers of counted loops -/

namespace Check.Orderly

/-- The first clause assigns to its target, which reads nothing of it. -/
theorem forStart (hc : c.Closed) (hs : c.Detached s.position) (levels : Nat) :
    (Check.forStart levels).Orderly c s := by
  refine ⟨.assigned hc (accountingOperands_operand hc levels) hs fun t u ↦ ?_, ?_⟩
  · refine .behind (by unfold Check.requireForVariable; split <;> rfl)
      (by unfold Check.requireForVariable; split <;> rfl) fun _ _ ↦ ?_
    have hrest : accounted.Taken (do
        let sign ← Check.expectMark .assign
        Check.requireType .int (← Check.valueType levels []) sign
        Check.markInitialized t
        Functor.discard <| Check.expectMark .semicolon) c u := by
      refine .next (Takes.expectMark .assign u) (ensures_expect_passed (by decide) _) ?_
      rintro sign _ ⟨hassign, -, rfl⟩
      have hbehind : c.Detached (u.position + 1) := detached_succ (by rw [hassign]; rfl)
      exact (Taken.valueType hc (by decide) hbehind levels).bind fun _ later _ ↦
        ((Takes.requireType _ _ _).bind fun _ ↦ (Takes.markInitialized t).bind fun _ ↦
          (Takes.expectMark .semicolon).discard) later
    refine .of_taken hrest fun howes ↦ ?_
    have hnot : c.kindAt u.position ≠ .assign := fun hat ↦ not_owes_of_kindAt hat rfl howes
    have hexpect : (Check.expectMark .assign).runFrom c u =
        (.error (c.expected u.position (.mark .assign)), u) := by
      show ((Check.expect .assign (.mark .assign)).run c u []).1 = _
      rw [run_expect (by decide), if_neg hnot]
    rw [Check.succeeds_bind, Check.leaves_bind, hexpect]
    exact ⟨not_false, Nat.le_succ _⟩
  · refine (ensures_bind _).2 ((ensures_leaves _ c s).mono fun t u _ ↦ ?_)
    refine (ensures_bind _).2 ((ensures_leaves _ c u).mono fun _ v _ ↦ ?_)
    refine (ensures_bind _).2 ((ensures_leaves _ c v).mono fun _ v _ ↦ ?_)
    refine (ensures_bind _).2 ((ensures_leaves _ c v).mono fun _ v _ ↦ ?_)
    refine (ensures_bind _).2 ((ensures_leaves _ c v).mono fun _ v _ ↦ ?_)
    refine (ensures_bind _).2 ((ensures_leaves _ c v).mono fun _ v _ ↦ ?_)
    exact (mark (by decide) rfl : (Functor.discard (Check.expectMark .semicolon)).Orderly c v).apart

theorem forCondition (hc : c.Closed) (hs : c.Detached s.position) (levels : Nat) :
    (Check.forCondition levels).Orderly c s :=
  .bind (Taken.valueType hc (by decide) hs levels) fun _ _ _ ↦
    .ite (fun _ ↦ .violate_then _ _) fun _ ↦ .mark (by decide) rfl

end Check.Orderly

/-- The last clause counts its target or assigns to it. -/
theorem Course.Taken.forUpdate (hc : c.Closed) (hs : c.Detached s.position) (levels : Nat) :
    accounted.Taken (Check.forUpdate levels) c s := by
  have hoperand := accountingOperands_operand hc levels
  have hcounted (hat : (c.kindAt s.position).attaches = true) (hk : c.kindAt s.position ≠ .eof) :
      accounted.Taken (do
        Functor.discard Check.advance
        Check.requireForVariable .update (← Check.target (Check.operand levels))) c s := by
    refine .next (Takes.advance.discard s) (ensures_skip rfl hk) ?_
    rintro - _ rfl
    have hattached : ¬ c.Detached (s.position + 1) := fun hdetached ↦ by
      cases hat.symm.trans (hdetached _ rfl)
    exact (countedTarget hoperand hc hattached).bind fun t u _ ↦ Takes.requireForVariable _ t u
  refine .bind (Takes.peekKind s) fun k after hpeek ↦ ?_
  cases hpeek
  split
  next hat => exact hcounted (by rw [hat]; rfl) (by rw [hat]; decide)
  next hat => exact hcounted (by rw [hat]; rfl) (by rw [hat]; decide)
  · refine .assigned hc hoperand hs fun t u ↦ ?_
    refine .behind (by unfold Check.requireForVariable; split <;> rfl)
      (by unfold Check.requireForVariable; split <;> rfl) fun _ _ ↦ ?_
    refine .behind rfl rfl fun k hpeek ↦ ?_
    cases hpeek
    split
    · exact .assignmentTail hc (by decide) levels t u
    next hnot =>
      refine .of_taken (Takes.violate _ u) fun howes ↦ absurd ?_ hnot
      simp [Check.updates, howes.2]
  · exact Takes.violate _ s

/-! ### Blocks -/

section

variable {inner : Inner} (hinner : AccountingInner inner) (hc : c.Closed)

include hinner hc

theorem Check.Orderly.block (label : String) : (Check.block inner label).Orderly c s := by
  refine .next (Takes.expectMark .leftBrace s).discard (ensures_skipMark (by decide)) ?_
  rintro - _ ⟨hopen, rfl⟩
  have hinside : c.Detached (s.position + 1) := detached_succ (by rw [hopen]; rfl)
  let opened := s.movedTo (s.position + 1)
  have hbody : accounted.Taken (Check.inScope label (inner [.rightBrace])) c opened :=
    .inScope label (hinner (c := c.entering opened) (s := opened.entered c label) hc hinside _)
  exact .bind hbody.discard fun _ _ _ ↦ .mark (by decide) rfl

theorem Check.Orderly.ifStatement (levels : Nat) : (Check.ifStatement levels inner).Orderly c s := by
  have hround (u : State) : Check.Orderly (do
      Functor.discard Check.advance
      Check.condition levels .elseIfBlock
      Check.block inner "else-if block"
      return ForInStep.yield ()) c u :=
    .bind (Takes.advance.discard u) fun _ _ _ ↦ .bind (Taken.condition hc levels _) fun _ _ _ ↦
      .andThen (.block hinner hc _) fun _ _ hafter ↦ .pure hafter _
  refine .bind (Takes.advance.discard s) fun _ _ _ ↦ .bind (Taken.condition hc levels _) fun _ _ _ ↦
    .andThen (.block hinner hc _) fun _ u hu ↦ ?_
  refine .andThen (.roundsWhile (I := fun u ↦ c.Detached u.position) hu id (Takes.next? .elseIfWord)
    (fun v hv ↦ ensures_next?.2 ⟨rfl, fun _ ↦ hv⟩) fun _ v _ ↦ hround v) fun _ v hv ↦ ?_
  refine .bind (Takes.next? .elseWord v) fun more after hnext ↦ ?_
  cases hnext
  exact .ite (fun _ ↦ .bind (Takes.advance.discard v) fun _ _ _ ↦ .block hinner hc _)
    fun _ ↦ .pure hv _

theorem Course.Takes.caseBlock (keyword : Token) (which : CaseBlock) :
    accounted.Takes (Check.caseBlock inner keyword which) c := by
  intro s
  refine .next (Takes.expectMark .colon s).discard (ensures_skipMark (by decide)) ?_
  rintro - _ ⟨hcolon, rfl⟩
  have hinside : c.Detached (s.position + 1) := detached_succ (by rw [hcolon]; rfl)
  let opened := s.movedTo (s.position + 1)
  have hbody : accounted.Taken (Check.inScope "case block" <| Check.inBlock .case <|
      inner [.caseWord, .defaultWord, .rightBrace]) c opened :=
    .inScope _ (hinner (c := { c.entering opened with blocks := .case :: c.blocks })
      (s := opened.entered c "case block") hc hinside _)
  exact hbody.bind fun _ later _ ↦ Takes.ite (.violateAt _ _) (.pure _) later

theorem Course.Takes.switchRound (selector : DataType) (soFar : SwitchSoFar) :
    accounted.Takes (Check.switchRound inner selector soFar) c := by
  have hlabel : accounted.Takes (Check.caseLabel selector soFar.labels) c :=
    advance.bind fun _ ↦ otherwise (violateAt _ _) <| guard (violateAt _ _) (pure _)
  refine peek.bind fun t ↦ ?_
  split
  · exact pure _
  · exact advance.discard.bind fun _ ↦ hlabel.bind fun _ ↦
      (caseBlock hinner hc t _).bind fun _ ↦ pure _
  · exact guard (violateAt _ _) <| advance.discard.bind fun _ ↦
      (caseBlock hinner hc t .default).bind fun _ ↦ pure _
  · exact violate _
  · exact violate _

namespace Check.Orderly

theorem switchStatement (levels : Nat) : (Check.switchStatement levels inner).Orderly c s := by
  refine .bind (Takes.advance s) fun _ u _ ↦ .bind (Takes.read u) fun _ _ _ ↦
    .ite (fun _ ↦ .violateAt_then _ _ _) fun _ ↦ ?_
  refine .bind (Taken.inParentheses hc levels) fun selector v _ ↦
    .ite (fun _ ↦ .violateAt_then _ _ _) fun _ ↦ ?_
  have hrounds : accounted.Takes (Check.inBlock .switch <|
      Check.rounds (Check.switchRound inner selector.1) ⟨[], false⟩) c :=
    Takes.rounds fun soFar ↦ .switchRound (c := { c with blocks := .switch :: c.blocks }) hinner hc _ soFar
  exact .bind (Takes.expectMark .leftBrace v).discard fun _ w _ ↦ .bind (hrounds w).discard
    fun _ _ _ ↦ .mark (by decide) rfl

/-- A block that stands in a loop. -/
theorem loopBlock (label : String) :
    (Check.inBlock .loop (Check.block inner label)).Orderly c s := by
  have hblock : (Check.block inner label).Orderly { c with blocks := .loop :: c.blocks } s :=
    .block (c := { c with blocks := .loop :: c.blocks }) hinner hc label
  exact ⟨hblock.taken, hblock.apart⟩

theorem whileStatement (levels : Nat) : (Check.whileStatement levels inner).Orderly c s :=
  .bind (Takes.advance.discard s) fun _ _ _ ↦ .bind (Taken.condition hc levels _) fun _ _ _ ↦
    .loopBlock hinner hc _

theorem doStatement (levels : Nat) : (Check.doStatement levels inner).Orderly c s :=
  .bind (Takes.advance.discard s) fun _ _ _ ↦ .andThen (.loopBlock hinner hc _) fun _ u _ ↦
    .bind (Takes.expectMark .whileWord u).discard fun _ _ _ ↦
      .bind (Taken.condition hc levels _) fun _ _ _ ↦ .mark (by decide) rfl

theorem forStatement (levels : Nat) : (Check.forStatement levels inner).Orderly c s := by
  refine .bind (Takes.advance.discard s) fun _ u _ ↦ .bind (Takes.here u) fun i after hhere ↦ ?_
  cases hhere
  refine .next (Takes.expectMark .leftParen u).discard (ensures_skipMark (by decide)) ?_
  rintro - _ ⟨hopen, rfl⟩
  have hcloser : (c.kindAt u.position).closer? = some .rightParen := by rw [hopen]; rfl
  refine .next (Takes.matchingClose _ _) (ensures_matchingClose hcloser) ?_
  rintro close _ ⟨rfl, -, -⟩
  have hinside : c.Detached (u.position + 1) := detached_succ (by rw [hopen]; rfl)
  refine .andThen (.forStart hc hinside levels) fun _ v hv ↦
    .andThen (.forCondition hc hv levels) fun _ w hw ↦
      .bind (Taken.forUpdate hc hw levels) fun _ w _ ↦ .bind (Takes.here w) fun _ w _ ↦ ?_
  refine .ite (fun _ ↦ .bind (Takes.peek w) fun _ _ _ ↦ .violate_then _ _) fun _ ↦ ?_
  exact .bind (Takes.expectMark .rightParen w).discard fun _ _ _ ↦ .loopBlock hinner hc _

/-! ### All statements -/

theorem ordinaryStatement (hs : c.Detached s.position) (levels : Nat) :
    (Check.ordinaryStatement levels inner (c.tokenAt s.position)).Orderly c s := by
  have hat {k : Kind} (hkind : (c.tokenAt s.position).kind = k) : c.kindAt s.position = k :=
    (hc.kind_tokenAt _).symm.trans hkind
  unfold Check.ordinaryStatement
  split
  case h_1 | h_2 | h_3 | h_4 | h_5 => exact variableDeclaration hc levels
  case h_6 => exact constantDeclaration hc levels
  case h_7 => exact instanceDeclaration
  case h_8 => exact nameStatement hc hs levels
  case h_9 hkind | h_10 hkind =>
    exact countStatement hc (by rw [hat hkind]; rfl) (by rw [hat hkind]; decide) levels
  case h_11 => exact printStatement hc levels
  case h_12 => exact ifStatement hinner hc levels
  case h_13 => exact switchStatement hinner hc levels
  case h_14 => exact forStatement hinner hc levels
  case h_15 => exact whileStatement hinner hc levels
  case h_16 => exact doStatement hinner hc levels
  case h_17 hkind => exact returnStatement hc (hat hkind) levels
  case h_18 => exact continueStatement
  case h_19 => exact endStatement
  all_goals exact violate _

theorem statementWith (hs : c.Detached s.position) (levels : Nat) :
    (Check.statementWith levels inner).Orderly c s := by
  refine .bind (Takes.peek s) fun t after hpeek ↦ ?_
  cases hpeek
  refine .ite (fun _ ↦ ?_) fun _ ↦ ?_
  · exact .andThen breakStatement fun _ _ hafter ↦ .pure hafter _
  · exact .andThen (.ordinaryStatement hinner hc hs levels) fun _ _ hafter ↦ .pure hafter _

end Check.Orderly

end

/-- Statements in a row. -/
theorem Check.Orderly.statementsUntil {statement : Check Ending}
    (hstatement : ∀ u : State, c.Detached u.position → statement.Orderly c u)
    (hs : c.Detached s.position) (terminators : List Kind) :
    (Check.statementsUntil statement terminators).Orderly c s := by
  refine .roundsWhile (I := fun u ↦ c.Detached u.position) hs id (Takes.pure true)
    (fun u _ ↦ (ensures_pure true).2 ⟨rfl, by simp⟩) fun last u hu ↦ ?_
  refine .bind (Takes.peekKind u) fun k after hpeek ↦ ?_
  cases hpeek
  refine .ite (fun _ ↦ .pure hu _) fun _ ↦ .ite (fun _ ↦ .violate_then _ _) fun _ ↦ ?_
  exact .andThen (hstatement u hu) fun _ _ hafter ↦ .pure hafter _

/-- The statements of blocks account for their warnings, however many levels are left. -/
theorem accountingInner_statementsBelow (levels : Nat) : AccountingInner (statementsBelow levels) := by
  induction levels with
  | zero => exact fun _ _ _ ↦ Takes.tooDeep _
  | succ levels ih =>
    exact fun hc hs terminators ↦
      (Check.Orderly.statementsUntil (fun _ hu ↦ .statementWith ih hc hu levels) hs terminators).taken

/-- A statement accounts for its warnings where a name may start, and a name may start behind it. -/
theorem Check.Orderly.statement (hc : c.Closed) (hs : c.Detached s.position) (levels : Nat) :
    (Check.statement levels).Orderly c s :=
  .statementWith (accountingInner_statementsBelow levels) hc hs levels

end

end FrontEnd
