import FrontEnd.Proofs.Check.Unset

/-!
# Targets account for their warnings

A target looks its name up behind it and warns of nothing itself: what is read there depends on the
sign that follows (`Context.Owes`), and what comes behind the target sees to it (`Pays`).  In front of a
target that is counted stands the sign, so its lookup is no read at all.  The struct of an instance is
looked up behind its member, which reads nothing.

What operands contain is a parameter (`AccountingOperands`), for indices are expressions.
-/

namespace FrontEnd

open Check Course

/-- The run of a check has a moment, or stops at a violation before it passes anything. -/
def Check.ComesTo {α : Type} (x : Check α) (c : Context) (s : State) (m : Moment) : Prop :=
  m ∈ x.momentsFrom c s ∨ (¬ x.Succeeds c s ∧ (x.leaves c s).position = s.position)

/-- Operands account for their warnings, wherever a name may start, and look a name up that is all
there is of them. -/
structure AccountingOperands (c : Context) (operand : Nat → Check DataType) : Prop where
  accounts : ∀ stop, (c.kindAt stop).extendsName = false → ∀ s, c.Detached s.position →
    accounted.Taken (operand stop) c s
  looks : ∀ s, c.kindAt s.position = .identifier →
    (operand (s.position + 1)).ComesTo c s ⟨c, s, some (c.tokenAt s.position).lexeme⟩

/-- A member was found behind an instance. -/
structure MemberFound (c : Context) (s : State) (symbol : Symbol) (m : Member) (after : State) :
    Prop where
  warnings : after.warnings = s.warnings
  position : after.position = s.position + 2
  dot : c.kindAt s.position = .dot
  kind : c.kindAt (s.position + 1) = .identifier
  name : m.name = (c.tokenAt (s.position + 1)).lexeme
  declared : ∃ structName given members, symbol.kind = .structInstance structName given ∧
    (s.arena.lookup c.scope structName).map Symbol.kind = some (.struct members) ∧
      (∃ declared ∈ members, declared.name = m.name) ∧ given.contains m.name = m.initialized

section

variable {α β : Type} {x : Check α} {c : Context} {s u : State} {m : Moment} {i j stop : Nat}
  {w : Warning} {symbol : Symbol} {name : String}

/-! ### Runs -/

theorem Check.ComesTo.bind (h : x.ComesTo c s m) (f : α → Check β) : (x >>= f).ComesTo c s m := by
  unfold Check.ComesTo at *
  rw [Check.momentsFrom_bind, Check.leaves_bind, Check.succeeds_bind]
  unfold Check.leaves Check.Succeeds at h
  cases hrun : x.runFrom c s with
  | mk result after =>
    rw [hrun] at h
    cases result with
    | ok a =>
      rcases h with hm | ⟨hfails, -⟩
      · exact .inl (List.mem_append_right _ hm)
      · exact absurd ⟨a, rfl⟩ hfails
    | error e => exact h.imp_right fun h ↦ ⟨False.elim, h.2⟩

/-- What comes behind a check that leaves the state as it is. -/
theorem Check.ComesTo.behind {f : α → Check β} (hleaves : x.leaves c s = s)
    (h : ∀ a, x.runFrom c s = (.ok a, s) → (f a).ComesTo c s m) : (x >>= f).ComesTo c s m := by
  unfold Check.ComesTo at *
  rw [Check.momentsFrom_bind, Check.leaves_bind, Check.succeeds_bind]
  unfold Check.leaves at hleaves
  cases hrun : x.runFrom c s with
  | mk result after =>
    rw [hrun] at hleaves
    obtain rfl : after = s := hleaves
    cases result with
    | ok a => exact (h a hrun).imp_left (List.mem_append_left _)
    | error e => exact .inr ⟨not_false, rfl⟩

theorem Check.ComesTo.violate (v : Violation) :
    (Check.violate v : Check α).ComesTo c s m :=
  .inr ⟨Check.not_succeeds rfl, rfl⟩

theorem position_leaves_bind_le {f : α → Check β} {n : Nat} (hx : (x.leaves c s).position ≤ n)
    (hf : ∀ a after, x.runFrom c s = (.ok a, after) → ((f a).leaves c after).position ≤ n) :
    ((x >>= f).leaves c s).position ≤ n := by
  rw [Check.leaves_bind]
  unfold Check.leaves at hx
  cases hrun : x.runFrom c s with
  | mk result after =>
    rw [hrun] at hx
    cases result with
    | ok a => exact hf a after hrun
    | error e => exact hx

theorem leaves_discard (x : Check α) (c : Context) (s : State) :
    (discard x).leaves c s = x.leaves c s := by
  rw [discard, LawfulFunctor.map_const, Function.comp_apply, map_eq_pure_bind, Check.leaves_bind]
  unfold Check.leaves
  obtain ⟨_ | _, _⟩ := x.runFrom c s <;> rfl

theorem leaves_peekKind_bind (f : Kind → Check β) (c : Context) (s : State) :
    (peekKind >>= f).leaves c s = (f (c.kindAt s.position)).leaves c s :=
  rfl

theorem leaves_read_bind (f : Context → Check β) (c : Context) (s : State) :
    (read >>= f).leaves c s = (f c).leaves c s :=
  rfl

theorem leaves_here_bind (f : Nat → Check β) (c : Context) (s : State) :
    (here >>= f).leaves c s = (f s.position).leaves c s :=
  rfl

/-- The search for the end of an expression moves nothing, also where it fails. -/
theorem leaves_expressionEnd (terminators : List Kind) (c : Context) (s : State) :
    (expressionEnd terminators).leaves c s = s := by
  unfold expressionEnd
  rw [leaves_read_bind, leaves_here_bind]
  split <;> rfl

theorem run_resolve_bind (f : Option Symbol → Check β) (name : String) (c : Context) (s : State) :
    (resolve name >>= f).run c s [] =
      (f (s.arena.lookup c.scope name)).run c s [⟨c, s, some name⟩] :=
  rfl

/-- The token of a kind is passed, or nothing is. -/
theorem run_expect {k : Kind} (hk : k ≠ .eof) (wanted : Wanted) (c : Context) (s : State) :
    (expect k wanted).run c s [] = if c.kindAt s.position = k then
      ((.ok (c.tokenAt s.position), s.movedTo (s.position + 1)),
        [⟨c, s.movedTo (s.position + 1), none⟩])
    else ((.error (c.expected s.position wanted), s), []) := by
  let other : Check Token := do
    let found ← peek
    if found.kind = .eof then violateAt .unexpectedEnd found
    else violateAt (.expectedToken wanted found.lexeme) found
  have hexpect : (expect k wanted).run c s [] =
      (if (c.kindAt s.position == k) = true then advance else other).run c s [] := rfl
  rw [hexpect]
  by_cases hat : c.kindAt s.position = k
  · have hadvance : advance.run c s [] = (if s.position < c.tokens.size then
        moveTo (s.position + 1) >>= fun _ ↦ pure (c.tokenAt s.position)
      else pure (c.tokenAt s.position)).run c s [] := rfl
    rw [if_pos (beq_iff_eq.2 hat), if_pos hat, hadvance,
      if_pos (Context.lt_size_of_ne_eof (hat ▸ hk))]
    rfl
  · have hother : other.run c s [] = (if (c.tokenAt s.position).kind = .eof then
        violateAt .unexpectedEnd (c.tokenAt s.position)
      else violateAt (.expectedToken wanted (c.tokenAt s.position).lexeme)
        (c.tokenAt s.position) : Check Token).run c s [] := rfl
    rw [if_neg (by simpa using hat), if_neg hat, hother]
    unfold Context.expected
    split
    next heof => simp only [heof, if_true]; rfl
    next heof => simp only [heof, if_false]; rfl

theorem ensures_expect_passed {k : Kind} (hk : k ≠ .eof) (wanted : Wanted) :
    Ensures (expect k wanted) c s (fun _ ↦ True) fun t after ↦ c.kindAt s.position = k ∧
      t = c.tokenAt s.position ∧ after = s.movedTo (s.position + 1) := by
  rw [ensures_expect]
  exact ⟨fun hat ↦ ⟨hat, rfl, by rw [Context.after_of_kindAt hat hk]⟩, fun _ ↦ trivial⟩

theorem ensures_advance_passed {k : Kind} (hat : c.kindAt s.position = k) (hk : k ≠ .eof) :
    Ensures advance c s (fun _ ↦ True) fun t after ↦ t = c.tokenAt s.position ∧
      after = s.movedTo (s.position + 1) := by
  rw [ensures_advance, Context.after_of_kindAt hat hk]
  exact ⟨rfl, rfl⟩

theorem ensures_skip {k : Kind} (hat : c.kindAt s.position = k) (hk : k ≠ .eof) :
    Ensures (discard advance) c s (fun _ ↦ True) fun _ after ↦
      after = s.movedTo (s.position + 1) := by
  rw [ensures_discard, ensures_advance, Context.after_of_kindAt hat hk]

theorem ensures_skipMark {k : Kind} (hk : k ≠ .eof) :
    Ensures (discard (expectMark k)) c s (fun _ ↦ True) fun _ after ↦
      c.kindAt s.position = k ∧ after = s.movedTo (s.position + 1) := by
  rw [ensures_discard]
  exact (ensures_expect_passed hk (.mark k)).mono fun _ _ h ↦ ⟨h.1, h.2.2⟩

/-! ### Lookups -/

/-- A lookup and what goes on from it. -/
theorem Course.Taken.resolve {f : Option Symbol → Check α}
    (h : ∃ reads, Account [] s ((f (s.arena.lookup c.scope name)).momentsFrom c s ++
      [⟨c, s, some name⟩]) ((f (s.arena.lookup c.scope name)).leaves c s)
        ((f (s.arena.lookup c.scope name)).Succeeds c s) reads) :
    accounted.Taken (Check.resolve name >>= f) c s := by
  have hrun : (Check.resolve name).runFrom c s = (.ok (s.arena.lookup c.scope name), s) := rfl
  unfold Course.Taken
  rw [Check.momentsFrom_bind, Check.leaves_bind, Check.succeeds_bind, hrun]
  exact h

/-- A lookup that reads nothing, or after which the run gets nowhere. -/
theorem Course.Taken.lookup {f : Option Symbol → Check α}
    (h : accounted.Taken (f (s.arena.lookup c.scope name)) c s)
    (hm : ∀ {i stop w}, (⟨c, s, some name⟩ : Moment).ReadsUnset i stop w →
      ¬ ((f (s.arena.lookup c.scope name)).Succeeds c s ∨
        stop < ((f (s.arena.lookup c.scope name)).leaves c s).position)) :
    accounted.Taken (Check.resolve name >>= f) c s := by
  obtain ⟨reads, h⟩ := h
  exact .resolve ⟨reads, h.behindLookup fun hreads hpassed ↦ absurd hpassed (hm hreads)⟩

/-- A symbol of which nothing is read that has no value: it is no instance, and has one. -/
def Symbol.Settled (symbol : Symbol) : Prop :=
  (symbol.isValue → symbol.initialized) ∧ ∀ structName given,
    symbol.kind ≠ .structInstance structName given

theorem Symbol.Settled.of_struct {members : List TypedName} (h : symbol.kind = .struct members) :
    symbol.Settled :=
  ⟨fun hvalue ↦ by simp [Symbol.isValue, h] at hvalue, fun _ _ hkind ↦ by simp [h] at hkind⟩

theorem Symbol.Settled.of_functionInfo? {info : FunctionInfo} (h : symbol.functionInfo? = some info) :
    symbol.Settled := by
  have hkind : symbol.kind = .function info := by
    unfold Symbol.functionInfo? at h
    split at h
    next hkind => rw [hkind, Option.some.inj h]
    next => cases h
  exact ⟨fun hvalue ↦ by simp [Symbol.isValue, hkind] at hvalue, fun _ _ h ↦ by simp [hkind] at h⟩

theorem Symbol.Settled.of_scalar (hscalar : symbol.isScalar) (h : symbol.initialized) :
    symbol.Settled :=
  ⟨fun _ ↦ h, fun _ _ hkind ↦ by simp [Symbol.isScalar, hkind] at hscalar⟩

theorem Moment.ReadsUnset.not_settled (h : m.ReadsUnset i stop w) :
    ∃ symbol, m.Finds i symbol ∧ ¬ symbol.Settled := by
  have hname {symbol : Symbol} (h : m.UnsetName i symbol) :
      ∃ symbol, m.Finds i symbol ∧ ¬ symbol.Settled :=
    ⟨symbol, h.toFinds, fun hset ↦ by simpa [h.unset] using hset.1 h.value⟩
  have hmember {symbol : Symbol} {member : String} (h : m.UnsetMember i symbol member) :
      ∃ symbol, m.Finds i symbol ∧ ¬ symbol.Settled := by
    obtain ⟨structName, given, _, hkind, -⟩ := h.unset
    exact ⟨symbol, h.toFinds, fun hset ↦ hset.2 structName given hkind⟩
  cases h with
  | name h => exact hname h
  | member h => exact hmember h
  | compound h => exact hname h
  | compoundMember h => exact hmember h

/-- The symbol that is read is the one that was looked up. -/
theorem Moment.Finds.found_eq {name : String} (h : (⟨c, s, some name⟩ : Moment).Finds i symbol) :
    s.arena.lookup c.scope name = some symbol := by
  have hname : name = (c.tokenAt i).lexeme := Option.some.inj h.looked
  exact hname ▸ h.found

/-- A lookup after which the run goes on only if the symbol is settled. -/
theorem Course.Taken.lookupSettled {f : Option Symbol → Check α}
    (h : accounted.Taken (f (s.arena.lookup c.scope name)) c s)
    (hsettled : ∀ symbol, s.arena.lookup c.scope name = some symbol → symbol.Settled ∨
      (¬ (f (some symbol)).Succeeds c s ∧ ((f (some symbol)).leaves c s).position = s.position)) :
    accounted.Taken (Check.resolve name >>= f) c s := by
  refine .lookup h fun {i stop w} hreads ↦ ?_
  obtain ⟨symbol, hfinds, hnot⟩ := hreads.not_settled
  have hle : s.position ≤ stop := hreads.position_le
  rw [hfinds.found_eq]
  obtain hset | ⟨hfails, hstays⟩ := hsettled symbol hfinds.found_eq
  · exact absurd hset hnot
  · rintro (hsucceeds | hpassed)
    · exact hfails hsucceeds
    · omega

/-! ### Ends of expressions -/

theorem Context.extendsName_of_searchEnd {terminators : List Kind}
    (hterminators : ∀ k ∈ terminators, k.extendsName = false) {left depth k : Nat}
    (h : c.searchEnd terminators left i depth = .found k) : (c.kindAt k).extendsName = false := by
  fun_induction Context.searchEnd c terminators left i depth with
  | case1 => cases h
  | case2 left i depth kind hend =>
    have hends : kind.extendsName = false := by
      rcases hend with hend | hend <;> rw [hend] <;> rfl
    cases h
    exact hends
  | case3 _ _ _ _ _ _ ih => exact ih h
  | case4 left i kind _ _ hcloser =>
    have hends : kind.extendsName = false := by
      cases hk : kind <;> rw [hk] at hcloser <;> first | rfl | cases hcloser
    cases h
    exact hends
  | case5 _ _ _ _ _ _ _ _ ih => exact ih h
  | case6 left i depth kind _ _ _ hmem => cases h; exact hterminators _ hmem.2
  | case7 _ _ _ _ _ _ _ _ ih => exact ih h

theorem ensures_expressionEnd_extendsName {terminators : List Kind}
    (hterminators : ∀ k ∈ terminators, k.extendsName = false) :
    Ensures (expressionEnd terminators) c s (fun _ ↦ True) fun stop after ↦
      after = s ∧ (c.kindAt stop).extendsName = false := by
  simp only [expressionEnd, ensures_bind, ensures_read, ensures_here]
  cases hsearch : c.searchEnd terminators c.limits.scan s.position 0 with
  | found stop => exact ⟨rfl, Context.extendsName_of_searchEnd hterminators hsearch⟩
  | ended => trivial
  | exhausted => trivial

/-! ### Chains -/

theorem Operator.attaches_of_ofKind? {k : Kind} {op : Operator} (h : Operator.ofKind? k = some op) :
    k.attaches = false := by
  cases k <;> first | rfl | cases h

theorem ensures_operator?_detached (hc : c.Closed) (stop floor : Nat) :
    Ensures (operator? stop floor) c s (fun _ ↦ True) fun found after ↦
      found.isSome → c.Detached after.position := by
  simp only [operator?, ensures_bind, ensures_peek, hc.kind_tokenAt]
  split
  · intro hsome
    cases hsome
  next op hop =>
    have hne : c.kindAt s.position ≠ .eof := fun heof ↦ by rw [heof] at hop; cases hop
    have hbehind : c.Detached (c.after s.position) :=
      detached_after rfl hne (Operator.attaches_of_ofKind? hop)
    simp only [ensures_ite, ensures_bind, ensures_discard, ensures_advance, ensures_here,
      ensures_violateAt, ensures_peek, ensures_violate, ensures_pure]
    exact ⟨fun _ ↦ by simp, fun _ ↦ ⟨fun _ ↦ trivial, fun _ ↦ ⟨fun _ ↦ trivial, fun _ _ ↦ hbehind⟩⟩⟩

theorem Course.Takes.chainRound (hc : c.Closed) {rightSide : Nat → Check DataType}
    (hright : ∀ floor s, c.Detached s.position → accounted.Taken (rightSide floor) c s)
    (stop floor : Nat) (left : DataType) :
    accounted.Takes (Check.chainRound rightSide stop floor left) c := by
  intro s
  refine .next (operator? stop floor s) (ensures_operator?_detached hc stop floor)
    fun found after hdetached ↦ ?_
  cases found with
  | none => exact pure _ after
  | some found =>
    exact (hright _ after (hdetached rfl)).bind fun _ later _ ↦
      ((apply _ _ _ _).bind fun _ ↦ pure _) later

section

variable {operand : Nat → Check DataType} (hoperand : AccountingOperands c operand)

include hoperand

theorem Course.Taken.chain (hc : c.Closed) (hstop : (c.kindAt stop).extendsName = false)
    (levels floor : Nat) (hs : c.Detached s.position) :
    accounted.Taken (Check.chain operand stop levels floor) c s := by
  induction levels generalizing s floor with
  | zero =>
    exact (hoperand.accounts stop hstop s hs).bind fun _ after _ ↦
      Takes.roundsWhile (Takes.here.bind fun _ ↦ .pure _) (fun _ ↦
        .chainRound hc (fun _ ↦ hoperand.accounts stop hstop) stop floor _) after
  | succ levels ih =>
    exact (hoperand.accounts stop hstop s hs).bind fun _ after _ ↦
      Takes.roundsWhile (Takes.here.bind fun _ ↦ .pure _) (fun _ ↦
        .chainRound hc (fun floor _ hs ↦ ih floor hs) stop floor _) after

theorem Course.Taken.expressionWith (hc : c.Closed) (hstop : (c.kindAt stop).extendsName = false)
    (hs : c.Detached s.position) :
    accounted.Taken (Check.expressionWith operand stop) c s := by
  refine .bind (Takes.here s) fun i after hhere ↦ ?_
  cases hhere
  refine .ite (fun _ ↦ .bind (Takes.violate _ s) fun _ _ hrun ↦ by cases hrun) fun _ ↦ ?_
  refine (chain hoperand hc hstop _ 0 hs).bind fun type later _ ↦ ?_
  refine (Takes.here.bind fun _ ↦ .ite (.bind .peek fun t ↦ ?_) (.pure type)) later
  exact .ite ((Takes.violate _).bind fun _ ↦ .pure type) ((Takes.violate _).bind fun _ ↦ .pure type)

/-! ### Indices -/

/-- An index, from its bracket on. -/
theorem Course.Taken.oneIndex (hc : c.Closed) (hopen : c.kindAt s.position = .leftBracket)
    (size : Dimension) : accounted.Taken (Check.oneIndex operand size) c s := by
  have hcloser : (c.kindAt s.position).closer? = some .rightBracket := by rw [hopen]; rfl
  refine .bind (Takes.here s) fun i after hhere ↦ ?_
  cases hhere
  refine .next (Takes.matchingClose _ s) (ensures_matchingClose hcloser) ?_
  rintro close s ⟨rfl, hclose, -⟩
  refine .next (Takes.advance.discard _) (ensures_skip hopen (by decide)) ?_
  rintro - _ rfl
  have hinside : c.Detached (s.movedTo (s.position + 1)).position := detached_succ (by rw [hopen]; rfl)
  have hexpression {u : State} (hu : c.Detached u.position) (index : Token) : accounted.Taken (do
      let found ← Check.expressionWith operand close
      if found ≠ .int then Check.violateAt (.indexType found) index
      Functor.discard Check.advance) c u :=
    (expressionWith hoperand hc (by rw [hclose]; rfl) hu).bind fun _ later _ ↦
      Takes.guard (.violateAt _ _) Takes.advance.discard later
  refine .bind (Takes.peek _) fun index after hpeek ↦ ?_
  cases hpeek
  refine .bind (Takes.here _) fun i after hhere ↦ ?_
  cases hhere
  refine .ite (fun _ ↦ ?_) fun _ ↦ hexpression hinside _
  refine .next (Takes.checkLiteralIndex _ size _) (ensures_checkLiteralIndex _ size) ?_
  rintro - _ rfl
  exact hexpression hinside _

theorem Course.Takes.indices (hc : c.Closed) (v : Violation) (t : Token) :
    ∀ sizes, accounted.Takes (Check.indices operand (Check.violateAt v t) sizes) c
  | [] => pure _
  | size :: sizes => by
    intro s
    refine .bind (next? .leftBracket s) fun opens after hnext ↦ ?_
    cases hnext
    refine .ite (fun hopen ↦ ?_) fun _ ↦ .bind (violateAt v t s) fun _ _ hrun ↦ by cases hrun
    exact (Taken.oneIndex hoperand hc (beq_iff_eq.1 hopen) size).bind fun _ later _ ↦
      indices hc v t sizes later

theorem Course.Takes.elementType (hc : c.Closed) (symbol : Symbol) (name : Token) :
    accounted.Takes (Check.elementType operand symbol name) c := by
  unfold Check.elementType
  split
  · exact violateAt _ _
  · exact (indices hoperand hc _ _ _).bind fun _ ↦ (next? .leftBracket).bind fun _ ↦
      guard (violateAt _ _) (pure _)

end

/-! ### Members -/

theorem ensures_member_found (symbol : Symbol) (t : Token) :
    Ensures (Check.member symbol t) c s (fun _ ↦ True) fun m after ↦ MemberFound c s symbol m after := by
  unfold Check.member
  split
  next structName given hkind =>
    simp only [ensures_bind, ensures_discard, ensures_expectMark, ensures_expect, ensures_resolve]
    refine ⟨fun hdot ↦ ⟨fun hname ↦ ?_, fun _ ↦ trivial⟩, fun _ ↦ trivial⟩
    have hfirst := Context.after_of_kindAt hdot (by decide)
    have hsecond := Context.after_of_kindAt hname (by decide)
    rw [State.position_movedTo, hfirst] at hname hsecond
    simp only [State.position_movedTo, State.movedTo_movedTo, hfirst, hsecond]
    split
    next members hstruct =>
      split
      next m hfound =>
        refine ⟨rfl, rfl, hdot, hname, rfl, structName, given, members, hkind, hstruct, ⟨m, ?_, ?_⟩, rfl⟩
        · exact List.mem_of_find?_eq_some hfound
        · simpa using List.find?_some hfound
      next => trivial
    next => trivial
  next => trivial

/-- A member that the struct of an instance has is found. -/
theorem succeeds_member {structName : String} {given : List String} {members : List TypedName}
    (hdot : c.kindAt s.position = .dot) (hname : c.kindAt (s.position + 1) = .identifier)
    (hkind : symbol.kind = .structInstance structName given)
    (hstruct : (s.arena.lookup c.scope structName).map Symbol.kind = some (.struct members))
    (hdeclared : ∃ declared ∈ members, declared.name = (c.tokenAt (s.position + 1)).lexeme)
    (t : Token) : (Check.member symbol t).Succeeds c s := by
  have hensures : Ensures (Check.member symbol t) c s (fun _ ↦ False) fun _ _ ↦ True := by
    have hfirst := Context.after_of_kindAt hdot (by decide)
    have hsecond := Context.after_of_kindAt hname (by decide)
    unfold Check.member
    simp only [hkind, ensures_bind, ensures_discard, ensures_expectMark, ensures_expect, ensures_resolve,
      State.position_movedTo, hfirst]
    refine ⟨fun _ ↦ ⟨fun _ ↦ ?_, absurd hname⟩, absurd hdot⟩
    have hthere : (members.find? fun m ↦ m.name == (c.tokenAt (s.position + 1)).lexeme).isSome := by
      simpa using hdeclared
    obtain ⟨declared, hfound⟩ := Option.isSome_iff_exists.1 hthere
    have hlookup : (((s.movedTo (s.position + 1)).movedTo (c.after (s.position + 1))).arena.lookup
        c.scope structName).map Symbol.kind = some (.struct members) := hstruct
    rw [hlookup]
    dsimp only
    rw [hfound]
    trivial
  unfold Ensures at hensures
  unfold Check.Succeeds
  split at hensures
  next a after hrun => exact ⟨a, congrArg Prod.fst hrun⟩
  next => exact hensures.elim

/-- The struct of an instance is looked up behind the member, and is no value. -/
theorem Course.Takes.member (symbol : Symbol) (t : Token) :
    accounted.Takes (Check.member symbol t) c := by
  unfold Check.member
  split
  next structName given _ =>
    refine (expectMark .dot).discard.bind fun _ ↦ (expect .identifier .memberName).bind fun name s ↦
      .lookupSettled ?_ fun symbol hfound ↦ ?_
    · split
      · split
        · exact pure _ s
        · exact violateAt _ _ s
      · exact violateAt _ _ s
    · simp only [Option.map_some]
      split
      next members hstruct =>
        exact .inl (.of_struct (Option.some.inj hstruct))
      next => exact .inr ⟨Check.not_succeeds rfl, rfl⟩
  next => exact violateAt _ _

theorem position_leaves_expect_le {k : Kind} (hk : k ≠ .eof) (wanted : Wanted) :
    ((expect k wanted).leaves c s).position ≤ s.position + 1 := by
  unfold Check.leaves Check.runFrom
  rw [run_expect hk]
  split
  · exact Nat.le_refl _
  · exact Nat.le_succ _

/-- However the check of a member ends, it passes no more than the dot and the name. -/
theorem position_leaves_member_le (symbol : Symbol) (t : Token) :
    ((Check.member symbol t).leaves c s).position ≤ s.position + 2 := by
  unfold Check.member
  split
  next structName given _ =>
    have hdot := position_leaves_expect_le (c := c) (s := s) (k := .dot) (by decide) (.mark .dot)
    refine position_leaves_bind_le ?_ fun _ u hu ↦ position_leaves_bind_le ?_ fun name v hv ↦ ?_
    · rw [leaves_discard]
      exact Nat.le_succ_of_le hdot
    · obtain ⟨-, rfl⟩ := (ensures_skipMark (by decide)).of_run hu
      exact position_leaves_expect_le (by decide) _
    · obtain ⟨-, rfl⟩ := (ensures_skipMark (by decide)).of_run hu
      obtain ⟨-, -, rfl⟩ := (ensures_expect_passed (by decide) _).of_run hv
      refine position_leaves_bind_le (Nat.le_refl _) fun found w hw ↦ ?_
      cases hw
      split
      · split <;> exact Nat.le_refl _
      · exact Nat.le_refl _
  next => exact Nat.le_add_right _ _

/-! ### Targets -/

/-- What is said of a target that is read before it has a value. -/
def Target.warning (t : Target) : Warning :=
  ⟨t.name, t.token.position⟩

/-- The target that was read up to a state has no value, and the sign that follows reads it. -/
def Context.Owes (c : Context) (t : Target) (s : State) : Prop :=
  t.initialized = false ∧ (Operator.ofCompound? (c.kindAt s.position)).isSome

/-- What a target does behind its name. -/
def Check.targetRest (operand : Nat → Check DataType) (symbol : Symbol) (t : Token) :
    Check Target := do
  match ← peekKind with
  | .leftBracket =>
    return ⟨symbol.name, ← Check.elementType operand symbol t, .element, symbol.initialized, t⟩
  | .dot =>
    let m ← Check.member symbol t
    return ⟨symbol.name, m.type, .member m.name, m.initialized, t⟩
  | _ =>
    if symbol.isArray then violateAt (.arrayWithoutIndex symbol.name) t
    return ⟨symbol.name, symbol.type, .whole, symbol.initialized, t⟩

theorem target_eq (operand : Nat → Check DataType) : target operand = (do
    let t ← expect .identifier .name
    let symbol ← writable t
    targetRest operand symbol t) :=
  rfl

/-- The lookup of the name of a target, at an index, and what was read up to a state: it is read only
if the sign that follows reads it. -/
structure ReadBySign (c : Context) (m : Moment) (i : Nat) (t : Target) (u : State) : Prop where
  reads : ∀ {j stop w}, m.ReadsUnset j stop w →
    j = i ∧ w = t.warning ∧ stop = u.position + 1 ∧ c.Owes t u
  warrants : c.Detached i → c.Owes t u → m.Warrants i t.warning

section

variable {operand : Nat → Check DataType} {t : Token}

/-- The name of a target is read only if the sign behind the target reads it. -/
theorem ensures_targetRest (hname : c.kindAt i = .identifier) (hposition : s.position = i + 1)
    (hfound : s.arena.lookup c.scope (c.tokenAt i).lexeme = some symbol) (hvalue : symbol.isValue) :
    Ensures (targetRest operand symbol (c.tokenAt i)) c s (fun _ ↦ True) fun t u ↦
      ReadBySign c ⟨c, s, some (c.tokenAt i).lexeme⟩ i t u := by
  let m : Moment := ⟨c, s, some (c.tokenAt i).lexeme⟩
  have hfinds (hdetached : c.Detached i) : m.Finds i symbol := ⟨hname, hdetached, rfl, hfound⟩
  have hsame {j : Nat} {other : Symbol} (h : m.Finds j other) : other = symbol :=
    Option.some.inj (h.found_eq.symm.trans hfound)
  unfold targetRest
  simp only [ensures_bind, ensures_peekKind]
  split
  -- An element: no sign and no dot stands behind the name, so the name is not read here.
  next hbracket =>
    have harray : Ensures (elementType operand symbol (c.tokenAt i)) c s (fun _ ↦ True)
        fun _ _ ↦ symbol.isArray := by
      unfold elementType
      split
      · trivial
      next sizes hsizes =>
        exact (ensures_leaves _ c s).mono fun _ _ _ ↦ by simp [Symbol.isArray, hsizes]
    refine (ensures_bind _).2 (harray.mono fun type u harray ↦ ⟨fun hreads ↦ ?_, fun hdetached howes ↦ ?_⟩)
    · obtain ⟨-, hsign | hdot⟩ := hreads.of_behind hposition hname
      · rw [← hposition, hbracket] at hsign
        cases hsign
      · rw [← hposition, hbracket] at hdot
        cases hdot
    · exact .inr ⟨⟨symbol, hfinds hdetached, harray, howes.1, rfl⟩, hposition, hposition ▸ hbracket⟩
  -- A member: of the reads of the name only that of a compound target goes on with a dot and is a target.
  next hdot =>
    refine (ensures_bind _).2 ((ensures_member_found symbol _).mono fun member u hmember ↦ ?_)
    obtain ⟨structName, given, members, hkind, hstruct, hdeclared, hgiven⟩ := hmember.declared
    have hposition' : u.position = i + 3 := by rw [hmember.position, hposition]
    have hdot' : c.kindAt (i + 1) = .dot := hposition ▸ hdot
    have hmemberKind : c.kindAt (i + 2) = .identifier := by rw [← hmember.kind, hposition]
    have hmemberName : member.name = (c.tokenAt (i + 2)).lexeme := by rw [hmember.name, hposition]
    refine ⟨fun hreads ↦ ?_, fun hdetached howes ↦ ?_⟩
    · obtain ⟨rfl, -⟩ := hreads.of_behind hposition hname
      cases hreads with
      | name _ hat => exact absurd (hat.symm.trans hposition) (Nat.ne_add_one _)
      | member _ hat => exact absurd (hat.symm.trans hposition) (Nat.ne_add_one _)
      | compound _ _ hsign => rw [hdot'] at hsign; cases hsign
      | @compoundMember other named hunset _ hsign =>
        obtain rfl := hsame hunset.toFinds
        obtain ⟨structName', given', members', hkind', -, -, hunset'⟩ := hunset.unset
        obtain ⟨-, rfl⟩ := SymbolKind.structInstance.inj (hkind'.symm.trans hkind)
        have hnamed : named = member.name := hunset.named.symm.trans hmemberName.symm
        exact ⟨rfl, rfl, by rw [hposition'], hgiven.symm.trans (hnamed ▸ hunset'), hposition' ▸ hsign⟩
    · have hunset : m.UnsetMember i symbol member.name :=
        ⟨hfinds hdetached, hdot', hmemberKind, hmemberName.symm, structName, given, members, hkind, hstruct,
          hdeclared, hgiven.trans howes.1⟩
      exact .inl ⟨i + 4, .compoundMember hunset hposition (hposition' ▸ howes.2)⟩
  -- The name alone.
  next hbracket hdot =>
    simp only [ensures_bind, ensures_ite, ensures_violateAt, ensures_pure]
    refine ⟨fun _ ↦ trivial, fun hsingle ↦ ⟨fun hreads ↦ ?_, fun hdetached howes ↦ ?_⟩⟩
    · obtain ⟨rfl, -⟩ := hreads.of_behind hposition hname
      cases hreads with
      | name _ hat => exact absurd (hat.symm.trans hposition) (Nat.ne_add_one _)
      | member _ hat => exact absurd (hat.symm.trans hposition) (Nat.ne_add_one _)
      | compound hunset _ hsign =>
        obtain rfl := hsame hunset.toFinds
        exact ⟨rfl, rfl, by rw [hposition], hunset.unset, hposition ▸ hsign⟩
      | compoundMember hunset => exact absurd (hposition ▸ hunset.dot) hdot
    · exact .inl ⟨i + 2, .compound ⟨hfinds hdetached, hvalue, by simpa using hsingle, howes.1⟩ hposition
        (hposition ▸ howes.2)⟩

/-- A target does not get past the sign that would read it. -/
theorem position_leaves_targetRest_le (hname : c.kindAt i = .identifier) (hposition : s.position = i + 1)
    (hreads : (⟨c, s, some name⟩ : Moment).ReadsUnset j stop w) :
    ((targetRest operand symbol t).leaves c s).position ≤ stop := by
  obtain ⟨rfl, hbehind⟩ := hreads.of_behind hposition hname
  have hle : s.position ≤ stop := hreads.position_le
  unfold targetRest
  rw [leaves_peekKind_bind]
  split
  next hbracket =>
    rw [← hposition, hbracket] at hbehind
    rcases hbehind with hsign | hdot
    · cases hsign
    · cases hdot
  next hdot =>
    have hstop : s.position + 2 ≤ stop := by
      rw [hposition] at hdot
      cases hreads with
      | name _ hat => exact absurd (hat.symm.trans hposition) (Nat.ne_add_one _)
      | member _ hat => exact absurd (hat.symm.trans hposition) (Nat.ne_add_one _)
      | compound _ _ hsign => rw [hdot] at hsign; cases hsign
      | compoundMember => omega
    have hmember := position_leaves_member_le (c := c) (s := s) symbol t
    refine Nat.le_trans (position_leaves_bind_le hmember fun m u hu ↦ ?_) hstop
    rw [show u = (Check.member symbol t).leaves c s from (congrArg Prod.snd hu).symm]
    exact hmember
  next =>
    split
    · exact hle
    · exact hle

theorem Course.Takes.targetRest (hoperand : AccountingOperands c operand) (hc : c.Closed)
    (symbol : Symbol) (t : Token) : accounted.Takes (Check.targetRest operand symbol t) c := by
  refine peekKind.bind fun after ↦ ?_
  split
  · exact (elementType hoperand hc symbol t).bind fun _ ↦ pure _
  · exact (member symbol t).bind fun _ ↦ pure _
  · exact guard (violateAt _ _) (pure _)

/-- The name of a target is looked up, and it is found that it may be written to or the run stops. -/
theorem run_writable (t : Token) (c : Context) (s : State) :
    (∃ symbol, s.arena.lookup c.scope t.lexeme = some symbol ∧ symbol.isValue ∧
      (writable t).run c s [] = ((.ok symbol, s), [⟨c, s, some t.lexeme⟩])) ∨
    ∃ e, (writable t).run c s [] = ((.error e, s), [⟨c, s, some t.lexeme⟩]) := by
  unfold writable
  rw [run_resolve_bind]
  cases hfound : s.arena.lookup c.scope t.lexeme with
  | none => exact .inr ⟨_, rfl⟩
  | some symbol =>
    by_cases hvalue : symbol.isValue
    · by_cases hconstant : symbol.isConstant
      · refine .inr ⟨⟨.constantReassignment symbol.name, t.position⟩, ?_⟩
        simp only [hvalue, hconstant]
        rfl
      · refine .inl ⟨symbol, rfl, hvalue, ?_⟩
        simp only [hvalue, hconstant]
        rfl
    · refine .inr ⟨⟨.notAVariable symbol.name, t.position⟩, ?_⟩
      simp only [hvalue]
      rfl

/-- The lookup of the name of a target that starts in a state. -/
def Context.targetLookup (c : Context) (s : State) : Moment :=
  ⟨c, s.movedTo (s.position + 1), some (c.tokenAt s.position).lexeme⟩

/-- What a run of a target that succeeds leaves: the name is passed and looked up behind it, and the rest
accounts for its warnings. -/
structure TargetRun (c : Context) (s : State) (past : List Moment) (t : Target) (u : State)
    (rest : List Moment) (reads : List (Nat × Warning)) : Prop where
  kind : c.kindAt s.position = .identifier
  moments : past = rest ++ [c.targetLookup s, ⟨c, s.movedTo (s.position + 1), none⟩]
  rest : Account [] (s.movedTo (s.position + 1)) rest u True reads
  read : ReadBySign c (c.targetLookup s) s.position t u

theorem target_cases (hoperand : AccountingOperands c operand) (hc : c.Closed) (s : State) :
    (∃ t u rest reads, (target operand).runFrom c s = (.ok t, u) ∧
      TargetRun c s ((target operand).momentsFrom c s) t u rest reads) ∨
    (¬ (target operand).Succeeds c s ∧ accounted.Taken (target operand) c s) := by
  let token := c.tokenAt s.position
  let named := s.movedTo (s.position + 1)
  let m : Moment := c.targetLookup s
  -- The three parts of a target may each fail: the name, its declaration and what stands behind it.
  by_cases hname : c.kindAt s.position = .identifier
  case neg =>
    have hexpect : (expect .identifier .name).runFrom c s = (.error (c.expected s.position .name), s) := by
      unfold Check.runFrom
      rw [run_expect (by decide), if_neg hname]
    refine .inr ⟨?_, .bind (Takes.expect _ _ s) fun _ _ hrun ↦ by cases hexpect.symm.trans hrun⟩
    rw [target_eq, Check.succeeds_bind, hexpect]
    exact not_false
  have hexpect : (expect .identifier .name).run c s [] = ((.ok token, named), [⟨c, named, none⟩]) := by
    rw [run_expect (by decide), if_pos hname]
  have hrunExpect : (expect .identifier .name).runFrom c s = (.ok token, named) :=
    congrArg Prod.fst hexpect
  have hmomentsExpect : (expect .identifier .name).momentsFrom c s = [⟨c, named, none⟩] :=
    congrArg Prod.snd hexpect
  have hpassed : Account [] s [⟨c, named, none⟩] named True [] := .passing c s
  unfold Course.Taken
  rw [target_eq, Check.runFrom_bind, Check.momentsFrom_bind, Check.leaves_bind, Check.succeeds_bind,
    hrunExpect, hmomentsExpect]
  dsimp only
  rcases run_writable token c named with ⟨symbol, hfound, hvalue, hwritable⟩ | ⟨e, hwritable⟩
  case inr =>
    have hrun : (writable token).runFrom c named = (.error e, named) := congrArg Prod.fst hwritable
    have hmoments : (writable token).momentsFrom c named = [m] := congrArg Prod.snd hwritable
    rw [Check.runFrom_bind, Check.momentsFrom_bind, Check.leaves_bind, Check.succeeds_bind, hrun, hmoments]
    refine .inr ⟨not_false, [], hpassed.append ((Account.nil named False).behindLookup ?_)⟩
    rintro j stop w hreads (hfalse | hlt)
    · exact hfalse.elim
    · exact absurd hlt (Nat.not_lt.2 hreads.position_le)
  have hrun : (writable token).runFrom c named = (.ok symbol, named) := congrArg Prod.fst hwritable
  have hmoments : (writable token).momentsFrom c named = [m] := congrArg Prod.snd hwritable
  rw [Check.runFrom_bind, Check.momentsFrom_bind, Check.leaves_bind, Check.succeeds_bind, hrun, hmoments]
  dsimp only
  obtain ⟨reads, haccount⟩ := Takes.targetRest hoperand hc symbol token named
  have hle {j stop : Nat} {w : Warning} (hreads : m.ReadsUnset j stop w) :
      ((targetRest operand symbol token).leaves c named).position ≤ stop :=
    position_leaves_targetRest_le hname rfl hreads
  unfold Check.leaves at haccount hle ⊢
  unfold Check.Succeeds at haccount ⊢
  cases hrest : (targetRest operand symbol token).runFrom c named with
  | mk result u =>
    rw [hrest] at haccount hle
    cases result with
    | ok t =>
      rw [eq_true (⟨t, rfl⟩ : ∃ a, (Except.ok t : Except SemanticError Target) = .ok a)] at haccount
      refine .inl ⟨t, u, _, reads, rfl, hname, List.append_assoc _ _ _, haccount, ?_⟩
      exact (ensures_targetRest hname rfl hfound hvalue).of_run hrest
    | error e =>
      have hfails : ¬ ∃ a, (Except.error e : Except SemanticError Target) = .ok a := by simp
      -- A read ends behind what failed, so the check did not get past it.
      have hlater := haccount.behindLookup (m := m) fun {j stop w} hreads hpast ↦ by
        rcases hpast with hended | hlt
        · exact absurd hended hfails
        · exact absurd hlt (Nat.not_lt.2 (hle hreads))
      exact .inr ⟨hfails, _, hpassed.append hlater⟩

/-- A target that is counted is not read, whatever follows it. -/
theorem Course.Taken.countedTarget (hoperand : AccountingOperands c operand) (hc : c.Closed)
    (hcounted : ¬ c.Detached s.position) : accounted.Taken (target operand) c s := by
  rcases target_cases hoperand hc s with ⟨t, u, rest, reads, hrun, h⟩ | ⟨-, htaken⟩
  · have hlater := h.rest.behindLookup (m := c.targetLookup s) fun {j stop w} hreads _ ↦ by
      obtain ⟨rfl, -⟩ := h.read.reads hreads
      exact absurd hreads.detached hcounted
    unfold Course.Taken Check.leaves Check.Succeeds
    rw [hrun, h.moments]
    refine ⟨[] ++ reads, ?_⟩
    rw [eq_true (⟨t, rfl⟩ : ∃ a, (Except.ok t : Except SemanticError Target) = .ok a),
      List.append_cons]
    exact (Account.passing c s).append hlater
  · exact htaken

/-- What comes behind a target accounts for its own warnings, and for that of the target if the sign
reads it. -/
structure Pays (c : Context) (t : Target) (u : State) (past : List Moment) (v : State) (ended : Prop)
    (paid : List Warning) (reads : List (Nat × Warning)) : Prop where
  account : Account paid u past v ended reads
  due : paid = [] ∨ (paid = [t.warning] ∧ c.Owes t u)
  owed : c.Owes t u → ended ∨ u.position + 1 < v.position → paid = [t.warning]

theorem Pays.joined {t : Target} {u v : State} {past rest later : List Moment} {ended : Prop}
    {paid : List Warning} {reads reads' : List (Nat × Warning)} (h : TargetRun c s past t u rest reads)
    (hs : c.Detached s.position) (h' : Pays c t u later v ended paid reads') :
    Account [] s (later ++ past) v ended (reads ++ (paid.map (s.position, ·) ++ reads')) := by
  have hanswers : Answers (c.targetLookup s) s.position u later v ended paid reads' := {
    account := h'.account
    single := by
      rcases h'.due with rfl | ⟨rfl, -⟩
      · exact Nat.zero_le _
      · exact Nat.le_refl _
    due := by
      rcases h'.due with rfl | ⟨rfl, howes⟩
      · exact fun w hw ↦ absurd hw List.not_mem_nil
      · exact List.forall_mem_singleton.2 (h.read.warrants hs howes)
    owed := fun hreads hend ↦ by
      obtain ⟨rfl, rfl, rfl, howes⟩ := h.read.reads hreads
      rw [h'.owed howes hend]
      exact ⟨rfl, List.mem_singleton.2 rfl⟩ }
  have hother : ∀ r ∈ [] ++ reads, r.1 ≠ s.position := fun r hr ↦
    Nat.ne_of_gt (h.rest.within r hr).1
  have hjoined := hanswers.joined ((Account.passing c s).append h.rest) (Nat.le_refl _) h.rest.le hother
  refine hjoined.of_mem fun m ↦ ?_
  simp only [h.moments, List.mem_append, List.mem_cons, List.not_mem_nil, or_false]
  tauto

end

end

end FrontEnd
