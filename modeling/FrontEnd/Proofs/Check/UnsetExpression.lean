import FrontEnd.Proofs.Check.UnsetTarget

/-!
# Expressions account for their warnings

An operand that is a name looks it up, passes it and warns at once if it has no value; with a member
behind it the struct is looked up in between, which reads nothing.

The length of an array is taken of a name that is looked up once more before it is read as an argument.
This lookup is no read of its own: whatever comes of it, the operand looks the name up in the same state
(`Check.ComesTo`).

`accountingOperands_operand` is the induction on levels.
-/

namespace FrontEnd

open Check Course

section

variable {α : Type} {c : Context} {s : State} {i stop : Nat} {symbol : Symbol}
  {operand : Nat → Check DataType}

/-! ### Calls -/

theorem Course.Takes.callee (t : Token) : accounted.Takes (Check.callee t) c := by
  refine fun s ↦ .lookupSettled ?_ fun symbol hfound ↦ ?_
  · split
    · split
      · exact pure _ s
      · exact violateAt _ _ s
    · split
      · exact pure _ s
      · exact violateAt _ _ s
  · dsimp only
    split
    next info hinfo => exact .inl (.of_functionInfo? hinfo)
    next => exact .inr ⟨Check.not_succeeds rfl, rfl⟩

section

variable (hoperand : AccountingOperands c operand) (hc : c.Closed)

include hoperand hc

theorem Course.Taken.arguments {close : Nat} (hclose : (c.kindAt close).extendsName = false)
    (hs : c.Detached s.position) : accounted.Taken (Check.arguments operand close) c s := by
  refine .bind (Takes.here s) fun i after hhere ↦ ?_
  cases hhere
  refine .ite (fun _ ↦ Takes.pure _ _) fun _ ↦ ?_
  refine .roundsWhile (I := fun _ s ↦ c.Detached s.position) hs (.pure true) fun before u hu ↦
    (ensures_pure true).2 fun _ ↦ ⟨?_, ?_⟩
  · refine .bind (Takes.peek u) fun first after hpeek ↦ ?_
    cases hpeek
    refine .next (Takes.expressionEnd [.comma] u) (ensures_expressionEnd_extendsName (by decide)) ?_
    rintro stop u ⟨rfl, hstop⟩
    have hmin : (c.kindAt (min stop close)).extendsName = false := by
      rcases Nat.le_total stop close with hle | hle
      · rwa [Nat.min_eq_left hle]
      · rwa [Nat.min_eq_right hle]
    refine (expressionWith hoperand hc hmin hu).bind fun type later _ ↦ ?_
    exact (Takes.here.bind fun _ ↦ .ite (.pure _) <| (Takes.expect .comma _).discard.bind fun _ ↦
      .pure _) later
  · simp only [argumentRound, ensures_bind, ensures_peek]
    refine (ensures_leaves _ c u).mono fun stop v _ ↦ (ensures_leaves _ c v).mono fun type w _ ↦ ?_
    simp only [ensures_bind, ensures_here, ensures_ite, ensures_pure, ensures_discard, ensures_expect]
    refine ⟨fun _ _ hyield ↦ (by cases hyield), fun _ ↦ ⟨fun hcomma _ _ ↦ ?_, fun _ ↦ trivial⟩⟩
    exact detached_after hcomma (by decide) rfl

theorem Course.Taken.declaredCall {close : Nat} (hclose : (c.kindAt close).extendsName = false)
    (hs : c.Detached s.position) (info : FunctionInfo) (t : Token) :
    accounted.Taken (Check.declaredCall operand info t close) c s :=
  (arguments hoperand hc hclose hs).bind fun _ later _ ↦
    ((Takes.expectMark .rightParen).discard.bind fun _ ↦ (Takes.checkArity _ _ _ _).bind fun _ ↦
      (Takes.checkTypes _ _ _).bind fun _ ↦ .pure _) later

omit hc in
/-- Arguments that are but a name look it up, or stop before they pass it. -/
theorem Check.ComesTo.arguments (hname : c.kindAt s.position = .identifier) :
    (Check.arguments operand (s.position + 1)).ComesTo c s
      ⟨c, s, some (c.tokenAt s.position).lexeme⟩ := by
  have hexpression {stop : Nat} (hstop : stop ≤ s.position + 1) :
      (Check.expressionWith operand stop).ComesTo c s
        ⟨c, s, some (c.tokenAt s.position).lexeme⟩ := by
    refine .behind rfl fun i hrun ↦ ?_
    cases hrun
    split
    · exact .bind (.violate _) _
    next hlt =>
      obtain rfl : stop = s.position + 1 := by omega
      refine .bind ?_ _
      exact .bind (hoperand.looks s hname) _
  have hround (before : List Argument) :
      (argumentRound operand (s.position + 1) before).ComesTo c s
        ⟨c, s, some (c.tokenAt s.position).lexeme⟩ := by
    exact .behind rfl fun first hrun ↦ .behind (leaves_expressionEnd _ c s) fun stop _ ↦
      .bind (hexpression (Nat.min_le_right _ _)) _
  refine .behind rfl fun i hrun ↦ ?_
  cases hrun
  rw [if_neg (by omega)]
  refine .behind rfl fun d hrun ↦ ?_
  cases hrun
  unfold roundsFrom
  refine .behind rfl fun more hrun ↦ ?_
  cases hrun
  rw [if_pos rfl]
  cases c.limits.scan with
  | zero => exact .behind rfl fun _ _ ↦ .violate _
  | succ left => exact .bind (hround []) _

/-- The rest of a call of a built-in function, once it is known whether a whole array is its argument. -/
def Check.builtinRest (operand : Nat → Check DataType) (b : Builtin) (t : Token) (close : Nat)
    (whole : Bool) : Check DataType := do
  if (decide (b = .len) && whole) = true then
    Functor.discard Check.advance
    Functor.discard <| Check.expectMark .rightParen
  else
    let arguments ← Check.arguments operand close
    Functor.discard <| Check.expectMark .rightParen
    Check.checkArity t b.name b.arity arguments.length
    Check.checkTypes 1 arguments <| match b with
      | .len => [.string]
      | .scan => []
  return b.returns

theorem Course.Taken.builtinRest {close : Nat} (hclose : (c.kindAt close).extendsName = false)
    (hs : c.Detached s.position) (b : Builtin) (t : Token) (whole : Bool) :
    accounted.Taken (Check.builtinRest operand b t close whole) c s := by
  refine .ite (fun _ ↦ ?_) fun _ ↦ ?_
  · exact (Takes.advance.discard.bind fun _ ↦ (Takes.expectMark .rightParen).discard.bind fun _ ↦
      .pure _) s
  · exact (arguments hoperand hc hclose hs).bind fun _ later _ ↦
      ((Takes.expectMark .rightParen).discard.bind fun _ ↦ (Takes.checkArity _ _ _ _).bind fun _ ↦
        (Takes.checkTypes _ _ _).bind fun _ ↦ .pure _) later

/-- A name that is looked up for its length alone reads nothing if it is that of an array, and is looked
up again as an argument if it is not. -/
theorem Course.Taken.builtinCall {close : Nat} (hclose : c.kindAt close = .rightParen)
    (hs : c.Detached s.position) (b : Builtin) (t : Token) :
    accounted.Taken (Check.builtinCall operand b t close) c s := by
  have hends : (c.kindAt close).extendsName = false := by rw [hclose]; rfl
  have hcall : Check.builtinCall operand b t close =
      Check.wholeArray close >>= Check.builtinRest operand b t close := rfl
  let first := c.tokenAt s.position
  have hwhole : accounted.Taken ((if (decide (close = s.position + 1) &&
      first.kind = .identifier) = true then
        (do return (← Check.resolve first.lexeme).any Symbol.isArray) else pure false : Check Bool) >>=
      Check.builtinRest operand b t close) c s := by
    split
    case isFalse =>
      exact builtinRest hoperand hc hends hs b t false
    case isTrue hname =>
      obtain ⟨rfl, hkind⟩ : close = s.position + 1 ∧ first.kind = .identifier := by simpa using hname
      rw [hc.kind_tokenAt] at hkind
      rw [bind_assoc]
      simp only [pure_bind]
      obtain ⟨reads, h⟩ := builtinRest hoperand hc hends hs b t
        ((s.arena.lookup c.scope first.lexeme).any Symbol.isArray)
      refine .resolve ⟨reads, h.behindLookup fun {i stop w} hreads hpassed ↦ ?_⟩
      obtain ⟨rfl, hbehind⟩ := hreads.of_name hkind
      -- A name that is read is no array, so it is checked again as an argument, and warned of there.
      have hsingle : (s.arena.lookup c.scope first.lexeme).any Symbol.isArray = false := by
        cases hreads with
        | name hunset => simpa [hunset.found_eq] using hunset.single
        | member hunset => cases hclose.symm.trans hunset.dot
        | compound _ hat => exact absurd hat (Nat.ne_of_lt (Nat.lt_succ_self _))
        | compoundMember _ hat => exact absurd hat (Nat.ne_of_lt (Nat.lt_succ_self _))
      rw [hsingle] at h
      have hcomes : (Check.builtinRest operand b t (s.position + 1) false).ComesTo c s
          ⟨c, s, some first.lexeme⟩ := by
        unfold Check.builtinRest
        rw [Bool.and_false, if_neg Bool.false_ne_true]
        exact .bind (.arguments hoperand hkind) _
      rcases hcomes with hm | ⟨hfails, hstays⟩
      · exact h.answered _ hm hreads (hsingle ▸ hpassed)
      · have hle : s.position ≤ stop := hreads.position_le
        rw [hsingle] at hpassed
        rcases hpassed with hsucceeds | hpast
        · exact absurd hsucceeds hfails
        · omega
  rw [hcall]
  exact hwhole

theorem Course.Taken.call (hparen : c.kindAt (s.position + 1) = .leftParen) :
    accounted.Taken (Check.call operand) c s := by
  refine .next (Takes.expect .identifier .functionName s) (ensures_expect_passed (by decide) _) ?_
  rintro t _ ⟨hname, rfl, rfl⟩
  have hstill {u : State} : Ensures (callee (c.tokenAt s.position)) c u (fun _ ↦ True)
      fun _ after ↦ after = u := by
    simp only [callee, ensures_bind, ensures_resolve]
    split
    · split
      · exact rfl
      · trivial
    · split
      · exact rfl
      · trivial
  refine .next (Takes.callee _ _) hstill ?_
  rintro callee _ rfl
  refine .bind (Takes.here _) fun i after hhere ↦ ?_
  cases hhere
  have hcloser : (c.kindAt (s.movedTo (s.position + 1)).position).closer? = some .rightParen := by
    rw [State.position_movedTo, hparen]
    rfl
  refine .next (Takes.matchingClose _ _) (ensures_matchingClose hcloser) ?_
  rintro close _ ⟨rfl, hclose, -⟩
  refine .next (Takes.advance.discard _) (ensures_skip hparen (by decide)) ?_
  rintro - _ rfl
  have hinside : c.Detached (s.position + 1 + 1) := detached_succ (by rw [hparen]; rfl)
  have hends : (c.kindAt close).extendsName = false := by rw [hclose]; rfl
  cases callee with
  | declared info => exact declaredCall hoperand hc hends hinside info _
  | builtin b => exact builtinCall hoperand hc hclose hinside b _

end

/-! ### Names -/

/-- The token of a kind is passed. -/
theorem run_skip {k : Kind} (hat : c.kindAt s.position = k) (hk : k ≠ .eof) :
    (Functor.discard Check.advance).run c s [] =
      ((.ok (), s.movedTo (s.position + 1)), [⟨c, s.movedTo (s.position + 1), none⟩]) := by
  have hadvance : (Functor.discard Check.advance).run c s [] =
      (Functor.discard (if s.position < c.tokens.size then
        moveTo (s.position + 1) >>= fun _ ↦ pure (c.tokenAt s.position)
      else pure (c.tokenAt s.position))).run c s [] := rfl
  rw [hadvance, if_pos (Context.lt_size_of_ne_eof (hat ▸ hk))]
  rfl

/-- The name of an operand is looked up, and it is found that it stands for a value or the run stops. -/
theorem run_valueSymbol (t : Token) (c : Context) (s : State) :
    (∃ symbol, s.arena.lookup c.scope t.lexeme = some symbol ∧ symbol.isValue ∧
      (valueSymbol t).run c s [] = ((.ok symbol, s), [⟨c, s, some t.lexeme⟩])) ∨
    ∃ e, (valueSymbol t).run c s [] = ((.error e, s), [⟨c, s, some t.lexeme⟩]) := by
  unfold valueSymbol
  rw [run_resolve_bind]
  cases hfound : s.arena.lookup c.scope t.lexeme with
  | none =>
    dsimp only
    split
    · exact .inr ⟨_, rfl⟩
    · exact .inr ⟨_, rfl⟩
  | some symbol =>
    dsimp only
    split
    · exact .inr ⟨_, rfl⟩
    · exact .inr ⟨_, rfl⟩
    next hfunction hstruct =>
      refine .inl ⟨symbol, rfl, ?_, rfl⟩
      unfold Symbol.isValue
      split
      · rfl
      · rfl
      · rfl
      next hkind => exact absurd hkind (hfunction _)
      next hkind => exact absurd hkind (hstruct _)

/-- A check answers a lookup with a warning or without one. -/
def Check.Answering {β : Type} (m : Moment) (i : Nat) (x : Check β) (c : Context) (s : State) : Prop :=
  ∃ answer reads, Answers m i s (x.momentsFrom c s) (x.leaves c s) (x.Succeeds c s) answer reads

/-- The lookup of the name of an operand that starts in a state. -/
def Context.nameLookup (c : Context) (s : State) : Moment :=
  ⟨c, s, some (c.tokenAt s.position).lexeme⟩

/-- An operand that is a name accounts for its warnings if what comes behind the name answers its lookup. -/
theorem Course.Taken.name (hname : c.kindAt s.position = .identifier) {x : Symbol → Check DataType}
    (hx : ∀ symbol, s.arena.lookup c.scope (c.tokenAt s.position).lexeme = some symbol →
      symbol.isValue →
        (x symbol).Answering (c.nameLookup s) s.position c (s.movedTo (s.position + 1))) :
    accounted.Taken (do
      let symbol ← valueSymbol (c.tokenAt s.position)
      Functor.discard Check.advance
      x symbol) c s := by
  unfold Course.Taken
  -- If the name is not that of a value, the check does not get past it.
  rcases run_valueSymbol (c.tokenAt s.position) c s with ⟨symbol, hfound, hvalue, hrun⟩ | ⟨e, hrun⟩
  · have hskip := run_skip hname (by decide)
    obtain ⟨answer, reads, h⟩ := hx symbol hfound hvalue
    have hjoined := h.joined (.passing c s) (Nat.le_refl _) (Nat.lt_succ_self _) (by simp)
    rw [Check.momentsFrom_bind, Check.leaves_bind, Check.succeeds_bind, Check.runFrom, hrun,
      Check.momentsFrom, hrun]
    dsimp only
    rw [Check.momentsFrom_bind, Check.leaves_bind, Check.succeeds_bind, Check.runFrom, hskip,
      Check.momentsFrom, hskip]
    rw [← List.append_assoc] at hjoined
    exact ⟨_, hjoined⟩
  · rw [Check.momentsFrom_bind, Check.leaves_bind, Check.succeeds_bind, Check.runFrom, hrun,
      Check.momentsFrom, hrun]
    refine ⟨[], (Account.nil s False).behindLookup (m := c.nameLookup s) fun hreads hpassed ↦ ?_⟩
    rcases hpassed with hfalse | hlt
    · exact hfalse.elim
    · exact absurd hlt (Nat.not_lt.2 hreads.position_le)

theorem Check.Answering.of_unread {β : Type} {m : Moment} {x : Check β} (h : accounted.Taken x c s)
    (hm : ∀ {j stop w}, m.ReadsUnset j stop w → ¬ (x.Succeeds c s ∨ stop < (x.leaves c s).position)) :
    x.Answering m i c s := by
  obtain ⟨reads, h⟩ := h
  exact ⟨[], reads, .of_unread h hm⟩

/-- A member of an instance is warned of if it has no value, once it was found. -/
theorem Check.Answering.member (hname : c.kindAt s.position = .identifier)
    (hs : c.Detached s.position)
    (hfound : s.arena.lookup c.scope (c.tokenAt s.position).lexeme = some symbol)
    (hdot : c.kindAt (s.position + 1) = .dot) :
    Check.Answering (c.nameLookup s) s.position (do
      let m ← Check.member symbol (c.tokenAt s.position)
      unless m.initialized do Check.warn (symbol.name ++ "." ++ m.name) (c.tokenAt s.position)
      return m.type) c (s.movedTo (s.position + 1)) := by
  let named := s.movedTo (s.position + 1)
  let first := c.tokenAt s.position
  -- Of all reads of a name only that of a member has a dot behind it.
  have hreadsMember {j stop : Nat} {w : Warning} (hreads : (c.nameLookup s).ReadsUnset j stop w) :
      ∃ member, (c.nameLookup s).UnsetMember s.position symbol member := by
    obtain ⟨rfl, -⟩ := hreads.of_name hname
    cases hreads with
    | name _ _ hends =>
      have hends : (c.kindAt (s.position + 1)).extendsName = false := hends
      rw [hdot] at hends
      cases hends
    | @member other member hunset =>
      obtain rfl : other = symbol := Option.some.inj (hunset.found_eq.symm.trans hfound)
      exact ⟨member, hunset⟩
    | compound _ hat => exact absurd hat (Nat.ne_add_one _)
    | compoundMember _ hat => exact absurd hat (Nat.ne_add_one _)
  unfold Check.Answering
  rw [Check.momentsFrom_bind, Check.leaves_bind, Check.succeeds_bind]
  obtain ⟨reads, haccount⟩ := Takes.member (c := c) symbol first named
  unfold Check.leaves Check.Succeeds at haccount
  cases hrun : (Check.member symbol first).runFrom c named with
  | mk result after =>
    rw [hrun] at haccount
    cases result with
    | error e =>
      have hfails : ¬ ∃ a, (Except.error e : Except SemanticError Member) = .ok a := by simp
      rw [eq_false hfails] at haccount
      -- A member that is read would have been found.
      refine ⟨[], reads, .of_unread haccount fun hreads _ ↦ ?_⟩
      obtain ⟨member, hunset⟩ := hreadsMember hreads
      obtain ⟨structName, given, members, hkind, hstruct, ⟨declared, hdeclared, hsame⟩, -⟩ := hunset.unset
      have hsucceeds : (Check.member symbol first).Succeeds c named :=
        succeeds_member (s := named) hdot hunset.memberKind hkind hstruct
          ⟨declared, hdeclared, hsame.trans hunset.named.symm⟩ first
      unfold Check.Succeeds at hsucceeds
      rw [hrun] at hsucceeds
      exact hfails hsucceeds
    | ok m =>
      have hmember := (ensures_member_found symbol first).of_run hrun
      have hnone : reads = [] := by
        have hwarnings := haccount.warnings
        rw [hmember.warnings] at hwarnings
        simpa using hwarnings
      obtain ⟨structName, given, members, hkind, hstruct, hdeclared, hgiven⟩ := hmember.declared
      rw [hnone, eq_true (⟨m, rfl⟩ : ∃ a, (Except.ok m : Except SemanticError Member) = .ok a)]
        at haccount
      cases hset : m.initialized with
      | true =>
        have hsucceeds : (pure m.type : Check DataType).Succeeds c after = True := eq_true ⟨_, rfl⟩
        simp only [hset, if_true, hsucceeds]
        refine ⟨[], [], .of_unread haccount fun hreads _ ↦ ?_⟩
        obtain ⟨member, hunset⟩ := hreadsMember hreads
        obtain ⟨structName', given', members', hkind', -, -, hunset'⟩ := hunset.unset
        obtain ⟨-, rfl⟩ := SymbolKind.structInstance.inj (hkind'.symm.trans hkind)
        have hnamed : member = m.name := hunset.named.symm.trans hmember.name.symm
        rw [hnamed, hgiven, hset] at hunset'
        cases hunset'
      | false =>
        simp only [hset, Bool.false_eq_true, if_false]
        -- There is no value, and the check warns of the one read that there is.
        have hread : (c.nameLookup s).ReadsUnset s.position (s.position + 2)
            ⟨symbol.name ++ "." ++ m.name, first.position⟩ :=
          .member ⟨⟨hname, hs, rfl, hfound⟩, hdot, hmember.kind, hmember.name.symm, structName, given,
            members, hkind, hstruct, hdeclared, hgiven.trans hset⟩ rfl
        exact ⟨_, _, .of_read c haccount hread hname _⟩

/-- A name with nothing behind it is warned of if it has no value. -/
theorem Check.Answering.plain (hname : c.kindAt s.position = .identifier)
    (hs : c.Detached s.position)
    (hfound : s.arena.lookup c.scope (c.tokenAt s.position).lexeme = some symbol)
    (hvalue : symbol.isValue) (hends : (c.kindAt (s.position + 1)).extendsName = false) :
    Check.Answering (c.nameLookup s) s.position (do
      if symbol.isArray then
        Check.violateAt (.arrayWithoutIndex symbol.name) (c.tokenAt s.position)
      unless symbol.initialized do Check.warn symbol.name (c.tokenAt s.position)
      return symbol.type) c (s.movedTo (s.position + 1)) := by
  have hunsetName {j stop : Nat} {w : Warning} (hreads : (c.nameLookup s).ReadsUnset j stop w) :
      (c.nameLookup s).UnsetName s.position symbol := by
    obtain ⟨rfl, -⟩ := hreads.of_name hname
    cases hreads with
    | @name other hunset =>
      obtain rfl : other = symbol := Option.some.inj (hunset.found_eq.symm.trans hfound)
      exact hunset
    | member hunset =>
      have hdot : c.kindAt (s.position + 1) = .dot := hunset.dot
      rw [hdot] at hends
      cases hends
    | compound _ hat => exact absurd hat (Nat.ne_add_one _)
    | compoundMember _ hat => exact absurd hat (Nat.ne_add_one _)
  cases harray : symbol.isArray with
  | true =>
    simp only [if_true]
    refine .of_unread (.bind (Takes.violateAt _ _ _) fun _ _ hrun ↦ by cases hrun) fun hreads _ ↦ ?_
    have hunset := hunsetName hreads
    cases harray.symm.trans hunset.single
  | false =>
    cases hset : symbol.initialized with
    | true =>
      refine .of_unread (.of_still rfl rfl) fun hreads _ ↦ ?_
      have hunset := hunsetName hreads
      cases hset.symm.trans hunset.unset
    | false =>
      have hread : (c.nameLookup s).ReadsUnset s.position s.position
          ⟨symbol.name, (c.tokenAt s.position).position⟩ :=
        .name ⟨⟨hname, hs, rfl, hfound⟩, hvalue, harray, hset⟩ rfl hends
      exact ⟨_, _, .of_read c (.nil _ True) hread hname _⟩

section

variable (hoperand : AccountingOperands c operand) (hc : c.Closed)

include hoperand hc

/-- What comes behind a name that is an operand answers its lookup. -/
theorem Check.Answering.nameType {after : Kind} (hname : c.kindAt s.position = .identifier)
    (hs : c.Detached s.position)
    (hfound : s.arena.lookup c.scope (c.tokenAt s.position).lexeme = some symbol)
    (hvalue : symbol.isValue) (hparen : after ≠ .leftParen)
    (hafter : c.kindAt (s.position + 1) = after ∨
      (after = .eof ∧ (c.kindAt (s.position + 1)).extendsName = false)) :
    Check.Answering (c.nameLookup s) s.position
      (Check.nameType operand symbol (c.tokenAt s.position) after) c (s.movedTo (s.position + 1)) := by
  have hbehind : after ≠ .eof → c.kindAt (s.position + 1) = after := fun hne ↦
    hafter.resolve_right fun h ↦ hne h.1
  -- What goes on with the name other than by a dot is no read of it.
  have hunread {β : Type} {x : Check β} (hx : accounted.Takes x c) (hdot : after ≠ .dot)
      (hextends : after.extendsName = true) :
      x.Answering (c.nameLookup s) s.position c (s.movedTo (s.position + 1)) := by
    have hat := hbehind (by rintro rfl; cases hextends)
    refine .of_unread (hx _) fun hreads _ ↦ ?_
    obtain ⟨rfl, hnext⟩ := hreads.of_name hname
    have hnext : c.kindAt (s.position + 1) = .dot ∨ (c.kindAt (s.position + 1)).extendsName = false :=
      hnext
    rw [hat, hextends] at hnext
    exact hnext.elim hdot (by simp)
  have hcounts : accounted.Takes (do
      if symbol.isConstant then
        Check.violateAt (.constantReassignment symbol.name) (c.tokenAt s.position)
      if symbol.isArray || symbol.type ≠ .int then
        Check.violateAt (.countRequiresInt symbol.type) (c.tokenAt s.position)
      Functor.discard Check.advance
      return .int : Check DataType) c :=
    .guard (.violateAt _ _) <| .guard (.violateAt _ _) <| Takes.advance.discard.bind fun _ ↦ .pure _
  unfold Check.nameType
  split
  · exact hunread (.elementType hoperand hc symbol _) (by decide) rfl
  · exact .member hname hs hfound (hbehind (by decide))
  · exact hunread hcounts (by decide) rfl
  · exact hunread hcounts (by decide) rfl
  next hbracket hdot hincrement hdecrement =>
    refine .plain hname hs hfound hvalue ?_
    rcases hafter with hat | ⟨-, hends⟩
    · rw [hat]
      simpa [Kind.extendsName] using And.intro hparen ⟨hbracket, hdot, hincrement, hdecrement⟩
    · exact hends

theorem Course.Taken.nameOperand (hstop : (c.kindAt stop).extendsName = false)
    (hlt : s.position < stop) (hname : c.kindAt s.position = .identifier)
    (hs : c.Detached s.position) :
    accounted.Taken (Check.nameOperand operand stop (c.tokenAt s.position)) c s := by
  have hrest (after : Kind) (hafter : c.kindAt (s.position + 1) = after ∨
      (after = .eof ∧ (c.kindAt (s.position + 1)).extendsName = false)) : accounted.Taken (do
        if after = .leftParen then
          let type ← Check.call operand
          if type = .void then Check.violateAt (.voidInExpression (c.tokenAt s.position).lexeme) (c.tokenAt s.position)
          return type
        else
          let symbol ← Check.valueSymbol (c.tokenAt s.position)
          Functor.discard Check.advance
          Check.nameType operand symbol (c.tokenAt s.position) after) c s := by
    refine .ite (fun hparen ↦ ?_) fun hparen ↦ ?_
    · have hat : c.kindAt (s.position + 1) = .leftParen := by
        rcases hafter with hat | ⟨heof, -⟩
        · rw [hat, hparen]
        · cases hparen.symm.trans heof
      exact (call hoperand hc hat).bind fun _ later _ ↦ Takes.guard (.violateAt _ _) (.pure _) later
    · exact name hname fun symbol hfound hvalue ↦
        .nameType hoperand hc hname hs hfound hvalue hparen hafter
  refine .bind (Takes.here s) fun i after hhere ↦ ?_
  cases hhere
  refine .ite (fun hlt ↦ ?_) fun hge ↦ ?_
  · refine .bind (Takes.secondKind s) fun k after hsecond ↦ ?_
    cases hsecond
    exact hrest _ (.inl rfl)
  · refine .bind (Takes.pure Kind.eof s) fun k after hpure ↦ ?_
    cases hpure
    obtain rfl : stop = s.position + 1 := by omega
    exact hrest _ (.inr ⟨rfl, hstop⟩)

end

/-! ### Operands -/

/-- An operand that is but a name looks it up. -/
theorem Check.ComesTo.operandWith (hc : c.Closed) (hname : c.kindAt s.position = .identifier) :
    (Check.operandWith operand (s.position + 1)).ComesTo c s (c.nameLookup s) := by
  have hsymbol : (Check.valueSymbol (c.tokenAt s.position)).ComesTo c s (c.nameLookup s) := by
    have hmoments : (Check.valueSymbol (c.tokenAt s.position)).momentsFrom c s = [c.nameLookup s] := by
      unfold Check.momentsFrom
      rcases run_valueSymbol (c.tokenAt s.position) c s with ⟨_, -, -, hrun⟩ | ⟨_, hrun⟩ <;>
        exact congrArg Prod.snd hrun
    exact .inl (hmoments ▸ List.mem_singleton.2 rfl)
  have hkind : (c.tokenAt s.position).kind = .identifier := (hc.kind_tokenAt _).trans hname
  refine .behind rfl fun i hhere ↦ ?_
  cases hhere
  rw [if_neg (Nat.not_le.2 (Nat.lt_succ_self _))]
  refine .behind rfl fun t hpeek ↦ ?_
  cases hpeek
  simp only [hkind, DataType.ofLiteral?]
  refine .behind rfl fun i hhere ↦ ?_
  cases hhere
  rw [if_neg (Nat.lt_irrefl _)]
  refine .behind rfl fun after hafter ↦ ?_
  cases hafter
  exact .bind hsymbol _

section

variable (hoperand : AccountingOperands c operand) (hc : c.Closed)

include hoperand hc

theorem Course.Taken.parenthesised (hopen : c.kindAt s.position = .leftParen) :
    accounted.Taken (Check.parenthesised operand stop) c s := by
  have hcloser : (c.kindAt s.position).closer? = some .rightParen := by rw [hopen]; rfl
  refine .bind (Takes.here s) fun i after hhere ↦ ?_
  cases hhere
  refine .next (Takes.matchingClose _ s) (ensures_matchingClose hcloser) ?_
  rintro close s ⟨rfl, hclose, -⟩
  refine .ite (fun _ ↦ .bind (Takes.violate _ s) fun _ _ hrun ↦ by cases hrun) fun _ ↦ ?_
  refine .next (Takes.advance.discard s) (ensures_skip hopen (by decide)) ?_
  rintro - _ rfl
  have hinside : c.Detached (s.position + 1) := detached_succ (by rw [hopen]; rfl)
  exact (expressionWith hoperand hc (by rw [hclose]; rfl) hinside).bind fun _ later _ ↦
    (Takes.advance.discard.bind fun _ ↦ .pure _) later

theorem Course.Taken.operandWith (hstop : (c.kindAt stop).extendsName = false)
    (hs : c.Detached s.position) : accounted.Taken (Check.operandWith operand stop) c s := by
  have hcounted (hat : (c.kindAt s.position).attaches = true) (hk : c.kindAt s.position ≠ .eof) :
      accounted.Taken (do
        Functor.discard Check.advance
        Check.requireInt (← Check.target operand)
        return .int : Check DataType) c s := by
    refine .next (Takes.advance.discard s) (ensures_skip rfl hk) ?_
    rintro - _ rfl
    -- A target behind a sign is counted, not read.
    have hattached : ¬ c.Detached (s.position + 1) := fun hdetached ↦ by
      cases hat.symm.trans (hdetached _ rfl)
    exact (countedTarget hoperand hc hattached).bind fun _ later _ ↦
      ((Takes.requireInt _).bind fun _ ↦ .pure _) later
  refine .bind (Takes.here s) fun i after hhere ↦ ?_
  cases hhere
  refine .ite (fun _ ↦ .bind (Takes.violate _ s) fun _ _ hrun ↦ by cases hrun) fun hlt ↦ ?_
  refine .bind (Takes.peek s) fun t after hpeek ↦ ?_
  cases hpeek
  split
  · exact (Takes.advance.discard.bind fun _ ↦ .pure _) s
  · split
    next hkind => exact parenthesised hoperand hc (hc.kind_tokenAt _ ▸ hkind)
    next hkind =>
      have hat : c.kindAt s.position = .negation := hc.kind_tokenAt _ ▸ hkind
      refine .next (Takes.advance.discard s) (ensures_skip hat (by decide)) ?_
      rintro - _ rfl
      have hbehind : c.Detached (s.position + 1) := detached_succ (by rw [hat]; rfl)
      exact (hoperand.accounts stop hstop _ hbehind).bind fun _ later _ ↦
        Takes.guard (.violateAt _ _) (.pure _) later
    next hkind =>
      have hat : c.kindAt s.position = .increment := hc.kind_tokenAt _ ▸ hkind
      exact hcounted (by rw [hat]; rfl) (by rw [hat]; decide)
    next hkind =>
      have hat : c.kindAt s.position = .decrement := hc.kind_tokenAt _ ▸ hkind
      exact hcounted (by rw [hat]; rfl) (by rw [hat]; decide)
    next hkind =>
      exact nameOperand hoperand hc hstop (Nat.not_le.1 hlt) (hc.kind_tokenAt _ ▸ hkind) hs
    next => exact Takes.violate _ s
    next => exact Takes.violate _ s
    next => exact Takes.violate _ s

end

/-- Operands account for their warnings, however many levels are left. -/
theorem accountingOperands_operand (hc : c.Closed) (levels : Nat) :
    AccountingOperands c (Check.operand levels) := by
  induction levels with
  | zero =>
    exact ⟨fun _ _ s _ ↦ Takes.tooDeep s, fun _ _ ↦ .behind rfl fun _ _ ↦ .violate _⟩
  | succ levels ih =>
    exact ⟨fun _ hstop _ hs ↦ .operandWith ih hc hstop hs, fun _ hname ↦ .operandWith hc hname⟩

theorem Course.Taken.expressionType (hc : c.Closed) (hstop : (c.kindAt stop).extendsName = false)
    (hs : c.Detached s.position) (levels : Nat) :
    accounted.Taken (Check.expressionType levels stop) c s :=
  expressionWith (accountingOperands_operand hc levels) hc hstop hs

theorem Course.Taken.valueType (hc : c.Closed) {terminators : List Kind}
    (hterminators : ∀ k ∈ terminators, k.extendsName = false) (hs : c.Detached s.position)
    (levels : Nat) : accounted.Taken (Check.valueType levels terminators) c s := by
  refine .next (Takes.expressionEnd terminators s) (ensures_expressionEnd_extendsName hterminators) ?_
  rintro stop _ ⟨rfl, hstop⟩
  exact expressionType hc hstop hs levels

end

end FrontEnd
