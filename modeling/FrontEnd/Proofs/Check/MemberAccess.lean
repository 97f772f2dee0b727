import FrontEnd.Proofs.Check.Coherence

/-!
# Members of instances

An instance of a struct keeps the name of its struct, and each access to a member looks this name up
again, from where the access stands.  The struct is global and the only one of its name, so what the
name stands for there is either that struct or a local name that hides it.  In the first case an
access, be it read or written, has the type of the member if the struct has one, and is refused if
not.  In the second case it is refused whatever the members are (`member_access_follows_struct`).

Nothing hides the struct where the instance is declared, but between there and the access a local name
may: that of a variable, or of the instance itself.
-/

namespace FrontEnd

open Check

/-- An access to a member of what a name stands for stands at an index. -/
structure Context.MemberAt (c : Context) (i : Nat) (name member : String) : Prop where
  kind : c.kindAt i = .identifier
  name : (c.tokenAt i).lexeme = name
  dot : c.kindAt (i + 1) = .dot
  memberKind : c.kindAt (i + 2) = .identifier
  member : (c.tokenAt (i + 2)).lexeme = member

/-- The checks that come to an access at an index, by the type they find: it is read as an operand of
an expression that goes on behind its name, or it is a target. -/
inductive Accesses (operand : Nat → Check DataType) (i : Nat) : Check DataType → Prop
  | read {stop : Nat} : i + 1 < stop → Accesses operand i (operandWith operand stop)
  | written : Accesses operand i (Target.type <$> target operand)

/-- The member of a name among those of a struct. -/
def memberOf? (members : List TypedName) (name : String) : Option TypedName :=
  members.find? fun m ↦ m.name == name

section

variable {c : Context} {s : State} {E : SemanticError → Prop} {symbol : Symbol} {token : Token}
  {structName name member : String} {given : List String} {operand : Nat → Check DataType}

/-! ### Runs -/

/-- What the name of the struct stands for decides what the member behind an instance comes to. -/
theorem ensures_member_of {Q : Member → State → Prop}
    (hkind : symbol.kind = .structInstance structName given) (hdot : c.kindAt s.position = .dot)
    (hname : c.kindAt (s.position + 1) = .identifier)
    (hmember : (c.tokenAt (s.position + 1)).lexeme = member)
    (hfound : ∀ members m, (s.arena.lookup c.scope structName).map Symbol.kind =
      some (.struct members) → memberOf? members member = some m →
        Q ⟨member, m.type, given.contains member⟩ (s.movedTo (s.position + 2)))
    (hmissing : ∀ members, (s.arena.lookup c.scope structName).map Symbol.kind =
      some (.struct members) → memberOf? members member = none →
        E ⟨.noSuchMember structName member, (c.tokenAt (s.position + 1)).position⟩)
    (hhidden : (∀ members, (s.arena.lookup c.scope structName).map Symbol.kind ≠
      some (.struct members)) → E ⟨.undefinedStruct structName, token.position⟩) :
    Ensures (Check.member symbol token) c s E Q := by
  subst hmember
  simp only [Check.member, hkind, ensures_bind, ensures_discard, ensures_expectMark, ensures_expect,
    hdot, Context.after_of_kindAt hdot (by simp), State.position_movedTo, hname,
    Context.after_of_kindAt hname (by simp), State.movedTo_movedTo, ne_eq, not_true_eq_false,
    forall_const, false_imp_iff, and_true, ensures_resolve]
  split
  next members hmembers =>
    split
    next m hm => exact hfound members m hmembers hm
    next hm => exact hmissing members hmembers hm
  next hother => exact hhidden hother

/-- A check that never stops at a violation runs to some result. -/
theorem Ensures.exists_ok {α : Type} {x : Check α} {Q : α → State → Prop}
    (h : Ensures x c s (fun _ ↦ False) Q) : ∃ a after, x.runFrom c s = (.ok a, after) ∧ Q a after := by
  unfold Ensures at h
  split at h
  next a after hrun => exact ⟨a, after, hrun, h⟩
  next => exact h.elim

/-- A check that never succeeds and can only stop at one violation does so. -/
theorem Ensures.refused {α : Type} {x : Check α} {e : SemanticError}
    (h : Ensures x c s (fun other ↦ other = e) fun _ _ ↦ False) : (x.runFrom c s).1 = .error e := by
  unfold Ensures at h
  split at h
  next => exact h.elim
  next hrun => rw [hrun, h]

/-- So it does for an access as a whole, read or written. -/
theorem Accesses.ensures {x : Check DataType} {Q : DataType → State → Prop}
    (hx : Accesses operand s.position x) (hat : c.MemberAt s.position name member)
    (hlookup : s.arena.lookup c.scope name = some symbol)
    (hkind : symbol.kind = .structInstance structName given)
    (hfound : ∀ members m, (s.arena.lookup c.scope structName).map Symbol.kind =
      some (.struct members) → memberOf? members member = some m →
        ∀ after, after.position = s.position + 3 → Q m.type after)
    (hmissing : ∀ members, (s.arena.lookup c.scope structName).map Symbol.kind =
      some (.struct members) → memberOf? members member = none →
        E ⟨.noSuchMember structName member, (c.tokenAt (s.position + 2)).position⟩)
    (hhidden : (∀ members, (s.arena.lookup c.scope structName).map Symbol.kind ≠
      some (.struct members)) →
        E ⟨.undefinedStruct structName, (c.tokenAt s.position).position⟩) :
    Ensures x c s E Q := by
  have hafter := Context.after_of_kindAt hat.kind (by simp)
  have htoken := Context.kind_tokenAt_of_kindAt hat.kind (by simp)
  -- both ways come to the member from the token behind the name
  have hgoes {R : Member → State → Prop}
      (hR : ∀ m : Member, (∀ after, after.position = s.position + 3 → Q m.type after) →
        R m (s.movedTo (s.position + 3))) :
      Ensures (Check.member symbol (c.tokenAt s.position)) c (s.movedTo (s.position + 1)) E R :=
    ensures_member_of hkind hat.dot hat.memberKind hat.member
      (fun members m hmembers hm ↦ hR _ (hfound members m hmembers hm)) hmissing hhidden
  cases hx with
  | @read stop hstop =>
    have hread : Ensures (nameOperand operand stop (c.tokenAt s.position)) c s E Q := by
      simp only [nameOperand, valueSymbol, nameType, warn, ensures_bind, ensures_here, ensures_ite,
        ensures_secondKind, ensures_pure, hat.dot, hat.name, hstop, ensures_resolve, hlookup, hkind,
        ensures_discard, ensures_advance, hafter]
      simp only [reduceCtorEq, false_imp_iff, true_and, not_true_eq_false, and_true, forall_const,
        not_false_eq_true]
      exact hgoes fun m hm ↦ ⟨fun _ ↦ hm _ rfl, fun _ ↦ hm _ rfl⟩
    simp only [operandWith, ensures_bind, ensures_here, ensures_ite, ensures_violate, ensures_peek,
      htoken]
    exact ⟨fun h ↦ by omega, fun _ ↦ hread⟩
  | written =>
    have hvalue : symbol.isValue = true := by simp [Symbol.isValue, hkind]
    have hconstant : symbol.isConstant = false := by simp [Symbol.isConstant, hkind]
    have hwritable : Ensures (writable (c.tokenAt s.position)) c (s.movedTo (s.position + 1)) E
        fun found after ↦ found = symbol ∧ after = s.movedTo (s.position + 1) := by
      have hthere : (s.movedTo (s.position + 1)).arena.lookup c.scope (c.tokenAt s.position).lexeme =
          some symbol := hat.name.symm ▸ hlookup
      simp only [writable, ensures_bind, ensures_resolve, hthere, hvalue, hconstant, Bool.not_true,
        Bool.false_eq_true, if_false, ensures_pure, and_self]
    simp only [target, ensures_map, ensures_bind, ensures_expect, hat.kind, hafter, ne_eq,
      not_true_eq_false, false_imp_iff, and_true, forall_const]
    refine hwritable.mono ?_
    rintro _ _ ⟨rfl, rfl⟩
    simp only [ensures_peekKind, State.position_movedTo, hat.dot, ensures_bind, ensures_pure]
    exact hgoes fun m hm ↦ hm _ rfl

end

/-! ### The struct of an instance -/

/-- The struct of a name is global, and no other struct has the name. -/
theorem SymbolTable.Coherent.exists_struct {t : SymbolTable} (ht : t.Coherent) {structName : String}
    {members : List TypedName} (h : t.HasStruct structName members) :
    ∃ struct, t.arena.lookup 0 structName = some struct ∧ struct.kind = .struct members ∧
      ∀ id found others, t.arena.lookup id structName = some found → found.kind = .struct others →
        found = struct := by
  obtain ⟨struct, hholds, rfl, hmembers⟩ := h
  have howner : t.arena.owner? 0 struct.name = some 0 := by
    obtain ⟨scope, hscope, hmem⟩ := hholds
    have hcontains : scope.contains struct.name = true :=
      List.any_eq_true.2 ⟨struct, hmem, beq_iff_eq.2 rfl⟩
    rw [Arena.owner?, show t.arena.scopes[0]? = some scope from hscope]
    exact if_pos hcontains
  have hkind : struct.kind = .struct members := by
    unfold Symbol.members? at hmembers
    split at hmembers
    next hkind => rw [hkind, Option.some.inj hmembers]
    next => cases hmembers
  refine ⟨struct, ht.distinct.lookup_eq howner hholds rfl, hkind, fun id found others hfound hothers ↦ ?_⟩
  obtain ⟨owner, hthere, hname⟩ := Arena.holds_of_lookup hfound
  obtain rfl := ht.global owner found hthere (by simp [Symbol.isValue, hothers])
  exact ht.distinct.eq_of_holds hholds hthere hname

/-- At every moment of the check of a scanned text the symbol table is coherent. -/
theorem coherent_of_mem_moments (limits : Limits) (wordLimit : Nat) (source : String) {m : Moment}
    (hm : m ∈ program.momentsFrom (.top limits (scan wordLimit source).tokens) .initial) :
    m.state.table.Coherent := by
  have htrace : TracedFrom .coherent program (.top limits (scan wordLimit source).tokens) .initial :=
    .program Rules.coherent_recordReturn (closed_scan limits wordLimit source)
      (worded_scan limits wordLimit source) orderly_initial
  refine (htrace.coherent ⟨orderly_initial.size_pos, .initial⟩).2 m.state (List.mem_cons_of_mem _ ?_)
  exact List.mem_map_of_mem (List.mem_reverse.2 hm)

/-- Member access follows the struct of the instance, as long as the name of the struct is not hidden.

Take any moment of the check of a scanned text and any name that stands there for an instance.  The
instance has the type of a struct, which is global.  An access to a member of it from there, read or
written, succeeds if and only if the name of the struct stands there for that struct and the struct has
the member; it then has the type of the member and ends behind it.  If a local name hides the struct,
the access is refused because the struct is not known, and if the struct has no such member, because of
that. -/
theorem member_access_follows_struct {limits : Limits} {wordLimit : Nat} {source : String} {m : Moment}
    (hm : m ∈ program.momentsFrom (.top limits (scan wordLimit source).tokens) .initial)
    {name structName : String} {symbol : Symbol} {given : List String}
    (hlookup : m.state.arena.lookup m.context.scope name = some symbol)
    (hkind : symbol.kind = .structInstance structName given) :
    ∃ struct members, m.state.arena.lookup 0 structName = some struct ∧
      struct.kind = .struct members ∧ symbol.type = .struct structName ∧
      ∀ (c : Context) (s : State) (member : String), c.scope = m.context.scope →
        s.arena = m.state.arena → c.MemberAt s.position name member →
        ∀ (operand : Nat → Check DataType) (x : Check DataType), Accesses operand s.position x →
          let visible := m.state.arena.lookup m.context.scope structName = some struct
          (∀ type, (∃ after, x.runFrom c s = (.ok type, after)) ↔
            visible ∧ (memberOf? members member).map TypedName.type = some type) ∧
          (∀ type after, x.runFrom c s = (.ok type, after) → after.position = s.position + 3) ∧
          (¬ visible → (x.runFrom c s).1 =
            .error ⟨.undefinedStruct structName, (c.tokenAt s.position).position⟩) ∧
          (visible → memberOf? members member = none → (x.runFrom c s).1 =
            .error ⟨.noSuchMember structName member, (c.tokenAt (s.position + 2)).position⟩) := by
  have hcoherent := coherent_of_mem_moments limits wordLimit source hm
  obtain ⟨owner, hholds, -⟩ := Arena.holds_of_lookup hlookup
  obtain ⟨htype, members, hstruct, -⟩ := (hcoherent.symbols owner symbol hholds).ofStruct _ _ hkind
  obtain ⟨struct, hglobal, hmembers, hunique⟩ := hcoherent.exists_struct hstruct
  refine ⟨struct, members, hglobal, hmembers, htype, ?_⟩
  intro c s member hscope harena hat operand x hx visible
  have hthere : s.arena.lookup c.scope name = some symbol := by rw [hscope, harena, hlookup]
  have hsame : s.arena.lookup c.scope structName =
      m.state.arena.lookup m.context.scope structName := by rw [hscope, harena]
  -- where the name of the struct stands for a struct, it is this one
  have hstructs : ∀ others, (s.arena.lookup c.scope structName).map Symbol.kind =
      some (.struct others) → visible ∧ others = members := by
    intro others hothers
    obtain ⟨found, hfound, hfoundKind⟩ := Option.map_eq_some_iff.1 hothers
    obtain rfl := hunique _ found others (hsame ▸ hfound) hfoundKind
    exact ⟨hsame.symm.trans hfound, SymbolKind.struct.inj (hfoundKind.symm.trans hmembers)⟩
  have hvisible (h : visible) :
      (s.arena.lookup c.scope structName).map Symbol.kind = some (.struct members) := by
    rw [hsame, h, Option.map_some, hmembers]
  have hoks : Ensures x c s (fun _ ↦ True) fun type after ↦
      (visible ∧ (memberOf? members member).map TypedName.type = some type) ∧
        after.position = s.position + 3 := by
    refine hx.ensures hat hthere hkind (fun others n hothers hn after hafter ↦ ?_)
      (fun _ _ _ ↦ trivial) fun _ ↦ trivial
    obtain ⟨hv, rfl⟩ := hstructs others hothers
    exact ⟨⟨hv, by rw [hn, Option.map_some]⟩, hafter⟩
  refine ⟨fun type ↦ ⟨?_, ?_⟩, fun type after hrun ↦ (hoks.of_run hrun).2, fun hhidden ↦ ?_,
    fun hv hnone ↦ ?_⟩
  · rintro ⟨after, hrun⟩
    exact (hoks.of_run hrun).1
  · rintro ⟨hv, htype⟩
    obtain ⟨n, hn, rfl⟩ := Option.map_eq_some_iff.1 htype
    have hrun : Ensures x c s (fun _ ↦ False) fun type _ ↦ type = n.type := by
      refine hx.ensures hat hthere hkind (fun others k hothers hk _ _ ↦ ?_)
        (fun others hothers hnone ↦ ?_) fun hhidden ↦ hhidden members (hvisible hv)
      all_goals obtain ⟨-, rfl⟩ := hstructs others hothers
      · rw [Option.some.inj (hk.symm.trans hn)]
      · cases hnone.symm.trans hn
    obtain ⟨_, after, hrun, rfl⟩ := hrun.exists_ok
    exact ⟨after, hrun⟩
  · refine Ensures.refused (hx.ensures hat hthere hkind (fun others _ hothers _ _ _ ↦ ?_)
      (fun others hothers _ ↦ ?_) fun _ ↦ rfl)
    all_goals exact absurd (hstructs others hothers).1 hhidden
  · refine Ensures.refused (hx.ensures hat hthere hkind (fun others n hothers hn _ _ ↦ ?_)
      (fun _ _ _ ↦ rfl) fun hhidden ↦ absurd (hvisible hv) (hhidden members))
    obtain ⟨-, rfl⟩ := hstructs others hothers
    cases hnone.symm.trans hn

/-- A program that gives a member of an instance a value where a variable hides its struct. -/
def hiddenStructProgram : String :=
  "strct S \x7b nt m; \x7d; mn() \x7b dfstrct S p; nt S; p.m = 1; end; \x7d"

theorem memberAt_hiddenStructProgram :
    (Context.top .default (scan 64 hiddenStructProgram).tokens).MemberAt 19 "p" "m" := by
  have hthere : let c := Context.top .default (scan 64 hiddenStructProgram).tokens
      c.kindAt 19 = .identifier ∧ (c.tokenAt 19).lexeme = "p" ∧ c.kindAt 20 = .dot ∧
        c.kindAt 21 = .identifier ∧ (c.tokenAt 21).lexeme = "m" := by decide +kernel
  obtain ⟨hkind, hname, hdot, hmemberKind, hmember⟩ := hthere
  exact ⟨hkind, hname, hdot, hmemberKind, hmember⟩

/-- Before the variable is declared the access would find the type of the member. -/
theorem member_access_follows_struct_hiddenStructProgram :
    let c := Context.top .default (scan 64 hiddenStructProgram).tokens
    ∃ m ∈ program.momentsFrom c .initial,
      (m.state.arena.lookup m.context.scope "p").map Symbol.kind = some (.structInstance "S" []) ∧
      ∃ after, (Target.type <$> target (operand 0)).runFrom { c with scope := m.context.scope }
        (m.state.movedTo 19) = (.ok .int, after) := by
  intro c
  have hmoment : ∃ m ∈ program.momentsFrom c .initial,
      (m.state.arena.lookup m.context.scope "p").map Symbol.kind = some (.structInstance "S" []) ∧
      m.state.arena.lookup m.context.scope "S" = m.state.arena.lookup 0 "S" ∧
      ((m.state.arena.lookup 0 "S").bind Symbol.members?).bind (fun members ↦
        (memberOf? members "m").map TypedName.type) = some .int := by decide +kernel
  obtain ⟨m, hm, hinstance, hvisible, hmember⟩ := hmoment
  refine ⟨m, hm, hinstance, ?_⟩
  obtain ⟨symbol, hlookup, hkind⟩ := Option.map_eq_some_iff.1 hinstance
  obtain ⟨struct, members, hglobal, hmembers, -, haccess⟩ :=
    member_access_follows_struct hm hlookup hkind
  have hat : Context.MemberAt { c with scope := m.context.scope } (m.state.movedTo 19).position
      "p" "m" := by
    obtain ⟨hkind, hname, hdot, hmemberKind, hmember⟩ := memberAt_hiddenStructProgram
    exact ⟨hkind, hname, hdot, hmemberKind, hmember⟩
  refine ((haccess { c with scope := m.context.scope } (m.state.movedTo 19) "m" rfl rfl hat (operand 0)
    _ .written).1 .int).2 ⟨hvisible.trans hglobal, ?_⟩
  rw [hglobal, Option.bind_some, Symbol.members?, hmembers, Option.bind_some] at hmember
  exact hmember

/-- Behind the declaration of the variable the access is refused, and the program with it, although the
instance is visible and its struct has the member. -/
theorem exists_access_refused :
    let tokens := (scan 64 hiddenStructProgram).tokens
    let c := Context.top .default tokens
    c.MemberAt 19 "p" "m" ∧
      (∃ m ∈ program.momentsFrom c .initial, m.state.position = 19 ∧
        (m.state.arena.lookup m.context.scope "p").map Symbol.kind = some (.structInstance "S" []) ∧
        ((m.state.arena.lookup 0 "S").bind Symbol.members?).bind (fun members ↦
          (memberOf? members "m").map TypedName.type) = some .int ∧
        ((Target.type <$> target (operand 0)).runFrom m.context m.state).1 =
          .error ⟨.undefinedStruct "S", ⟨1, 46⟩⟩) ∧
      (analyze .default tokens).error = some ⟨.undefinedStruct "S", ⟨1, 46⟩⟩ := by
  refine ⟨memberAt_hiddenStructProgram, ?_⟩
  decide +kernel

end FrontEnd
