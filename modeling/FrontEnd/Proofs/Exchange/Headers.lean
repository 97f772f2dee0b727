import FrontEnd.Proofs.Exchange.Declarations
import FrontEnd.Proofs.Exchange.Leaving

/-!
# Headers over a shared stretch

Over a passage of headers two runs stay related if the global scopes declare the same names alike, and
if both or none of them have recorded the entry point: `HeadersAlike apart`.  Names that are `apart` may
be declared by one of the runs only, as a function is that only one of them has come to yet.

A header is followed if it declares no name that is apart.  Its parameters are declared in the scope it
opens, which has an index of its own in each of the runs, so they are followed over a passage that knows
both indices (`Stretch.parameters`).
-/

namespace FrontEnd

open Check

/-- The same function, but for its scope and its body. -/
structure SameSignature (info info' : FunctionInfo) : Prop where
  returns : info'.returns = info.returns
  parameters : info'.parameters = info.parameters
  isEntryPoint : info'.isEntryPoint = info.isEntryPoint

/-- Scopes in which names that are not `apart` are declared alike. -/
def Scope.MirrorsBut (apart : String → Prop) (a b : Scope) : Prop :=
  ∀ name, ¬ apart name → Option.Rel (Symbol.Mirrors fun _ ↦ False) (a.find? name) (b.find? name)

/-- What relates two runs over a passage of headers. -/
structure HeadersAlike (apart : String → Prop) (s u : State) : Prop where
  global : ∃ a b, s.arena.scope? 0 = some a ∧ u.arena.scope? 0 = some b ∧ a.MirrorsBut apart b
  entryPoint : (u.functions.lookup entryPointName).isSome = (s.functions.lookup entryPointName).isSome

/-- What relates two runs over a passage of parameters, which they declare in scopes of their own. -/
structure ParametersAlike (apart : String → Prop) (scope scope' : Nat) (s u : State) : Prop where
  headers : HeadersAlike apart s u
  inner : ∃ a b, s.arena.scope? scope = some a ∧ u.arena.scope? scope' = some b ∧
    a.Mirrors (fun _ ↦ False) b

namespace Stretch

/-- A stretch of headers. -/
def headers (S : Stretch) (apart : String → Prop) : Passage where
  toStretch := S
  Related _ s _ u := HeadersAlike apart s u
  moved _ _ h := ⟨h.global, h.entryPoint⟩
  Excused _ := False

/-- A stretch of parameters. -/
def parameters (S : Stretch) (apart : String → Prop) (scope scope' : Nat) : Passage where
  toStretch := S
  Related _ s _ u := ParametersAlike apart scope scope' s u
  moved _ _ h := ⟨⟨h.headers.global, h.headers.entryPoint⟩, h.inner⟩
  Excused _ := False

end Stretch

variable {S : Stretch} {apart : String → Prop} {scope scope' : Nat} {c d : Context} {s u : State}

namespace Scope.MirrorsBut

variable {a b : Scope} {x y : Symbol} {name : String}

theorem contains_eq (h : a.MirrorsBut apart b) (hname : ¬ apart name) :
    b.contains name = a.contains name := by
  rw [← isSome_find?, ← isSome_find?]
  have hfound := h name hname
  generalize a.find? name = found, b.find? name = found' at hfound
  cases hfound <;> rfl

theorem add (h : a.MirrorsBut apart b) (hsymbol : x.Mirrors (fun _ ↦ False) y) :
    (a.add x).MirrorsBut apart (b.add y) :=
  fun name hname ↦ rel_find?_add (h name hname) hsymbol

end Scope.MirrorsBut

namespace HeadersAlike

theorem declaredHere_eq (h : HeadersAlike apart s u) {name : String} (hname : ¬ apart name) :
    u.arena.declaredHere 0 name = s.arena.declaredHere 0 name := by
  obtain ⟨a, b, ha, hb, hmirrors⟩ := h.global
  unfold Arena.declaredHere
  rw [ha, hb]
  exact hmirrors.contains_eq hname

theorem live (h : HeadersAlike apart s u) : 0 < s.arena.size ∧ 0 < u.arena.size := by
  obtain ⟨a, b, ha, hb, -⟩ := h.global
  exact ⟨Arena.scope?_isSome_iff.1 (ha ▸ rfl), Arena.scope?_isSome_iff.1 (hb ▸ rfl)⟩

/-- What one run declares in the global scope, the other can declare too. -/
theorem insert (h : HeadersAlike apart s u) {x y : Symbol} (hsymbol : x.Mirrors (fun _ ↦ False) y)
    (hname : ¬ apart x.name) {arena : Arena} (hinsert : s.arena.insert 0 x = some arena) :
    ∃ arena', u.arena.insert 0 y = some arena' ∧
      HeadersAlike apart { s with arena := arena } { u with arena := arena' } := by
  obtain ⟨a, b, ha, hb, hmirrors⟩ := h.global
  obtain ⟨_, ha', hfree, hadded, -⟩ := Arena.insert_eq_some hinsert
  cases ha.symm.trans ha'
  have hfree' : b.contains y.name = false := by
    rw [hsymbol.name, hmirrors.contains_eq hname, hfree]
  obtain ⟨arena', hinsert'⟩ := Option.ne_none_iff_exists'.1 (Arena.insert_isSome hb hfree')
  obtain ⟨_, hb', -, hadded', -⟩ := Arena.insert_eq_some hinsert'
  cases hb.symm.trans hb'
  exact ⟨arena', hinsert', ⟨_, _, hadded, hadded', hmirrors.add hsymbol⟩, h.entryPoint⟩

/-- Both runs open a scope for a function. -/
theorem opened (h : HeadersAlike apart s u) (label label' : String) :
    ParametersAlike apart s.arena.size u.arena.size { s with arena := s.arena.push 0 label }
      { u with arena := u.arena.push 0 label' } := by
  obtain ⟨hlive, hlive'⟩ := h.live
  obtain ⟨a, b, ha, hb, hmirrors⟩ := h.global
  refine ⟨⟨⟨a, b, ?_, ?_, hmirrors⟩, h.entryPoint⟩, ⟨_, _, Array.getElem?_push_size,
    Array.getElem?_push_size, .empty _ _ _ _⟩⟩
  · exact (Arena.scope?_push_of_lt hlive 0 label).trans ha
  · exact (Arena.scope?_push_of_lt hlive' 0 label').trans hb

/-- Both runs have recorded a function. -/
theorem recorded (h : HeadersAlike apart s u) (name : String) (id id' : Nat)
    (headers headers' : List (Nat × String)) :
    HeadersAlike apart { s with functions := (name, id) :: s.functions, headers := headers }
      { u with functions := (name, id') :: u.functions, headers := headers' } := by
  refine ⟨h.global, ?_⟩
  show (List.lookup entryPointName ((name, id') :: u.functions)).isSome =
    (List.lookup entryPointName ((name, id) :: s.functions)).isSome
  rw [List.lookup_cons, List.lookup_cons]
  split
  · rfl
  · exact h.entryPoint

end HeadersAlike

/-- What one run declares in the scope of a function, the other can declare too. -/
theorem ParametersAlike.insert (hscope : scope ≠ 0) (hscope' : scope' ≠ 0)
    (h : ParametersAlike apart scope scope' s u) {x y : Symbol} (hsymbol : x.Mirrors (fun _ ↦ False) y)
    {arena : Arena} (hinsert : s.arena.insert scope x = some arena) :
    ∃ arena', u.arena.insert scope' y = some arena' ∧
      ParametersAlike apart scope scope' { s with arena := arena } { u with arena := arena' } := by
  obtain ⟨a, b, ha, hb, hmirrors⟩ := h.inner
  obtain ⟨_, ha', hfree, hadded, hothers⟩ := Arena.insert_eq_some hinsert
  cases ha.symm.trans ha'
  have hfree' : b.contains y.name = false := by
    rw [hsymbol.name, hmirrors.contains_eq, hfree]
  obtain ⟨arena', hinsert'⟩ := Option.ne_none_iff_exists'.1 (Arena.insert_isSome hb hfree')
  obtain ⟨_, hb', -, hadded', hothers'⟩ := Arena.insert_eq_some hinsert'
  cases hb.symm.trans hb'
  obtain ⟨global, global', hglobal, hglobal', hbut⟩ := h.headers.global
  exact ⟨arena', hinsert', ⟨⟨global, global', (hothers 0 hscope.symm).trans hglobal,
    (hothers' 0 hscope'.symm).trans hglobal', hbut⟩, h.headers.entryPoint⟩,
    ⟨_, _, hadded, hadded', hmirrors.add hsymbol⟩⟩

namespace Passage

/-! ### Parameters -/

namespace Follows

theorem typedName {P : Passage} (wantedType wantedName : Wanted) :
    P.Follows Eq (Check.typedName wantedType wantedName) (Check.typedName wantedType wantedName) :=
  (typeWord wantedType).next fun _ ↦ (expect .identifier wantedName).next fun _ ↦ same _

theorem insertSymbol (hscope : scope ≠ 0) (hscope' : scope' ≠ 0) {x y : Symbol}
    (hsymbol : x.Mirrors (fun _ ↦ False) y) :
    (S.parameters apart scope scope').Follows Eq (Check.insertSymbol scope x)
      (Check.insertSymbol scope' y) := by
  refine ⟨.of_forward (.insertSymbol scope x), fun {c s d u} h free t hrun _ ↦ ?_⟩
  have hinserted : Ensures (Check.insertSymbol scope x) c s (fun _ ↦ False) fun free after ↦
      (free = true ∧ ∃ arena, s.arena.insert scope x = some arena ∧ after = { s with arena := arena }) ∨
        (free = false ∧ s.arena.insert scope x = none ∧ after = s) :=
    ensures_insertSymbol.2 ⟨fun arena harena ↦ .inl ⟨rfl, arena, harena, rfl⟩,
      fun hnone ↦ .inr ⟨rfl, hnone, rfl⟩⟩
  obtain ⟨rfl, arena, harena, rfl⟩ | ⟨rfl, hnone, rfl⟩ := hinserted.of_run hrun
  · obtain ⟨arena', harena', hrelated⟩ :=
      ParametersAlike.insert hscope hscope' h.related hsymbol harena
    rw [ensures_insertSymbol, harena']
    refine ⟨?_, by simp⟩
    rintro _ ⟨⟩
    exact ⟨rfl, h.tokens, h.tokens', h.last, h.last', h.limits, h.place, hrelated⟩
  · rw [ensures_insertSymbol]
    refine ⟨fun arena' harena' ↦ ?_, fun _ ↦ ⟨rfl, h⟩⟩
    -- a name that is taken in the one scope is taken in the other
    obtain ⟨a, b, ha, hb, hmirrors⟩ := ParametersAlike.inner h.related
    obtain ⟨_, hb', hfree, -⟩ := Arena.insert_eq_some harena'
    cases hb.symm.trans hb'
    rw [hsymbol.name, hmirrors.contains_eq] at hfree
    exact absurd hnone (Arena.insert_isSome ha hfree)

theorem parameters (hscope : scope ≠ 0) (hscope' : scope' ≠ 0) :
    (S.parameters apart scope scope').Follows Eq (Check.parameters scope)
      (Check.parameters scope') := by
  refine (next? .rightParen).next fun _ ↦ ite Iff.rfl (same _) (rounds (fun _ ↦ rfl) ?_ rfl)
  rintro before _ rfl
  exact (typedName _ _).next fun p ↦ (insertSymbol hscope hscope' (.refl _ _)).next fun _ ↦
    otherwise id (quits_refuse _) <| (next? .comma).next fun _ ↦
      ite Iff.rfl (advance.discard.next fun _ ↦ pure (.yield rfl)) (pure (.done rfl))

end Follows

/-! ### Bodies and records -/

section

variable {P : Passage}

theorem Passes.bodyRange : P.Passes Check.bodyRange := by
  have hrest : P.Passes (do
      let opening ← Check.here
      let close ← Check.matchingClose opening
      Check.moveTo (close + 1)
      return (⟨opening + 1, close⟩ : BodyRange)) :=
    .brackets fun _ _ ↦ .of_forward (.pure _)
  exact .later (.of_forward (.next? _)) fun _ ↦ .ite hrest
    (.later (.of_forward (Forward.expect _ _).discard) fun _ ↦ hrest)

theorem FollowsOut.bodyRange : P.FollowsOut (fun _ _ ↦ True) Check.bodyRange Check.bodyRange := by
  have hpasses : P.Passes (do
      let opening ← Check.here
      let close ← Check.matchingClose opening
      Check.moveTo (close + 1)
      return (⟨opening + 1, close⟩ : BodyRange)) :=
    .brackets fun _ _ ↦ .of_forward (.pure _)
  have hrest : P.FollowsOut (fun _ _ ↦ True)
      (do
        let opening ← Check.here
        let close ← Check.matchingClose opening
        Check.moveTo (close + 1)
        return (⟨opening + 1, close⟩ : BodyRange))
      (do
        let opening ← Check.here
        let close ← Check.matchingClose opening
        Check.moveTo (close + 1)
        return (⟨opening + 1, close⟩ : BodyRange)) :=
    ⟨hpasses.forward, fun h ↦ .brackets h (Nat.le_refl _) (fun _ _ ↦ .of_forward (.pure _))
      fun _ _ h ↦ (FollowsOut.pure trivial).follows h⟩
  exact .later (.next? .leftBrace) (fun _ ↦ rfl) (fun _ ↦ .ite hpasses
    (.later (.of_forward (Forward.expect _ _).discard) fun _ ↦ hpasses)) (by
      rintro found _ rfl
      exact .ite Iff.rfl hrest (.later (Follows.expectMark .leftBrace).discard (fun _ ↦ rfl)
        (fun _ ↦ hpasses) fun _ _ _ ↦ hrest))

end

theorem FollowsOut.declareGlobal {x y : Symbol} (hsymbol : x.Mirrors (fun _ ↦ False) y)
    (hname : ¬ apart x.name) (name : Token) :
    (S.headers apart).FollowsOut Eq (Check.declareGlobal x name) (Check.declareGlobal y name) := by
  refine ⟨.of_forward (.declareGlobal x name), fun {c s d u} h _ t hrun _ ↦ ?_⟩
  have hdeclared : Ensures (Check.declareGlobal x name) c s (fun _ ↦ True) fun _ after ↦
      ∃ arena, s.arena.insert 0 x = some arena ∧ after = { s with arena := arena } := by
    simp only [Check.declareGlobal, ensures_bind, ensures_insertSymbol, ensures_ite, ensures_violateAt,
      ensures_pure]
    exact ⟨fun arena harena ↦ ⟨fun _ ↦ ⟨arena, harena, rfl⟩, fun _ ↦ trivial⟩, fun _ ↦ by simp⟩
  obtain ⟨arena, harena, rfl⟩ := hdeclared.of_run hrun
  obtain ⟨arena', harena', hrelated⟩ := HeadersAlike.insert h.related hsymbol hname harena
  simp only [Check.declareGlobal, ensures_bind, ensures_insertSymbol, ensures_ite, ensures_violateAt,
    ensures_pure, harena', Option.some.injEq]
  refine ⟨?_, by simp⟩
  rintro _ rfl
  exact ⟨fun _ ↦ ⟨trivial, h.tokens, h.tokens', h.last, h.last', h.limits, h.place, hrelated⟩, by simp⟩

theorem FollowsOut.recordFunction (keyword keyword' : Nat) {name : Token} (hname : ¬ apart name.lexeme)
    {info info' : FunctionInfo} (hinfo : SameSignature info info') :
    (S.headers apart).FollowsOut Eq (Check.recordFunction keyword name info)
      (Check.recordFunction keyword' name info') := by
  have hsymbol : (Symbol.ofFunction name.lexeme info name.position).Mirrors (fun _ ↦ False)
      (.ofFunction name.lexeme info' name.position) :=
    ⟨rfl, .function hinfo.returns hinfo.parameters hinfo.isEntryPoint, hinfo.returns, rfl, fun _ ↦ .inl⟩
  refine ⟨.of_forward (.recordFunction keyword name info), fun {c s d u} h b t hrun hstop ↦ ?_⟩
  rw [runFrom_recordFunction] at hrun
  rw [ensures_recordFunction_iff]
  have hbeside : (S.headers apart).Beside c { s with
      functions := (name.lexeme, info.scope) :: s.functions
      headers := (keyword, name.lexeme) :: s.headers } d { u with
      functions := (name.lexeme, info'.scope) :: u.functions
      headers := (keyword', name.lexeme) :: u.headers } :=
    ⟨h.tokens, h.tokens', h.last, h.last', h.limits, h.place, HeadersAlike.recorded h.related _ _ _ _ _⟩
  exact (declareGlobal hsymbol hname name).follows hbeside b t hrun hstop

/-! ### Functions -/

section

variable {parameters : Nat → Check (List TypedName)} (label : String)
  (hforward : ∀ scope, Forward (parameters scope)) (keyword keyword' : Nat) (name : Token)
  (info : Nat → List TypedName → BodyRange → FunctionInfo)

include hforward

theorem Passes.functionRest {P : Passage} : P.Passes (do
    let scope ← openFunctionScope label
    Functor.discard <| expectMark .leftParen
    let parameters ← parameters scope
    Functor.discard <| expectMark .rightParen
    let body ← Check.bodyRange
    Check.recordFunction keyword name (info scope parameters body)) := by
  have hmark (k : Kind) : P.GoesForward (Functor.discard (expectMark k)) :=
    .of_forward (Forward.expect _ _).discard
  exact .later (fun _ _ _ _ ↦ Nat.le_refl _) fun _ ↦ .later (hmark _) fun _ ↦
    .later (.of_forward (hforward _)) fun _ ↦ .later (hmark _) fun _ ↦ Passes.bodyRange.bind fun _ ↦
      .of_forward (.recordFunction _ _ _)

omit hforward in
/-- The parameters and the body of a function that are read in its scope. -/
def readInScope (parameters : Nat → Check (List TypedName)) (scope : Nat) :
    Check (List TypedName × BodyRange) := do
  Functor.discard <| expectMark .leftParen
  let parameters ← parameters scope
  Functor.discard <| expectMark .rightParen
  let body ← Check.bodyRange
  return (parameters, body)

theorem FollowsOut.readInScope {scope scope' : Nat} (hparameters :
    (S.parameters apart scope scope').Follows Eq (parameters scope) (parameters scope')) :
    (S.parameters apart scope scope').FollowsOut (fun a b ↦ b.1 = a.1)
      (Passage.readInScope parameters scope) (Passage.readInScope parameters scope') := by
  have hbody (ps : List TypedName) : (S.parameters apart scope scope').Passes
      (Check.bodyRange >>= fun body ↦ Pure.pure (ps, body)) :=
    Passes.bodyRange.bind fun _ ↦ .of_forward (.pure _)
  refine .later (Follows.expectMark .leftParen).discard (fun _ ↦ rfl) (fun _ ↦ ?_) fun _ _ _ ↦
    .later hparameters (fun _ ↦ rfl) (fun _ ↦ ?_) ?_
  · exact .later (.of_forward (hforward _)) fun _ ↦
      .later (.of_forward (Forward.expect _ _).discard) fun _ ↦ hbody _
  · exact .later (.of_forward (Forward.expect _ _).discard) fun _ ↦ hbody _
  · rintro ps _ rfl
    exact .later (Follows.expectMark .rightParen).discard (fun _ ↦ rfl) (fun _ ↦ hbody ps) fun _ _ _ ↦
      FollowsOut.bodyRange.bind (fun _ ↦ trivial) fun _ _ _ ↦ .pure rfl

/-- A function from the opening of its scope on. -/
theorem FollowsOut.functionRest (hname : ¬ apart name.lexeme)
    (hparameters : ∀ {scope scope'}, scope ≠ 0 → scope' ≠ 0 →
      (S.parameters apart scope scope').Follows Eq (parameters scope) (parameters scope'))
    (hinfo : ∀ scope scope' parameters body body',
      SameSignature (info scope parameters body) (info scope' parameters body')) :
    (S.headers apart).FollowsOut Eq
      (do
        let scope ← openFunctionScope label
        Functor.discard <| expectMark .leftParen
        let parameters ← parameters scope
        Functor.discard <| expectMark .rightParen
        let body ← Check.bodyRange
        Check.recordFunction keyword name (info scope parameters body))
      (do
        let scope ← openFunctionScope label
        Functor.discard <| expectMark .leftParen
        let parameters ← parameters scope
        Functor.discard <| expectMark .rightParen
        let body ← Check.bodyRange
        Check.recordFunction keyword' name (info scope parameters body)) := by
  -- what is read in the scope of the function is followed over a passage of parameters
  refine ⟨.of_forward (.functionRest label hforward keyword name info), fun {c s d u} h b t hrun hstop ↦ ?_⟩
  have hsplit (keyword : Nat) : (do
        let scope ← openFunctionScope label
        Functor.discard <| expectMark .leftParen
        let parameters ← parameters scope
        Functor.discard <| expectMark .rightParen
        let body ← Check.bodyRange
        Check.recordFunction keyword name (info scope parameters body)) =
      (do
        let scope ← openFunctionScope label
        let found ← Passage.readInScope parameters scope
        Check.recordFunction keyword name (info scope found.1 found.2)) := by
    simp only [Passage.readInScope, bind_assoc, pure_bind]
  rw [hsplit] at hrun ⊢
  obtain ⟨_, _, hopen, hrest⟩ := exists_run_bind hrun
  cases hopen
  obtain ⟨⟨ps, body⟩, after, hfirst, hsecond⟩ := exists_run_bind hrest
  obtain ⟨hlive, hlive'⟩ := HeadersAlike.live h.related
  have hopened : (S.parameters apart s.arena.size u.arena.size).Beside c
      { s with arena := s.arena.push 0 label } d { u with arena := u.arena.push 0 label } :=
    ⟨h.tokens, h.tokens', h.last, h.last', h.limits, h.place, HeadersAlike.opened h.related label label⟩
  have hle : after.position ≤ t.position :=
    Ensures.of_run (Forward.recordFunction keyword name _ c after) hsecond
  rw [ensures_bind, ensures_openFunctionScope, ensures_bind]
  have hread := hparameters (Nat.ne_of_gt hlive) (Nat.ne_of_gt hlive')
  refine ((FollowsOut.readInScope hforward hread).follows hopened _ after hfirst
    (Nat.le_trans hle hstop)).mono ?_
  rintro ⟨_, body'⟩ v ⟨rfl, hbeside⟩
  have hheaders : (S.headers apart).Beside c after d v :=
    ⟨hbeside.tokens, hbeside.tokens', hbeside.last, hbeside.last', hbeside.limits, hbeside.place,
      ParametersAlike.headers hbeside.related⟩
  exact (FollowsOut.recordFunction keyword keyword' hname (hinfo _ _ _ body body')).follows hheaders b t
    hsecond hstop

end

theorem Follows.requireFree (what : Redeclared) {name : Token} (hname : ¬ apart name.lexeme) :
    (S.headers apart).Follows Eq (Check.requireFree what name) (Check.requireFree what name) := by
  refine ⟨.of_forward (.requireFree what name), fun {c s d u} h _ t hrun _ ↦ ?_⟩
  have hfree : Ensures (Check.requireFree what name) c s (fun _ ↦ True) fun _ after ↦
      s.arena.declaredHere 0 name.lexeme = false ∧ after = s := by
    simp only [Check.requireFree, ensures_bind, ensures_get, ensures_ite, ensures_violateAt, ensures_pure]
    exact ⟨fun _ ↦ trivial, fun hfree ↦ ⟨Bool.eq_false_iff.2 hfree, trivial⟩⟩
  obtain ⟨hfree, rfl⟩ := hfree.of_run hrun
  simp only [Check.requireFree, ensures_bind, ensures_get, ensures_ite, ensures_violateAt, ensures_pure,
    HeadersAlike.declaredHere_eq h.related hname, hfree]
  exact ⟨fun hfalse ↦ absurd hfalse Bool.false_ne_true, fun _ ↦ ⟨trivial, h⟩⟩

theorem Follows.isRecorded : (S.headers apart).Follows Eq (Check.isRecorded entryPointName)
    (Check.isRecorded entryPointName) := by
  refine ⟨fun _ _ _ _ ↦ Nat.le_refl _, fun h _ _ hrun _ ↦ ?_⟩
  cases hrun
  exact ⟨(HeadersAlike.entryPoint h.related).symm, h⟩

theorem Passes.functionHeader {P : Passage} : P.Passes Check.functionHeader := by
  refine .later (fun _ _ _ _ ↦ Nat.le_refl _) fun _ ↦ .later (.of_forward Forward.advance.discard)
    fun _ ↦ .later (.of_forward .advance) fun t ↦ ?_
  split
  · exact .of_quits (quits_violateAt _ _)
  · exact .later (.of_forward (.expect _ _)) fun _ ↦ .later (.of_forward (.requireFree _ _)) fun _ ↦
      .functionRest _ .parameters _ _ _

/-- The header of a function is followed if its name is not apart. -/
theorem FollowsUpTo.functionHeader (h : (S.headers apart).Beside c s d u)
    (hname : ¬ apart (c.tokenAt (c.after (c.after s.position))).lexeme) :
    (S.headers apart).FollowsUpTo (S.stop + 1) Eq Check.functionHeader Check.functionHeader c s d u := by
  have hrest (keyword : Nat) (returns : DataType) (name : Token) := Passes.functionRest
    (P := S.headers apart) ("function " ++ name.lexeme) .parameters keyword name
      fun scope parameters body ↦ ⟨returns, parameters, scope, body, false, false⟩
  have hnamed (keyword : Nat) (returns : DataType) := Passes.later (P := S.headers apart)
    (.of_forward (.expect .identifier .functionName)) fun name : Token ↦
      Passes.later (.of_forward (.requireFree .function name)) fun _ ↦ hrest keyword returns name
  unfold Check.functionHeader
  refine .here (.later h Follows.advance.discard (fun _ ↦ .later (.of_forward .advance) fun t ↦ ?_)
    fun {_ _ first first'} hfirst _ hbeside ↦ .later hbeside Follows.advance (fun t ↦ ?_)
      fun {t _ second second'} hsecond ht hbeside ↦ ?_)
  · split
    · exact .of_quits (quits_violateAt _ _)
    · exact hnamed _ _
  · split
    · exact .of_quits (quits_violateAt _ _)
    · exact hnamed _ _
  -- The name stands two tokens behind the word, and is not one of the two that are apart.
  have hplace : second.position = c.after (c.after s.position) := by
    have hmoved : Ensures (Functor.discard Check.advance) c s (fun _ ↦ False) fun _ after ↦
        after = s.movedTo (c.after s.position) := ensures_discard.2 (ensures_advance.2 rfl)
    obtain rfl := hmoved.of_run hfirst
    rw [runFrom_advance] at hsecond
    cases hsecond
    rfl
  subst ht
  split
  · exact (FollowsOut.of_quits (quits_violateAt _ _)).follows hbeside
  next returns _ =>
    refine .later hbeside (.expect .identifier .functionName) (fun name ↦
      .later (.of_forward (.requireFree .function name)) fun _ ↦ hrest _ returns name)
        fun {name _ third third'} hthird hnames hbeside ↦ ?_
    subst hnames
    have hread : Ensures (Check.expect .identifier .functionName) c second (fun _ ↦ True)
        fun name _ ↦ name = c.tokenAt second.position :=
      ensures_expect.2 ⟨fun _ ↦ rfl, fun _ ↦ trivial⟩
    have hnot : ¬ apart name.lexeme := by
      rw [hread.of_run hthird, hplace]
      exact hname
    refine .later hbeside (.requireFree .function hnot) (fun _ ↦ hrest _ returns name)
      fun {_ _ fourth fourth'} _ _ hbeside ↦ ?_
    exact (FollowsOut.functionRest _ .parameters _ _ name
      (fun scope parameters body ↦ ⟨returns, parameters, scope, body, false, false⟩) hnot
        (fun hscope hscope' ↦ .parameters hscope hscope') fun _ _ _ _ _ ↦ ⟨rfl, rfl, rfl⟩).follows hbeside

/-! ### Rounds -/

theorem Follows.functionHeader :
    (S.headers fun _ ↦ False).Follows Eq Check.functionHeader Check.functionHeader :=
  ⟨Passes.functionHeader.forward, fun h ↦ (FollowsUpTo.functionHeader h id).from⟩

theorem Follows.entryPointHeader :
    (S.headers fun _ ↦ False).Follows Eq Check.entryPointHeader Check.entryPointHeader := by
  refine here fun keyword keyword' _ ↦ advance.next fun name ↦ isRecorded.next fun _ ↦
    guard id (quits_violateAt _ _) ?_
  have hrest : (S.headers fun _ ↦ False).Follows Eq _ _ :=
    (FollowsOut.functionRest "entry point mn" (fun _ ↦ .pure []) keyword keyword' name
      (fun scope parameters body ↦ ⟨.void, parameters, scope, body, false, true⟩) id
        (fun _ _ ↦ same _) fun _ _ _ _ _ ↦ ⟨rfl, rfl, rfl⟩).follows_within
  simpa only [pure_bind] using hrest

theorem Follows.structHeader :
    (S.headers fun _ ↦ False).Follows Eq Check.structHeader Check.structHeader := by
  refine advance.discard.next fun _ ↦ (expect .identifier .structName).next fun name ↦
    (requireFree .struct id).next fun _ ↦ (expectMark .leftBrace).discard.next fun _ ↦
      (roundsWhile (fun _ ↦ rfl) ((next? .rightBrace).next fun _ ↦ same _) ?_ rfl).next fun members ↦
        (expectMark .rightBrace).discard.next fun _ ↦ (expectMark .semicolon).discard.next fun _ ↦
          (FollowsOut.declareGlobal (.refl _ _) id name).follows_within
  rintro before _ rfl
  exact (typedName _ _).next fun m ↦ guard id (quits_refuse _) <|
    (expectMark .semicolon).discard.next fun _ ↦ pure (.yield rfl)

theorem Follows.moveOn {P : Passage} :
    P.Follows Eq (do Check.moveTo ((← Check.here) + 1)) (do Check.moveTo ((← Check.here) + 1)) := by
  refine ⟨fun _ _ _ _ ↦ Nat.le_succ _, fun h _ _ hrun _ ↦ ?_⟩
  cases hrun
  exact ⟨rfl, h.movedTo h.place.succ⟩

/-- Brackets are passed as a whole. -/
theorem Follows.brackets {P : Passage} {β : Type} {rel : β → β → Prop} {x y : Check β}
    (hx : P.Follows rel x y) : P.Follows rel
      (do
        Check.moveTo ((← Check.matchingClose (← Check.here)) + 1)
        x)
      (do
        Check.moveTo ((← Check.matchingClose (← Check.here)) + 1)
        y) :=
  ⟨(Passes.brackets fun _ _ ↦ hx.forward).forward, fun h ↦ .brackets h (Nat.le_succ _)
    (fun _ _ ↦ hx.forward) fun _ _ ↦ hx.follows⟩

theorem Follows.headerRound :
    (S.headers fun _ ↦ False).Follows Eq Check.headerRound Check.headerRound := by
  refine peekKind.next fun k ↦ ?_
  split
  · exact functionHeader
  · exact entryPointHeader
  · exact structHeader
  · simpa only [bind_pure_unit] using brackets (same ())
  · exact moveOn

end Passage

end FrontEnd
