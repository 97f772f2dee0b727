import FrontEnd.Proofs.Exchange.Bodies
import FrontEnd.Proofs.Exchange.Crossing

/-!
# The bodies of neighbours that change places

A function that is checked declares nothing in the global scope, but what is there may be given a value
(`AtFunction.later_lookup`).  So the second function is met without the values that the first one gave,
and it may stop where such a value is asked for; the first one is met with values it does not need.
Behind both the global scopes are alike again.

Hence the order of two neighbours matters for the sizes and the elements of arrays only
(`verdict_exchange`).
-/

namespace FrontEnd

open Check

/-- The global variable of a name was given a value from one state to another. -/
def GaveValue (s t : State) (name : String) : Prop :=
  ∃ a b, s.arena.lookup 0 name = some a ∧ t.arena.lookup 0 name = some b ∧
    a.initialized = false ∧ b.initialized

/-- The names of the global scopes stand for symbols that are declared alike. -/
def GlobalsMirror (late : String → Prop) (s u : State) : Prop :=
  ∀ name, Option.Rel (Symbol.Mirrors late) (s.arena.lookup 0 name) (u.arena.lookup 0 name)

/-- The names of the global scope stand for what they stood for. -/
def GlobalsLater (s t : State) : Prop :=
  ∀ name, Option.Rel Symbol.Later (s.arena.lookup 0 name) (t.arena.lookup 0 name)

section

variable {late : String → Prop} {c d : Context} {f f' s t u v : State} {p q r k l : Nat} {name : Token}
  {info : FunctionInfo}

/-! ### Symbols that got values -/

theorem Symbol.Later.isScalar_eq {a b : Symbol} (h : a.Later b) : b.isScalar = a.isScalar := by
  obtain ⟨-, hkind, -, -, harray, -⟩ := h
  unfold Symbol.isScalar Symbol.isArray
  rw [harray]
  generalize a.kind = j at hkind ⊢
  generalize b.kind = l at hkind ⊢
  cases hkind <;> rfl

namespace Symbol.Mirrors

variable {a a' b b' : Symbol}

theorem kind_left (h : a.kind.Mirrors b.kind) (ha : a.Later a') : a'.kind.Mirrors b.kind := by
  have hlater := ha.kind
  generalize a.kind = j, a'.kind = k, b.kind = l at h hlater
  cases hlater <;> cases h
  · exact .var
  · exact .const
  · exact .function ‹_› ‹_› ‹_›
  · exact .struct _
  · exact .structInstance _ _ _

theorem kind_right (h : a.kind.Mirrors b.kind) (hb : b.Later b') : a.kind.Mirrors b'.kind := by
  have hlater := hb.kind
  generalize a.kind = j, b.kind = k, b'.kind = l at h hlater
  cases hlater <;> cases h
  · exact .var
  · exact .const
  · exact .function ‹_› ‹_› ‹_›
  · exact .struct _
  · exact .structInstance _ _ _

/-- A value given in the first run only makes its name late. -/
theorem left (h : a.Mirrors (fun _ ↦ False) b) (ha : a.Later a')
    (hlate : a.initialized = false → a'.initialized → late a.name) : a'.Mirrors late b := by
  refine ⟨h.name.trans ha.name.symm, kind_left h.kind ha, h.type.trans ha.type.symm,
    h.array.trans ha.array.symm, fun hscalar hvalue ↦ ?_⟩
  cases hbefore : a.initialized with
  | false => exact .inr (ha.name ▸ hlate hbefore hvalue)
  | true =>
    rw [ha.isScalar_eq] at hscalar
    exact .inl ((h.initialized hscalar hbefore).resolve_right id)

/-- A value given in the second run changes nothing. -/
theorem right (h : a.Mirrors late b) (hb : b.Later b') : a.Mirrors late b' :=
  ⟨hb.name.trans h.name, kind_right h.kind hb, hb.type.trans h.type, hb.array.trans h.array,
    fun hscalar hvalue ↦ (h.initialized hscalar hvalue).imp_left hb.initialized⟩

/-- A name is not late if it had its value in an earlier state that the second run is beside. -/
theorem meet (h : a'.Mirrors late b) (h' : a.Mirrors (fun _ ↦ False) b) (ha : a.Later a')
    (hlate : late a.name → a.initialized) : a'.Mirrors (fun _ ↦ False) b := by
  refine ⟨h.name, h.kind, h.type, h.array, fun hscalar hvalue ↦ .inl ?_⟩
  obtain hinitialized | hname := h.initialized hscalar hvalue
  · exact hinitialized
  · rw [ha.isScalar_eq] at hscalar
    exact (h'.initialized hscalar (hlate (ha.name ▸ hname))).resolve_right id

end Symbol.Mirrors

/-! ### Global scopes -/

theorem rowMirrors_zero_iff (hs : 0 < s.arena.size) (hu : 0 < u.arena.size) :
    RowMirrors late (s.arena.around 0) (u.arena.around 0) ↔ GlobalsMirror late s u := by
  refine ⟨fun h name ↦ Arena.rel_lookup h name, fun h ↦ ?_⟩
  obtain ⟨a, ha⟩ := Option.isSome_iff_exists.1 (Arena.scope?_isSome_iff.2 hs)
  obtain ⟨b, hb⟩ := Option.isSome_iff_exists.1 (Arena.scope?_isSome_iff.2 hu)
  rw [Arena.around_zero ha, Arena.around_zero hb]
  refine .cons (fun name ↦ ?_) .nil
  have hname := h name
  rwa [Arena.lookup_zero, Arena.lookup_zero, ha, hb] at hname

namespace GlobalsMirror

/-- The first run went on. -/
theorem left (h : GlobalsMirror (fun _ ↦ False) s u) (ht : GlobalsLater s t)
    (hlate : ∀ name, GaveValue s t name → late name) : GlobalsMirror late t u := by
  intro name
  have hmirrors := h name
  have hlater := ht name
  have hname : ∀ a ∈ s.arena.lookup 0 name, a.name = name := fun a ha ↦
    (Arena.holds_of_lookup ha).choose_spec.2
  have hgave := hlate name
  unfold GaveValue at hgave
  generalize s.arena.lookup 0 name = found, t.arena.lookup 0 name = found',
    u.arena.lookup 0 name = other at hmirrors hlater hname hgave
  cases hlater with
  | none =>
    cases hmirrors
    exact .none
  | @some a a' hlater =>
    cases hmirrors with
    | some hmirrors =>
      refine .some (hmirrors.left hlater fun hbefore hafter ↦ ?_)
      exact hname a rfl ▸ hgave ⟨a, a', rfl, rfl, hbefore, hafter⟩

/-- The second run went on. -/
theorem right (h : GlobalsMirror late s u) (hv : GlobalsLater u v) : GlobalsMirror late s v := by
  intro name
  have hmirrors := h name
  have hlater := hv name
  generalize s.arena.lookup 0 name = found, u.arena.lookup 0 name = other,
    v.arena.lookup 0 name = other' at hmirrors hlater
  cases hlater with
  | none => exact hmirrors
  | some hlater =>
    cases hmirrors with
    | some hmirrors => exact .some (hmirrors.right hlater)

/-- The names are not late whose values the second run is beside from earlier on. -/
theorem meet (h : GlobalsMirror late t u) (h' : GlobalsMirror (fun _ ↦ False) s u)
    (ht : GlobalsLater s t)
    (hlate : ∀ name, late name → ∀ a ∈ s.arena.lookup 0 name, a.initialized) :
    GlobalsMirror (fun _ ↦ False) t u := by
  intro name
  have hmirrors := h name
  have hbefore := h' name
  have hlater := ht name
  have hname : ∀ a ∈ s.arena.lookup 0 name, a.name = name := fun a ha ↦
    (Arena.holds_of_lookup ha).choose_spec.2
  have hgave := hlate name
  generalize s.arena.lookup 0 name = found, t.arena.lookup 0 name = found',
    u.arena.lookup 0 name = other at hmirrors hbefore hlater hname hgave
  cases hlater with
  | none =>
    cases hmirrors
    exact .none
  | @some a a' hlater =>
    cases hmirrors with
    | some hmirrors =>
      cases hbefore with
      | some hbefore =>
        exact .some (hmirrors.meet hbefore hlater fun hlate ↦ hgave (hname a rfl ▸ hlate) a rfl)

end GlobalsMirror

/-- The body of a function declares nothing in the global scope. -/
theorem AtFunction.later_lookup (hat : AtFunction c f s name info) (hf : Headed c f)
    (hs : Underway c f s) (hrun : programRound.runFrom c s = (.ok (), t)) : GlobalsLater s t := by
  have hbody := hat.runFrom_programRound.symm.trans hrun
  have hwalked := hs.unchecked.bodyWalked hf.closed hf.function hat.recorded (Nat.le_of_lt hat.lt) hbody
  obtain ⟨names, htyped⟩ := hs.typed
  obtain ⟨-, hshape⟩ := (ensures_functionBody_typed hf.closed hf.scope htyped hat.header hat.recorded
    (Nat.le_of_lt hat.lt)).of_run hbody
  obtain ⟨scope, hscope⟩ := Option.isSome_iff_exists.1
    (Arena.scope?_isSome_iff.2 hs.unchecked.distinct.1)
  obtain ⟨kept, hkept, hgains⟩ := hwalked.gains.exists_scope hscope
  obtain ⟨same, gained, hsymbols, hlater, -⟩ := hgains.exists_append
  -- A function declares nothing outside of its own scope, so the global scope has gained nothing.
  have hlength : gained = [] := by
    have hsame := hshape.shape? 0 hat.recorded.inner.symm
    rw [Arena.shape?, Arena.shape?, hscope, hkept, Option.map_some, Option.map_some,
      Option.some.injEq, Prod.mk.injEq] at hsame
    have hcount := congrArg List.length hsame.2
    rw [List.length_map, List.length_map, hsymbols, List.length_append, hlater.length_eq,
      Nat.add_eq_left] at hcount
    exact List.length_eq_zero_iff.1 hcount
  rw [hlength, List.append_nil] at hsymbols
  intro other
  rw [Arena.lookup_zero, Arena.lookup_zero, hscope, hkept]
  show Option.Rel Symbol.Later (scope.find? other) (kept.find? other)
  unfold Scope.find?
  rw [hsymbols]
  exact rel_find? hlater fun _ _ h ↦ by rw [h.name]

/-! ### The walk over the bodies of the first text -/

/-- A function takes up what its tokens say. -/
theorem AtFunction.stop_eq (hat : AtFunction c f s name info) (hf : Headed c f)
    (hs : Underway c f s) (hrun : programRound.runFrom c s = (.ok (), t))
    (h : Occupies c.kindAt s.position q) : info.body.stop + 1 = q := by
  have hwalked := hs.unchecked.bodyWalked hf.closed hf.function hat.recorded (Nat.le_of_lt hat.lt)
    (hat.runFrom_programRound.symm.trans hrun)
  exact h.stop_eq hat.header hat.body hwalked.balanced hwalked.closes

/-- The walk over the bodies comes to every function. -/
theorem Goes.exists_at_function {n : Nat} (h : Goes c programRound (Underway c f) n s t)
    (hf : Headed c f) (hs : s.position ≤ p) (ht : p ≤ t.position) (hword : c.startsFunction p) :
    ∃ k l middle, Goes c programRound (Underway c f) k s middle ∧ middle.position = p ∧
      Goes c programRound (Underway c f) l middle t ∧ n = k + l := by
  refine h.split hs ht fun hs _ hrun _ hlt ↦ ?_
  by_contra hjump
  have hinside := (hf.next hs hrun).2 p hlt (Nat.lt_of_not_le hjump)
  rw [hword] at hinside
  cases hinside

/-- A walk over the bodies comes to two functions that are neighbours. -/
structure PassesBoth (c : Context) (f : State) (k l : Nat) (t₀ t₁ t₂ t : State) : Prop where
  before : Goes c programRound (Underway c f) k (f.movedTo 0) t₀
  underway₀ : Underway c f t₀
  first : programRound.runFrom c t₀ = (.ok (), t₁)
  underway₁ : Underway c f t₁
  second : programRound.runFrom c t₁ = (.ok (), t₂)
  after : Goes c programRound (Underway c f) l t₂ t

theorem Exchanged.passesBoth (h : Exchanged c d p q r) (hf : Headed c f) {n : Nat}
    (hgoes : Goes c programRound (Underway c f) n (f.movedTo 0) t) (hend : c.kindAt t.position = .eof) :
    ∃ k l t₀ t₁ t₂, PassesBoth c f k l t₀ t₁ t₂ t ∧ n = k + (l + 1 + 1) ∧ t₀.position = p ∧
      t₁.position = q ∧ t₂.position = r := by
  have hlt := h.first.lt
  have hlt' := h.second.lt
  have hword : c.startsFunction p := by
    rw [Context.startsFunction, h.first.startsWith]
    rfl
  have hword' : c.startsFunction q := by
    rw [Context.startsFunction, h.second.startsWith]
    rfl
  have hlast : r ≤ t.position := by
    by_contra hmore
    exact h.more t.position (Nat.lt_of_not_le hmore) hend
  -- The rounds up to the first function, that of it, that of the second, and the rounds behind both.
  obtain ⟨k, l, t₀, hbefore, ht₀, hrest, rfl⟩ :=
    hgoes.exists_at_function hf (Nat.zero_le p) (by omega) hword
  obtain ⟨l, t₁, rfl, -, hrun, hrest⟩ := hrest.exists_round (by omega)
  have hunderway := hbefore.last
  obtain ⟨name, info, hat⟩ := hunderway.atFunction (ht₀ ▸ hword)
  have hq := hat.stop_eq hf hunderway hrun (ht₀ ▸ h.first)
  have ht₁ : t₁.position = q := (hat.position_eq hf hunderway hrun).trans hq
  obtain ⟨l, t₂, rfl, -, hrun', hrest'⟩ := hrest.exists_round (by omega)
  obtain ⟨name', info', hat'⟩ := hrest.holds.atFunction (ht₁ ▸ hword')
  have hr := hat'.stop_eq hf hrest.holds hrun' (ht₁ ▸ h.second)
  have ht₂ : t₂.position = r := (hat'.position_eq hf hrest.holds hrun').trans hr
  exact ⟨k, l, t₀, t₁, t₂, ⟨hbefore, hunderway, hrun, hrest.holds, hrun', hrest'⟩, rfl, ht₀, ht₁, ht₂⟩

/-! ### The walk over the bodies of the second text -/

theorem Passage.Beside.globalsMirror {S : Stretch} (h : (S.statements late).Beside c s d u)
    (hc : c.scope = 0) (hd : d.scope = 0) : GlobalsMirror late s u := by
  have hrow := Shared.row h.related
  rw [hc, hd] at hrow
  exact fun name ↦ Arena.rel_lookup hrow name

/-- A function that the first run checks is checked by the second one beside it, unless it stops where a
value is asked for that a name has only late. -/
theorem ensures_functionRound {S : Stretch} (hf : Headed c f) (hf' : Headed d f')
    (halike : HeadersAlike (fun _ ↦ False) f f') (hs : Underway c f s) (hu : Underway d f' u)
    (hbeside : (S.statements late).Beside c s d u) (hword : c.kindAt s.position = .functionWord)
    (hin : s.position ≤ S.stop) (hrun : programRound.runFrom c s = (.ok (), t))
    (hstop : t.position ≤ S.stop + 1) :
    d.kindAt u.position ≠ .eof ∧ Ensures programRound d u (S.Tardy late) fun _ v ↦
      (S.statements late).Beside c t d v ∧ Underway d f' v ∧ GlobalsLater u v := by
  have hkind := hbeside.kindAt_eq hbeside.place hin
  rw [hword] at hkind
  have hstarts : c.startsFunction s.position := by
    rw [Context.startsFunction, hword]
    rfl
  have hstarts' : d.startsFunction u.position := by
    rw [Context.startsFunction, hkind]
    rfl
  refine ⟨by rw [hkind]; decide, ?_⟩
  have hfollows := Passage.FollowsUpTo.function hbeside hf hf' hs hu halike hstarts () t hrun hstop
  refine (hfollows.and (ensures_runs programRound d u)).mono ?_
  rintro _ v ⟨⟨-, hbehind⟩, hrun'⟩
  obtain ⟨name, info, hat⟩ := hu.atFunction hstarts'
  exact ⟨hbehind, (hf'.next hu hrun').1, hat.later_lookup hf' hu hrun'⟩

/-- A second walk goes along over a stretch of bodies. -/
theorem Goes.along_bodies {S : Stretch} {E : SemanticError → Prop} {Q : Unit → State → Prop}
    {left n : Nat} (hf : Headed c f) (hf' : Headed d f') (halike : HeadersAlike (fun _ ↦ False) f f')
    (hgoes : Goes c programRound (Underway c f) n s t) (hstop : t.position ≤ S.stop)
    (hbeside : (S.statements fun _ ↦ False).Beside c s d u) (hu : Underway d f' u)
    (hend : ∀ v, (S.statements fun _ ↦ False).Beside c t d v → Underway d f' v →
      Ensures (walk programRound left) d v E Q) :
    Ensures (walk programRound (left + n)) d u E Q := by
  let Rel (s u : State) : Prop := (S.statements fun _ ↦ False).Beside c s d u ∧ Underway d f' u
  have hrel : Rel s u := ⟨hbeside, hu⟩
  refine hgoes.along hstop (fun {s t u} hs hrel hmore hrun hle hstop ↦ ?_) hrel
    fun v hv ↦ hend v hv.1 hv.2
  obtain ⟨hbeside, hu⟩ := hrel
  refine ⟨?_, ?_⟩
  · rwa [hbeside.kindAt_eq hbeside.place (Nat.le_trans hle hstop)]
  · have hfollows := Passage.FollowsUpTo.programRound hbeside hf hf' hs hu halike () _ hrun hstop
    refine (hfollows.and (ensures_runs programRound d _)).imp ?_ ?_
    · rintro _ ⟨_, _, _, hlate, _⟩
      exact hlate.elim
    · rintro _ _ ⟨⟨-, hbehind⟩, hrun'⟩
      exact ⟨hbehind, (hf'.next hu hrun').1⟩

namespace Exchanged

variable (h : Exchanged c d p q r)

include h

theorem shared (hf : Headed c f) (hs : 0 < s.arena.size) (hu : 0 < u.arena.size)
    (hglobals : GlobalsMirror late s u) : Shared late c s d u := by
  have hrow := (rowMirrors_zero_iff hs hu).2 hglobals
  have hscope := hf.scope
  rw [h.around]
  exact ⟨hscope.symm ▸ hrow, hscope.symm ▸ hs, hscope.symm ▸ hu, rfl, rfl, rfl, fun hsome ↦ by
    rw [hf.function] at hsome
    cases hsome⟩

/-- The walk over the bodies of the second text succeeds where that of the first one did, unless it stops
in the function that comes first now, where it asks for a value that the other one gave. -/
theorem ensures_walk_bodies (hf : Headed c f) (hf' : Headed d f')
    (halike : HeadersAlike (fun _ ↦ False) f f') {t₀ t₁ t₂ : State}
    (hboth : PassesBoth c f k l t₀ t₁ t₂ t) (ht₀ : t₀.position = p) (ht₁ : t₁.position = q)
    (ht₂ : t₂.position = r) (hn : k + (l + 1 + 1) ≤ c.limits.scan)
    (hend : c.kindAt t.position = .eof) :
    Ensures (walk programRound d.limits.scan) d (f'.movedTo 0)
      (h.ofSecond.Tardy (GaveValue t₀ t₁)) fun _ _ ↦ True := by
  have hword := h.first.startsWith
  have hword' := h.second.startsWith
  have hlt := h.first.lt
  have hlt' := h.second.lt
  have hlive {f s : State} {c : Context} (hs : Underway c f s) : 0 < s.arena.size :=
    hs.unchecked.distinct.1
  -- what the first run does to the values
  obtain ⟨name, info, hat⟩ := hboth.underway₀.atFunction (c := c) (by
    rw [Context.startsFunction, ht₀, hword]; rfl)
  obtain ⟨name', info', hat'⟩ := hboth.underway₁.atFunction (c := c) (by
    rw [Context.startsFunction, ht₁, hword']; rfl)
  have hlater := hat.later_lookup hf hboth.underway₀ hboth.first
  have hlater' := hat'.later_lookup hf hboth.underway₁ hboth.second
  have hunderway := hboth.after.holds
  -- the second run, beside it
  obtain ⟨left, hleft⟩ := Nat.exists_eq_add_of_le hn
  have hlimit : d.limits.scan = left + l + 1 + 1 + k := by
    rw [h.limits, hleft]
    omega
  rw [hlimit]
  have hglobals : GlobalsMirror (fun _ ↦ False) (f.movedTo 0) (f'.movedTo 0) := by
    obtain ⟨a, b, ha, hb, hmirrors⟩ := halike.global
    intro name
    show Option.Rel _ (f.arena.lookup 0 name) (f'.arena.lookup 0 name)
    rw [Arena.lookup_zero, Arena.lookup_zero, ha, hb]
    exact hmirrors name id
  refine hboth.before.along_bodies (S := h.leading) hf hf' halike (Nat.le_of_eq ht₀)
    ⟨rfl, rfl, rfl, h.last, h.limits, ⟨Nat.le_refl 0, rfl⟩,
      h.shared hf (hlive hf.underway) (hlive hf'.underway) hglobals⟩ hf'.underway
    fun v₀ hbeside₀ hv₀ ↦ ?_
  have hp : v₀.position = p := ht₀ ▸ hbeside₀.place.2.symm
  have hglobals₀ := hbeside₀.globalsMirror hf.scope hf'.scope
  have hbeside₁ : (h.ofSecond.statements (GaveValue t₀ t₁)).Beside c t₁ d v₀ :=
    ⟨rfl, rfl, rfl, h.last, h.limits, ⟨Nat.le_of_eq ht₁.symm, by rw [ht₁, hp]; exact Nat.add_comm q p⟩,
      h.shared hf (hlive hboth.underway₁) (hlive hv₀) (hglobals₀.left hlater fun _ ↦ id)⟩
  obtain ⟨hmore, hsecond⟩ := ensures_functionRound hf hf' halike hboth.underway₁ hv₀ hbeside₁
    (ht₁ ▸ hword') (by rw [ht₁]; show q ≤ r - 1; omega) hboth.second
    (by rw [ht₂]; show r ≤ r - 1 + 1; omega)
  refine (ensures_walk_succ hmore).2 (hsecond.mono ?_)
  rintro _ v₁ ⟨hbehind₁, hv₁, hgained⟩
  have hp₁ : v₁.position = p + (r - q) := by
    obtain ⟨-, hplace⟩ := hbehind₁.place
    replace hplace : t₂.position + p = v₁.position + q := hplace
    omega
  have hglobals₁ := hbehind₁.globalsMirror hf.scope hf'.scope
  have hbeside₂ : (h.ofFirst.statements fun _ ↦ False).Beside c t₀ d v₁ :=
    ⟨rfl, rfl, rfl, h.last, h.limits, ⟨Nat.le_of_eq ht₀.symm, by rw [ht₀, hp₁]; exact Nat.add_comm _ _⟩,
      h.shared hf (hlive hboth.underway₀) (hlive hv₁) (hglobals₀.right hgained)⟩
  obtain ⟨hmore', hfirst⟩ := ensures_functionRound hf hf' halike hboth.underway₀ hv₁ hbeside₂
    (ht₀ ▸ hword) (by rw [ht₀]; show p ≤ q - 1; omega) hboth.first
    (by rw [ht₁]; show q ≤ q - 1 + 1; omega)
  refine (ensures_walk_succ hmore').2 (hfirst.imp ?_ ?_)
  · rintro _ ⟨_, _, _, hlate, _⟩
    exact hlate.elim
  rintro _ v₂ ⟨hbehind₂, hv₂, hgained'⟩
  have hp₂ : v₂.position = r := by
    obtain ⟨-, hplace⟩ := hbehind₂.place
    replace hplace : t₁.position + (p + (r - q)) = v₂.position + p := hplace
    omega
  -- what was late in the second function has its value now
  have hglobals₂ : GlobalsMirror (fun _ ↦ False) t₂ v₂ := by
    refine (hglobals₁.right hgained').meet (hbehind₂.globalsMirror hf.scope hf'.scope) hlater' ?_
    rintro name ⟨_, after, _, hafter, _, hvalue⟩ a ha
    cases hafter.symm.trans ha
    exact hvalue
  refine hboth.after.along_bodies (S := h.trailing t.position) hf hf' halike (Nat.le_refl _)
    ⟨rfl, rfl, rfl, h.last, h.limits, ⟨Nat.le_of_eq ht₂.symm, by rw [ht₂, hp₂]; rfl⟩,
      h.shared hf (hlive hunderway) (hlive hv₂) hglobals₂⟩ hv₂ fun v hbeside _ ↦ ?_
  refine (ensures_walk_of_eof ?_).2 trivial
  rw [hbeside.kindAt_eq hbeside.place (Nat.le_refl _), hend]

end Exchanged

/-! ### The program -/

theorem Underway.gains_of_round (hs : Underway c f s) (hf : Headed c f)
    (hrun : programRound.runFrom c s = (.ok (), t)) : s.arena.Gains t.arena := by
  obtain ⟨symbols, hlaid⟩ := hs.unchecked.inStep.laid
  exact (hs.unchecked.roundWalked hf.closed hf.function hlaid hrun).gains

theorem Goes.gains {n : Nat} (h : Goes c programRound (Underway c f) n s t) (hf : Headed c f) :
    s.arena.Gains t.arena := by
  induction h with
  | stays => exact .refl _
  | round hs _ hrun _ _ ih => exact (hs.gains_of_round hf hrun).trans ih

theorem Arena.Gains.exists_lookup {a after : Arena} (h : a.Gains after) {name : String} {symbol : Symbol}
    (hlookup : a.lookup 0 name = some symbol) :
    ∃ kept, after.lookup 0 name = some kept ∧ symbol.Later kept := by
  rw [Arena.lookup_zero] at hlookup
  obtain ⟨scope, hscope, hfound⟩ := Option.bind_eq_some_iff.1 hlookup
  obtain ⟨kept, hkept, hgains⟩ := h.exists_scope hscope
  rw [Arena.lookup_zero, hkept]
  exact hgains.follows.find? (fun _ _ hlater ↦ hlater.name) hfound

/-- A round of the walk over the bodies goes forward. -/
theorem Exchanged.le_of_round (h : Exchanged c d p q r) (hf : Headed c f) (hs : Underway c f s)
    (hrun : programRound.runFrom c s = (.ok (), t)) : s.position ≤ t.position := by
  by_cases hword : c.startsFunction s.position
  · obtain ⟨name, info, hat⟩ := hs.atFunction hword
    rw [hat.position_eq hf hs hrun]
    exact Nat.le_succ_of_le (Nat.le_of_lt hat.lt)
  · rw [Passage.runFrom_programRound_other hword] at hrun
    have hfollows : h.leading.Follows (fun _ ↦ False) Eq Passage.otherRound Passage.otherRound :=
      .otherRound
    exact (hfollows.forward c s rfl (Nat.zero_le _)).of_run hrun

/-- A violation says that a name of the second function has no value yet where it is the size of an
array or an element of one, although the run of the first text ends with a value for it. -/
def Exchanged.Wanting (h : Exchanged c d p q r) (t : State) (e : SemanticError) : Prop :=
  h.ofSecond.Tardy (fun name ↦ ∃ symbol, t.arena.lookup 0 name = some symbol ∧ symbol.initialized) e

/-- If the first text is accepted, the second one is refused at most for a value that is wanting. -/
theorem Exchanged.ensures_program (h : Exchanged c d p q r) (hscope : c.scope = 0)
    (hfunction : c.function = none) (hrun : program.runFrom c .initial = (.ok (), t)) :
    Ensures program d .initial (h.Wanting t) fun _ _ ↦ True := by
  obtain ⟨f, hwalks⟩ := twoWalks_of_run hrun
  -- the walks of the first run
  have hf : Headed c f := .of_run h.closed h.worded hscope hfunction hwalks.headers
  have hheading : Heading .initial := ⟨orderly_initial, fun _ _ ↦ rfl⟩
  have hheaders : Ensures headers c .initial (fun _ ↦ True) fun _ f ↦
      (∃ n ≤ c.limits.scan, Goes c headerRound Heading n .initial f) ∧ c.kindAt f.position = .eof :=
    ensures_headers_iff.2 ((exists_goes (fun hs hmore hrun ↦
      have hnext := hs.next h.closed h.worded hmore hrun
      ⟨hnext.1, hnext.2.1.le⟩) _ hheading).mono fun _ _ hgoes ↦ ⟨fun _ ↦ hgoes, fun _ ↦ trivial⟩)
  obtain ⟨⟨n, hn, hgoes⟩, hend⟩ := hheaders.of_run hwalks.headers
  have hbodies : Ensures (walk programRound c.limits.scan) c (f.movedTo 0) (fun _ ↦ True) fun _ t ↦
      (∃ n ≤ c.limits.scan, Goes c programRound (Underway c f) n (f.movedTo 0) t) ∧
        c.kindAt t.position = .eof := by
    exact exists_goes (fun hs _ hrun ↦ ⟨(hf.next hs hrun).1, h.le_of_round hf hs hrun⟩) _ hf.underway
  obtain ⟨⟨m, hm, hgoes'⟩, hend'⟩ := hbodies.of_run hwalks.bodies
  obtain ⟨k, l, t₀, t₁, t₂, hboth, rfl, ht₀, ht₁, ht₂⟩ := h.passesBoth hf hgoes' hend'
  -- the functions that change places
  have hstarts {i : Nat} (hi : c.kindAt i = .functionWord) : c.startsFunction i := by
    rw [Context.startsFunction, hi]
    rfl
  obtain ⟨name, info, hat⟩ := hboth.underway₀.atFunction (ht₀ ▸ hstarts h.first.startsWith)
  obtain ⟨name', info', hat'⟩ := hboth.underway₁.atFunction (ht₁ ▸ hstarts h.second.startsWith)
  have hq := hat.stop_eq hf hboth.underway₀ hboth.first (ht₀ ▸ h.first)
  have hr := hat'.stop_eq hf hboth.underway₁ hboth.second (ht₁ ▸ h.second)
  have hlookup : (f.headers.lookup p).isSome := by
    have hfound := hat.lookup
    rw [hboth.underway₀.unchecked.inStep.keeps.headers, ht₀] at hfound
    rw [hfound]
    rfl
  -- the walks of the second run
  have hheaders' := h.ensures_walk_headers hgoes hend hn hlookup hat ht₀ hq hat' ht₁ hr
  have hentry := hwalks.entryPoint
  have hnonempty : d.tokens.isEmpty = false := by
    have hword := h.before p (Nat.le_refl p)
    have hlt : p < c.tokens.size := Context.lt_size_of_startsFunction (hstarts h.first.startsWith)
    rw [Array.getElem?_eq_getElem hlt] at hword
    rw [Array.isEmpty_eq_false_iff]
    rintro hempty
    rw [hempty] at hword
    cases hword
  refine ensures_program_iff.2 ⟨fun hempty ↦ ?_, fun _ ↦ ?_⟩
  · rw [hnonempty] at hempty
    cases hempty
  have hended : Ensures headers d .initial (fun _ ↦ False) fun _ f' ↦
      HeadersAlike (fun _ ↦ False) f f' :=
    ensures_headers_iff.2 (hheaders'.mono fun _ f' halike ↦ ⟨fun _ ↦ halike, fun hnot ↦ ?_⟩)
  · refine (hended.and (ensures_runs headers d .initial)).imp (fun _ h ↦ h.elim) ?_
    rintro _ f' ⟨halike, hrun'⟩
    have hf' : Headed d f' := by
      refine .of_run h.closed' h.worded' ?_ ?_ hrun'
      · rw [h.around]
        exact hscope
      · rw [h.around]
        exact hfunction
    refine (h.ensures_walk_bodies hf hf' halike hboth ht₀ ht₁ ht₂ hm hend').imp ?_ fun _ _ _ ↦ trivial
    rintro e ⟨token, hhas, hkind, ⟨a, b, ha, hb, -, hvalue⟩, hviolation⟩
    have hgains := (hboth.underway₁.gains_of_round hf hboth.second).trans (hboth.after.gains hf)
    obtain ⟨kept, hkept, hlater⟩ := hgains.exists_lookup hb
    exact ⟨token, hhas, hkind, ⟨kept, hkept, hlater.initialized hvalue⟩, hviolation⟩
  · exact hnot (halike.entryPoint ▸ hentry)

end

end FrontEnd
