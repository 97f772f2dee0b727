import FrontEnd.Proofs.Exchange.Headers
import FrontEnd.Proofs.Exchange.Neighbours
import FrontEnd.Proofs.Exchange.Walks

/-!
# The headers of neighbours that change places

The walk over the headers comes to both neighbours, whichever comes first (`Goes.exists_recorded`).  When
they change places, it meets the second one with what it knew in front of the first, and the first one
with what it knows behind the second.  Either header is followed with the name of the other apart, and
the two things known of the global scope make one (`HeadersAlike.both`):

```
          first           second
   s₀ ───────────→ s₁ ───────────→ s₂
   |                               |      what either text has
   u₀ ───────────→ u₁ ───────────→ u₂
          second          first
```

So both texts are left with the same headers (`Exchanged.headers`).
-/

namespace FrontEnd

open Check

/-- The walk over the headers is between two rounds and has recorded nothing that comes later. -/
structure Heading (s : State) : Prop where
  orderly : Orderly s
  unread : ∀ i, s.position < i → s.headers.lookup i = none

/-- The global scopes differ in one name at most, and both or none of the states have the entry point
recorded. -/
structure SameBut (name : String) (s t : State) : Prop where
  global : ∃ a b, s.arena.scope? 0 = some a ∧ t.arena.scope? 0 = some b ∧
    ∀ other, other ≠ name → b.find? other = a.find? other
  entryPoint : (t.functions.lookup entryPointName).isSome =
    (s.functions.lookup entryPointName).isSome

section

variable {c d : Context} {f s t u v : State} {n p q r : Nat} {apart wider : String → Prop}
  {x y : String} {name name' : Token} {info info' : FunctionInfo}

/-! ### What is declared in either state -/

namespace HeadersAlike

theorem refl (hs : Orderly s) : HeadersAlike apart s s := by
  obtain ⟨scope, hscope, -⟩ := hs
  refine ⟨⟨scope, scope, hscope, hscope, fun name _ ↦ ?_⟩, rfl⟩
  exact Scope.Mirrors.refl _ scope name

theorem left (h : HeadersAlike apart s u) (ht : SameBut x s t)
    (hwider : ∀ name, apart name ∨ name = x → wider name) : HeadersAlike wider t u := by
  obtain ⟨a, b, ha, hb, hmirrors⟩ := h.global
  obtain ⟨a', after, ha', hafter, hsame⟩ := ht.global
  cases ha.symm.trans ha'
  refine ⟨⟨after, b, hafter, hb, fun name hname ↦ ?_⟩, h.entryPoint.trans ht.entryPoint.symm⟩
  rw [hsame name fun hx ↦ hname (hwider name (.inr hx))]
  exact hmirrors name fun hapart ↦ hname (hwider name (.inl hapart))

theorem right (h : HeadersAlike apart s u) (hv : SameBut x u v)
    (hwider : ∀ name, apart name ∨ name = x → wider name) : HeadersAlike wider s v := by
  obtain ⟨a, b, ha, hb, hmirrors⟩ := h.global
  obtain ⟨b', after, hb', hafter, hsame⟩ := hv.global
  cases hb.symm.trans hb'
  refine ⟨⟨a, after, ha, hafter, fun name hname ↦ ?_⟩, hv.entryPoint.trans h.entryPoint⟩
  rw [hsame name fun hx ↦ hname (hwider name (.inr hx))]
  exact hmirrors name fun hapart ↦ hname (hwider name (.inl hapart))

/-- Two names that were apart are so no longer if the states are alike with either of them apart. -/
theorem both (hne : x ≠ y) (h : HeadersAlike (· = x) s u) (h' : HeadersAlike (· = y) s u) :
    HeadersAlike (fun _ ↦ False) s u := by
  obtain ⟨a, b, ha, hb, hmirrors⟩ := h.global
  obtain ⟨a', b', ha', hb', hmirrors'⟩ := h'.global
  cases ha.symm.trans ha'
  cases hb.symm.trans hb'
  refine ⟨⟨a, b, ha, hb, fun name _ ↦ ?_⟩, h.entryPoint⟩
  by_cases hx : name = x
  · exact hmirrors' name fun hy ↦ hne (hx.symm.trans hy)
  · exact hmirrors name hx

theorem orderly (h : HeadersAlike apart s u) (hname : ¬ apart entryPointName) (hs : Orderly s) :
    Orderly u := by
  obtain ⟨a, b, ha, hb, hmirrors⟩ := h.global
  obtain ⟨_, ha', hentry⟩ := hs
  cases ha.symm.trans ha'
  refine ⟨b, hb, fun hcontains ↦ ?_⟩
  rw [hmirrors.contains_eq hname] at hcontains
  exact h.entryPoint ▸ hentry hcontains

end HeadersAlike

/-! ### Headers that are recorded -/

theorem HeaderAt.unique {i : Nat} (h : HeaderAt c i name info) (h' : HeaderAt c i name' info') :
    name' = name := by
  have hentry {name : Token} {info : FunctionInfo} (h : HeaderAt c i name info) :
      info.isEntryPoint = (c.kindAt i == .mainWord) := by
    cases h with
    | function word _ _ _ _ _ _ _ isEntryPoint => rw [isEntryPoint, word]; rfl
    | entryPoint word _ _ _ _ _ _ isEntryPoint => rw [isEntryPoint, word]; rfl
  rw [h.name_eq, h'.name_eq, hentry h, hentry h']

theorem HeaderAt.lexeme_ne (hw : c.Worded) {i : Nat} (h : HeaderAt c i name info)
    (hword : c.kindAt i = .functionWord) : name.lexeme ≠ entryPointName := by
  cases h with
  | function _ _ hkind hname => exact hname ▸ (hw _).2 hkind
  | entryPoint word => exact absurd (hword.symm.trans word) (by decide)

namespace RecordsFunction

/-- The new symbol is the last one of the global scope. -/
theorem exists_add (h : RecordsFunction c s name info t) (hs : Orderly s) :
    ∃ scope after, s.arena.scope? 0 = some scope ∧ t.arena.scope? 0 = some after ∧
      ∀ other, after.find? other =
        (scope.add (.ofFunction name.lexeme info name.position)).find? other := by
  obtain ⟨scope, hscope, -⟩ := hs
  obtain ⟨after, hafter, -⟩ := h.advances.orderly
  have hglobals := h.advances.globals
  unfold State.globals at hglobals
  rw [hscope, hafter] at hglobals
  have hsymbols : after.symbols = scope.symbols ++ [_] := hglobals
  refine ⟨scope, after, hscope, hafter, fun other ↦ ?_⟩
  unfold Scope.find? Scope.add
  rw [hsymbols]

theorem sameBut (h : RecordsFunction c s name info t) (hs : Orderly s)
    (hname : name.lexeme ≠ entryPointName) : SameBut name.lexeme s t := by
  obtain ⟨scope, after, hscope, hafter, hfind⟩ := h.exists_add hs
  refine ⟨⟨scope, after, hscope, hafter, fun other hother ↦ ?_⟩, ?_⟩
  · have hnot : ((Symbol.ofFunction name.lexeme info name.position).name == other) = false :=
      beq_eq_false_iff_ne.2 hother.symm
    rw [hfind, Scope.find?_add, hnot, if_neg Bool.false_ne_true, Option.or_none]
  · have hfunctions : t.functions = (name.lexeme, info.scope) :: s.functions := h.advances.functions
    rw [hfunctions, List.lookup_cons, beq_eq_false_iff_ne.2 hname.symm]

theorem lookup (h : RecordsFunction c s name info t) (hs : Orderly s) :
    t.arena.lookup 0 name.lexeme = some (.ofFunction name.lexeme info name.position) := by
  obtain ⟨scope, after, hscope, hafter, hfind⟩ := h.exists_add hs
  have hfree := h.free
  unfold FreeGlobally Arena.declaredHere at hfree
  rw [hscope, Option.any_some] at hfree
  rw [Arena.lookup_zero, hafter, Option.bind_some, hfind]
  exact Scope.find?_add_self _ hfree

theorem name_place (h : RecordsFunction c s name info t)
    (hword : c.kindAt s.position = .functionWord) :
    c.after (c.after s.position) = s.position + 2 ∧ s.position + 2 < t.position ∧
      name = c.tokenAt (s.position + 2) := by
  obtain ⟨opening, hstart, hbraced⟩ := h.body
  have hlt := hbraced.lt
  have hend := h.position
  cases h.header with
  | function _ returns _ hname _ parameters _ start =>
    have hle := parameters.balanced.le
    have htype := (Kind.isOrdinary_iff.1 (isOrdinary_of_typeWord returns)).2.2.1
    rw [Context.after_of_kindAt hword (by decide), Context.after_of_ne_eof htype]
    exact ⟨rfl, by omega, hname.symm⟩
  | entryPoint word => exact absurd (hword.symm.trans word) (by decide)

/-- A function that was recorded is the one that is on record at the end. -/
theorem info_eq (h : RecordsFunction c s name info t) (hs : Orderly s) (hf : Extends t f)
    (hrecorded : Recorded f name info') : info' = info := by
  have hsame := hrecorded.symbol.symm.trans (hf.symbols _ _ (h.lookup hs))
  injection hsame with hsymbol
  injection hsymbol with _ hkind
  injection hkind

end RecordsFunction

/-! ### The walk over the headers -/

theorem runFrom_headerRound_function (hword : c.kindAt s.position = .functionWord) :
    headerRound.runFrom c s = functionHeader.runFrom c s := by
  have hkind : Check.peekKind.runFrom c s = (.ok (c.kindAt s.position), s) := rfl
  rw [headerRound, Check.runFrom_bind, hkind, hword]

theorem Heading.next (hc : c.Closed) (hw : c.Worded) (hs : Heading s)
    (hmore : c.kindAt s.position ≠ .eof) (hrun : headerRound.runFrom c s = (.ok (), t)) :
    Heading t ∧ Extends s t ∧ ∀ i, i ≠ s.position → t.headers.lookup i = s.headers.lookup i := by
  obtain ⟨new, hadvances⟩ := (ensures_headerRound hc hw hs.orderly hmore).of_run hrun
  refine ⟨⟨hadvances.orderly, fun i hi ↦ ?_⟩, hadvances.extends_, hadvances.headers⟩
  have hlt := Nat.lt_of_le_of_lt hadvances.extends_.le hi
  rw [hadvances.headers i (Nat.ne_of_gt hlt), hs.unread i hlt]

namespace Goes

variable (hc : c.Closed) (hw : c.Worded)

include hc hw

theorem extends_ (h : Goes c headerRound Heading n s t) : Extends s t := by
  induction h with
  | stays => exact .refl _
  | round hs hmore hrun _ _ ih => exact ((hs.next hc hw hmore hrun).2.1).trans ih

/-- The walk comes to every header that is on record at its end. -/
theorem exists_at (h : Goes c headerRound Heading n s f) (hs : s.position ≤ p)
    (hlookup : (f.headers.lookup p).isSome) :
    ∃ k l middle, Goes c headerRound Heading k s middle ∧ middle.position = p ∧
      Goes c headerRound Heading l middle f ∧ n = k + l := by
  have hle : p ≤ f.position := by
    by_contra hlt
    rw [h.last.unread p (Nat.lt_of_not_le hlt)] at hlookup
    cases hlookup
  refine h.split hs hle fun {s t k} hs hmore hrun hrest hlt ↦ ?_
  -- what a round jumps over it does not record, and no later round does
  by_contra hjump
  obtain ⟨-, -, hkept⟩ := hs.next hc hw hmore hrun
  rw [(hrest.extends_ hc hw).headers p (Nat.lt_of_not_le hjump), hkept p (Nat.ne_of_gt hlt),
    hs.unread p hlt] at hlookup
  cases hlookup

/-- Where a function comes next that is on record at the end, a round records it. -/
theorem exists_recorded (h : Goes c headerRound Heading n s f) (hend : c.kindAt f.position = .eof)
    (hword : c.kindAt s.position = .functionWord) (hat : AtFunction c f t name info)
    (hplace : t.position = s.position) :
    ∃ k after, n = k + 1 ∧ functionHeader.runFrom c s = (.ok (), after) ∧
      RecordsFunction c s name info after ∧ Goes c headerRound Heading k after f := by
  have hlt : s.position < f.position := by
    refine Nat.lt_of_le_of_ne h.le fun heq ↦ ?_
    rw [← heq, hword] at hend
    cases hend
  obtain ⟨k, after, hn, -, hrun, hrest⟩ := h.exists_round hlt
  rw [runFrom_headerRound_function hword] at hrun
  obtain ⟨name', info', hrecords⟩ := (ensures_functionHeader hc h.holds.orderly hword).of_run hrun
  obtain rfl : name' = name := (hplace ▸ hat.header).unique hrecords.header
  obtain rfl := hrecords.info_eq h.holds.orderly (hrest.extends_ hc hw) hat.recorded
  exact ⟨k, after, hn, hrun, hrecords, hrest⟩

end Goes

/-- A second walk goes along over a stretch of headers. -/
theorem Goes.along_headers {S : Stretch} {E : SemanticError → Prop} {Q : Unit → State → Prop}
    {left : Nat} (hgoes : Goes c headerRound Heading n s t) (hstop : t.position ≤ S.stop)
    (hbeside : (S.headers fun _ ↦ False).Beside c s d u)
    (hend : ∀ v, (S.headers fun _ ↦ False).Beside c t d v →
      Ensures (walk headerRound left) d v E Q) :
    Ensures (walk headerRound (left + n)) d u E Q := by
  let Rel (s u : State) : Prop := (S.headers fun _ ↦ False).Beside c s d u
  have hrel : Rel s u := hbeside
  refine hgoes.along hstop (fun {s t u} _ hrel hmore hrun hle hstop ↦ ?_) hrel hend
  replace hbeside : (S.headers fun _ ↦ False).Beside c s d u := hrel
  refine ⟨?_, ?_⟩
  · rwa [hbeside.kindAt_eq hbeside.place (Nat.le_trans hle hstop)]
  · exact (Passage.Follows.headerRound.follows hbeside () _ hrun hstop).imp (fun _ h ↦ h.elim)
      fun _ _ h ↦ h.2

/-! ### The headers of the second text -/

namespace Exchanged

variable (h : Exchanged c d p q r)

include h

/-- Where the first run recorded a function that the second one comes to, the second one records it too. -/
theorem ensures_function {S : Stretch} (hu : Orderly u)
    (hbeside : (S.headers apart).Beside c s d u) (hword : c.kindAt s.position = .functionWord)
    (hrun : functionHeader.runFrom c s = (.ok (), t)) (hrecords : RecordsFunction c s name info t)
    (hstop : t.position ≤ S.stop + 1) (hname : ¬ apart name.lexeme) :
    Ensures headerRound d u (fun _ ↦ False) fun _ v ↦
      (S.headers apart).Beside c t d v ∧ SameBut name.lexeme u v := by
  obtain ⟨hsecond, hlt, hplace⟩ := hrecords.name_place hword
  have hthere : s.position + 2 ≤ S.stop := by omega
  have hword' := hbeside.kindAt_eq hbeside.place (show s.position ≤ S.stop by omega)
  rw [hword] at hword'
  rw [← hsecond] at hplace
  have hfollows := Passage.FollowsUpTo.functionHeader hbeside (hplace ▸ hname) () t hrun hstop
  have hsame : d.tokenAt (u.position + 2) = name := by
    rw [hplace, hsecond]
    exact hbeside.tokenAt_eq hbeside.place.succ.succ hthere
  have hrecorded := ensures_functionHeader h.closed' hu hword'
  unfold Ensures
  rw [runFrom_headerRound_function hword']
  refine (hfollows.and hrecorded).mono ?_
  rintro _ v ⟨⟨-, hbehind⟩, name', info', hrecords'⟩
  obtain ⟨-, -, hplace'⟩ := hrecords'.name_place hword'
  obtain rfl : name' = name := hplace'.trans hsame
  exact ⟨hbehind, hrecords'.sameBut hu (hrecords'.header.lexeme_ne h.worded' hword')⟩

/-- The walk over the headers of the second text succeeds where that of the first one did, and both leave
the same headers. -/
theorem ensures_walk_headers (hgoes : Goes c headerRound Heading n .initial f)
    (hend : c.kindAt f.position = .eof) (hn : n ≤ c.limits.scan)
    (hlookup : (f.headers.lookup p).isSome)
    (hfirst : AtFunction c f s name info) (hs : s.position = p) (hq : info.body.stop + 1 = q)
    (hsecond : AtFunction c f t name' info') (ht : t.position = q) (hr : info'.body.stop + 1 = r) :
    Ensures (walk headerRound d.limits.scan) d .initial (fun _ ↦ False) fun _ f' ↦
      HeadersAlike (fun _ ↦ False) f f' := by
  have hword := h.first.startsWith
  have hword' := h.second.startsWith
  have hlt := h.first.lt
  have hlt' := h.second.lt
  -- the first run, in front of either function and behind both
  obtain ⟨k, l, s₀, hbefore, hs₀, hrest, rfl⟩ := hgoes.exists_at h.closed h.worded (Nat.zero_le p)
    hlookup
  have horderly₀ := hrest.holds.orderly
  obtain ⟨l, s₁, rfl, hrun, hrecords, hrest⟩ := hrest.exists_recorded h.closed h.worded hend
    (hs₀ ▸ hword) hfirst (hs.trans hs₀.symm)
  have hs₁ : s₁.position = q := hrecords.position.trans hq
  have horderly₁ := hrest.holds.orderly
  obtain ⟨l, s₂, rfl, hrun', hrecords', hrest⟩ := hrest.exists_recorded h.closed h.worded hend
    (hs₁ ▸ hword') hsecond (ht.trans hs₁.symm)
  have hs₂ : s₂.position = r := hrecords'.position.trans hr
  have hname := hrecords.header.lexeme_ne h.worded (hs₀ ▸ hword)
  have hname' := hrecords'.header.lexeme_ne h.worded (hs₁ ▸ hword')
  have hsame := hrecords.sameBut horderly₀ hname
  have hsame' := hrecords'.sameBut horderly₁ hname'
  have hne : name.lexeme ≠ name'.lexeme := by
    intro heq
    have hfree := hrecords'.free
    have hfound := hrecords.lookup horderly₀
    rw [heq, Arena.lookup_zero] at hfound
    obtain ⟨scope, hscope, hfound⟩ := Option.bind_eq_some_iff.1 hfound
    unfold FreeGlobally Arena.declaredHere at hfree
    rw [hscope, Option.any_some, ← Scope.isSome_find?, hfound] at hfree
    cases hfree
  -- the second run, beside it
  obtain ⟨left, hleft⟩ := Nat.exists_eq_add_of_le hn
  have hlimit : d.limits.scan = left + l + 1 + 1 + k := by
    rw [h.limits, hleft]
    omega
  rw [hlimit]
  refine hbefore.along_headers (S := h.leading) (Nat.le_of_eq hs₀)
    ⟨rfl, rfl, rfl, h.last, h.limits, ⟨Nat.le_refl 0, rfl⟩, .refl orderly_initial⟩ fun u₀ hbeside₀ ↦ ?_
  have hu₀ : u₀.position = p := hs₀ ▸ hbeside₀.place.2.symm
  have hmore₀ : d.kindAt u₀.position = .functionWord := by
    rw [hbeside₀.kindAt_eq hbeside₀.place (Nat.le_of_eq hs₀), hs₀, hword]
  have halike₀ : HeadersAlike (fun _ ↦ False) s₀ u₀ := hbeside₀.related
  refine (ensures_walk_succ (by rw [hmore₀]; decide)).2 ?_
  have hbeside₁ : (h.ofSecond.headers (· = name.lexeme)).Beside c s₁ d u₀ :=
    ⟨rfl, rfl, rfl, h.last, h.limits, ⟨Nat.le_of_eq hs₁.symm, by rw [hs₁, hu₀]; exact Nat.add_comm q p⟩,
      halike₀.left hsame fun _ ↦ Or.rec False.elim id⟩
  refine (h.ensures_function (halike₀.orderly id horderly₀) hbeside₁ (hs₁ ▸ hword') hrun' hrecords'
    (by rw [hs₂]; show r ≤ r - 1 + 1; omega) hne.symm).mono ?_
  rintro _ u₁ ⟨hbehind₁, hsame₁⟩
  have halike₁ : HeadersAlike (· = name.lexeme) s₂ u₁ := hbehind₁.related
  have hu₁ : u₁.position = p + (r - q) := by
    obtain ⟨-, hplace⟩ := hbehind₁.place
    replace hplace : s₂.position + p = u₁.position + q := hplace
    omega
  have hbeside₂ : (h.ofFirst.headers (· = name'.lexeme)).Beside c s₀ d u₁ :=
    ⟨rfl, rfl, rfl, h.last, h.limits, ⟨Nat.le_of_eq hs₀.symm, by rw [hs₀, hu₁]; exact Nat.add_comm _ _⟩,
      halike₀.right hsame₁ fun _ ↦ Or.rec False.elim id⟩
  have hmore₁ : d.kindAt u₁.position = .functionWord := by
    rw [hbeside₂.kindAt_eq hbeside₂.place (by rw [hs₀]; show p ≤ q - 1; omega), hs₀, hword]
  refine (ensures_walk_succ (by rw [hmore₁]; decide)).2 ?_
  refine (h.ensures_function (halike₁.orderly (fun heq ↦ hname heq.symm) hrest.holds.orderly) hbeside₂
    (hs₀ ▸ hword) hrun hrecords (by rw [hs₁]; show q ≤ q - 1 + 1; omega) hne).mono ?_
  rintro _ u₂ ⟨hbehind₂, hsame₂⟩
  have halike₂ : HeadersAlike (· = name'.lexeme) s₁ u₂ := hbehind₂.related
  have hu₂ : u₂.position = r := by
    obtain ⟨-, hplace⟩ := hbehind₂.place
    replace hplace : s₁.position + (p + (r - q)) = u₂.position + p := hplace
    omega
  -- what is known of the global scopes meets here
  have halike : HeadersAlike (fun _ ↦ False) s₂ u₂ :=
    .both hne (halike₁.right hsame₂ fun _ ↦ Or.rec id id) (halike₂.left hsame' fun _ ↦ Or.rec id id)
  refine hrest.along_headers (S := h.trailing f.position) (Nat.le_refl _)
    ⟨rfl, rfl, rfl, h.last, h.limits, ⟨Nat.le_of_eq hs₂.symm, by rw [hs₂, hu₂]; rfl⟩, halike⟩
    fun v hbeside ↦ ?_
  refine (ensures_walk_of_eof ?_).2 hbeside.related
  rw [hbeside.kindAt_eq hbeside.place (Nat.le_refl _), hend]

end Exchanged

end

end FrontEnd
