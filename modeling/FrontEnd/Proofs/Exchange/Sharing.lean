import FrontEnd.Proofs.Check.SymbolLife
import FrontEnd.Proofs.Exchange.Mirror
import FrontEnd.Proofs.Exchange.Passage
import FrontEnd.Proofs.Scope.WellFormed

/-!
# Passages of statements

Over a passage of statements two runs stay related if the scopes visible from where they are declare
the same names alike: `Shared late`.  Names that are `late` may have been given a value in the first run
only.  The rules ask for a value in two places, where a variable is the size of an array and where it is
an element of one, so these are the only places where the second run may stop although the first goes
on: `Stretch.Tardy`.

This module has what checks do with names and blocks; the checks of expressions, declarations and
statements follow from it.
-/

namespace FrontEnd

open Check

/-- What relates two runs over a passage of statements. -/
structure Shared (late : String → Prop) (c : Context) (s : State) (d : Context) (u : State) :
    Prop where
  row : RowMirrors late (s.arena.around c.scope) (u.arena.around d.scope)
  live : c.scope < s.arena.size
  live' : d.scope < u.arena.size
  blocks : d.blocks = c.blocks
  blockDepth : d.blockDepth = c.blockDepth
  function : d.function = c.function
  sawReturn : c.function.isSome → u.sawReturn = s.sawReturn

namespace Stretch

/-- Whether a token stands in the stretch. -/
def Has (S : Stretch) (t : Token) : Prop :=
  ∃ i, S.start ≤ i ∧ i ≤ S.stop ∧ S.tokens[i]? = some t

/-- A name of the stretch that is late is used where a value is asked for. -/
def Tardy (S : Stretch) (late : String → Prop) (e : SemanticError) : Prop :=
  ∃ t, S.Has t ∧ t.kind = .identifier ∧ late t.lexeme ∧
    (e.violation = .arraySizeUninitialized t.lexeme ∨
      e.violation = .arrayElementUninitialized t.lexeme)

/-- A stretch of statements. -/
def statements (S : Stretch) (late : String → Prop) : Passage where
  toStretch := S
  Related := Shared late
  moved _ _ h := ⟨h.row, h.live, h.live', h.blocks, h.blockDepth, h.function, h.sawReturn⟩
  Excused := S.Tardy late

/-- Runs of `y` follow those of `x` over a stretch of statements. -/
abbrev Follows (S : Stretch) (late : String → Prop) {α : Type} (rel : α → α → Prop)
    (x y : Check α) : Prop :=
  (S.statements late).Follows rel x y

end Stretch

/-! ### Symbols that are mirrored -/

variable {S : Stretch} {late : String → Prop} {α β : Type}

theorem Option.rel_refl {r : α → α → Prop} (hr : ∀ a, r a a) (o : Option α) : Option.Rel r o o := by
  cases o with
  | none => exact .none
  | some a => exact .some (hr a)

theorem rel_mirrors_refl (o : Option Symbol) : Option.Rel (Symbol.Mirrors late) o o :=
  Option.rel_refl (Symbol.Mirrors.refl late) o

theorem State.lt_size_entered (s : State) (c : Context) (label : String) :
    s.arena.size < (s.entered c label).arena.size :=
  Nat.lt_of_lt_of_eq (Nat.lt_succ_self _) (Array.size_push _).symm

theorem Passage.Beside.withWarnings {c d : Context} {s u : State}
    (h : (S.statements late).Beside c s d u) (ws ws' : Array Warning) :
    (S.statements late).Beside c { s with warnings := ws } d { u with warnings := ws' } :=
  ⟨h.tokens, h.tokens', h.last, h.last', h.limits, h.place, h.related.row, h.related.live,
    h.related.live', h.related.blocks, h.related.blockDepth, h.related.function, h.related.sawReturn⟩

namespace Passage.Follows

variable {rel : α → α → Prop} {rel' : β → β → Prop} {x y : Check α} {t u : Token} {a b : Symbol}

/-! ### Names -/

theorem resolve (name : String) : S.Follows late (Option.Rel (Symbol.Mirrors late))
    (Check.resolve name) (Check.resolve name) := by
  refine ⟨fun _ _ _ _ ↦ Nat.le_refl _, fun h _ _ hrun _ ↦ ?_⟩
  cases hrun
  exact ⟨Arena.rel_lookup h.related.row name, h⟩

/-- What the name stands for has that name. -/
theorem resolveThen {name : String} {f g : Option Symbol → Check β}
    (hf : ∀ found found', Option.Rel (Symbol.Mirrors late) found found' →
      (∀ symbol ∈ found, symbol.name = name) → S.Follows late rel' (f found) (g found')) :
    S.Follows late rel' (Check.resolve name >>= f) (Check.resolve name >>= g) := by
  have hname (c : Context) (s : State) : ∀ symbol ∈ s.arena.lookup c.scope name, symbol.name = name :=
    fun symbol hsymbol ↦ (Arena.holds_of_lookup hsymbol).choose_spec.2
  refine ⟨fun c s hc hs ↦ (ensures_bind _).2 ((hf _ _ (rel_mirrors_refl _) (hname c s)).forward c s hc hs),
    fun {c s d u} h b t hrun hstop ↦ ?_⟩
  obtain ⟨found, after, hfirst, hsecond⟩ := exists_run_bind hrun
  cases hfirst
  exact (ensures_bind _).2 ((hf _ _ (Arena.rel_lookup h.related.row name) (hname c s)).follows h b t
    hsecond hstop)

theorem declaredHere (name : String) :
    S.Follows late Eq (Check.declaredHere name) (Check.declaredHere name) := by
  refine ⟨fun _ _ _ _ ↦ Nat.le_refl _, fun h _ _ hrun _ ↦ ?_⟩
  cases hrun
  exact ⟨(Arena.declaredHere_eq_of_mirrors h.related.row name).symm, h⟩

theorem modifySymbol (name : String) {f : Symbol → Symbol}
    (hname : ∀ symbol, (f symbol).name = symbol.name)
    (hf : ∀ {s u}, Symbol.Mirrors late s u → (f s).Mirrors late (f u)) :
    S.Follows late Eq (Check.modifySymbol name f) (Check.modifySymbol name f) := by
  refine ⟨fun _ _ _ _ ↦ Nat.le_refl _, fun {c s d u} h _ _ hrun _ ↦ ?_⟩
  cases hrun
  obtain ⟨htokens, htokens', hlast, hlast', hlimits, hplace, hrelated⟩ := h
  refine ⟨rfl, htokens, htokens', hlast, hlast', hlimits, hplace,
    Arena.mirrors_modify hrelated.row name hname hf, ?_, ?_, hrelated.blocks, hrelated.blockDepth,
    hrelated.function, hrelated.sawReturn⟩
  · exact (Arena.size_modify f).symm ▸ hrelated.live
  · exact (Arena.size_modify f).symm ▸ hrelated.live'

theorem declare (hsymbol : a.Mirrors late b) (t u : Token) :
    S.Follows late Eq (Check.declare a t) (Check.declare b u) := by
  have hdeclare (c : Context) (s : State) : Ensures (Check.declare a t) c s (fun _ ↦ True)
      fun _ after ↦ ∃ arena, s.arena.insert c.scope a = some arena ∧
        { s with arena := arena } = after := by
    simp only [Check.declare, ensures_bind, ensures_read, ensures_insertSymbol, ensures_ite,
      ensures_pure, ensures_violateAt]
    exact ⟨fun arena harena ↦ ⟨fun _ ↦ ⟨arena, harena, rfl⟩, fun _ ↦ trivial⟩, fun _ ↦ by simp⟩
  refine ⟨fun c s _ _ ↦ (hdeclare c s).mono ?_, fun {c s d v} h _ r hrun _ ↦ ?_⟩
  · rintro _ _ ⟨_, -, rfl⟩
    exact Nat.le_refl _
  · obtain ⟨arena, hinsert, rfl⟩ := (hdeclare c s).of_run hrun
    obtain ⟨htokens, htokens', hlast, hlast', hlimits, hplace, hrelated⟩ := h
    obtain ⟨arena', hinsert', hrow⟩ := Arena.mirrors_insert hrelated.row hsymbol hinsert
    simp only [Check.declare, ensures_bind, ensures_read, ensures_insertSymbol, ensures_ite,
      ensures_pure, ensures_violateAt, hinsert', Option.some.injEq]
    refine ⟨?_, by simp⟩
    rintro _ rfl
    refine ⟨fun _ ↦ ⟨trivial, htokens, htokens', hlast, hlast', hlimits, hplace, hrow, ?_, ?_,
      hrelated.blocks, hrelated.blockDepth, hrelated.function, hrelated.sawReturn⟩,
      by simp⟩
    · exact (Arena.size_insert hinsert).symm ▸ hrelated.live
    · exact (Arena.size_insert hinsert').symm ▸ hrelated.live'

/-- Warnings make no difference. -/
theorem warned {p q : Prop} [Decidable p] [Decidable q] {z w : Check β} {name name' : String}
    (hz : S.Follows late rel' z w) : S.Follows late rel'
      (if p then z else Check.warn name t >>= fun _ ↦ z)
      (if q then w else Check.warn name' u >>= fun _ ↦ w) := by
  have hsecond {c : Context} {s : State} {d : Context} {v : State}
      (h : (S.statements late).Beside c s d v) : (S.statements late).FollowsFrom rel' z
        (if q then w else Check.warn name' u >>= fun _ ↦ w) c s d v := by
    split
    · exact hz.follows h
    · intro b r hrun hstop
      exact (ensures_bind _).2 (hz.follows (h.withWarnings s.warnings _) b r hrun hstop)
  by_cases hp : p
  · rw [if_pos hp]
    exact ⟨hz.forward, hsecond⟩
  · rw [if_neg hp]
    refine ⟨fun c s hc hs ↦ (ensures_bind _).2 (hz.forward c _ hc hs), fun {c s d v} h b r hrun hstop ↦ ?_⟩
    obtain ⟨_, _, hwarn, hrun⟩ := exists_run_bind hrun
    cases hwarn
    exact hsecond (h.withWarnings _ v.warnings) b r hrun hstop

/-! ### Values that are asked for -/

/-- A token that is read stands in the stretch, unless it is the one that is seen past the end. -/
theorem advanceThen {f g : Token → Check β} (hforward : ∀ t, Forward (f t))
    (hf : ∀ t, (t.kind ≠ .eof → S.Has t) → S.Follows late rel' (f t) (g t)) :
    S.Follows late rel' (Check.advance >>= f) (Check.advance >>= g) := by
  refine ⟨.of_forward (.bind .advance hforward), fun {c s d u} h b t hrun hstop ↦ ?_⟩
  obtain ⟨token, after, hfirst, hsecond⟩ := exists_run_bind hrun
  have hafter : after.position ≤ S.stop :=
    Nat.le_trans ((hforward token c after).of_run hsecond) hstop
  have hmoved : Ensures Check.advance c s (fun _ ↦ False) fun a t ↦
      c.tokenAt s.position = a ∧ s.movedTo (c.after s.position) = t := ensures_advance.2 ⟨rfl, rfl⟩
  obtain ⟨htoken, hmoved⟩ := hmoved.of_run hfirst
  have hhas : token.kind ≠ .eof → S.Has token := by
    intro hkind
    have hle : s.position ≤ S.stop := Nat.le_trans (hmoved ▸ c.le_after s.position) hafter
    refine ⟨s.position, h.place.1, hle, ?_⟩
    have htokens : c.tokens = S.tokens := h.tokens
    rw [← htoken, Context.tokenAt, htokens] at hkind ⊢
    cases hthere : S.tokens[s.position]? with
    | some found => rfl
    | none =>
      rw [hthere] at hkind
      exact absurd S.closed (h.last ▸ hkind)
  rw [ensures_bind]
  refine (Passage.Follows.advance.follows h token after hfirst hafter).mono ?_
  rintro _ v ⟨rfl, hbeside⟩
  exact (hf token hhas).follows hbeside b t hsecond hstop

/-- The second run may stop where a value of a scalar is asked for, but only for a name that is late. -/
theorem asked {v : String → Violation} (h : a.Mirrors late b) (hscalar : a.isScalar)
    (hname : a.name = t.lexeme) (ht : S.Has t) (hk : t.kind = .identifier)
    (hv : v = .arraySizeUninitialized ∨ v = .arrayElementUninitialized) {z w x y : Check β}
    (hz : S.Follows late rel' z w) (hx : Quits x)
    (hy : ∀ d u, Ensures y d u (fun e ↦ e.violation = v b.name) fun _ _ ↦ False) :
    S.Follows late rel' (if a.initialized then z else x) (if b.initialized then w else y) := by
  by_cases ha : a.initialized
  · rw [if_pos ha]
    by_cases hb : b.initialized
    · rw [if_pos hb]
      exact hz
    · rw [if_neg hb]
      have hlate : late t.lexeme := hname ▸ (h.initialized hscalar ha).resolve_left hb
      refine ⟨hz.forward, fun {_ _ d u} _ _ _ _ _ ↦ (hy d u).imp (fun e he ↦ ?_) fun _ _ hfalse ↦
        hfalse.elim⟩
      rw [h.name, hname] at he
      refine ⟨t, ht, hk, hlate, ?_⟩
      rcases hv with rfl | rfl
      · exact .inl he
      · exact .inr he
  · rw [if_neg ha]
    exact of_quits hx

/-- What surrounds the two runs is the same. -/
theorem around {f g : Context → Check β} (hf : ∀ c d, d.limits = c.limits → d.blocks = c.blocks →
      d.blockDepth = c.blockDepth → d.function = c.function → S.Follows late rel' (f c) (g d)) :
    S.Follows late rel' (read >>= f) (read >>= g) :=
  ⟨fun c s hc hs ↦ (hf c c rfl rfl rfl rfl).forward c s hc hs,
    fun h ↦ (hf _ _ h.limits h.related.blocks h.related.blockDepth h.related.function).follows h⟩

/-- Both runs have had a return statement. -/
theorem sawReturn : S.Follows late Eq (modify fun s : State ↦ { s with sawReturn := true } : Check Unit)
    (modify fun s : State ↦ { s with sawReturn := true }) := by
  refine ⟨fun _ _ _ _ ↦ Nat.le_refl _, fun h _ _ hrun _ ↦ ?_⟩
  cases hrun
  exact ⟨rfl, h.tokens, h.tokens', h.last, h.last', h.limits, h.place, h.related.row, h.related.live,
    h.related.live', h.related.blocks, h.related.blockDepth, h.related.function, fun _ ↦ rfl⟩

/-! ### Blocks -/

/-- The row in front of which a block had its scope. -/
theorem around_released {x : Check α} (hx : KeepsScopes x) {c : Context} {s after : State}
    {label : String} {a : α} (hlive : c.scope < s.arena.size)
    (hrun : x.runFrom (c.entering s) (s.entered c label) = (.ok a, after)) :
    (∃ scope, after.arena.around s.arena.size =
      scope :: (after.arena.release s.arena.size).around c.scope) ∧
      (after.arena.release s.arena.size).size = s.arena.size := by
  have hleaves : x.leaves (c.entering s) (s.entered c label) = after := congrArg Prod.snd hrun
  have houtline := hx.entered label c s
  rw [hleaves] at houtline
  have hsize : after.arena.size = s.arena.size + 1 := by
    rw [← Arena.length_outline, houtline, List.length_append, Arena.length_outline]
    rfl
  obtain ⟨scope, hscope⟩ := Option.isSome_iff_exists.1
    (Arena.scope?_isSome_iff.2 (Nat.lt_of_lt_of_eq (Nat.lt_succ_self s.arena.size) hsize.symm))
  -- The outline tells the parent of the scope that was opened, and that no other one is open.
  have hparent : scope.parent = some c.scope := by
    have hlast : after.arena.outline[s.arena.size]? = _ := congrArg (·[s.arena.size]?) houtline
    rw [List.getElem?_append_right (Nat.le_of_eq s.arena.length_outline), Arena.length_outline,
      Nat.sub_self, Arena.outline, List.getElem?_map] at hlast
    have hthere : after.arena.scopes.toList[s.arena.size]? = some scope := by
      rw [Array.getElem?_toList]
      exact hscope
    rw [hthere] at hlast
    exact congrArg Prod.snd (Option.some.inj hlast)
  refine ⟨⟨scope, ?_⟩, ?_⟩
  · rw [Arena.around_of_parent hscope hparent hlive, Arena.around_release hlive]
  · rw [← Arena.length_outline, Arena.outline_release _ (Nat.ne_of_gt (Nat.zero_lt_of_lt hlive)),
      houtline, ← Arena.length_outline, List.take_left]

theorem inScope (label : String) (hx : S.Follows late rel x y) (hkeeps : KeepsScopes x)
    (hkeeps' : KeepsScopes y) :
    S.Follows late rel (Check.inScope label x) (Check.inScope label y) := by
  refine ⟨fun c s hc hs ↦ (ensures_inScope label).2 (hx.forward _ _ hc hs),
    fun {c s d u} h a t hrun hstop ↦ ?_⟩
  have hinner : Ensures (Check.inScope label x) c s (fun _ ↦ True) fun a t ↦ ∃ after,
      x.runFrom (c.entering s) (s.entered c label) = (.ok a, after) ∧
        { after with arena := after.arena.release s.arena.size } = t :=
    (ensures_inScope label).2 ((ensures_runs x _ _).mono fun a after hx ↦ ⟨after, hx, rfl⟩)
  obtain ⟨after, hafter, rfl⟩ := hinner.of_run hrun
  obtain ⟨htokens, htokens', hlast, hlast', hlimits, hplace, hrelated⟩ := h
  have hentered : (S.statements late).Beside (c.entering s) (s.entered c label) (d.entering u)
      (u.entered d label) :=
    ⟨htokens, htokens', hlast, hlast', hlimits, hplace,
      Arena.mirrors_push hrelated.row hrelated.live hrelated.live' label, s.lt_size_entered c label,
      u.lt_size_entered d label,
      hrelated.blocks, congrArg (· + 1) hrelated.blockDepth, hrelated.function, hrelated.sawReturn⟩
  refine (ensures_inScope label).2 (((hx.follows hentered a after hafter hstop).and
    (ensures_runs y _ _)).mono ?_)
  rintro b after' ⟨⟨hrel, hbeside⟩, hafter'⟩
  obtain ⟨⟨scope, hrow⟩, hsize⟩ := around_released hkeeps hrelated.live hafter
  obtain ⟨⟨scope', hrow'⟩, hsize'⟩ := around_released hkeeps' hrelated.live' hafter'
  have hrows : RowMirrors late (after.arena.around s.arena.size)
      (after'.arena.around u.arena.size) := hbeside.related.row
  rw [hrow, hrow'] at hrows
  exact ⟨hrel, htokens, htokens', hlast, hlast', hlimits, hbeside.place,
    (List.forall₂_cons.1 hrows).2, hsize.symm ▸ hrelated.live, hsize'.symm ▸ hrelated.live',
    hrelated.blocks, hrelated.blockDepth, hrelated.function, hbeside.related.sawReturn⟩

theorem inBlock (kind : BlockKind) (hx : S.Follows late rel x y) :
    S.Follows late rel (Check.inBlock kind x) (Check.inBlock kind y) := by
  refine ⟨fun c s hc hs ↦ hx.forward _ _ hc hs, fun {c s d u} h a t hrun hstop ↦ ?_⟩
  obtain ⟨htokens, htokens', hlast, hlast', hlimits, hplace, hrelated⟩ := h
  refine (hx.follows (c := { c with blocks := kind :: c.blocks })
    (d := { d with blocks := kind :: d.blocks }) ⟨htokens, htokens', hlast, hlast', hlimits, hplace,
      hrelated.row, hrelated.live, hrelated.live', congrArg (kind :: ·) hrelated.blocks,
      hrelated.blockDepth, hrelated.function, hrelated.sawReturn⟩ a t hrun hstop).mono ?_
  rintro b v ⟨hrel, hbeside⟩
  exact ⟨hrel, htokens, htokens', hlast, hlast', hlimits, hbeside.place, hbeside.related.row,
    hbeside.related.live, hbeside.related.live', hrelated.blocks, hrelated.blockDepth,
    hrelated.function, hbeside.related.sawReturn⟩

end Passage.Follows

end FrontEnd
