import FrontEnd.Proofs.Check.Trace

/-!
# What a check ensures, given what it looks up

`Secures M x c s E Q` says of the run of a check what `Ensures` does, as far as all names it looks up
are looked up as `M` has it: in its contexts and states.  So the outcome of a lookup in the middle of
a run can be held on to until the end of it.

A check that looks up nothing secures what it ensures (`secures_iff`), so the operations of the monad
have the equations they have there.
-/

namespace FrontEnd

/-- Lookups of names, each with what surrounded it and the state then. -/
abbrev Lookups : Type := Context → State → String → Prop

/-- The lookups among some moments. -/
def Lookups.among (past : List Moment) : Lookups :=
  fun c s name ↦ ⟨c, s, some name⟩ ∈ past

/-- All lookups among some moments are given ones. -/
def Lookups.Hold (M : Lookups) (past : List Moment) : Prop :=
  ∀ c s name, ⟨c, s, some name⟩ ∈ past → M c s name

/-- What a run of a check ends with if its lookups are given ones. -/
def Secures {α : Type} (M : Lookups) (x : Check α) (c : Context) (s : State)
    (E : SemanticError → Prop) (Q : α → State → Prop) : Prop :=
  M.Hold (x.momentsFrom c s) → Ensures x c s E Q

/-- A check that looks up nothing. -/
def Quiet {α : Type} (x : Check α) : Prop :=
  ∀ c s d t name, ⟨d, t, some name⟩ ∉ x.momentsFrom c s

section

variable {α β : Type} {M : Lookups} {x : Check α} {c : Context} {s : State}
  {E E' : SemanticError → Prop} {Q Q' : α → State → Prop}

theorem Lookups.hold_append {past later : List Moment} :
    M.Hold (later ++ past) ↔ M.Hold past ∧ M.Hold later := by
  refine ⟨fun h ↦ ⟨fun c s name hm ↦ ?_, fun c s name hm ↦ ?_⟩, fun h c s name hm ↦ ?_⟩
  · exact h c s name (List.mem_append_right _ hm)
  · exact h c s name (List.mem_append_left _ hm)
  · exact (List.mem_append.1 hm).elim (h.2 c s name) (h.1 c s name)

namespace Secures

theorem of_ensures (h : Ensures x c s E Q) : Secures M x c s E Q :=
  fun _ ↦ h

theorem imp (h : Secures M x c s E Q) (hE : ∀ e, E e → E' e)
    (hQ : ∀ a after, Q a after → Q' a after) : Secures M x c s E' Q' :=
  fun hM ↦ (h hM).imp hE hQ

theorem mono (h : Secures M x c s E Q) (hQ : ∀ a after, Q a after → Q' a after) :
    Secures M x c s E Q' :=
  h.imp (fun _ he ↦ he) hQ

/-- What is ensured anyway holds beside what is secured. -/
theorem and (h : Secures M x c s E Q) (h' : Ensures x c s E' Q') :
    Secures M x c s E fun a after ↦ Q a after ∧ Q' a after :=
  fun hM ↦ (h hM).and h'

/-- What is secured for two reasons. -/
theorem both (h : Secures M x c s E Q) (h' : Secures M x c s E' Q') :
    Secures M x c s E fun a after ↦ Q a after ∧ Q' a after :=
  fun hM ↦ (h hM).and (h' hM)

/-- What a run secures by its own lookups it ensures. -/
theorem ensures (h : Secures (.among (x.momentsFrom c s)) x c s E Q) : Ensures x c s E Q :=
  h fun _ _ _ hm ↦ hm

end Secures

/-! ### The operations of the monad -/

theorem secures_iff (hx : Quiet x) : Secures M x c s E Q ↔ Ensures x c s E Q :=
  ⟨fun h ↦ h fun d t name hm ↦ absurd hm (hx c s d t name), .of_ensures⟩

theorem secures_bind {Q : β → State → Prop} (f : α → Check β) :
    Secures M (x >>= f) c s E Q ↔
      Secures M x c s E fun a after ↦ Secures M (f a) c after E Q := by
  unfold Secures Ensures
  rw [Check.momentsFrom_bind, Check.runFrom_bind]
  cases x.runFrom c s with
  | mk result after =>
    cases result with
    | error e => rfl
    | ok a =>
      dsimp only
      rw [Lookups.hold_append, and_imp]

theorem secures_map {Q : β → State → Prop} (f : α → β) :
    Secures M (f <$> x) c s E Q ↔ Secures M x c s E fun a after ↦ Q (f a) after := by
  rw [map_eq_pure_bind, secures_bind]
  exact ⟨fun h ↦ h.mono fun a after hpure ↦ hpure fun _ _ _ hm ↦ absurd hm List.not_mem_nil,
    fun h ↦ h.mono fun _ _ h _ ↦ h⟩

theorem secures_discard {Q : PUnit → State → Prop} :
    Secures M (discard x) c s E Q ↔ Secures M x c s E fun _ after ↦ Q ⟨⟩ after := by
  rw [discard, LawfulFunctor.map_const]
  exact secures_map (Function.const α PUnit.unit)

theorem secures_ite (p : Prop) [Decidable p] (y : Check α) :
    Secures M (if p then x else y) c s E Q ↔
      (p → Secures M x c s E Q) ∧ (¬ p → Secures M y c s E Q) := by
  split <;> simp [*]

theorem secures_withReader (f : Context → Context) :
    Secures M (withReader f x) c s E Q ↔ Secures M x (f c) s E Q :=
  Iff.rfl

theorem secures_inBlock (kind : BlockKind) :
    Secures M (Check.inBlock kind x) c s E Q ↔
      Secures M x { c with blocks := kind :: c.blocks } s E Q :=
  Iff.rfl

/-- The lookups of a block are those inside of it. -/
theorem secures_inScope (label : String) :
    Secures M (Check.inScope label x) c s E Q ↔
      Secures M x (c.entering s) (s.entered c label) E fun a after ↦
        Q a (after.released s.arena.size) := by
  have hmoments : (Check.inScope label x).momentsFrom c s =
      ⟨c, (x.leaves (c.entering s) (s.entered c label)).released s.arena.size, none⟩ ::
        (x.momentsFrom (c.entering s) (s.entered c label) ++
          [⟨c.entering s, s.entered c label, none⟩]) := rfl
  have hhold : M.Hold ((Check.inScope label x).momentsFrom c s) ↔
      M.Hold (x.momentsFrom (c.entering s) (s.entered c label)) := by
    unfold Lookups.Hold
    simp [hmoments]
  unfold Secures
  rw [hhold, ensures_inScope]
  exact Iff.rfl

/-- Checks that run alike secure the same. -/
theorem secures_congr {y : Check α} (h : x.run c s [] = y.run c s []) :
    Secures M x c s E Q ↔ Secures M y c s E Q := by
  unfold Secures Ensures Check.momentsFrom Check.runFrom
  rw [h]

theorem secures_resolve {name : String} {Q : Option Symbol → State → Prop} :
    Secures M (Check.resolve name) c s E Q ↔
      (M c s name → Q (s.arena.lookup c.scope name) s) := by
  have hhold : M.Hold ((Check.resolve name).momentsFrom c s) ↔ M c s name := by
    have hmoments : (Check.resolve name).momentsFrom c s = [⟨c, s, some name⟩] := rfl
    unfold Lookups.Hold
    simp only [hmoments, List.mem_singleton, Moment.mk.injEq, Option.some.injEq]
    exact ⟨fun h ↦ h c s name ⟨rfl, rfl, rfl⟩, by rintro h _ _ _ ⟨rfl, rfl, rfl⟩; exact h⟩
  unfold Secures
  rw [hhold]
  exact Iff.rfl

/-! ### Checks that look up nothing -/

theorem Quiet.of_nil (h : ∀ c s, x.momentsFrom c s = []) : Quiet x := by
  intro c s d t name hm
  rw [h c s] at hm
  exact absurd hm List.not_mem_nil

theorem quiet_pure (a : α) : Quiet (pure a : Check α) :=
  .of_nil fun _ _ ↦ rfl

theorem quiet_refuse (e : SemanticError) : Quiet (Check.refuse e : Check α) :=
  .of_nil fun _ _ ↦ rfl

theorem Quiet.bind {f : α → Check β} (hx : Quiet x) (hf : ∀ a, Quiet (f a)) : Quiet (x >>= f) := by
  intro c s d t name hm
  rw [Check.momentsFrom_bind] at hm
  cases hrun : x.runFrom c s with
  | mk result after =>
    rw [hrun] at hm
    cases result with
    | error e => exact hx c s d t name hm
    | ok a => exact (List.mem_append.1 hm).elim (hf a c after d t name) (hx c s d t name)

theorem Quiet.ite {p : Prop} [Decidable p] {y : Check α} (hx : Quiet x) (hy : Quiet y) :
    Quiet (if p then x else y) := by
  split
  · exact hx
  · exact hy

theorem quiet_read : Quiet (read : Check Context) :=
  .of_nil fun _ _ ↦ rfl

theorem quiet_get : Quiet (get : Check State) :=
  .of_nil fun _ _ ↦ rfl

theorem quiet_modify (f : State → State) : Quiet (modify f : Check Unit) := by
  intro c s d t name hm
  cases List.mem_singleton.1 hm

theorem quiet_here : Quiet Check.here :=
  .of_nil fun _ _ ↦ rfl

theorem quiet_peek : Quiet Check.peek :=
  .of_nil fun _ _ ↦ rfl

theorem quiet_peekKind : Quiet Check.peekKind :=
  .of_nil fun _ _ ↦ rfl

theorem quiet_secondKind : Quiet Check.secondKind :=
  .of_nil fun _ _ ↦ rfl

theorem quiet_next? (k : Kind) : Quiet (Check.next? k) :=
  .of_nil fun _ _ ↦ rfl

theorem quiet_declaredHere (name : String) : Quiet (Check.declaredHere name) :=
  .of_nil fun _ _ ↦ rfl

theorem quiet_violateAt (v : Violation) (t : Token) : Quiet (Check.violateAt v t : Check α) :=
  .of_nil fun _ _ ↦ rfl

theorem quiet_violate (v : Violation) : Quiet (Check.violate v : Check α) :=
  .of_nil fun _ _ ↦ rfl

theorem quiet_advance : Quiet Check.advance :=
  quiet_peek.bind fun _ ↦ quiet_here.bind fun _ ↦ quiet_read.bind fun _ ↦
    .ite ((quiet_modify _).bind fun _ ↦ quiet_pure _) (quiet_pure _)

theorem quiet_expect (k : Kind) (wanted : Wanted) : Quiet (Check.expect k wanted) :=
  (quiet_next? k).bind fun _ ↦ .ite quiet_advance <| quiet_peek.bind fun _ ↦
    .ite (quiet_violateAt _ _) (quiet_violateAt _ _)

/-! ### The equations of the operations -/

theorem secures_pure (a : α) : Secures M (pure a : Check α) c s E Q ↔ Q a s :=
  (secures_iff (quiet_pure a)).trans (ensures_pure a)

theorem secures_read {Q : Context → State → Prop} :
    Secures M (read : Check Context) c s E Q ↔ Q c s :=
  secures_iff quiet_read

theorem secures_get {Q : State → State → Prop} :
    Secures M (get : Check State) c s E Q ↔ Q s s :=
  secures_iff quiet_get

theorem secures_modify {Q : Unit → State → Prop} (f : State → State) :
    Secures M (modify f : Check Unit) c s E Q ↔ Q () (f s) :=
  secures_iff (quiet_modify f)

theorem secures_moveTo {index : Nat} {Q : Unit → State → Prop} :
    Secures M (Check.moveTo index) c s E Q ↔ Q () (s.movedTo index) :=
  secures_modify _

theorem secures_refuse {e : SemanticError} :
    Secures M (Check.refuse e : Check α) c s E Q ↔ E e :=
  secures_iff (quiet_refuse e)

theorem secures_here {Q : Nat → State → Prop} :
    Secures M Check.here c s E Q ↔ Q s.position s :=
  (secures_iff quiet_here).trans ensures_here

theorem secures_peek {Q : Token → State → Prop} :
    Secures M Check.peek c s E Q ↔ Q (c.tokenAt s.position) s :=
  (secures_iff quiet_peek).trans ensures_peek

theorem secures_peekKind {Q : Kind → State → Prop} :
    Secures M Check.peekKind c s E Q ↔ Q (c.kindAt s.position) s :=
  (secures_iff quiet_peekKind).trans ensures_peekKind

theorem secures_secondKind {Q : Kind → State → Prop} :
    Secures M Check.secondKind c s E Q ↔ Q (c.kindAt (s.position + 1)) s :=
  (secures_iff quiet_secondKind).trans ensures_secondKind

theorem secures_next? {k : Kind} {Q : Bool → State → Prop} :
    Secures M (Check.next? k) c s E Q ↔ Q (c.kindAt s.position == k) s :=
  (secures_iff (quiet_next? k)).trans ensures_next?

theorem secures_declaredHere {name : String} {Q : Bool → State → Prop} :
    Secures M (Check.declaredHere name) c s E Q ↔ Q (s.arena.declaredHere c.scope name) s :=
  (secures_iff (quiet_declaredHere name)).trans ensures_declaredHere

theorem secures_violateAt (v : Violation) (t : Token) :
    Secures M (Check.violateAt v t : Check α) c s E Q ↔ E ⟨v, t.position⟩ :=
  (secures_iff (quiet_violateAt v t)).trans (ensures_violateAt v t)

theorem secures_violate (v : Violation) :
    Secures M (Check.violate v : Check α) c s E Q ↔ E ⟨v, (c.tokenAt s.position).position⟩ :=
  (secures_iff (quiet_violate v)).trans (ensures_violate v)

theorem secures_advance {Q : Token → State → Prop} :
    Secures M Check.advance c s E Q ↔
      Q (c.tokenAt s.position) (s.movedTo (c.after s.position)) :=
  (secures_iff quiet_advance).trans ensures_advance

theorem secures_expect {k : Kind} {wanted : Wanted} {Q : Token → State → Prop} :
    Secures M (Check.expect k wanted) c s E Q ↔
      (c.kindAt s.position = k → Q (c.tokenAt s.position) (s.movedTo (c.after s.position))) ∧
        (c.kindAt s.position ≠ k → E (c.expected s.position wanted)) :=
  (secures_iff (quiet_expect k wanted)).trans ensures_expect

theorem secures_expectMark {k : Kind} {Q : Token → State → Prop} :
    Secures M (Check.expectMark k) c s E Q ↔
      (c.kindAt s.position = k → Q (c.tokenAt s.position) (s.movedTo (c.after s.position))) ∧
        (c.kindAt s.position ≠ k → E (c.expected s.position (.mark k))) :=
  secures_expect

/-! ### Counted loops -/

variable {σ : Type} {I D : σ → State → Prop}

/-- An invariant of the rounds gives what a loop ends with, when it does not reach its limit. -/
theorem secures_roundsFrom {due : Check Bool} {round : σ → Check (ForInStep σ)}
    (hlimit : ∀ p, E ⟨.scanLimit c.limits.scan, p⟩)
    (hround : ∀ value s, I value s → Secures M due c s E fun more after ↦
      (more = true → Secures M (round value) c after E (AfterRound I D)) ∧
        (more = false → D value after)) :
    ∀ left value s, I value s → Secures M (Check.roundsFrom due round left value) c s E D := by
  intro left
  induction left with
  | zero =>
    intro value s hs
    rw [Check.roundsFrom, secures_bind]
    refine (hround value s hs).mono fun more after h ↦ ?_
    simp only [secures_ite, secures_bind, secures_read, secures_violate, secures_pure]
    exact ⟨fun _ ↦ hlimit _, fun hdone ↦ h.2 (Bool.eq_false_iff.2 hdone)⟩
  | succ left ih =>
    intro value s hs
    rw [Check.roundsFrom, secures_bind]
    refine (hround value s hs).mono fun more after h ↦ ?_
    rw [secures_ite, secures_bind, secures_pure]
    refine ⟨fun hmore ↦ (h.1 hmore).mono fun r later hr ↦ ?_,
      fun hdone ↦ h.2 (Bool.eq_false_iff.2 hdone)⟩
    cases r with
    | done value => exact (secures_pure value).2 hr
    | yield value => exact ih value later hr

theorem secures_roundsWhile {due : Check Bool} {round : σ → Check (ForInStep σ)} {value : σ}
    (hlimit : ∀ p, E ⟨.scanLimit c.limits.scan, p⟩) (hs : I value s)
    (hround : ∀ value s, I value s → Secures M due c s E fun more after ↦
      (more = true → Secures M (round value) c after E (AfterRound I D)) ∧
        (more = false → D value after)) :
    Secures M (Check.roundsWhile due round value) c s E D := by
  rw [Check.roundsWhile, secures_bind, secures_read]
  exact secures_roundsFrom hlimit hround _ _ _ hs

theorem secures_rounds {round : σ → Check (ForInStep σ)} {value : σ}
    (hlimit : ∀ p, E ⟨.scanLimit c.limits.scan, p⟩) (hs : I value s)
    (hround : ∀ value s, I value s → Secures M (round value) c s E (AfterRound I D)) :
    Secures M (Check.rounds round value) c s E D :=
  secures_roundsWhile hlimit hs fun value s h ↦
    (secures_pure true).2 ⟨fun _ ↦ hround value s h, nofun⟩

end

end FrontEnd
