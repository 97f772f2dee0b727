import FrontEnd.Proofs.Check.Secures

/-!
# What a check ensures of its lookups

`Upholds L x c s E Q` says of the run of a check what `Ensures` does, and beside it that each of its
lookups is one of `L`.  It is the dual of `Secures`, which takes for granted what the lookups are; again
it takes the shape of the check, with one equation for each operation.

A check that looks up nothing upholds what it ensures (`upholds_iff`).  A `Calm` check is one that also
reports no name as undefined, so that it upholds whatever it is known to lead to.
-/

namespace FrontEnd

/-- What a run of a check ends with, all of its lookups being given ones. -/
structure Upholds {α : Type} (L : Lookups) (x : Check α) (c : Context) (s : State)
    (E : SemanticError → Prop) (Q : α → State → Prop) : Prop where
  lookups : L.Hold (x.momentsFrom c s)
  ensures : Ensures x c s E Q

/-- The name that is reported as undefined, if one is. -/
@[simp]
def Violation.undefined? : Violation → Option String
  | .undefinedVariable name | .undefinedFunction name => some name
  | _ => none

/-- A check that looks up nothing and reports no name as undefined. -/
def Calm {α : Type} (x : Check α) : Prop :=
  ∀ c s, Upholds (fun _ _ _ ↦ False) x c s (fun e ↦ e.violation.undefined? = none) fun _ _ ↦ True

section

variable {α β : Type} {L : Lookups} {x : Check α} {c : Context} {s : State}
  {E E' : SemanticError → Prop} {Q Q' : α → State → Prop}

namespace Upholds

theorem mono (h : Upholds L x c s E Q) (hQ : ∀ a after, Q a after → Q' a after) :
    Upholds L x c s E Q' :=
  ⟨h.lookups, h.ensures.mono hQ⟩

/-- What is ensured anyway holds beside what is upheld. -/
theorem and (h : Upholds L x c s E Q) (h' : Ensures x c s E' Q') :
    Upholds L x c s E fun a after ↦ Q a after ∧ Q' a after :=
  ⟨h.lookups, h.ensures.and h'⟩

end Upholds

/-! ### The operations of the monad -/

theorem upholds_iff (hx : Quiet x) : Upholds L x c s E Q ↔ Ensures x c s E Q :=
  ⟨fun h ↦ h.ensures, fun h ↦ ⟨fun d t name hm ↦ absurd hm (hx c s d t name), h⟩⟩

@[simp]
theorem upholds_bind {Q : β → State → Prop} (f : α → Check β) :
    Upholds L (x >>= f) c s E Q ↔
      Upholds L x c s E fun a after ↦ Upholds L (f a) c after E Q := by
  have hfirst : L.Hold ((x >>= f).momentsFrom c s) ∧ Ensures (x >>= f) c s E Q ↔
      L.Hold (x.momentsFrom c s) ∧ Ensures x c s E fun a after ↦
        L.Hold ((f a).momentsFrom c after) ∧ Ensures (f a) c after E Q := by
    unfold Ensures
    rw [Check.momentsFrom_bind, Check.runFrom_bind]
    cases x.runFrom c s with
    | mk result after =>
      cases result with
      | error e => rfl
      | ok a =>
        dsimp only
        rw [Lookups.hold_append, and_assoc]
  refine ⟨fun h ↦ ?_, fun h ↦ ?_⟩
  · obtain ⟨hlookups, hensures⟩ := hfirst.1 ⟨h.lookups, h.ensures⟩
    exact ⟨hlookups, hensures.mono fun _ _ h ↦ ⟨h.1, h.2⟩⟩
  · obtain ⟨hlookups, hensures⟩ := hfirst.2
      ⟨h.lookups, h.ensures.mono fun _ _ h ↦ ⟨h.lookups, h.ensures⟩⟩
    exact ⟨hlookups, hensures⟩

@[simp]
theorem upholds_pure {a : α} : Upholds L (pure a : Check α) c s E Q ↔ Q a s :=
  (upholds_iff (quiet_pure a)).trans (ensures_pure a)

@[simp]
theorem upholds_map {Q : β → State → Prop} (f : α → β) :
    Upholds L (f <$> x) c s E Q ↔ Upholds L x c s E fun a after ↦ Q (f a) after := by
  rw [map_eq_pure_bind]
  simp only [upholds_bind, upholds_pure]

@[simp]
theorem upholds_discard {Q : PUnit → State → Prop} :
    Upholds L (discard x) c s E Q ↔ Upholds L x c s E fun _ after ↦ Q ⟨⟩ after := by
  rw [discard, LawfulFunctor.map_const]
  exact upholds_map (Function.const α PUnit.unit)

@[simp]
theorem upholds_ite (p : Prop) [Decidable p] (y : Check α) :
    Upholds L (if p then x else y) c s E Q ↔
      (p → Upholds L x c s E Q) ∧ (¬ p → Upholds L y c s E Q) := by
  split <;> simp [*]

@[simp]
theorem upholds_read {Q : Context → State → Prop} :
    Upholds L (read : Check Context) c s E Q ↔ Q c s :=
  upholds_iff quiet_read

@[simp]
theorem upholds_get {Q : State → State → Prop} :
    Upholds L (get : Check State) c s E Q ↔ Q s s :=
  upholds_iff quiet_get

@[simp]
theorem upholds_modify {Q : Unit → State → Prop} (f : State → State) :
    Upholds L (modify f : Check Unit) c s E Q ↔ Q () (f s) :=
  upholds_iff (quiet_modify f)

@[simp]
theorem upholds_withReader (f : Context → Context) :
    Upholds L (withReader f x) c s E Q ↔ Upholds L x (f c) s E Q :=
  ⟨fun h ↦ ⟨h.lookups, h.ensures⟩, fun h ↦ ⟨h.lookups, h.ensures⟩⟩

@[simp]
theorem upholds_inBlock (kind : BlockKind) :
    Upholds L (Check.inBlock kind x) c s E Q ↔
      Upholds L x { c with blocks := kind :: c.blocks } s E Q :=
  upholds_withReader _

/-- The lookups of a block are those inside of it. -/
@[simp]
theorem upholds_inScope (label : String) :
    Upholds L (Check.inScope label x) c s E Q ↔
      Upholds L x (c.entering s) (s.entered c label) E fun a after ↦
        Q a (after.released s.arena.size) := by
  have hhold : L.Hold ((Check.inScope label x).momentsFrom c s) ↔
      L.Hold (x.momentsFrom (c.entering s) (s.entered c label)) := by
    have hmoments : (Check.inScope label x).momentsFrom c s =
        ⟨c, (x.leaves (c.entering s) (s.entered c label)).released s.arena.size, none⟩ ::
          (x.momentsFrom (c.entering s) (s.entered c label) ++
            [⟨c.entering s, s.entered c label, none⟩]) := rfl
    unfold Lookups.Hold
    simp [hmoments]
  exact ⟨fun h ↦ ⟨hhold.1 h.lookups, (ensures_inScope label).1 h.ensures⟩,
    fun h ↦ ⟨hhold.2 h.lookups, (ensures_inScope label).2 h.ensures⟩⟩

@[simp]
theorem upholds_resolve {name : String} {Q : Option Symbol → State → Prop} :
    Upholds L (Check.resolve name) c s E Q ↔
      L c s name ∧ Q (s.arena.lookup c.scope name) s := by
  have hmoments : (Check.resolve name).momentsFrom c s = [⟨c, s, some name⟩] := rfl
  refine ⟨fun h ↦ ⟨h.lookups c s name (by simp [hmoments]), ensures_resolve.1 h.ensures⟩,
    fun h ↦ ⟨fun d t other hm ↦ ?_, ensures_resolve.2 h.2⟩⟩
  rw [hmoments, List.mem_singleton] at hm
  cases hm
  exact h.1

/-! ### Walking over the tokens -/

@[simp]
theorem upholds_here {Q : Nat → State → Prop} :
    Upholds L Check.here c s E Q ↔ Q s.position s :=
  (upholds_iff quiet_here).trans ensures_here

@[simp]
theorem upholds_peek {Q : Token → State → Prop} :
    Upholds L Check.peek c s E Q ↔ Q (c.tokenAt s.position) s :=
  (upholds_iff quiet_peek).trans ensures_peek

@[simp]
theorem upholds_peekKind {Q : Kind → State → Prop} :
    Upholds L Check.peekKind c s E Q ↔ Q (c.kindAt s.position) s :=
  (upholds_iff quiet_peekKind).trans ensures_peekKind

@[simp]
theorem upholds_secondKind {Q : Kind → State → Prop} :
    Upholds L Check.secondKind c s E Q ↔ Q (c.kindAt (s.position + 1)) s :=
  (upholds_iff quiet_secondKind).trans ensures_secondKind

@[simp]
theorem upholds_next? {k : Kind} {Q : Bool → State → Prop} :
    Upholds L (Check.next? k) c s E Q ↔ Q (c.kindAt s.position == k) s :=
  (upholds_iff (quiet_next? k)).trans ensures_next?

@[simp]
theorem upholds_atEnd {Q : Bool → State → Prop} :
    Upholds L Check.atEnd c s E Q ↔ Q (c.kindAt s.position == .eof) s :=
  upholds_next?

@[simp]
theorem upholds_declaredHere {name : String} {Q : Bool → State → Prop} :
    Upholds L (Check.declaredHere name) c s E Q ↔ Q (s.arena.declaredHere c.scope name) s :=
  (upholds_iff (quiet_declaredHere name)).trans ensures_declaredHere

@[simp]
theorem upholds_refuse (e : SemanticError) :
    Upholds L (Check.refuse e : Check α) c s E Q ↔ E e :=
  upholds_iff (quiet_refuse e)

@[simp]
theorem upholds_violateAt (v : Violation) (t : Token) :
    Upholds L (Check.violateAt v t : Check α) c s E Q ↔ E ⟨v, t.position⟩ :=
  upholds_refuse _

@[simp]
theorem upholds_violate (v : Violation) :
    Upholds L (Check.violate v : Check α) c s E Q ↔ E ⟨v, (c.tokenAt s.position).position⟩ :=
  (upholds_iff (quiet_violate v)).trans (ensures_violate v)

@[simp]
theorem upholds_moveTo {index : Nat} {Q : Unit → State → Prop} :
    Upholds L (Check.moveTo index) c s E Q ↔ Q () (s.movedTo index) :=
  upholds_modify _

@[simp]
theorem upholds_advance {Q : Token → State → Prop} :
    Upholds L Check.advance c s E Q ↔
      Q (c.tokenAt s.position) (s.movedTo (c.after s.position)) :=
  (upholds_iff quiet_advance).trans ensures_advance

@[simp]
theorem upholds_expect {k : Kind} {wanted : Wanted} {Q : Token → State → Prop} :
    Upholds L (Check.expect k wanted) c s E Q ↔
      (c.kindAt s.position = k → Q (c.tokenAt s.position) (s.movedTo (c.after s.position))) ∧
        (c.kindAt s.position ≠ k → E (c.expected s.position wanted)) :=
  (upholds_iff (quiet_expect k wanted)).trans ensures_expect

@[simp]
theorem upholds_expectMark {k : Kind} {Q : Token → State → Prop} :
    Upholds L (Check.expectMark k) c s E Q ↔
      (c.kindAt s.position = k → Q (c.tokenAt s.position) (s.movedTo (c.after s.position))) ∧
        (c.kindAt s.position ≠ k → E (c.expected s.position (.mark k))) :=
  upholds_expect

/-! ### Counted loops -/

variable {σ : Type} {I D : σ → State → Prop}

/-- An invariant of the rounds gives what a loop ends with, when it does not reach its limit. -/
theorem upholds_roundsFrom {due : Check Bool} {round : σ → Check (ForInStep σ)}
    (hlimit : ∀ p, E ⟨.scanLimit c.limits.scan, p⟩)
    (hround : ∀ value s, I value s → Upholds L due c s E fun more after ↦
      (more = true → Upholds L (round value) c after E (AfterRound I D)) ∧
        (more = false → D value after)) :
    ∀ left value s, I value s → Upholds L (Check.roundsFrom due round left value) c s E D := by
  intro left
  induction left with
  | zero =>
    intro value s hs
    rw [Check.roundsFrom, upholds_bind]
    refine (hround value s hs).mono fun more after h ↦ ?_
    simp only [upholds_ite, upholds_bind, upholds_read, upholds_violate, upholds_pure]
    exact ⟨fun _ ↦ hlimit _, fun hdone ↦ h.2 (Bool.eq_false_iff.2 hdone)⟩
  | succ left ih =>
    intro value s hs
    rw [Check.roundsFrom, upholds_bind]
    refine (hround value s hs).mono fun more after h ↦ ?_
    rw [upholds_ite, upholds_bind, upholds_pure]
    refine ⟨fun hmore ↦ (h.1 hmore).mono fun r later hr ↦ ?_,
      fun hdone ↦ h.2 (Bool.eq_false_iff.2 hdone)⟩
    cases r with
    | done value => exact upholds_pure.2 hr
    | yield value => exact ih value later hr

theorem upholds_roundsWhile {due : Check Bool} {round : σ → Check (ForInStep σ)} {value : σ}
    (hlimit : ∀ p, E ⟨.scanLimit c.limits.scan, p⟩) (hs : I value s)
    (hround : ∀ value s, I value s → Upholds L due c s E fun more after ↦
      (more = true → Upholds L (round value) c after E (AfterRound I D)) ∧
        (more = false → D value after)) :
    Upholds L (Check.roundsWhile due round value) c s E D := by
  rw [Check.roundsWhile, upholds_bind, upholds_read]
  exact upholds_roundsFrom hlimit hround _ _ _ hs

theorem upholds_rounds {round : σ → Check (ForInStep σ)} {value : σ}
    (hlimit : ∀ p, E ⟨.scanLimit c.limits.scan, p⟩) (hs : I value s)
    (hround : ∀ value s, I value s → Upholds L (round value) c s E (AfterRound I D)) :
    Upholds L (Check.rounds round value) c s E D :=
  upholds_roundsWhile hlimit hs fun value s h ↦
    upholds_pure.2 ⟨fun _ ↦ hround value s h, fun hdone ↦ absurd hdone.symm Bool.false_ne_true⟩

/-! ### Calm checks -/

namespace Calm

variable {y : Check α}

/-- A calm check upholds what it ensures, if only reports of undefined names are restricted. -/
theorem upholds (hx : Calm x) (h : Ensures x c s E' Q)
    (hE : ∀ e, e.violation.undefined? = none → E e) : Upholds L x c s E Q := by
  obtain ⟨hlookups, hensures⟩ := hx c s
  exact ⟨fun d t name hm ↦ (hlookups d t name hm).elim,
    (hensures.and h).imp hE fun _ _ h ↦ h.2⟩

theorem pure (a : α) : Calm (pure a : Check α) :=
  fun _ _ ↦ upholds_pure.2 trivial

theorem refuse {e : SemanticError} (he : e.violation.undefined? = none) :
    Calm (Check.refuse e : Check α) :=
  fun _ _ ↦ (upholds_refuse e).2 he

theorem violateAt {v : Violation} (hv : v.undefined? = none) (t : Token) :
    Calm (Check.violateAt v t : Check α) :=
  refuse hv

theorem violate {v : Violation} (hv : v.undefined? = none) : Calm (Check.violate v : Check α) :=
  fun _ _ ↦ (upholds_violate v).2 hv

theorem bind {f : α → Check β} (hx : Calm x) (hf : ∀ a, Calm (f a)) : Calm (x >>= f) :=
  fun c s ↦ (upholds_bind f).2 ((hx c s).mono fun a after _ ↦ hf a c after)

theorem ite {p : Prop} [Decidable p] (hx : Calm x) (hy : Calm y) : Calm (if p then x else y) := by
  split
  · exact hx
  · exact hy

/-- A check that may come before another one. -/
theorem guard {p : Prop} [Decidable p] (hx : Calm x) {z : Check β} (hz : Calm z) :
    Calm (if p then x >>= fun _ ↦ z else z) :=
  ite (hx.bind fun _ ↦ hz) hz

theorem otherwise {p : Prop} [Decidable p] (hx : Calm x) {z : Check β} (hz : Calm z) :
    Calm (if p then z else x >>= fun _ ↦ z) :=
  ite hz (hx.bind fun _ ↦ hz)

theorem discard (hx : Calm x) : Calm (discard x) :=
  fun c s ↦ upholds_discard.2 (hx c s)

theorem read : Calm (read : Check Context) :=
  fun _ _ ↦ upholds_read.2 trivial

theorem get : Calm (get : Check State) :=
  fun _ _ ↦ upholds_get.2 trivial

theorem modify (f : State → State) : Calm (modify f : Check Unit) :=
  fun _ _ ↦ (upholds_modify f).2 trivial

theorem here : Calm Check.here :=
  fun _ _ ↦ upholds_here.2 trivial

theorem peekKind : Calm Check.peekKind :=
  fun _ _ ↦ upholds_peekKind.2 trivial

theorem next? (k : Kind) : Calm (Check.next? k) :=
  fun _ _ ↦ upholds_next?.2 trivial

theorem atEnd : Calm Check.atEnd :=
  next? .eof

theorem moveTo (index : Nat) : Calm (Check.moveTo index) :=
  modify _

theorem advance : Calm Check.advance :=
  fun _ _ ↦ upholds_advance.2 trivial

theorem expect (k : Kind) (wanted : Wanted) : Calm (Check.expect k wanted) := by
  refine fun c s ↦ upholds_expect.2 ⟨fun _ ↦ trivial, fun _ ↦ ?_⟩
  show (if (c.tokenAt s.position).kind = .eof then Violation.unexpectedEnd
    else .expectedToken wanted (c.tokenAt s.position).lexeme).undefined? = none
  split <;> rfl

theorem expectMark (k : Kind) : Calm (Check.expectMark k) :=
  expect k (.mark k)

theorem matchingClose (opening : Nat) : Calm (Check.matchingClose opening) := by
  refine read.bind fun c ↦ ?_
  split
  · exact violate rfl
  · split
    · exact pure _
    · exact violateAt rfl _
    · exact violate rfl

theorem expressionEnd (terminators : List Kind) : Calm (Check.expressionEnd terminators) := by
  refine read.bind fun c ↦ here.bind fun i ↦ ?_
  split
  · exact pure _
  · exact violate rfl

/-- A change of the state that gives something. -/
theorem modifyGet (f : State → α × State) : Calm (modifyGet f : Check α) := by
  refine fun c s ↦ ⟨fun d t name hm ↦ ?_, trivial⟩
  cases List.mem_singleton.1 hm

theorem insertSymbol (scope : Nat) (symbol : Symbol) : Calm (Check.insertSymbol scope symbol) :=
  modifyGet _

theorem roundsWhile {due : Check Bool} {round : σ → Check (ForInStep σ)} {value : σ}
    (hdue : Calm due) (hround : ∀ value, Calm (round value)) :
    Calm (Check.roundsWhile due round value) := by
  refine fun c s ↦ upholds_roundsWhile (I := fun _ _ ↦ True) (fun _ ↦ rfl) trivial fun value t _ ↦
    (hdue c t).mono fun _ after _ ↦ ⟨fun _ ↦ (hround value c after).mono fun step _ _ ↦ ?_, fun _ ↦ trivial⟩
  cases step <;> trivial

theorem rounds {round : σ → Check (ForInStep σ)} {value : σ}
    (hround : ∀ value, Calm (round value)) : Calm (Check.rounds round value) :=
  roundsWhile (pure true) hround

end Calm

end

end FrontEnd
