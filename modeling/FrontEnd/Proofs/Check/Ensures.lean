import FrontEnd.Check.Header

/-!
# What a check ensures

`Ensures x c s E Q` says of the run of a check from a state that it ends with a result and a state
in `Q` or stops at a violation in `E`.  It is the weakest precondition of the run, so it takes the
same shape as the check: each operation of `Check.Basic` has one equation here, and with
`ensures_bind` a check is opened from its first action on.

A check that another one calls is never opened there: its own statement is carried over with
`Ensures.mono`.
-/

namespace FrontEnd

/-- Whether a violation is a limit that was reached. -/
def Violation.isLimit : Violation → Bool
  | .scanLimit _ | .nestingLimit _ => true
  | _ => false

/-- A run that stopped because a limit was reached. -/
def AtLimit {α : Type} (result : Except SemanticError α) : Prop :=
  ∃ err, result = .error err ∧ err.violation.isLimit

/-- What a run of a check ends with. -/
def Ensures {α : Type} (x : Check α) (c : Context) (s : State) (E : SemanticError → Prop)
    (Q : α → State → Prop) : Prop :=
  match x.runFrom c s with
  | (.ok a, after) => Q a after
  | (.error e, _) => E e

section

variable {α β : Type} {x : Check α} {c : Context} {s : State} {E E' : SemanticError → Prop}
  {Q Q' : α → State → Prop}

/-- A larger set of outcomes is ensured as well. -/
theorem Ensures.imp (h : Ensures x c s E Q) (hE : ∀ e, E e → E' e)
    (hQ : ∀ a after, Q a after → Q' a after) : Ensures x c s E' Q' := by
  unfold Ensures at h ⊢
  split at h
  · exact hQ _ _ h
  · exact hE _ h

theorem Ensures.mono (h : Ensures x c s E Q) (hQ : ∀ a after, Q a after → Q' a after) :
    Ensures x c s E Q' :=
  h.imp (fun _ he ↦ he) hQ

theorem Ensures.of_ok (h : Ensures x c s E Q) {a : α} (hrun : (x.runFrom c s).1 = .ok a) :
    Q a (x.runFrom c s).2 := by
  unfold Ensures at h
  split at h
  next hresult =>
    rw [hresult] at hrun ⊢
    cases hrun
    exact h
  next hresult =>
    rw [hresult] at hrun
    cases hrun

theorem Ensures.of_error (h : Ensures x c s E Q) {e : SemanticError}
    (hrun : (x.runFrom c s).1 = .error e) : E e := by
  unfold Ensures at h
  split at h
  next hresult =>
    rw [hresult] at hrun
    cases hrun
  next hresult =>
    rw [hresult] at hrun
    cases hrun
    exact h

theorem Ensures.of_run {a : α} {t : State}
    (h : Ensures x c s E Q) (hrun : x.runFrom c s = (.ok a, t)) : Q a t := by
  unfold Ensures at h
  rwa [hrun] at h

/-- Two things that are known of a run hold together. -/
theorem Ensures.and {E' : SemanticError → Prop} (h : Ensures x c s E Q)
    (h' : Ensures x c s E' Q') : Ensures x c s E fun a after ↦ Q a after ∧ Q' a after := by
  unfold Ensures at h h' ⊢
  split
  next heq =>
    rw [heq] at h h'
    exact ⟨h, h'⟩
  next heq =>
    rw [heq] at h
    exact h

/-- A check that is known to go on with one result and state runs to them. -/
theorem Ensures.run_eq {a : α} {t : State} (h : Ensures x c s (fun _ ↦ False) fun b after ↦ b = a ∧ after = t) :
    x.runFrom c s = (.ok a, t) := by
  unfold Ensures at h
  split at h
  next hrun =>
    obtain ⟨rfl, rfl⟩ := h
    exact hrun
  · exact h.elim

/-- Where a run goes on, it goes on with the result and the state it runs to. -/
theorem ensures_runs (x : Check α) (c : Context) (s : State) :
    Ensures x c s (fun _ ↦ True) fun a after ↦ x.runFrom c s = (.ok a, after) := by
  unfold Ensures
  obtain ⟨_ | _, _⟩ := x.runFrom c s
  · trivial
  · rfl

/-! ### The operations of the monad -/

@[simp]
theorem ensures_pure (a : α) : Ensures (pure a : Check α) c s E Q ↔ Q a s :=
  Iff.rfl

theorem Check.run_bind (x : Check α) (f : α → Check β) (c : Context) (s : State)
    (past : List Moment) :
    (x >>= f).run c s past = match x.run c s past with
      | ((.ok a, after), past) => (f a).run c after past
      | ((.error e, after), past) => ((.error e, after), past) :=
  rfl

theorem Check.ext {x y : Check α} (h : ∀ c s past, x.run c s past = y.run c s past) : x = y := by
  obtain ⟨run, _⟩ := x
  obtain ⟨run', _⟩ := y
  obtain rfl : run = run' := funext fun c ↦ funext fun s ↦ funext fun past ↦ h c s past
  rfl

instance : LawfulMonad Check := by
  refine LawfulMonad.mk' Check (fun x ↦ ?_) (fun _ _ ↦ rfl) (fun x f g ↦ ?_)
  · refine Check.ext fun c s past ↦ ?_
    show (x >>= fun a ↦ pure a).run c s past = _
    rw [Check.run_bind]
    obtain ⟨⟨_ | _, _⟩, _⟩ := x.run c s past <;> rfl
  · refine Check.ext fun c s past ↦ ?_
    simp only [Check.run_bind]
    obtain ⟨⟨_ | _, _⟩, _⟩ := x.run c s past <;> rfl

/-- Moments that have been make no difference to how a check ends. -/
theorem Check.run_fst (x : Check α) (c : Context) (s : State) (past : List Moment) :
    (x.run c s past).1 = x.runFrom c s := by
  rw [x.run_eq]
  rfl

theorem Check.runFrom_bind (x : Check α) (f : α → Check β) (c : Context) (s : State) :
    (x >>= f).runFrom c s = match x.runFrom c s with
      | (.ok a, after) => (f a).runFrom c after
      | (.error e, after) => (.error e, after) := by
  unfold Check.runFrom
  rw [Check.run_bind]
  obtain ⟨⟨_ | a, after⟩, past⟩ := x.run c s []
  · rfl
  · exact (f a).run_fst c after past

@[simp]
theorem ensures_bind {Q : β → State → Prop} (f : α → Check β) :
    Ensures (x >>= f) c s E Q ↔
      Ensures x c s E (fun a after ↦ Ensures (f a) c after E Q) := by
  unfold Ensures
  rw [Check.runFrom_bind]
  cases x.runFrom c s with
  | mk result after => cases result <;> rfl

@[simp]
theorem ensures_map {Q : β → State → Prop} (f : α → β) :
    Ensures (f <$> x) c s E Q ↔ Ensures x c s E (fun a after ↦ Q (f a) after) := by
  rw [map_eq_pure_bind]
  simp only [ensures_bind, ensures_pure]

@[simp]
theorem ensures_discard {Q : PUnit → State → Prop} :
    Ensures (discard x) c s E Q ↔ Ensures x c s E (fun _ after ↦ Q ⟨⟩ after) := by
  rw [discard, LawfulFunctor.map_const]
  exact ensures_map (Function.const α PUnit.unit)

@[simp]
theorem ensures_read {Q : Context → State → Prop} :
    Ensures (read : Check Context) c s E Q ↔ Q c s :=
  Iff.rfl

@[simp]
theorem ensures_get {Q : State → State → Prop} :
    Ensures (get : Check State) c s E Q ↔ Q s s :=
  Iff.rfl

@[simp]
theorem ensures_modify {Q : Unit → State → Prop} (f : State → State) :
    Ensures (modify f : Check Unit) c s E Q ↔ Q () (f s) :=
  Iff.rfl

theorem ensures_modifyGet (f : State → α × State) :
    Ensures (modifyGet f : Check α) c s E Q ↔ Q (f s).1 (f s).2 :=
  Iff.rfl

@[simp]
theorem ensures_refuse (e : SemanticError) : Ensures (Check.refuse e : Check α) c s E Q ↔ E e :=
  Iff.rfl

@[simp]
theorem ensures_withReader (f : Context → Context) :
    Ensures (withReader f x) c s E Q ↔ Ensures x (f c) s E Q :=
  Iff.rfl

@[simp]
theorem ensures_ite (p : Prop) [Decidable p] (y : Check α) :
    Ensures (if p then x else y) c s E Q ↔
      (p → Ensures x c s E Q) ∧ (¬ p → Ensures y c s E Q) := by
  split <;> simp [*]

/-! ### Walking over the tokens -/

/-- The same state at another token. -/
def State.movedTo (s : State) (index : Nat) : State :=
  { s with position := index }

@[simp]
theorem State.position_movedTo (s : State) (index : Nat) : (s.movedTo index).position = index :=
  rfl

@[simp]
theorem State.movedTo_movedTo (s : State) (i j : Nat) : (s.movedTo i).movedTo j = s.movedTo j :=
  rfl

@[simp]
theorem State.movedTo_position (s : State) : s.movedTo s.position = s :=
  rfl

/-- The index after a token; the end of the input stays where it is. -/
def Context.after (c : Context) (index : Nat) : Nat :=
  if index < c.tokens.size then index + 1 else index

theorem Context.lt_size_of_ne_eof {i : Nat} (h : c.kindAt i ≠ .eof) : i < c.tokens.size := by
  refine Nat.lt_of_not_le fun hi ↦ h ?_
  rw [Context.kindAt, Array.getElem?_eq_none hi]
  rfl

theorem Context.after_of_ne_eof {i : Nat} (h : c.kindAt i ≠ .eof) : c.after i = i + 1 :=
  if_pos (Context.lt_size_of_ne_eof h)

theorem Context.after_of_kindAt {i : Nat} {k : Kind} (h : c.kindAt i = k) (hk : k ≠ .eof) :
    c.after i = i + 1 :=
  Context.after_of_ne_eof (h ▸ hk)

theorem Context.kind_tokenAt_of_ne_eof {i : Nat} (h : c.kindAt i ≠ .eof) :
    (c.tokenAt i).kind = c.kindAt i := by
  unfold Context.kindAt at h ⊢
  unfold Context.tokenAt
  cases hi : c.tokens[i]? with
  | none => simp [hi] at h
  | some t => rfl

theorem Context.kind_tokenAt_of_kindAt {i : Nat} {k : Kind} (h : c.kindAt i = k) (hk : k ≠ .eof) :
    (c.tokenAt i).kind = k :=
  (Context.kind_tokenAt_of_ne_eof (h ▸ hk)).trans h

@[simp]
theorem ensures_here {Q : Nat → State → Prop} :
    Ensures Check.here c s E Q ↔ Q s.position s :=
  Iff.rfl

@[simp]
theorem ensures_peek {Q : Token → State → Prop} :
    Ensures Check.peek c s E Q ↔ Q (c.tokenAt s.position) s :=
  Iff.rfl

@[simp]
theorem ensures_peekKind {Q : Kind → State → Prop} :
    Ensures Check.peekKind c s E Q ↔ Q (c.kindAt s.position) s :=
  Iff.rfl

@[simp]
theorem ensures_secondKind {Q : Kind → State → Prop} :
    Ensures Check.secondKind c s E Q ↔ Q (c.kindAt (s.position + 1)) s :=
  Iff.rfl

@[simp]
theorem ensures_next? {k : Kind} {Q : Bool → State → Prop} :
    Ensures (Check.next? k) c s E Q ↔ Q (c.kindAt s.position == k) s :=
  Iff.rfl

@[simp]
theorem ensures_atEnd {Q : Bool → State → Prop} :
    Ensures Check.atEnd c s E Q ↔ Q (c.kindAt s.position == .eof) s :=
  Iff.rfl

@[simp]
theorem ensures_violateAt (v : Violation) (t : Token) :
    Ensures (Check.violateAt v t : Check α) c s E Q ↔ E ⟨v, t.position⟩ :=
  Iff.rfl

@[simp]
theorem ensures_violate (v : Violation) :
    Ensures (Check.violate v : Check α) c s E Q ↔ E ⟨v, (c.tokenAt s.position).position⟩ :=
  Iff.rfl

@[simp]
theorem ensures_moveTo {index : Nat} {Q : Unit → State → Prop} :
    Ensures (Check.moveTo index) c s E Q ↔ Q () (s.movedTo index) :=
  Iff.rfl

@[simp]
theorem ensures_advance {Q : Token → State → Prop} :
    Ensures Check.advance c s E Q ↔
      Q (c.tokenAt s.position) (s.movedTo (c.after s.position)) := by
  simp only [Check.advance, ensures_bind, ensures_peek, ensures_here, ensures_read, ensures_ite,
    ensures_moveTo, ensures_pure]
  by_cases h : s.position < c.tokens.size <;> simp [Context.after, h]

/-- What is said when another token stands here. -/
def Context.expected (c : Context) (index : Nat) (wanted : Wanted) : SemanticError :=
  let found := c.tokenAt index
  ⟨if found.kind = .eof then .unexpectedEnd else .expectedToken wanted found.lexeme,
    found.position⟩

@[simp]
theorem ensures_expect {k : Kind} {wanted : Wanted} {Q : Token → State → Prop} :
    Ensures (Check.expect k wanted) c s E Q ↔
      (c.kindAt s.position = k → Q (c.tokenAt s.position) (s.movedTo (c.after s.position))) ∧
        (c.kindAt s.position ≠ k → E (c.expected s.position wanted)) := by
  simp only [Check.expect, ensures_bind, ensures_next?, ensures_ite, ensures_advance,
    ensures_peek, ensures_violateAt, beq_iff_eq, Context.expected]
  split <;> simp [*]

@[simp]
theorem ensures_expectMark {k : Kind} {Q : Token → State → Prop} :
    Ensures (Check.expectMark k) c s E Q ↔
      (c.kindAt s.position = k → Q (c.tokenAt s.position) (s.movedTo (c.after s.position))) ∧
        (c.kindAt s.position ≠ k → E (c.expected s.position (.mark k))) :=
  ensures_expect

/-! ### Names and blocks -/

@[simp]
theorem ensures_resolve {name : String} {Q : Option Symbol → State → Prop} :
    Ensures (Check.resolve name) c s E Q ↔ Q (s.arena.lookup c.scope name) s :=
  Iff.rfl

@[simp]
theorem ensures_declaredHere {name : String} {Q : Bool → State → Prop} :
    Ensures (Check.declaredHere name) c s E Q ↔ Q (s.arena.declaredHere c.scope name) s :=
  Iff.rfl

/-- A free name is taken up; a taken one leaves the state as it was. -/
theorem runFrom_insertSymbol (scope : Nat) (symbol : Symbol) (c : Context) (s : State) :
    (Check.insertSymbol scope symbol).runFrom c s =
      match s.arena.insert scope symbol with
      | some arena => (.ok true, { s with arena := arena })
      | none => (.ok false, s) := by
  show (_, _) = _
  dsimp only
  cases s.arena.insert scope symbol with
  | none => rfl
  | some arena => rfl

theorem ensures_insertSymbol {scope : Nat} {symbol : Symbol} {Q : Bool → State → Prop} :
    Ensures (Check.insertSymbol scope symbol) c s E Q ↔
      (∀ arena, s.arena.insert scope symbol = some arena → Q true { s with arena := arena }) ∧
        (s.arena.insert scope symbol = none → Q false s) := by
  rw [Check.insertSymbol, ensures_modifyGet]
  cases s.arena.insert scope symbol with
  | none => simp
  | some arena => simp

/-- A function is recorded as it is declared with its record already there. -/
theorem runFrom_recordFunction (keyword : Nat) (name : Token) (info : FunctionInfo) (c : Context)
    (s : State) :
    (Check.recordFunction keyword name info).runFrom c s =
      (Check.declareGlobal (.ofFunction name.lexeme info name.position) name).runFrom c
        { s with
          functions := (name.lexeme, info.scope) :: s.functions
          headers := (keyword, name.lexeme) :: s.headers } := by
  have hrecord : (modifyGet (Check.recording keyword name info) : Check Bool).runFrom c s =
      (.ok (Check.recording keyword name info s).1, (Check.recording keyword name info s).2) := rfl
  rw [Check.recordFunction, Check.declareGlobal, Check.runFrom_bind, Check.runFrom_bind, hrecord,
    runFrom_insertSymbol]
  unfold Check.recording
  dsimp only
  cases s.arena.insert 0 (.ofFunction name.lexeme info name.position) with
  | none => rfl
  | some arena => rfl

theorem ensures_recordFunction_iff {keyword : Nat} {name : Token} {info : FunctionInfo}
    {Q : Unit → State → Prop} :
    Ensures (Check.recordFunction keyword name info) c s E Q ↔
      Ensures (Check.declareGlobal (.ofFunction name.lexeme info name.position) name) c
        { s with
          functions := (name.lexeme, info.scope) :: s.functions
          headers := (keyword, name.lexeme) :: s.headers } E Q := by
  unfold Ensures
  rw [runFrom_recordFunction]

@[simp]
theorem ensures_inScope (label : String) :
    Ensures (Check.inScope label x) c s E Q ↔
      Ensures x { c with scope := s.arena.size, blockDepth := c.blockDepth + 1 }
        { s with arena := s.arena.push c.scope label } E fun a after ↦
          Q a { after with arena := after.arena.release s.arena.size } := by
  simp only [Ensures, Check.inScope, Check.runFrom]
  generalize x.run { c with scope := s.arena.size, blockDepth := c.blockDepth + 1 }
    { s with arena := s.arena.push c.scope label } [] = run
  obtain ⟨⟨_ | _, _⟩, _⟩ := run <;> rfl

@[simp]
theorem ensures_inBlock (kind : BlockKind) :
    Ensures (Check.inBlock kind x) c s E Q ↔
      Ensures x { c with blocks := kind :: c.blocks } s E Q :=
  Iff.rfl

/-! ### Counted loops -/

/-- How a round ends: with the last value or with one for another round. -/
def AfterRound {σ : Type} (I D : σ → State → Prop) (r : ForInStep σ) (after : State) : Prop :=
  match r with
  | .done value => D value after
  | .yield value => I value after

variable {σ : Type} {I D : σ → State → Prop}

@[simp]
theorem afterRound_done (value : σ) : AfterRound I D (.done value) s ↔ D value s :=
  Iff.rfl

@[simp]
theorem afterRound_yield (value : σ) : AfterRound I D (.yield value) s ↔ I value s :=
  Iff.rfl

theorem ensures_roundsFrom_zero {due : Check Bool} {round : σ → Check (ForInStep σ)} {value : σ} :
    Ensures (Check.roundsFrom due round 0 value) c s E D ↔ Ensures due c s E fun more after ↦
      (more = true → E ⟨.scanLimit c.limits.scan, (c.tokenAt after.position).position⟩) ∧
        (more = false → D value after) := by
  simp [Check.roundsFrom]

theorem ensures_roundsFrom_succ {due : Check Bool} {round : σ → Check (ForInStep σ)} {value : σ}
    {left : Nat} :
    Ensures (Check.roundsFrom due round (left + 1) value) c s E D ↔
      Ensures due c s E fun more after ↦
        (more = true → Ensures (round value) c after E (AfterRound
          (fun value later ↦ Ensures (Check.roundsFrom due round left value) c later E D) D)) ∧
        (more = false → D value after) := by
  have hround : ∀ after, Ensures (do match ← round value with
      | .done value => return value
      | .yield value => Check.roundsFrom due round left value) c after E D ↔
      Ensures (round value) c after E (AfterRound
        (fun value later ↦ Ensures (Check.roundsFrom due round left value) c later E D) D) := by
    intro after
    rw [ensures_bind]
    constructor
    · exact fun h ↦ h.mono fun r later hr ↦ by cases r <;> exact hr
    · exact fun h ↦ h.mono fun r later hr ↦ by cases r <;> exact hr
  rw [Check.roundsFrom, ensures_bind]
  constructor
  · refine fun h ↦ h.mono fun more after hmore ↦ ?_
    rw [ensures_ite] at hmore
    exact ⟨fun htrue ↦ (hround after).1 (hmore.1 htrue), fun hfalse ↦ hmore.2 (by simp [hfalse])⟩
  · refine fun h ↦ h.mono fun more after hmore ↦ ?_
    rw [ensures_ite]
    exact ⟨fun htrue ↦ (hround after).2 (hmore.1 htrue),
      fun hfalse ↦ hmore.2 (by simpa using hfalse)⟩

/-- An invariant of the rounds gives what a loop ends with, when it does not reach its limit. -/
theorem ensures_roundsFrom {due : Check Bool} {round : σ → Check (ForInStep σ)}
    (hlimit : ∀ p, E ⟨.scanLimit c.limits.scan, p⟩)
    (hround : ∀ value s, I value s → Ensures due c s E fun more after ↦
      (more = true → Ensures (round value) c after E (AfterRound I D)) ∧
        (more = false → D value after)) :
    ∀ left value s, I value s → Ensures (Check.roundsFrom due round left value) c s E D := by
  intro left
  induction left with
  | zero =>
    intro value s hs
    refine ensures_roundsFrom_zero.2 ((hround value s hs).mono fun more after h ↦ ?_)
    exact ⟨fun _ ↦ hlimit _, h.2⟩
  | succ left ih =>
    intro value s hs
    refine ensures_roundsFrom_succ.2 ((hround value s hs).mono fun more after h ↦ ?_)
    refine ⟨fun hmore ↦ (h.1 hmore).mono fun r later hr ↦ ?_, h.2⟩
    cases r with
    | done value => exact hr
    | yield value => exact ih value later hr

theorem ensures_roundsWhile {due : Check Bool} {round : σ → Check (ForInStep σ)} {value : σ}
    (hlimit : ∀ p, E ⟨.scanLimit c.limits.scan, p⟩) (hs : I value s)
    (hround : ∀ value s, I value s → Ensures due c s E fun more after ↦
      (more = true → Ensures (round value) c after E (AfterRound I D)) ∧
        (more = false → D value after)) :
    Ensures (Check.roundsWhile due round value) c s E D :=
  ensures_roundsFrom hlimit hround _ _ _ hs

/-- Rounds that each stay inside a preorder of states stay inside it together. -/
theorem ensures_roundsWhile_of_rel {due : Check Bool} {round : σ → Check (ForInStep σ)} {value : σ}
    {R : State → State → Prop} (hrefl : ∀ s, R s s)
    (htrans : ∀ {s t u}, R s t → R t u → R s u)
    (hlimit : ∀ p, E ⟨.scanLimit c.limits.scan, p⟩)
    (hdue : ∀ s, Ensures due c s E fun _ after ↦ after = s)
    (hround : ∀ value s, Ensures (round value) c s E fun _ after ↦ R s after) :
    Ensures (Check.roundsWhile due round value) c s E fun _ after ↦ R s after := by
  refine ensures_roundsWhile hlimit (I := fun _ after ↦ R s after) (hrefl s) ?_
  intro value t ht
  refine (hdue t).mono ?_
  rintro more _ rfl
  refine ⟨fun _ ↦ (hround value _).mono fun r after hr ↦ ?_, fun _ ↦ ht⟩
  cases r <;> exact htrans ht hr

theorem ensures_rounds {round : σ → Check (ForInStep σ)} {value : σ}
    (hlimit : ∀ p, E ⟨.scanLimit c.limits.scan, p⟩) (hs : I value s)
    (hround : ∀ value s, I value s → Ensures (round value) c s E (AfterRound I D)) :
    Ensures (Check.rounds round value) c s E D :=
  ensures_roundsWhile hlimit hs fun value s h ↦ by simpa using hround value s h

end

end FrontEnd
