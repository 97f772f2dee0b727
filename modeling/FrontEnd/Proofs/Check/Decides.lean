import FrontEnd.Proofs.Check.Climbing
import FrontEnd.Proofs.Check.Trace

/-!
# Checks that decide a rule

`Decides x c s rule Q` says that a check succeeds if a rule is kept and stops at a violation of
control flow if it is broken; nothing else can stop it but a limit.  Two such checks one after the
other decide both rules (`Decides.bind`), and steps that are known to go on need no rule
(`Decides.after`, `Decides.andThen`).
-/

namespace FrontEnd

open Check

/-- Whether a violation is about where jumps and the blocks of switches stand. -/
def Violation.isControl : Violation → Bool
  | .breakOutsideLoop | .continueOutsideLoop | .continueInSwitch | .nestedSwitch
  | .missingBreak _ | .multipleDefaults | .caseLabelType .. | .duplicateCaseLabel _
  | .misplacedEnd => true
  | _ => false

/-- A check that succeeds if a rule is kept and else stops at a violation of control flow, limits
apart. -/
def Decides {α : Type} (x : Check α) (c : Context) (s : State) (rule : Prop)
    (Q : α → State → Prop) : Prop :=
  Ensures x c s (fun e ↦ e.violation.isLimit ∨ e.violation.isControl ∧ ¬ rule)
    fun a after ↦ rule ∧ Q a after

section

variable {α β : Type} {x : Check α} {f : α → Check β} {c : Context} {s t : State} {P P' : Prop}
  {Q Q' : α → State → Prop} {R : β → State → Prop} {a : α}

namespace Decides

theorem iff (h : Decides x c s P Q) (hP : P ↔ P') : Decides x c s P' Q := by
  rwa [← propext hP]

theorem mono (h : Decides x c s P Q) (hQ : ∀ a after, Q a after → Q' a after) :
    Decides x c s P Q' :=
  Ensures.mono h fun a after ⟨hP, h⟩ ↦ ⟨hP, hQ a after h⟩

/-- What needs no rule goes on where it came to. -/
theorem after (hrun : x.runFrom c s = (.ok a, t)) (h : Decides (f a) c t P R) :
    Decides (x >>= f) c s P R := by
  unfold Decides Ensures at h ⊢
  rwa [Check.runFrom_bind, hrun]

/-- A check may be exchanged for one that runs alike. -/
theorem congr {y : Check α} (hrun : x.runFrom c s = y.runFrom c s)
    (h : Decides (y >>= f) c s P R) : Decides (x >>= f) c s P R := by
  unfold Decides Ensures at h ⊢
  rw [Check.runFrom_bind] at h ⊢
  rwa [hrun]

theorem of_run (hrun : x.runFrom c s = (.ok a, t)) (h : Q a t) : Decides x c s True Q := by
  unfold Decides Ensures
  rw [hrun]
  exact ⟨trivial, h⟩

/-- Two checks one after the other decide both rules. -/
theorem bind (h : Decides x c s P fun a after ↦ Decides (f a) c after P' R) :
    Decides (x >>= f) c s (P ∧ P') R := by
  unfold Decides
  rw [ensures_bind]
  refine Ensures.imp h (fun e he ↦ he.imp_right fun h ↦ ⟨h.1, fun hboth ↦ h.2 hboth.1⟩) ?_
  intro a after ⟨hP, h⟩
  exact Ensures.imp h (fun e he ↦ he.imp_right fun h ↦ ⟨h.1, fun hboth ↦ h.2 hboth.2⟩)
    fun b later ⟨hP', h⟩ ↦ ⟨⟨hP, hP'⟩, h⟩

theorem discard {R : PUnit → State → Prop} (h : Decides x c s P fun _ after ↦ R ⟨⟩ after) :
    Decides (discard x) c s P R := by
  unfold Decides
  rwa [ensures_discard]

theorem pure (h : Q a s) : Decides (pure a) c s True Q :=
  ⟨trivial, h⟩

theorem violateAt {v : Violation} (hv : v.isControl) (token : Token) (hP : ¬ P) :
    Decides (Check.violateAt v token) c s P Q :=
  .inr ⟨hv, hP⟩

theorem violateAt_then {v : Violation} (hv : v.isControl) (token : Token) (hP : ¬ P) :
    Decides (Check.violateAt v token >>= f) c s P R :=
  .inr ⟨hv, hP⟩

/-- Where no limit is reached, a check has decided a rule one way or the other. -/
theorem cases (h : Decides x c s P Q)
    (hlimit : ∀ e, (x.runFrom c s).1 = .error e → e.violation.isLimit = false) :
    (P ∧ ∃ a, (x.runFrom c s).1 = .ok a) ∨
      (¬ P ∧ ∃ e, (x.runFrom c s).1 = .error e ∧ e.violation.isControl) := by
  unfold Decides Ensures at h
  split at h
  next a _ hrun => exact .inl ⟨h.1, a, congrArg Prod.fst hrun⟩
  next e _ hrun =>
    have herror := congrArg Prod.fst hrun
    obtain h | ⟨hcontrol, h⟩ := h
    · exact absurd h (by simp [hlimit e herror])
    · exact .inr ⟨h, e, herror, hcontrol⟩

end Decides

/-- What needs no rule may follow. -/
theorem Decides.andThen
    (h : Decides x c s P fun a after ↦ ∃ b later, (f a).runFrom c after = (.ok b, later) ∧ R b later) :
    Decides (x >>= f) c s P R := by
  have hrest : Decides x c s P fun a after ↦ Decides (f a) c after True R := by
    refine h.mono ?_
    rintro a after ⟨b, later, hrun, hR⟩
    exact .of_run hrun hR
  exact hrest.bind.iff (iff_of_eq (and_true P))

/-! ### Single steps -/

theorem runFrom_skip {k : Kind} (h : c.kindAt s.position = k) (hk : k ≠ .eof) :
    (discard Check.advance).runFrom c s = (.ok (), s.movedTo (s.position + 1)) := by
  refine Ensures.run_eq (ensures_discard.2 (ensures_advance.2 ⟨rfl, ?_⟩))
  rw [Context.after_of_kindAt h hk]

theorem runFrom_advance_of_kindAt {k : Kind} (h : c.kindAt s.position = k) (hk : k ≠ .eof) :
    Check.advance.runFrom c s = (.ok (c.tokenAt s.position), s.movedTo (s.position + 1)) := by
  refine Ensures.run_eq (ensures_advance.2 ⟨rfl, ?_⟩)
  rw [Context.after_of_kindAt h hk]

theorem runFrom_mark {k : Kind} (h : c.kindAt s.position = k) (hk : k ≠ .eof) :
    (discard (expectMark k)).runFrom c s = (.ok (), s.movedTo (s.position + 1)) := by
  refine Ensures.run_eq (ensures_discard.2 (ensures_expectMark.2 ⟨fun _ ↦ ⟨rfl, ?_⟩, absurd h⟩))
  rw [Context.after_of_kindAt h hk]

theorem Decides.inScope {label : String} (h : Decides x (c.entering s) (s.entered c label) P
    fun a after ↦ Q a (after.released s.arena.size)) : Decides (Check.inScope label x) c s P Q := by
  unfold Decides
  rw [ensures_inScope]
  exact h

theorem Decides.withReader {g : Context → Context} (h : Decides x (g c) s P Q) :
    Decides (MonadWithReaderOf.withReader g x) c s P Q :=
  h

theorem Decides.inBlock {kind : BlockKind}
    (h : Decides x { c with blocks := kind :: c.blocks } s P Q) :
    Decides (Check.inBlock kind x) c s P Q :=
  h

/-! ### Loops of a check -/

section

variable {σ : Type} {due : Check Bool} {oneRound : σ → Check (ForInStep σ)} {value : σ} {left : Nat}
  {g : σ → Check β}

theorem runFrom_rounds_of_not_due (hdue : due.runFrom c s = (.ok false, s)) :
    (roundsFrom due oneRound left value).runFrom c s = (.ok value, s) := by
  cases left with
  | zero =>
    rw [roundsFrom, Check.runFrom_bind, hdue]
    rfl
  | succ left =>
    rw [roundsFrom, Check.runFrom_bind, hdue]
    rfl

/-- A round that is due runs, or the limit is reached. -/
theorem decides_round (hdue : due.runFrom c s = (.ok true, s))
    (h : ∀ left, Decides (oneRound value >>= fun r ↦ match r with
      | .done value => g value
      | .yield value => roundsFrom due oneRound left value >>= g) c s P R) :
    Decides (roundsFrom due oneRound left value >>= g) c s P R := by
  cases left with
  | zero =>
    have hlimit : (roundsFrom due oneRound 0 value).runFrom c s =
        (.error ⟨.scanLimit c.limits.scan, (c.tokenAt s.position).position⟩, s) := by
      rw [roundsFrom, Check.runFrom_bind, hdue]
      rfl
    unfold Decides Ensures
    rw [Check.runFrom_bind, hlimit]
    exact .inl rfl
  | succ left =>
    have hrun : (roundsFrom due oneRound (left + 1) value >>= g).runFrom c s =
        (oneRound value >>= fun r ↦ match r with
          | .done value => g value
          | .yield value => roundsFrom due oneRound left value >>= g).runFrom c s := by
      have hfirst : (roundsFrom due oneRound (left + 1) value).runFrom c s =
          (oneRound value >>= fun r ↦ match r with
            | .done value => pure value
            | .yield value => roundsFrom due oneRound left value).runFrom c s := by
        rw [roundsFrom, Check.runFrom_bind, hdue]
        rfl
      rw [Check.runFrom_bind, hfirst, Check.runFrom_bind, Check.runFrom_bind]
      cases (oneRound value).runFrom c s with
      | mk result after =>
        cases result with
        | error e => rfl
        | ok r =>
          cases r with
          | done value => rfl
          | yield value => exact (Check.runFrom_bind _ _ _ _).symm
    unfold Decides Ensures
    rw [hrun]
    exact h left

theorem decides_rounds {R : σ → State → Prop} (hdue : due.runFrom c s = (.ok true, s))
    (h : ∀ left, Decides (oneRound value >>= fun r ↦ match r with
      | .done value => pure value
      | .yield value => roundsFrom due oneRound left value) c s P R) :
    Decides (roundsFrom due oneRound left value) c s P R := by
  rw [← bind_pure (roundsFrom due oneRound left value)]
  refine decides_round hdue fun left ↦ ?_
  simp only [bind_pure]
  exact h left

end

end

end FrontEnd
