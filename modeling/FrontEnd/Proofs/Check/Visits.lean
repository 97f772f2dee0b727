import FrontEnd.Proofs.Check.SymbolLife
import FrontEnd.Proofs.Scope.Gains
import Mathlib.Data.List.Destutter

/-!
# Where a walk goes

The moments of a run say at which token the walk was and inside which function.  Without repetitions
these are the places it visited in order: `Check.visits`.

A walk over statements passes tokens one by one, since each of its steps passes at most one.  So what
it visits on the way from one token to another is every token in between, each once and in order
(`Trace.passes`).  It also gains only what holds values in every scope (`Trace.gains`).
-/

namespace FrontEnd

/-- The function a moment was inside of and the token it was at. -/
def Moment.place? (m : Moment) : Option (String × Nat) :=
  m.context.function.map fun f ↦ (f.name, m.state.position)

/-- The places of a row of moments, oldest first. -/
def places (past : List Moment) : List (String × Nat) :=
  past.reverse.filterMap Moment.place?

/-- The places inside functions that a run visits, one after the other. -/
def Check.visits {α : Type} (x : Check α) (c : Context) (s : State) : List (String × Nat) :=
  (places (x.momentsFrom c s)).destutter (· ≠ ·)

/-- The rules of a walk that stays inside the function it is in. -/
def Rules.staying : Rules :=
  ⟨fun _ _ _ ↦ True, fun c d ↦ d.function = c.function⟩

/-- The rules of a walk that stays inside its function and passes tokens one by one. -/
def Rules.passing : Rules :=
  ⟨fun _ s t ↦ t.position = s.position ∨ t.position = s.position + 1,
    fun c d ↦ d.function = c.function⟩

/-- The rules of a walk on which scopes gain only what holds values. -/
def Rules.gaining : Rules :=
  ⟨fun _ s t ↦ s.arena.Gains t.arena, fun _ _ ↦ True⟩

/-- Inside a function, the moments lead from one token to another and visit every token in between,
whatever is visited after them. -/
structure Passes (name : String) (i : Nat) (past : List Moment) (j : Nat) : Prop where
  le : i ≤ j
  places : ∀ rest, (FrontEnd.places past ++ rest).destutter' (· ≠ ·) (name, i) =
    (List.range' i (j - i)).map (name, ·) ++ rest.destutter' (· ≠ ·) (name, j)

section

variable {c : Context} {s t : State} {past later : List Moment} {name : String} {i j k : Nat}

theorem places_append (later past : List Moment) : places (later ++ past) = places past ++ places later := by
  simp [places]

/-! ### Staying inside -/

instance : Rules.staying.Ordinary :=
  ⟨fun _ ↦ trivial, fun _ _ ↦ rfl⟩

instance : Rules.staying.Surveying where
  declared _ _ := trivial
  opened _ := trivial
  recorded _ _ := trivial

theorem Trace.function_eq (h : Trace .staying c s past t) :
    ∀ m ∈ past, m.context.function = c.function := by
  induction h with
  | nil => exact fun m hm ↦ absurd hm List.not_mem_nil
  | lookup _ _ ih | change _ _ ih =>
    intro m hm
    obtain rfl | hm := List.mem_cons.1 hm
    · rfl
    · exact ih m hm
  | inside _ hinside _ ih ihinner =>
    intro m hm
    obtain hm | hm := List.mem_append.1 hm
    · exact (ihinner m hm).trans hinside
    · exact ih m hm
  | inScope _ _ _ ih ihinner =>
    intro m hm
    obtain rfl | hm := List.mem_cons.1 hm
    · rfl
    · obtain hm | hm := List.mem_append.1 hm
      · exact ihinner m hm
      · obtain rfl | hm := List.mem_cons.1 hm
        · rfl
        · exact ih m hm

/-- A walk outside of all functions visits no place inside one. -/
theorem Trace.places_eq_nil (h : Trace .staying c s past t) (hfunction : c.function = none) :
    places past = [] := by
  refine List.filterMap_eq_nil_iff.2 fun m hm ↦ ?_
  rw [Moment.place?, h.function_eq m (List.mem_reverse.1 hm), hfunction]
  rfl

/-! ### Passing tokens one by one -/

theorem Step.passes (h : Step c s t) : t.position = s.position ∨ t.position = s.position + 1 := by
  cases h with
  | passed =>
    show c.after s.position = _ ∨ c.after s.position = _
    unfold Context.after
    split
    · exact .inr rfl
    · exact .inl rfl
  | warned | marked | declared | refused | returned => exact .inl rfl

instance : Rules.passing.Stepping where
  step h := h.passes
  within _ _ := rfl

namespace Passes

theorem nil (name : String) (i : Nat) : Passes name i [] i :=
  ⟨Nat.le_refl i, by simp [FrontEnd.places]⟩

/-- A moment at the token at hand or at the next one. -/
theorem one {m : Moment} (hplace : m.place? = some (name, j)) (h : j = i ∨ j = i + 1) :
    Passes name i [m] j := by
  have hplaces : FrontEnd.places [m] = [(name, j)] := by simp [FrontEnd.places, hplace]
  refine ⟨by omega, fun rest ↦ ?_⟩
  rw [hplaces]
  obtain rfl | rfl := h
  · simp
  · rw [Nat.add_sub_cancel_left]
    exact List.destutter'_cons_pos _ (by simp)

theorem append (h : Passes name i past j) (h' : Passes name j later k) :
    Passes name i (later ++ past) k := by
  have hle := h.le
  have hle' := h'.le
  refine ⟨Nat.le_trans hle hle', fun rest ↦ ?_⟩
  have hlength : k - i = (j - i) + (k - j) := by omega
  have hmiddle : i + (j - i) = j := by omega
  rw [places_append, List.append_assoc, h.places, h'.places, hlength, ← List.range'_append_1, hmiddle,
    List.map_append, List.append_assoc]

end Passes

/-- A walk over statements visits every token on its way. -/
theorem Trace.passes (h : Trace .passing c s past t) {f : FunctionContext}
    (hfunction : c.function = some f) : Passes f.name s.position past t.position := by
  have hplace {d : Context} (u : State) (lookup : Option String) (hd : d.function = some f) :
      (⟨d, u, lookup⟩ : Moment).place? = some (f.name, u.position) := by
    unfold Moment.place?
    rw [hd]
    rfl
  induction h with
  | nil c s => exact .nil f.name s.position
  | lookup _ _ ih => exact (ih hfunction).append (.one (hplace _ _ hfunction) (.inl rfl))
  | change _ hchange ih => exact (ih hfunction).append (.one (hplace _ _ hfunction) hchange)
  | inside _ hinside _ ih ihinner =>
    exact (ih hfunction).append (ihinner (hinside.trans hfunction))
  | @inScope c s t u _ _ _ label _ ih ihinner =>
    have hentered : (c.entering t).function = some f := hfunction
    have hopened : Passes f.name t.position [⟨c.entering t, t.entered c label, none⟩] t.position :=
      .one (hplace _ _ hentered) (.inl rfl)
    have hreleased : Passes f.name u.position [⟨c, u.released t.arena.size, none⟩] u.position :=
      .one (hplace _ _ hfunction) (.inl rfl)
    exact (((ih hfunction).append hopened).append (ihinner hentered)).append hreleased

/-! ### What scopes gain -/

theorem Step.gains (h : Step c s t) : s.arena.Gains t.arena := by
  cases h with
  | passed | warned | refused | returned => exact .refl _
  | marked name part _ =>
    exact .modify (.modify Symbol.Later.refl fun _ _ symbol _ _ ↦ (part.marked_mark symbol).toLater)
  | declared hvalue _ hinsert => exact .insert hvalue hinsert

instance : Rules.gaining.Stepping where
  step h := h.gains
  within _ _ := trivial

theorem Trace.gains (h : Trace .gaining c s past t) (hs : 0 < s.arena.size) :
    s.arena.Gains t.arena := by
  induction h with
  | nil => exact .refl _
  | lookup _ _ ih => exact ih hs
  | change _ hchange ih => exact (ih hs).trans hchange
  | inside _ _ _ ih ihinner =>
    have hfirst := ih hs
    exact hfirst.trans (ihinner (hfirst.size ▸ hs))
  | inScope _ label _ ih ihinner =>
    have hfirst := ih hs
    exact hfirst.trans
      ((ihinner (State.size_entered_pos _ _ label)).released (hfirst.size ▸ hs))

end

end FrontEnd
