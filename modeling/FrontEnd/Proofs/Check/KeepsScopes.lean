import FrontEnd.Proofs.Check.Traced
import FrontEnd.Proofs.Scope.Outline

/-!
# What checks leave of the scopes

A block that is left early must have released its scope as well.  `KeepsScopes x` says that a run of
`x`, however it ends, leaves as many scopes as there were, with the labels and parents they had, and
the same recorded functions (`SameScopes`).

It follows from the trace of the run, since no change opens a scope or drops one.  The one place
where scopes come and go is a block: its trace starts with one more scope, keeps it, and the release
drops that one (`Trace.sameScopes`).
-/

namespace FrontEnd

/-- States with the same scopes and recorded functions. -/
structure SameScopes (s after : State) : Prop where
  outline : after.arena.outline = s.arena.outline
  functions : after.functions = s.functions

namespace SameScopes

variable {s after later : State}

theorem refl (s : State) : SameScopes s s :=
  ⟨rfl, rfl⟩

theorem trans (h : SameScopes s after) (h' : SameScopes after later) : SameScopes s later :=
  ⟨h'.outline.trans h.outline, h'.functions.trans h.functions⟩

theorem size_eq (h : SameScopes s after) : after.arena.size = s.arena.size := by
  rw [← Arena.length_outline, h.outline, Arena.length_outline]

end SameScopes

/-- A check that leaves the scopes as they were, however it ends. -/
def KeepsScopes {α : Type} (x : Check α) : Prop :=
  ∀ c s, 0 < s.arena.size → SameScopes s (x.leaves c s)

/-- The rules of a walk that changes no scope but within. -/
def Rules.keepingScopes : Rules :=
  ⟨fun _ s t ↦ SameScopes s t, fun _ _ ↦ True⟩

theorem Change.sameScopes {c : Context} {s t : State} (h : Change c s t) : SameScopes s t := by
  cases h with
  | moved | warned | returned => exact ⟨rfl, rfl⟩
  | marked => exact ⟨Arena.outline_modify _, rfl⟩
  | declared hfree => exact ⟨Arena.outline_insert hfree, rfl⟩

instance : Rules.keepingScopes.Ordinary :=
  ⟨Change.sameScopes, fun _ _ ↦ trivial⟩

instance : Rules.keepingScopes.Declaring :=
  ⟨fun _ h ↦ ⟨Arena.outline_insert h, rfl⟩⟩

instance : Rules.keepingScopes.Entering :=
  ⟨fun _ ↦ ⟨rfl, rfl⟩, fun _ _ _ ↦ trivial⟩

theorem Rules.keepingScopes_recordReturn (c : Context) (s : State) (name : String)
    (sawReturn : Bool) : Rules.keepingScopes.change c s
      { s with arena := s.arena.modify 0 name (Symbol.withReturn sawReturn) } :=
  ⟨Arena.outline_modify _, rfl⟩

section

variable {α : Type} {x : Check α} {c : Context} {s t : State} {past : List Moment}

theorem State.outline_entered (s : State) (c : Context) (label : String) :
    (s.entered c label).arena.outline = s.arena.outline ++ [(label, some c.scope)] :=
  Arena.outline_push _ _ _

theorem State.size_entered_pos (s : State) (c : Context) (label : String) :
    0 < (s.entered c label).arena.size := by
  simp [State.entered, Arena.push, Arena.size]

/-- When a block is left, the scope that is released is the one it opened, and no other. -/
theorem SameScopes.released {label : String} (h : SameScopes (s.entered c label) t)
    (hs : 0 < s.arena.size) : SameScopes s (t.released s.arena.size) := by
  refine ⟨?_, h.functions⟩
  show (t.arena.release s.arena.size).outline = s.arena.outline
  rw [Arena.outline_release _ (Nat.ne_of_gt hs), h.outline, State.outline_entered,
    ← Arena.length_outline]
  exact List.take_left

theorem Trace.sameScopes (h : Trace .keepingScopes c s past t) (hs : 0 < s.arena.size) :
    SameScopes s t := by
  induction h with
  | nil => exact .refl _
  | lookup _ _ ih => exact ih hs
  | change _ hchange ih => exact (ih hs).trans hchange
  | inside _ _ _ ih ihinner =>
    have hfirst := ih hs
    exact hfirst.trans (ihinner (hfirst.size_eq ▸ hs))
  | inScope _ label _ ih ihinner =>
    have hfirst := ih hs
    exact hfirst.trans ((ihinner (State.size_entered_pos _ _ _)).released (hfirst.size_eq ▸ hs))

theorem Traced.keepsScopes (hx : Traced .keepingScopes x) : KeepsScopes x :=
  fun c s hs ↦ (hx c s).sameScopes hs

namespace KeepsScopes

variable {β : Type}

/-- The body of a block runs with one scope more. -/
theorem entered (hx : KeepsScopes x) (label : String) (c : Context) (s : State) :
    (x.leaves (c.entering s) (s.entered c label)).arena.outline =
      s.arena.outline ++ [(label, some c.scope)] := by
  rw [(hx (c.entering s) (s.entered c label) (s.size_entered_pos c label)).outline]
  exact s.outline_entered c label

theorem inScope (label : String) (hx : KeepsScopes x) : KeepsScopes (Check.inScope label x) :=
  fun c s hs ↦ (hx (c.entering s) (s.entered c label) (s.size_entered_pos c label)).released hs

end KeepsScopes

end

end FrontEnd
