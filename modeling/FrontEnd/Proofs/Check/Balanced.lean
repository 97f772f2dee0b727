import FrontEnd.Proofs.Check.Phrase

/-!
# Stretches of statements

A `Balanced` stretch of tokens closes the braces it opens and holds none of the words that start a
declaration at the top of a program, and not the end of the input.  Other brackets do not matter
here.  Every phrase is balanced.

A search for a closing brace passes over a balanced stretch, so the brace right after one that began
behind an opening brace is the brace found for it (`Balanced.eq_of_searchClose`).
-/

namespace FrontEnd

/-- Kinds that occur in statements, braces aside. -/
def Kind.isOrdinary (k : Kind) : Bool :=
  !([.leftBrace, .rightBrace, .eof, .functionWord, .mainWord, .structWord].contains k)

/-- Tokens from one index up to another with balanced braces. -/
inductive Balanced (kind : Nat → Kind) : Nat → Nat → Prop
  | nil {i : Nat} : Balanced kind i i
  | ordinary {i j : Nat} : (kind i).isOrdinary → Balanced kind (i + 1) j → Balanced kind i j
  | braces {i m j : Nat} :
    kind i = .leftBrace → Balanced kind (i + 1) m → kind m = .rightBrace →
      Balanced kind (m + 1) j → Balanced kind i j

namespace Balanced

variable {kind : Nat → Kind} {i j k : Nat}

theorem one (h : (kind i).isOrdinary) : Balanced kind i (i + 1) :=
  .ordinary h .nil

theorem trans (h : Balanced kind i j) (h' : Balanced kind j k) : Balanced kind i k := by
  induction h with
  | nil => exact h'
  | ordinary hi _ ih => exact .ordinary hi (ih h')
  | braces hi hinner hm _ _ ih => exact .braces hi hinner hm (ih h')

theorem le (h : Balanced kind i j) : i ≤ j := by
  induction h with
  | nil => exact Nat.le_refl _
  | ordinary _ _ ih => omega
  | braces _ _ _ _ ihinner ih => omega

end Balanced

theorem Kind.isOrdinary_iff {k : Kind} : k.isOrdinary ↔ k ≠ .leftBrace ∧ k ≠ .rightBrace ∧
    k ≠ .eof ∧ k ≠ .functionWord ∧ k ≠ .mainWord ∧ k ≠ .structWord := by
  cases k <;> decide

theorem Kind.isOrdinary_of_isPlain {k : Kind} (h : k.isPlain) : k.isOrdinary := by
  cases k <;> first | rfl | cases h

theorem Phrase.balanced {kind : Nat → Kind} {commas : Bool} {i j : Nat}
    (h : Phrase kind commas i j) : Balanced kind i j := by
  induction h with
  | nil => exact .nil
  | plain hi _ ih => exact .ordinary (Kind.isOrdinary_of_isPlain hi) ih
  | comma hi _ ih => exact .ordinary (by rw [hi]; rfl) ih
  | @group b i m j closing hi hbrace _ hm _ ihinner ih =>
    -- No brace is a bracket of a phrase, and other brackets are ordinary here.
    obtain ⟨hopen, hclose⟩ : (kind i).isOrdinary ∧ (kind m).isOrdinary := by
      rcases Kind.closer?_eq_some hi with ⟨hk, rfl⟩ | ⟨hk, rfl⟩ | ⟨hk, -⟩
      · rw [hk, hm]; decide
      · rw [hk, hm]; decide
      · exact absurd hk hbrace
    exact .ordinary hopen (ihinner.trans (.ordinary hclose ih))

section

variable {c : Context} {i j : Nat}

/-- The search for a closing brace passes over a balanced stretch. -/
theorem Balanced.goesOn_searchClose (h : Balanced c.kindAt i j) :
    ∀ {depth : Nat}, 1 ≤ depth →
      GoesOn i j (c.searchClose .leftBrace .rightBrace · i depth)
        (c.searchClose .leftBrace .rightBrace · j depth) := by
  induction h with
  | nil => exact fun _ ↦ .refl _ _
  | ordinary hi _ ih =>
    intro depth hdepth
    obtain ⟨hopen, hclose, heof, -⟩ := Kind.isOrdinary_iff.1 hi
    exact (goesOn_other heof hopen hclose).trans (ih hdepth)
  | braces hi _ hm _ ihinner ih =>
    intro depth hdepth
    exact (goesOn_opening rfl hi).trans <| (ihinner (Nat.le_succ_of_le hdepth)).trans <|
      (goesOn_closing rfl hm hdepth).trans (ih hdepth)

/-- The brace after a balanced stretch behind an opening brace is the one found for it. -/
theorem Balanced.eq_of_searchClose {left k : Nat} (hi : c.kindAt i = .leftBrace)
    (h : Balanced c.kindAt (i + 1) j) (hj : c.kindAt j = .rightBrace)
    (hfound : c.searchClose .leftBrace .rightBrace left i 0 = .found k) : k = j := by
  have hgoes := (goesOn_opening rfl hi).trans (h.goesOn_searchClose (Nat.le_refl 1))
  obtain ⟨rest, hrest⟩ := hgoes.exists_found hfound
  cases rest with
  | zero => cases hrest
  | succ rest => simpa [Context.searchClose, hj] using hrest.symm

end

end FrontEnd
