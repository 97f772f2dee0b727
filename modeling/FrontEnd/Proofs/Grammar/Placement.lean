import FrontEnd.Proofs.Grammar.Yield

/-!
# Where the parts of a word stand

A walk over tokens knows them by their indices, so here a word is a function from indices to kinds
and a category stands on a stretch from one index up to another.

An interpretation in this sense is a set of stretches for every category.  It is *placed* when every
rule of the table respects it wherever the rule applies: the lookahead may be used, which a reading
of words alone forgets.  `Guided.rowAt` carries a placed interpretation over to what a guided
derivation consumes.
-/

namespace FrontEnd.Grammar

/-- The stretch between two indices falls into one piece for each symbol of a row, where the
stretches of the categories are given. -/
def RowAt (kind : Nat → Kind) (S : Nonterminal → Nat → Nat → Prop) :
    List GrammarSymbol → Nat → Nat → Prop
  | [], i, j => i = j
  | .terminal k :: α, i, j => kind i = k ∧ RowAt kind S α (i + 1) j
  | .nonterminal A :: α, i, j => ∃ m, S A i m ∧ RowAt kind S α m j

/-- Stretches of the categories that every rule of the table respects where it applies. -/
def Placed (kind : Nat → Kind) (S : Nonterminal → Nat → Nat → Prop) : Prop :=
  ∀ A, ∀ r ∈ rules A, ∀ i j, kind i ∈ r.lookaheads → RowAt kind S r.body i j → S A i j

/-- The kinds from an index on are those of a word, and after it the input has ended. -/
def Spells (kind : Nat → Kind) (i : Nat) (u : List Kind) : Prop :=
  ∀ n, kind (i + n) = u.getD n .eof

variable {kind : Nat → Kind} {S T : Nonterminal → Nat → Nat → Prop} {i j : Nat} {u v : List Kind}
  {α : List GrammarSymbol} {rs : List Rewrite}

theorem RowAt.mono (h : ∀ A i j, S A i j → T A i j) :
    ∀ {α : List GrammarSymbol} {i : Nat}, RowAt kind S α i j → RowAt kind T α i j
  | [], _, hrow => hrow
  | .terminal _ :: _, _, ⟨hk, hrow⟩ => ⟨hk, hrow.mono h⟩
  | .nonterminal A :: _, i, ⟨m, hA, hrow⟩ => ⟨m, h A i m hA, hrow.mono h⟩

namespace Spells

theorem kind_eq (h : Spells kind i u) : kind i = ahead u := by
  have hfirst := h 0
  cases u <;> exact hfirst

theorem tail {k : Kind} (h : Spells kind i (k :: u)) : Spells kind (i + 1) u := by
  intro n
  have hnext := h (n + 1)
  rw [List.getD_cons_succ] at hnext
  rwa [Nat.add_right_comm, Nat.add_assoc]

end Spells

/-- A guided derivation of what is spelled from an index on consumes a stretch of its row. -/
theorem Guided.rowAt (hS : Placed kind S) (h : Guided α u v rs) :
    ∀ {i : Nat}, Spells kind i u → ∃ j, RowAt kind S α i j ∧ Spells kind j v := by
  induction h with
  | nil => exact fun {i} hspells ↦ ⟨i, rfl, hspells⟩
  | terminal k _ ih =>
    intro i hspells
    obtain ⟨j, hrow, hrest⟩ := ih hspells.tail
    exact ⟨j, ⟨hspells.kind_eq, hrow⟩, hrest⟩
  | nonterminal hprod _ _ ihbody ih =>
    intro i hspells
    obtain ⟨r, hr, hlook, rfl⟩ := exists_rule_of_production hprod
    obtain ⟨m, hbody, hmiddle⟩ := ihbody hspells
    obtain ⟨j, hrow, hrest⟩ := ih hmiddle
    have hmem : kind i ∈ r.lookaheads := by
      rw [hspells.kind_eq]
      exact List.contains_iff_mem.1 hlook
    exact ⟨j, ⟨m, hS _ r hr i m hmem hbody, hrow⟩, hrest⟩

end FrontEnd.Grammar
