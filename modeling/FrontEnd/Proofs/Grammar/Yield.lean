import FrontEnd.Proofs.Grammar.Derivation

/-!
# What the grammar derives

`Yields α w` says that the row `α` derives the word `w` in the grammar of all right-hand sides,
whatever their lookaheads are.  It is a recursion on rows, like a guided derivation, and it is what
membership in the language of the grammar comes to (`mem_language_iff`).

What holds of all words of a category is shown by an *interpretation*: a predicate on words for
every category which every rule of the table respects.  `Yields.interpret` and `Guided.interpret`
carry an interpretation over to everything that is derived, so that nothing but the rules has to be
looked at.
-/

namespace FrontEnd.Grammar

/-- The row `α` derives the word `w`, each category by a rule of the table. -/
inductive Yields : List GrammarSymbol → List Kind → Prop
  | nil : Yields [] []
  | terminal (k : Kind) {α : List GrammarSymbol} {w : List Kind} :
    Yields α w → Yields (.terminal k :: α) (k :: w)
  | nonterminal {A : Nonterminal} {body α : List GrammarSymbol} {u v : List Kind} :
    IsRule (A, body) → Yields body u → Yields α v → Yields (.nonterminal A :: α) (u ++ v)

/-- A word that falls into one piece for each symbol of a row, where the words of the categories are
given. -/
def RowIn (S : Nonterminal → List Kind → Prop) : List GrammarSymbol → List Kind → Prop
  | [], w => w = []
  | .terminal k :: α, w => ∃ v, w = k :: v ∧ RowIn S α v
  | .nonterminal A :: α, w => ∃ u v, w = u ++ v ∧ S A u ∧ RowIn S α v

theorem RowIn.mono {S T : Nonterminal → List Kind → Prop} (h : ∀ A w, S A w → T A w) :
    ∀ {α : List GrammarSymbol} {w : List Kind}, RowIn S α w → RowIn T α w
  | [], _, hw => hw
  | .terminal _ :: _, _, ⟨v, hw, hv⟩ => ⟨v, hw, mono h hv⟩
  | .nonterminal A :: _, _, ⟨u, v, hw, hu, hv⟩ => ⟨u, v, hw, h A u hu, mono h hv⟩

/-- A word of two rows in one falls into one word of each. -/
theorem RowIn.of_append {S : Nonterminal → List Kind → Prop} {β : List GrammarSymbol} :
    ∀ (α : List GrammarSymbol) {w : List Kind}, RowIn S (α ++ β) w →
      ∃ u v, w = u ++ v ∧ RowIn S α u ∧ RowIn S β v
  | [], w, h => ⟨[], w, rfl, rfl, h⟩
  | .terminal k :: α, _, ⟨_, hw, h⟩ => by
    obtain ⟨u, v, rfl, hu, hv⟩ := of_append α h
    exact ⟨k :: u, v, hw, ⟨u, rfl, hu⟩, hv⟩
  | .nonterminal A :: α, _, ⟨x, _, hw, hx, h⟩ => by
    obtain ⟨u, v, rfl, hu, hv⟩ := of_append α h
    exact ⟨x ++ u, v, by rw [hw, List.append_assoc], ⟨x, u, rfl, hx, hu⟩, hv⟩

/-- Words of the categories that every rule of the table respects. -/
def Respected (S : Nonterminal → List Kind → Prop) : Prop :=
  ∀ A, ∀ r ∈ rules A, ∀ w, RowIn S r.body w → S A w

variable {S : Nonterminal → List Kind → Prop} {A : Nonterminal} {α β body : List GrammarSymbol}
  {u v w : List Kind} {rs : List Rewrite}

/-- The rules of the table are those listed for the categories. -/
theorem exists_rule_of_production {k : Kind} (h : production A k = some body) :
    ∃ r ∈ rules A, r.lookaheads.contains k ∧ r.body = body := by
  obtain ⟨r, hr, rfl⟩ := Option.map_eq_some_iff.1 h
  obtain ⟨hk, -⟩ := List.find?_eq_some_iff_append.1 hr
  exact ⟨r, List.mem_of_find?_eq_some hr, hk, rfl⟩

namespace Yields

theorem append (h : Yields α u) (h' : Yields β v) : Yields (α ++ β) (u ++ v) := by
  induction h with
  | nil => exact h'
  | terminal k _ ih => exact .terminal k ih
  | nonterminal hrule hbody _ _ ih => simpa [List.append_assoc] using nonterminal hrule hbody ih

/-- A word derived from two rows in one falls into one word of each. -/
theorem of_append : ∀ {α : List GrammarSymbol} {w : List Kind}, Yields (α ++ β) w →
    ∃ u v, w = u ++ v ∧ Yields α u ∧ Yields β v
  | [], w, h => ⟨[], w, rfl, .nil, h⟩
  | _ :: α, _, .terminal k h => by
    obtain ⟨u, v, rfl, h₁, h₂⟩ := of_append h
    exact ⟨k :: u, v, rfl, .terminal k h₁, h₂⟩
  | _ :: α, _, .nonterminal hrule hbody h => by
    obtain ⟨u, v, rfl, h₁, h₂⟩ := of_append h
    exact ⟨_ ++ u, v, by simp, .nonterminal hrule hbody h₁, h₂⟩

/-- A word of a row is one of the row with its first category replaced. -/
theorem expand (hrule : IsRule (A, body)) (h : Yields (body ++ β) w) :
    Yields (.nonterminal A :: β) w := by
  obtain ⟨u, v, rfl, hu, hv⟩ := of_append h
  exact .nonterminal hrule hu hv

/-- What every rule respects holds of everything that is derived. -/
theorem interpret (hS : Respected S) (h : Yields α w) : RowIn S α w := by
  induction h with
  | nil => rfl
  | terminal k _ ih => exact ⟨_, rfl, ih⟩
  | nonterminal hrule _ _ ihbody ih =>
    obtain ⟨k, hk⟩ := hrule
    obtain ⟨r, hr, -, rfl⟩ := exists_rule_of_production hk
    exact ⟨_, _, rfl, hS _ r hr _ ihbody, ih⟩

theorem interpret_one (hS : Respected S) (h : Yields [.nonterminal A] w) : S A w := by
  obtain ⟨u, v, rfl, hu, rfl⟩ := h.interpret hS
  rwa [List.append_nil]

/-! ### The language of the grammar -/

/-- A word derived by rows is derived in the context-free grammar. -/
theorem derives (h : Yields α w) :
    contextFree.Derives (α.map GrammarSymbol.toSymbol) (w.map Symbol.terminal) := by
  induction h with
  | nil => rfl
  | @terminal k α w _ ih => exact ih.append_left [Symbol.terminal k]
  | @nonterminal A body α u v hrule _ _ ihbody ih =>
    have hone : contextFree.Produces [Symbol.nonterminal A] (body.map GrammarSymbol.toSymbol) :=
      ⟨_, mem_ruleTable_iff.2 ⟨(A, body), hrule, rfl⟩, ContextFreeRule.Rewrites.input_output⟩
    have hfirst := (hone.trans_derives ihbody).append_right (α.map GrammarSymbol.toSymbol)
    have hrest := ih.append_left (u.map Symbol.terminal)
    rw [List.map_append]
    exact hfirst.trans hrest

/-- A row of terminals derives itself. -/
theorem terminals (w : List Kind) : Yields (Grammar.terminals w) w := by
  induction w with
  | nil => exact .nil
  | cons k w ih => exact .terminal k ih

end Yields

theorem toSymbol_injective : Function.Injective GrammarSymbol.toSymbol := by
  rintro (j | A) (k | B) h <;> simp_all [GrammarSymbol.toSymbol]

/-- A rewrite in the grammar can be undone in a derivation by rows. -/
theorem Yields.of_produces {x y : List (Symbol Kind Nonterminal)} (h : contextFree.Produces x y) :
    ∀ {w}, (∃ α, α.map GrammarSymbol.toSymbol = y ∧ Yields α w) →
      ∃ α, α.map GrammarSymbol.toSymbol = x ∧ Yields α w := by
  rintro w ⟨β, rfl, hβ⟩
  obtain ⟨rule, hrule, hrewrites⟩ := h
  obtain ⟨⟨A, body⟩, hbody, rfl⟩ := mem_ruleTable_iff.1 hrule
  obtain ⟨p, q, rfl, hy⟩ := hrewrites.exists_parts
  -- The row after the rewrite is a row before, the body and a row behind.
  obtain ⟨front, behind, rfl, hfront, rfl⟩ := List.map_eq_append_iff.1 hy
  obtain ⟨before, middle, rfl, rfl, hmiddle⟩ := List.map_eq_append_iff.1 hfront
  obtain rfl : middle = body := toSymbol_injective.list_map hmiddle
  obtain ⟨uv, x, rfl, huv, hx⟩ := Yields.of_append hβ
  obtain ⟨u, v, rfl, hu, hv⟩ := Yields.of_append huv
  refine ⟨before ++ .nonterminal A :: behind, ?_, ?_⟩
  · rw [List.map_append, List.map_cons]
    exact List.append_cons _ _ _
  · simpa [List.append_assoc] using hu.append (.nonterminal hbody hv hx)

/-- The language of the grammar is what its start category derives. -/
theorem mem_language_iff : w ∈ contextFree.language ↔ Yields [.nonterminal .program] w := by
  constructor
  · intro h
    have hback : ∀ {x y : List (Symbol Kind Nonterminal)}, contextFree.Derives x y →
        (∃ α, α.map GrammarSymbol.toSymbol = y ∧ Yields α w) →
          ∃ α, α.map GrammarSymbol.toSymbol = x ∧ Yields α w := by
      intro x y hxy
      induction hxy using Relation.ReflTransGen.head_induction_on with
      | refl => exact id
      | head hone _ ih => exact fun hy ↦ Yields.of_produces hone (ih hy)
    have hend : (Grammar.terminals w).map GrammarSymbol.toSymbol = w.map Symbol.terminal := by
      rw [Grammar.terminals, List.map_map]
      rfl
    obtain ⟨α, hα, hyields⟩ := hback h ⟨_, hend, .terminals w⟩
    obtain rfl : α = [.nonterminal .program] := toSymbol_injective.list_map hα
    exact hyields
  · exact Yields.derives

/-! ### Guided derivations -/

/-- What every rule respects holds of what a guided derivation consumes. -/
theorem Guided.interpret (hS : Respected S) (h : Guided α u v rs) :
    ∃ w, u = w ++ v ∧ RowIn S α w := by
  induction h with
  | nil => exact ⟨[], rfl, rfl⟩
  | terminal k _ ih =>
    obtain ⟨w, rfl, hw⟩ := ih
    exact ⟨k :: w, rfl, w, rfl, hw⟩
  | nonterminal hprod _ _ ihbody ih =>
    obtain ⟨w₂, rfl, h₂⟩ := ih
    obtain ⟨w₁, rfl, h₁⟩ := ihbody
    obtain ⟨r, hr, -, rfl⟩ := exists_rule_of_production hprod
    exact ⟨w₁ ++ w₂, by simp, w₁, w₂, rfl, hS _ r hr _ h₁, h₂⟩

end FrontEnd.Grammar
