import FrontEnd.Grammar.Rules
import Mathlib.Computability.ContextFreeGrammar

/-!
# Derivations in the grammar

Two readings of the table of productions.

* Forgetting the lookaheads, the right-hand sides of the table are the rules of a context-free
  grammar (`contextFree`).  A *leftmost derivation* in it is a list of rewrites, each applied to the
  first category of the row it meets (`Leftmost`).
* Keeping them, a category is rewritten by the one production before the next terminal that is not
  yet consumed.  This is a recursion on rows of symbols: `Guided α u v rs` says that the row `α`,
  read from the terminals `u`, leaves `v` to be read, and that the rewrites made on the way are
  `rs`, in order.

The second is a special case of the first: `Guided.leftmost` lists the rewrites of a guided
derivation as a leftmost derivation of exactly the terminals it consumed, and
`Guided.mem_language` puts a completely consumed word into the language of the grammar.

A guided derivation looks one terminal ahead also when nothing is left; what it sees then is the
end of the input.  No production mentions that end (`not_mem_of_production`), so it is seen but
never consumed.
-/

namespace FrontEnd

/-- A grammar symbol as a symbol of a context-free grammar. -/
def GrammarSymbol.toSymbol (s : GrammarSymbol) :=
  match s with
  | .terminal k => Symbol.terminal (N := Nonterminal) k
  | .nonterminal A => Symbol.nonterminal A

namespace Grammar

/-- A category and a row that replaces it. -/
abbrev Rewrite := Nonterminal × List GrammarSymbol

/-- A row of terminals. -/
def terminals (w : List Kind) : List GrammarSymbol :=
  w.map GrammarSymbol.terminal

@[simp]
theorem terminals_nil : terminals [] = [] := rfl

@[simp]
theorem terminals_append (u v : List Kind) : terminals (u ++ v) = terminals u ++ terminals v :=
  List.map_append

/-- Whether a rewrite is in the table, whatever its lookahead. -/
def IsRule (r : Rewrite) : Prop :=
  ∃ k, production r.1 k = some r.2

/-! ### The context-free grammar -/

/-- A rewrite as a context-free rule. -/
def Rewrite.toRule (r : Rewrite) : ContextFreeRule Kind Nonterminal :=
  ⟨r.1, r.2.map GrammarSymbol.toSymbol⟩

/-- All right-hand sides in the table as context-free rules. -/
def ruleTable : Finset (ContextFreeRule Kind Nonterminal) :=
  (Nonterminal.all.flatMap fun A ↦ Kind.all.filterMap fun k ↦
    (production A k).map fun body ↦ Rewrite.toRule (A, body)).toFinset

theorem mem_ruleTable_iff {r : ContextFreeRule Kind Nonterminal} :
    r ∈ ruleTable ↔ ∃ s : Rewrite, IsRule s ∧ s.toRule = r := by
  rw [ruleTable, List.mem_toFinset]
  simp only [List.mem_flatMap, List.mem_filterMap, Option.map_eq_some_iff]
  constructor
  · rintro ⟨A, -, k, -, body, h, rfl⟩
    exact ⟨(A, body), ⟨k, h⟩, rfl⟩
  · rintro ⟨⟨A, body⟩, ⟨k, h⟩, rfl⟩
    exact ⟨A, A.mem_all, k, k.mem_all, body, h, rfl⟩

/-- The grammar of all right-hand sides in the table, lookaheads forgotten. -/
def contextFree : ContextFreeGrammar Kind where
  NT := Nonterminal
  initial := .program
  rules := ruleTable

/-! ### Leftmost derivations -/

/-- The rewrites `rs`, each applied to the first category of the row, lead from one row to
another. -/
inductive Leftmost : List Rewrite → List GrammarSymbol → List GrammarSymbol → Prop
  | refl (α : List GrammarSymbol) : Leftmost [] α α
  | step (w : List Kind) {A : Nonterminal} {body γ β : List GrammarSymbol} {rs : List Rewrite} :
    Leftmost rs (terminals w ++ (body ++ γ)) β →
      Leftmost ((A, body) :: rs) (terminals w ++ (.nonterminal A :: γ)) β

theorem Leftmost.trans {rs ss : List Rewrite} {α β γ : List GrammarSymbol}
    (h : Leftmost rs α β) (h' : Leftmost ss β γ) : Leftmost (rs ++ ss) α γ := by
  induction h with
  | refl => exact h'
  | step w _ ih => exact .step w (ih h')

/-- A leftmost derivation by rules of the table is a derivation in the context-free grammar. -/
theorem Leftmost.derives {rs : List Rewrite} {α β : List GrammarSymbol} (h : Leftmost rs α β)
    (hrs : ∀ r ∈ rs, IsRule r) :
    contextFree.Derives (α.map GrammarSymbol.toSymbol) (β.map GrammarSymbol.toSymbol) := by
  induction h with
  | refl => rfl
  | @step w A body γ β rs _ ih =>
    have hone : (Rewrite.toRule (A, body)).Rewrites
        ((terminals w ++ (.nonterminal A :: γ)).map GrammarSymbol.toSymbol)
        ((terminals w ++ (body ++ γ)).map GrammarSymbol.toSymbol) := by
      have := (Rewrite.toRule (A, body)).rewrites_of_exists_parts
        ((terminals w).map GrammarSymbol.toSymbol) (γ.map GrammarSymbol.toSymbol)
      simpa [Rewrite.toRule, GrammarSymbol.toSymbol] using this
    have hprod : contextFree.Produces _ _ :=
      ⟨_, mem_ruleTable_iff.2 ⟨_, hrs _ List.mem_cons_self, rfl⟩, hone⟩
    exact hprod.trans_derives (ih fun r hr ↦ hrs r (List.mem_cons_of_mem _ hr))

/-! ### Derivations guided by the table -/

/-- The next terminal to be consumed, which after the last one is the end of the input. -/
def ahead (u : List Kind) : Kind :=
  u.headD .eof

@[simp] theorem ahead_cons (k : Kind) (u : List Kind) : ahead (k :: u) = k := rfl

/-- The row `α`, read from the terminals `u`, leaves `v`; every category on the way is rewritten by
its production before the next terminal, and `rs` are these rewrites in order. -/
inductive Guided : List GrammarSymbol → List Kind → List Kind → List Rewrite → Prop
  | nil (u : List Kind) : Guided [] u u []
  | terminal (k : Kind) {α : List GrammarSymbol} {u v : List Kind} {rs : List Rewrite} :
    Guided α u v rs → Guided (.terminal k :: α) (k :: u) v rs
  | nonterminal {A : Nonterminal} {body α : List GrammarSymbol} {u v x : List Kind}
    {rs ss : List Rewrite} :
    production A (ahead u) = some body → Guided body u v rs → Guided α v x ss →
      Guided (.nonterminal A :: α) u x ((A, body) :: rs ++ ss)

namespace Guided

variable {α β : List GrammarSymbol} {u v x : List Kind} {rs ss : List Rewrite}

/-- Rows one after the other. -/
theorem append (h : Guided α u v rs) (h' : Guided β v x ss) :
    Guided (α ++ β) u x (rs ++ ss) := by
  induction h with
  | nil => exact h'
  | terminal k _ ih => exact .terminal k (ih h')
  | nonterminal hprod hbody _ _ ih =>
    simpa [List.append_assoc] using Guided.nonterminal hprod hbody (ih h')

/-- A derivation of two rows in one falls into one of each. -/
theorem of_append : ∀ {α : List GrammarSymbol} {u : List Kind} {rs : List Rewrite},
    Guided (α ++ β) u x rs →
      ∃ v ss ts, rs = ss ++ ts ∧ Guided α u v ss ∧ Guided β v x ts
  | [], u, rs, h => ⟨u, [], rs, rfl, .nil u, h⟩
  | _ :: α, _, _, .terminal k h => by
    obtain ⟨v, ss, ts, rfl, h₁, h₂⟩ := of_append h
    exact ⟨v, ss, ts, rfl, .terminal k h₁, h₂⟩
  | _ :: α, _, _, .nonterminal hprod hbody h => by
    obtain ⟨v, ss, ts, rfl, h₁, h₂⟩ := of_append h
    exact ⟨v, _, ts, by simp, .nonterminal hprod hbody h₁, h₂⟩

theorem isRule_of_mem (h : Guided α u v rs) : ∀ r ∈ rs, IsRule r := by
  induction h with
  | nil => simp
  | terminal _ _ ih => exact ih
  | @nonterminal A body α u v x rs ss hprod _ _ ih₁ ih₂ =>
    intro r hr
    rcases List.mem_append.1 hr with hr | hr
    · rcases List.mem_cons.1 hr with rfl | hr
      · exact ⟨ahead u, hprod⟩
      · exact ih₁ r hr
    · exact ih₂ r hr

/-- The rewrites of a guided derivation are a leftmost derivation of what it consumed, behind any
terminals already there and in front of any row still to come. -/
theorem leftmost (h : Guided α u v rs) :
    ∃ w, u = w ++ v ∧ ∀ (before : List Kind) (γ : List GrammarSymbol),
      Leftmost rs (terminals before ++ (α ++ γ)) (terminals (before ++ w) ++ γ) := by
  induction h with
  | nil => exact ⟨[], rfl, fun before γ ↦ by simpa using Leftmost.refl _⟩
  | terminal k _ ih =>
    obtain ⟨w, rfl, hw⟩ := ih
    refine ⟨k :: w, rfl, fun before γ ↦ ?_⟩
    simpa [terminals] using hw (before ++ [k]) γ
  | @nonterminal A body α u v x rs ss _ _ _ ih₁ ih₂ =>
    obtain ⟨w₁, rfl, h₁⟩ := ih₁
    obtain ⟨w₂, rfl, h₂⟩ := ih₂
    refine ⟨w₁ ++ w₂, by simp, fun before γ ↦ ?_⟩
    -- The body is derived before anything behind it, and then its terminals stand in front.
    have hbody := h₁ before (α ++ γ)
    have hrest := h₂ (before ++ w₁) γ
    rw [List.append_assoc] at hrest
    exact .step before (hbody.trans hrest)

/-- A row consumed completely has a leftmost derivation of the word consumed. -/
theorem leftmost_nil (h : Guided α u [] rs) : Leftmost rs α (terminals u) := by
  obtain ⟨w, hw, hleft⟩ := h.leftmost
  rw [List.append_nil] at hw
  subst hw
  simpa using hleft [] []

theorem mem_language (h : Guided [.nonterminal .program] u [] rs) :
    u ∈ contextFree.language := by
  have hmap : (terminals u).map GrammarSymbol.toSymbol = u.map Symbol.terminal := by
    rw [terminals, List.map_map]
    rfl
  have hder := h.leftmost_nil.derives h.isRule_of_mem
  exact Eq.mp (congrArg (contextFree.Derives _) hmap) hder

end Guided

/-! ### The end of the input -/

/-- No production mentions the end of the input. -/
theorem not_mem_of_production {A : Nonterminal} {k : Kind} {body : List GrammarSymbol}
    (h : production A k = some body) : GrammarSymbol.terminal .eof ∉ body := by
  obtain ⟨r, hr, rfl⟩ := Option.map_eq_some_iff.1 h
  have hall : ∀ A ∈ Nonterminal.all, ∀ r ∈ rules A, GrammarSymbol.terminal .eof ∉ r.body := by
    decide +kernel
  exact hall A A.mem_all r (List.mem_of_find?_eq_some hr)

/-- The end of the input is never consumed. -/
theorem Guided.eof_not_mem {α : List GrammarSymbol} {u v : List Kind} {rs : List Rewrite}
    (h : Guided α u v rs) (hα : GrammarSymbol.terminal .eof ∉ α) (hv : Kind.eof ∉ v) :
    Kind.eof ∉ u := by
  induction h with
  | nil => exact hv
  | terminal k _ ih =>
    simp only [List.mem_cons, GrammarSymbol.terminal.injEq, not_or] at hα ⊢
    exact ⟨hα.1, ih hα.2 hv⟩
  | nonterminal hprod _ _ ih₁ ih₂ =>
    exact ih₁ (not_mem_of_production hprod) (ih₂ (fun hmem ↦ hα (List.mem_cons_of_mem _ hmem)) hv)

end Grammar

end FrontEnd
