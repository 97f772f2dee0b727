import FrontEnd.Proofs.Check.Readback

/-!
# The reference typing

Climbing precedences over a stretch of tokens and typing a tree come to the same: where the tokens
are a printed expression, the walk gives the type of the tree or fails for the reasons the tree has
none, and where the walk succeeds on tokens that can stand in a printed expression, they are one.

The limits come in only by what they are too small for: the depth of the tree for the levels of
nesting, the number of its tokens for the rounds of a loop.
-/

namespace FrontEnd

open Check

variable (c : Context) (s : State) (levels stop : Nat)

/-- The walk over a printed expression gives the type that the tree has and goes to its end, or
fails with a mistyping if the tree has no type or divides by a bare zero; only a tree that is too
large brings it to a limit.  Tokens of such expressions on which the walk succeeds are a printed
expression. -/
theorem expressionType_reference :
    (∀ e : Expression, e.PrintedAt c s stop →
      let run := (expressionType levels stop).runFrom c s
      (AtLimit run.1 → levels < e.depth ∨ c.limits.scan < e.print.length) ∧
        (¬ AtLimit run.1 →
          (∀ type, run.1 = .ok type ↔ e.HasType (c.scalar? s) type) ∧
          (∀ type, run.1 = .ok type → run.2 = s.movedTo stop) ∧
          ∀ err, run.1 = .error err → err.violation.isMistyping)) ∧
      (c.AdmitsUpTo s stop →
        let run := (expressionType levels stop).runFrom c s
        ∀ type, run.1 = .ok type →
          run.2 = s.movedTo stop ∧ ∃ e : Expression, e.PrintedAt c s stop) := by
  refine ⟨fun e hprinted ↦ ?_, fun hadmits type hok ↦ ?_⟩
  · have hrun : Evaluates (expressionType levels stop) e c s levels stop :=
      evaluates_expressionWith (evaluatesOperands_operand levels) hprinted
    refine ⟨?_, fun hlimits ↦ ⟨fun type ↦ ⟨fun hok ↦ (hrun.of_ok hok).1, fun htype ↦ ?_⟩,
      fun type hok ↦ (hrun.of_ok hok).2, fun err herr ↦ ?_⟩⟩
    · rintro ⟨err, herr, hlimit⟩
      rcases hrun.of_error herr with ⟨-, hsmall⟩ | ⟨hmistyping, -⟩
      · exact hsmall
      · cases hviolation : err.violation <;>
          simp [hviolation, Violation.isLimit, Violation.isMistyping] at hlimit hmistyping
    · cases hresult : ((expressionType levels stop).runFrom c s).1 with
      | ok found => rw [(hrun.of_ok hresult).1.unique htype]
      | error err =>
        rcases hrun.of_error hresult with ⟨hlimit, -⟩ | ⟨-, hnone⟩
        · exact absurd ⟨err, hresult, hlimit⟩ hlimits
        · exact absurd htype (hnone type)
    · rcases hrun.of_error herr with ⟨hlimit, -⟩ | ⟨hmistyping, -⟩
      · exact absurd ⟨err, herr, hlimit⟩ hlimits
      · exact hmistyping
  · have hrun : Ensures (expressionType levels stop) c s _ _ :=
      readsBack_expressionWith (readsOperands_operand levels) hadmits
    exact hrun.of_ok hok

/-- The tokens of `tr || 1 + 2 < 3.50`. -/
def disjunctionTokens : List Token :=
  [⟨.boolLit, "tr", .start⟩, ⟨.either, "||", .start⟩, ⟨.intLit, "1", .start⟩,
    ⟨.plus, "+", .start⟩, ⟨.intLit, "2", .start⟩, ⟨.less, "<", .start⟩,
    ⟨.doubleLit, "3.50", .start⟩]

/-- The tree of `tr || 1 + 2 < 3.50`. -/
def disjunctionTree : Expression :=
  .binary .either (.literal .boolLit "tr")
    (.binary .less (.binary .add (.literal .intLit "1") (.literal .intLit "2"))
      (.literal .doubleLit "3.50"))

theorem disjunctionTree_printedAt :
    disjunctionTree.PrintedAt (.top .default disjunctionTokens) .initial 7 where
  leaves := ⟨rfl, ⟨rfl, rfl⟩, rfl⟩
  guarded := by
    simp [disjunctionTree, Expression.Guarded, Expression.precedence, Operator.precedence,
      Operator.maxPrecedence]
  spells := ⟨rfl, rfl, rfl, rfl, rfl, rfl, rfl, rfl⟩

/-- Addition binds more tightly than comparison and comparison more tightly than disjunction, so
the whole is a truth value. -/
theorem expressionType_disjunction :
    ((expressionType 1 7).runFrom (.top .default disjunctionTokens) .initial).1 = .ok .bool := by
  obtain ⟨hlimit, htype⟩ := (expressionType_reference (.top .default disjunctionTokens) .initial
    1 7).1 disjunctionTree disjunctionTree_printedAt
  have hreached : ¬ AtLimit
      ((expressionType 1 7).runFrom (.top .default disjunctionTokens) .initial).1 :=
    fun h ↦ absurd (hlimit h) (by decide)
  refine ((htype hreached).1 .bool).2 ⟨rfl, ?_⟩
  simp [disjunctionTree, Expression.DividesByZero, Operator.isDivision]

end FrontEnd
