import FrontEnd.Proofs.Check.Balanced
import FrontEnd.Proofs.Grammar.Placement

/-!
# The brackets of the grammar

The stretch on which a category of expressions stands is a `Phrase`, and the stretch of every
category below the top of a program is `Balanced`.  Both are read off the table: a row is passed
over with the brackets that are open, and what is asked of it is decided once for all rows.

A search ahead from a bracket then comes to the bracket that the rule pairs it with.
-/

namespace FrontEnd

open Grammar Nonterminal

/-! ### Phrases -/

/-- The categories of expressions, and of what may stand inside the header of a loop. -/
def Grammar.isExpression : Nonterminal → Bool
  | boolValue | charValue | stringValue | intArithmetic | intOperand | intLiteral | doubleLiteral
  | moreIntArithmetic | countedName | countedNameTail | countSign | arithmeticOperator
  | logicalOperator | relationalOperator | nameUse | nameUseTail | place | placeTail | arrayAccess
  | index | secondIndex | memberAccess | call | arguments | argument | moreArguments | expression
  | operandChain | operand | operandTail | doubleArithmetic | numericOperand | moreDoubleArithmetic
  | concatenation | concatenated | moreConcatenation | condition | outputValue | moreOutput
  | assignOperator | forStart | forCondition | forStep | forStepTail | forStepBefore
  | forStepValue => true
  | _ => false

/-- The categories of expressions that hold commas outside of brackets. -/
def Grammar.isList : Nonterminal → Bool
  | arguments | moreArguments | moreOutput => true
  | _ => false

/-- Whether a row closes the brackets that are open, innermost first, and those it opens. -/
def Grammar.Nests (commas : Bool) : List Kind → List GrammarSymbol → Bool
  | awaited, [] => awaited.isEmpty
  | awaited, .nonterminal A :: α =>
    isExpression A && (!isList A || commas || !awaited.isEmpty) && Nests commas awaited α
  | awaited, .terminal k :: α =>
    if k.isPlain || (k == .comma && (commas || !awaited.isEmpty)) then Nests commas awaited α
    else match k.closer? with
      | some closing => k != .leftBrace && Nests commas (closing :: awaited) α
      | none =>
        match awaited with
        | closing :: outer => k == closing && Nests commas outer α
        | [] => false

/-- Phrases up to each of the awaited brackets and one behind them. -/
def Phrases (kind : Nat → Kind) (commas : Bool) : List Kind → Nat → Nat → Prop
  | [], i, j => Phrase kind commas i j
  | closing :: outer, i, j =>
    ∃ m, Phrase kind true i m ∧ kind m = closing ∧ Phrases kind commas outer (m + 1) j

section

variable {kind : Nat → Kind} {commas : Bool} {awaited : List Kind} {closing : Kind} {i j m : Nat}

/-- Where commas may stand, none need to. -/
theorem Phrase.weaken {b b' : Bool} (h : Phrase kind b i j) (hb : b = true → b' = true) :
    Phrase kind b' i j := by
  cases b' with
  | true => exact h.withCommas
  | false =>
    obtain rfl : b = false := by simpa using hb
    exact h

namespace Phrases

/-- What may stand in front of the first phrase. -/
theorem prepend (h : ∀ {j}, Phrase kind (commas || !awaited.isEmpty) m j →
    Phrase kind (commas || !awaited.isEmpty) i j) (hrest : Phrases kind commas awaited m j) :
    Phrases kind commas awaited i j := by
  cases awaited with
  | nil =>
    rw [List.isEmpty_nil, Bool.not_true, Bool.or_false] at h
    exact h hrest
  | cons closing outer =>
    rw [List.isEmpty_cons, Bool.not_false, Bool.or_true] at h
    obtain ⟨n, hn, hclose, hrest⟩ := hrest
    exact ⟨n, h hn, hclose, hrest⟩

theorem group (hopen : (kind i).closer? = some closing) (hbrace : kind i ≠ .leftBrace)
    (h : Phrases kind commas (closing :: awaited) (i + 1) j) : Phrases kind commas awaited i j := by
  obtain ⟨m, hinner, hclose, hrest⟩ := h
  exact prepend (fun hbehind ↦ .group hopen hbrace hinner hclose hbehind) hrest

end Phrases

/-- What the categories of expressions stand on. -/
def OnPhrases (kind : Nat → Kind) (A : Nonterminal) (i j : Nat) : Prop :=
  isExpression A → Phrase kind (isList A) i j

/-- A row that nests stands on phrases. -/
theorem phrases_of_nests {α : List GrammarSymbol} (hrow : RowAt kind (OnPhrases kind) α i j)
    (h : Nests commas awaited α) : Phrases kind commas awaited i j := by
  fun_induction Nests commas awaited α generalizing i with
  | case1 awaited =>
    obtain rfl : awaited = [] := by simpa using h
    obtain rfl : i = j := hrow
    exact .nil
  | case2 awaited A α ih =>
    obtain ⟨m, hA, hrow⟩ := hrow
    simp only [Bool.and_eq_true, Bool.or_eq_true] at h
    obtain ⟨⟨hexpression, hcommas⟩, hnests⟩ := h
    refine Phrases.prepend (fun hbehind ↦ ((hA hexpression).weaken fun hlist ↦ ?_).trans hbehind)
      (ih hrow hnests)
    simpa [hlist] using hcommas
  | case3 awaited k α hpass ih =>
    obtain ⟨rfl, hrow⟩ := hrow
    refine Phrases.prepend (fun hbehind ↦ ?_) (ih hrow h)
    rcases Bool.or_eq_true_iff.1 hpass with hplain | hcomma
    · exact .plain hplain hbehind
    · obtain ⟨hk, hallowed⟩ := Bool.and_eq_true_iff.1 hcomma
      rw [hallowed] at hbehind ⊢
      exact .comma (by simpa using hk) hbehind
  | case4 awaited k α _ closing hopen ih =>
    obtain ⟨rfl, hrow⟩ := hrow
    obtain ⟨hbrace, hnests⟩ := Bool.and_eq_true_iff.1 h
    exact Phrases.group hopen (by simpa using hbrace) (ih hrow hnests)
  | case5 k α _ _ closing outer ih =>
    obtain ⟨rfl, hrow⟩ := hrow
    obtain ⟨hclose, hnests⟩ := Bool.and_eq_true_iff.1 h
    exact ⟨i, .nil, by simpa using hclose, ih hrow hnests⟩
  | case6 => cases h

/-! ### Balanced stretches -/

/-- The categories that do not hold the words of the top of a program. -/
def Grammar.isInner : Nonterminal → Bool
  | program | globalDeclarations | functions | structDeclaration => false
  | _ => true

/-- Whether a row closes a number of open braces and those it opens. -/
def Grammar.NestsBraces : Nat → List GrammarSymbol → Bool
  | depth, [] => depth == 0
  | depth, .nonterminal A :: α => isInner A && NestsBraces depth α
  | depth, .terminal k :: α =>
    if k.isOrdinary then NestsBraces depth α
    else if k = .leftBrace then NestsBraces (depth + 1) α
    else match depth with
      | outer + 1 => k == .rightBrace && NestsBraces outer α
      | 0 => false

/-- Balanced stretches up to each of a number of closing braces and one behind them. -/
def Levels (kind : Nat → Kind) : Nat → Nat → Nat → Prop
  | 0, i, j => Balanced kind i j
  | depth + 1, i, j => ∃ m, Balanced kind i m ∧ kind m = .rightBrace ∧ Levels kind depth (m + 1) j

/-- What may stand in front of the first balanced stretch. -/
theorem Levels.prepend {depth : Nat} (h : ∀ {j}, Balanced kind m j → Balanced kind i j)
    (hrest : Levels kind depth m j) : Levels kind depth i j := by
  cases depth with
  | zero => exact h hrest
  | succ depth =>
    obtain ⟨n, hn, hclose, hrest⟩ := hrest
    exact ⟨n, h hn, hclose, hrest⟩

/-- What the categories below the top of a program stand on. -/
def OnBalanced (kind : Nat → Kind) (A : Nonterminal) (i j : Nat) : Prop :=
  isInner A → Balanced kind i j

/-- A row whose braces nest stands on a balanced stretch. -/
theorem levels_of_nestsBraces {α : List GrammarSymbol} {depth : Nat}
    (hrow : RowAt kind (OnBalanced kind) α i j) (h : NestsBraces depth α) :
    Levels kind depth i j := by
  fun_induction NestsBraces depth α generalizing i with
  | case1 depth =>
    obtain rfl : depth = 0 := by simpa using h
    obtain rfl : i = j := hrow
    exact .nil
  | case2 depth A α ih =>
    obtain ⟨m, hA, hrow⟩ := hrow
    obtain ⟨hinner, hnests⟩ := Bool.and_eq_true_iff.1 h
    exact Levels.prepend (hA hinner).trans (ih hrow hnests)
  | case3 depth k α hordinary ih =>
    obtain ⟨rfl, hrow⟩ := hrow
    exact Levels.prepend (.ordinary hordinary) (ih hrow h)
  | case4 depth α _ ih =>
    obtain ⟨hk, hrow⟩ := hrow
    obtain ⟨m, hinner, hclose, hrest⟩ := ih hrow h
    exact Levels.prepend (.braces hk hinner hclose) hrest
  | case5 k α _ _ outer ih =>
    obtain ⟨rfl, hrow⟩ := hrow
    obtain ⟨hclose, hnests⟩ := Bool.and_eq_true_iff.1 h
    exact ⟨i, .nil, by simpa using hclose, ih hrow hnests⟩
  | case6 => cases h

/-! ### The rules -/

/-- What the rules are checked for: the brackets of expressions and the braces of everything below
the top of a program. -/
theorem nests_rules : ∀ A ∈ Nonterminal.all, ∀ r ∈ rules A,
    (isExpression A → Nests (isList A) [] r.body) ∧ (isInner A → NestsBraces 0 r.body) := by
  decide +kernel

/-- Every category of expressions stands on phrases. -/
theorem placed_onPhrases : Placed kind (OnPhrases kind) :=
  fun A r hr _ _ _ hrow hA ↦ phrases_of_nests hrow ((nests_rules A A.mem_all r hr).1 hA)

/-- Every category below the top of a program stands on balanced stretches. -/
theorem placed_onBalanced : Placed kind (OnBalanced kind) := by
  intro A r hr i j _ hrow hA
  have hlevels : Levels kind 0 i j := levels_of_nestsBraces hrow ((nests_rules A A.mem_all r hr).2 hA)
  exact hlevels

end

end FrontEnd
