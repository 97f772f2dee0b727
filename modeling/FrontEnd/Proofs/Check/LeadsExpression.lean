import FrontEnd.Proofs.Check.Climbing
import FrontEnd.Proofs.Check.Leads

/-!
# Where the walk over an expression leads

A stretch `IsOperand` when the walk over an operand leads from its start to its end, on any level of
nesting and however far the expression goes on behind it.  An expression is `Chained`: operands with
binary operators between them.  The walk over it climbs by precedence and so takes the operands in
another grouping, but it stops in front of an operator with a chain behind it, or at the end
(`Chained.reaches_chain`).

The other forms here are what may stand behind a name and the lists of arguments.
-/

namespace FrontEnd

open Check

/-- A stretch from one end of which the walk over an operand leads to the other. -/
structure IsOperand (kind : Nat → Kind) (i j : Nat) : Prop where
  lt : i < j
  leads : ∀ levels stop, j ≤ stop → Leads kind (operand levels stop) i j

/-- Operands with operators between them. -/
inductive Chained (kind : Nat → Kind) : Nat → Nat → Prop
  | one {i j : Nat} : IsOperand kind i j → Chained kind i j
  | more {i m j : Nat} :
    IsOperand kind i m → (Operator.ofKind? (kind m)).isSome → Chained kind (m + 1) j →
      Chained kind i j

/-- An index between brackets. -/
structure IsIndex (kind : Nat → Kind) (i j : Nat) : Prop where
  opens : kind i = .leftBracket
  lt : i < j
  leads : ∀ levels size, Leads kind (oneIndex (operand levels) size) i j

/-- What stands behind the name of an array for one of its elements. -/
structure IsElement (kind : Nat → Kind) (i j : Nat) : Prop where
  opens : kind i = .leftBracket
  lt : i < j
  leads : ∀ levels symbol name, Leads kind (elementType (operand levels) symbol name) i j

/-- A point and the name of a member. -/
structure IsMember (kind : Nat → Kind) (i j : Nat) : Prop where
  dot : kind i = .dot
  name : kind (i + 1) = .identifier
  eq : j = i + 2

/-- What may stand behind a name that is written to or read: an index or two, a member or
nothing. -/
inductive IsPlaceTail (kind : Nat → Kind) (i j : Nat) : Prop
  | element : IsElement kind i j → IsPlaceTail kind i j
  | member : IsMember kind i j → IsPlaceTail kind i j
  | whole : (kind i).extendsName = false → i = j → IsPlaceTail kind i j

/-- A call, from the name on. -/
structure IsCall (kind : Nat → Kind) (i j : Nat) : Prop where
  name : kind i = .identifier
  paren : kind (i + 1) = .leftParen
  lt : i + 1 < j
  leads : ∀ levels, Leads kind (call (operand levels)) i j

/-- Pieces separated by commas. -/
inductive Separated (kind : Nat → Kind) (R : Nat → Nat → Prop) : Nat → Nat → Prop
  | one {i j : Nat} : R i j → Separated kind R i j
  | more {i m j : Nat} : R i m → kind m = .comma → Separated kind R (m + 1) j → Separated kind R i j

/-- An expression as the searches ahead and the walk see it. -/
structure IsValue (kind : Nat → Kind) (i j : Nat) : Prop where
  phrase : Phrase kind false i j
  chained : Chained kind i j

section

variable {kind : Nat → Kind} {i j m n stop : Nat} {R : Nat → Nat → Prop}

theorem extendsName_of_operator {k : Kind} (h : (Operator.ofKind? k).isSome) :
    k.extendsName = false := by
  cases k <;> first | rfl | cases h

/-! ### Chains -/

namespace Chained

theorem lt (h : Chained kind i j) : i < j := by
  induction h with
  | one h => exact h.lt
  | more h _ _ ih => exact Nat.lt_trans h.lt (Nat.lt_of_succ_lt ih)

theorem append (h : Chained kind i m) (hm : (Operator.ofKind? (kind m)).isSome)
    (h' : Chained kind (m + 1) j) : Chained kind i j := by
  induction h with
  | one h => exact .more h hm h'
  | more h hop _ ih => exact .more h hop (ih hm h')

/-- What turns the first operand into another one turns the chain into another one. -/
theorem mapFirst (h : Chained kind m j) (hfirst : ∀ {n}, IsOperand kind m n → IsOperand kind i n) :
    Chained kind i j := by
  cases h with
  | one h => exact .one (hfirst h)
  | more h hop hrest => exact .more (hfirst h) hop hrest

/-- Where the rounds of a chain may be: at its end or at an operator with a chain behind it. -/
def Rest (kind : Nat → Kind) (j m : Nat) : Prop :=
  m = j ∨ (Operator.ofKind? (kind m)).isSome ∧ Chained kind (m + 1) j

/-- Where a chain of operators from a floor on ends: at its end or at a looser operator. -/
def Stopped (kind : Nat → Kind) (j floor m : Nat) : Prop :=
  m = j ∨ (∃ op, Operator.ofKind? (kind m) = some op ∧ op.precedence < floor) ∧
    Chained kind (m + 1) j

theorem Stopped.rest {floor : Nat} (h : Stopped kind j floor m) : Rest kind j m :=
  h.imp_right fun ⟨⟨_, hop, _⟩, hchain⟩ ↦ ⟨by rw [hop]; rfl, hchain⟩

theorem Rest.le (h : Rest kind j m) : m ≤ j := by
  rcases h with rfl | ⟨-, hchain⟩
  · exact Nat.le_refl _
  · exact Nat.le_of_lt (Nat.lt_of_succ_lt hchain.lt)

/-- The first operand of a chain and the rest behind it. -/
theorem first (h : Chained kind i j) : ∃ m, IsOperand kind i m ∧ m ≤ j ∧ Rest kind j m := by
  cases h with
  | one h => exact ⟨j, h, Nat.le_refl j, .inl rfl⟩
  | @more _ m _ h hop hrest => exact ⟨m, h, Rest.le (.inr ⟨hop, hrest⟩), .inr ⟨hop, hrest⟩⟩

/-- A round takes in an operator and its right side, or ends the chain. -/
theorem reaches_chainRound {rightSide : Nat → Check DataType}
    (hright : ∀ floor i, Chained kind i j → Reaches kind (rightSide floor) i fun _ ↦ Rest kind j)
    (floor : Nat) (left : DataType) (hm : m < j) (h : Rest kind j m) :
    Reaches kind (chainRound rightSide j floor left) m
      (Reaches.AfterStep (Rest kind j) (Stopped kind j floor)) := by
  obtain ⟨hop, hchain⟩ := h.resolve_left (Nat.ne_of_lt hm)
  have hoperator : Reaches kind (operator? j floor) m fun found n ↦
      match found with
      | none => Stopped kind j floor n
      | some _ => n = m + 1 := by
    refine .peek fun t ht ↦ ?_
    have hkind : t.kind = kind m := ht fun heof ↦ by rw [heof] at hop; cases hop
    rw [hkind]
    split
    next hnone => rw [hnone] at hop; cases hop
    next op hsome =>
      refine .ite (fun hloose ↦ .pure (.inr ⟨⟨op, hsome, hloose⟩, hchain⟩)) fun _ ↦ ?_
      refine (Reaches.skip fun heof ↦ by rw [heof] at hop; cases hop).next fun _ ↦ .here ?_
      refine .ifNot (Nat.not_le.2 hchain.lt) ?_
      exact .peek fun _ _ ↦ .guard (.violate rfl) (.pure rfl)
  refine hoperator.bind fun found n hn ↦ ?_
  cases found with
  | none => exact .pure hn
  | some found =>
    obtain rfl : n = m + 1 := hn
    refine (hright _ _ hchain).bind fun right n hrest ↦ ?_
    have happly : Leads kind (apply found.1 found.2 left right) n n := by
      unfold apply
      split
      · exact .pure rfl
      · exact .violateAt rfl _
    exact happly.next fun _ ↦ .pure hrest

/-- The walk over a chain stops in front of a looser operator or at the end. -/
theorem reaches_chain (nesting levels : Nat) :
    ∀ floor i, Chained kind i j →
      Reaches kind (chain (operand nesting) j levels floor) i fun _ ↦ Stopped kind j floor := by
  have hrounds : ∀ {rightSide : Nat → Check DataType},
      (∀ floor i, Chained kind i j → Reaches kind (rightSide floor) i fun _ ↦ Rest kind j) →
      ∀ floor i, Chained kind i j → Reaches kind (operand nesting j >>=
        roundsWhile (return (← here) < j) (chainRound rightSide j floor)) i
          fun _ ↦ Stopped kind j floor := by
    intro rightSide hright floor i h
    obtain ⟨m, hfirst, hle, hrest⟩ := h.first
    refine (hfirst.leads nesting j hle).next fun left ↦ ?_
    refine .roundsWhile hrest fun left n hn ↦ .here <| .pure ⟨rfl, fun hmore ↦ ?_, fun hend ↦ ?_⟩
    · exact reaches_chainRound hright floor left (by simpa using hmore) hn
    · exact .inl (Nat.le_antisymm hn.le (by simpa using hend))
  induction levels with
  | zero =>
    refine hrounds fun floor i h ↦ ?_
    obtain ⟨m, hfirst, hle, hrest⟩ := h.first
    exact (hfirst.leads nesting j hle).mono fun _ n hn ↦ hn ▸ hrest
  | succ levels ih =>
    exact hrounds fun floor i h ↦ (ih floor i h).mono fun _ _ hstopped ↦ hstopped.rest

/-- The walk over an expression leads from the start of a chain to its end. -/
theorem leads_expressionWith (h : Chained kind i j) (nesting : Nat) :
    Leads kind (expressionWith (operand nesting) j) i j := by
  refine .here <| .ifNot (Nat.not_le.2 h.lt) ?_
  refine (reaches_chain nesting _ 0 i h).bind fun type n hn ↦ ?_
  -- No operator binds more loosely than the floor of the whole expression.
  obtain rfl : n = j := hn.resolve_right fun ⟨⟨_, _, hloose⟩, _⟩ ↦ Nat.not_lt_zero _ hloose
  exact .here <| .ifNot (Nat.lt_irrefl n) <| .pure rfl

end Chained

/-- An expression that a terminator ends. -/
theorem IsValue.leads_valueType {terminators : List Kind} (h : IsValue kind i j)
    (hterminators : ∀ k ∈ terminators, k.isPlain = false)
    (hend : (kind j).endsExpression terminators) (levels : Nat) :
    Leads kind (valueType levels terminators) i j :=
  .expressionEnd hterminators h.phrase hend (h.chained.leads_expressionWith levels)

/-! ### Behind a name -/

theorem leads_checkLiteralIndex (t : Token) (size : Dimension) :
    Leads kind (checkLiteralIndex t size) i i := by
  unfold checkLiteralIndex
  split
  · exact .pure rfl
  · refine .ite (fun _ ↦ ?_) fun _ ↦ .pure rfl
    split
    · exact .pure rfl
    · exact .ite (fun _ ↦ .violateAt rfl t) fun _ ↦ .pure rfl

/-- An expression between brackets is an index. -/
theorem IsValue.isIndex (h : IsValue kind (i + 1) j) (hopen : kind i = .leftBracket)
    (hclose : kind j = .rightBracket) : IsIndex kind i (j + 1) := by
  refine ⟨hopen, Nat.lt_succ_of_lt (Nat.lt_of_succ_lt h.chained.lt), fun levels size ↦ ?_⟩
  have hpairs : Pairs kind i j := h.phrase.withCommas.pairs (by rw [hopen]; rfl) hclose
  have hopeneof : kind i ≠ .eof := by simp [hopen]
  have hcloseeof : kind j ≠ .eof := by simp [hclose]
  refine .here <| .matchingClose hpairs <| (Reaches.skip hopeneof).next fun _ ↦ .peek fun t _ ↦
    .here <| .guard (leads_checkLiteralIndex t size) ?_
  exact (h.chained.leads_expressionWith levels).next fun _ ↦ .guard (.violateAt rfl t) <|
    .skip hcloseeof

/-- Indices lead over some of the brackets that stand one behind the other. -/
theorem reaches_indices (levels : Nat) {wrongCount : Check Unit}
    (hwrong : ∀ m, Reaches kind wrongCount m fun _ _ ↦ False) (hend : kind j ≠ .leftBracket)
    (sizes : List Dimension) (h : Relation.ReflTransGen (IsIndex kind) i j) :
    Reaches kind (indices (operand levels) wrongCount sizes) i fun _ m ↦
      Relation.ReflTransGen (IsIndex kind) m j := by
  induction sizes generalizing i with
  | nil => exact .pure h
  | cons size sizes ih =>
    refine .next? <| .ite (fun hnext ↦ ?_) fun _ ↦ (hwrong i).bind fun _ _ hfalse ↦ hfalse.elim
    obtain rfl | ⟨m, hindex, hrest⟩ := h.cases_head
    · exact absurd (beq_iff_eq.1 hnext) hend
    · exact (hindex.leads levels size).next fun _ ↦ ih hrest

theorem le_of_indices (h : Relation.ReflTransGen (IsIndex kind) i j) : i ≤ j := by
  induction h with
  | refl => exact Nat.le_refl i
  | tail _ hindex ih => exact Nat.le_trans ih (Nat.le_of_lt hindex.lt)

/-- One index or more, with no bracket behind the last, are an element. -/
theorem IsElement.of_indices (hfirst : IsIndex kind i m)
    (h : Relation.ReflTransGen (IsIndex kind) m j) (hend : kind j ≠ .leftBracket) :
    IsElement kind i j := by
  have hlt : i < j := Nat.lt_of_lt_of_le hfirst.lt (le_of_indices h)
  refine ⟨hfirst.opens, hlt, fun levels symbol name ↦ ?_⟩
  unfold elementType
  split
  · exact .violateAt rfl name
  next sizes _ =>
    refine (reaches_indices levels (fun _ ↦ .violateAt rfl name) hend sizes (h.head hfirst)).bind
      fun _ n hn ↦ .next? <| .ite (fun _ ↦ .violateAt_then rfl name) fun hlast ↦ .pure ?_
    obtain rfl | ⟨m, hindex, -⟩ := hn.cases_head
    · rfl
    · exact absurd (beq_iff_eq.2 hindex.opens) hlast

theorem IsMember.leads (h : IsMember kind i j) (symbol : Symbol) (name : Token) :
    Leads kind (member symbol name) i j := by
  obtain ⟨hdot, hname, rfl⟩ := h
  unfold member
  split
  · refine (Reaches.expectMark hdot (by simp)).discard.next fun _ ↦
      (Reaches.expect hname (by simp) _).next fun t ↦ (Reaches.resolve _).next fun found ↦ ?_
    split
    · split
      · exact .pure rfl
      · exact .violateAt rfl _
    · exact .violateAt rfl _
  · exact .violateAt rfl _

theorem leads_writable (t : Token) : Leads kind (writable t) i i := by
  refine (Reaches.resolve _).next fun found ↦ ?_
  split
  · exact .violateAt rfl _
  · exact .guard (.violateAt rfl _) <| .guard (.violateAt rfl _) <| .pure rfl

theorem leads_requireInt (t : Target) : Leads kind (requireInt t) i i :=
  .ite (fun _ ↦ .violateAt rfl _) fun _ ↦ .pure rfl

/-- A name alone is a target. -/
theorem leads_target_of_name (hname : kind i = .identifier) (hbracket : kind (i + 1) ≠ .leftBracket)
    (hdot : kind (i + 1) ≠ .dot) (levels : Nat) :
    Leads kind (target (operand levels)) i (i + 1) := by
  refine (Reaches.expect hname (by simp) _).next fun t ↦ (leads_writable t).next fun symbol ↦
    .peekKind ?_
  split
  next hk => exact absurd hk hbracket
  next hk => exact absurd hk hdot
  next => exact .guard (.violateAt rfl t) <| .pure rfl

/-- A name with what may stand behind it is a target. -/
theorem IsPlaceTail.leads_target (h : IsPlaceTail kind (i + 1) j) (hname : kind i = .identifier)
    (levels : Nat) : Leads kind (target (operand levels)) i j := by
  cases h with
  | element h =>
    refine (Reaches.expect hname (by simp) _).next fun t ↦ (leads_writable t).next fun symbol ↦
      .peekKind ?_
    rw [h.opens]
    exact (h.leads levels symbol t).next fun _ ↦ .pure rfl
  | member h =>
    refine (Reaches.expect hname (by simp) _).next fun t ↦ (leads_writable t).next fun symbol ↦
      .peekKind ?_
    rw [h.dot]
    exact (h.leads symbol t).next fun _ ↦ .pure rfl
  | whole hnext heq =>
    subst heq
    refine leads_target_of_name hname ?_ ?_ levels
    · intro hk
      rw [hk] at hnext
      cases hnext
    · intro hk
      rw [hk] at hnext
      cases hnext

/-! ### Calls -/

namespace Separated

theorem lt (h : Separated kind R i j) (hR : ∀ i j, R i j → i < j) : i < j := by
  induction h with
  | one h => exact hR _ _ h
  | more h _ _ ih => exact Nat.lt_trans (hR _ _ h) (Nat.lt_of_succ_lt ih)

/-- The first piece, and the others behind a comma. -/
theorem first (h : Separated kind R i j) :
    ∃ m, R i m ∧ (m = j ∨ kind m = .comma ∧ Separated kind R (m + 1) j) := by
  cases h with
  | one h => exact ⟨j, h, .inl rfl⟩
  | @more _ m _ h hcomma hrest => exact ⟨m, h, .inr ⟨hcomma, hrest⟩⟩

end Separated

/-- Arguments lead to the parenthesis behind them. -/
theorem leads_arguments (h : Separated kind (IsValue kind) i j) (hclose : kind j = .rightParen)
    (levels : Nat) : Leads kind (arguments (operand levels) j) i j := by
  have hlt : ∀ i j, IsValue kind i j → i < j := fun _ _ h ↦ h.chained.lt
  refine .here <| .ifNot (Nat.ne_of_lt (h.lt hlt)) <|
    .rounds (I := fun m ↦ Separated kind (IsValue kind) m j) h fun before m hm ↦ ?_
  obtain ⟨n, hvalue, hrest⟩ := hm.first
  have hle : n ≤ j := by
    rcases hrest with rfl | ⟨-, hrest⟩
    · exact Nat.le_refl n
    · exact Nat.le_of_lt (Nat.lt_of_succ_lt (hrest.lt hlt))
  have hend : (kind n).endsExpression [.comma] := by
    rcases hrest with rfl | ⟨hcomma, -⟩
    · rw [hclose]; rfl
    · rw [hcomma]; rfl
  refine .peek fun first _ ↦ .expressionEnd (by simp [Kind.isPlain]) hvalue.phrase hend ?_
  rw [Nat.min_eq_left hle]
  refine (hvalue.chained.leads_expressionWith levels).next fun type ↦ .here ?_
  refine .ite (fun heq ↦ .pure heq) fun hne ↦ ?_
  obtain ⟨hcomma, hrest⟩ := hrest.resolve_left hne
  exact (Reaches.expect hcomma (by simp) _).discard.next fun _ ↦ .pure hrest

theorem leads_callee (t : Token) : Leads kind (callee t) i i := by
  refine (Reaches.resolve _).next fun found ↦ ?_
  split
  · split
    · exact .pure rfl
    · exact .violateAt rfl t
  · split
    · exact .pure rfl
    · exact .violateAt rfl t

theorem leads_checkArity (t : Token) (function : String) (expected found : Nat) :
    Leads kind (checkArity t function expected found) i i :=
  .ite (fun _ ↦ .violateAt rfl t) fun _ ↦ .pure rfl

theorem leads_checkTypes : ∀ (index : Nat) (arguments : List Argument) (parameters : List DataType),
    Leads kind (checkTypes index arguments parameters) i i
  | index, (_, first) :: arguments, _ :: parameters =>
    .guard (.violateAt rfl first) (leads_checkTypes (index + 1) arguments parameters)
  | _, [], _ => .pure rfl
  | _, _ :: _, [] => .pure rfl

/-- The checks of arguments once they are read. -/
theorem leads_checked (t : Token) (function : String) (expected found index : Nat)
    (arguments : List Argument) (parameters : List DataType) (type : DataType) :
    Leads kind (do
      checkArity t function expected found
      checkTypes index arguments parameters
      return type : Check DataType) i i :=
  (leads_checkArity t function expected found).next fun _ ↦
    (leads_checkTypes index arguments parameters).next fun _ ↦ .pure rfl

/-- The parentheses of a call with nothing or with arguments inside. -/
structure IsArguments (kind : Nat → Kind) (i j : Nat) : Prop where
  opens : kind i = .leftParen
  phrase : Phrase kind true (i + 1) j
  pieces : i + 1 = j ∨ Separated kind (IsValue kind) (i + 1) j
  closes : kind j = .rightParen

namespace IsArguments

variable (h : IsArguments kind i j)

include h

theorem lt : i < j := by
  rcases h.pieces with heq | hpieces
  · exact heq ▸ Nat.lt_succ_self i
  · exact Nat.lt_of_succ_lt (hpieces.lt fun _ _ h ↦ h.chained.lt)

theorem pairs : Pairs kind i j :=
  h.phrase.pairs (by rw [h.opens]; rfl) h.closes

/-- The arguments and the parenthesis behind them. -/
theorem leads_arguments (levels : Nat) : Leads kind (arguments (operand levels) j) (i + 1) j := by
  rcases h.pieces with heq | hpieces
  · exact .here <| .ifSo heq <| .pure heq
  · exact FrontEnd.leads_arguments hpieces h.closes levels

theorem leads_declaredCall (levels : Nat) (info : FunctionInfo) (t : Token) :
    Leads kind (declaredCall (operand levels) info t j) (i + 1) (j + 1) :=
  (h.leads_arguments levels).next fun _ ↦
    (Reaches.expectMark h.closes (by simp)).discard.next fun _ ↦ leads_checked _ _ _ _ _ _ _ _

theorem leads_builtinCall (levels : Nat) (b : Builtin) (t : Token) :
    Leads kind (builtinCall (operand levels) b t j) (i + 1) (j + 1) := by
  -- The name of a whole array is the one token between the parentheses.
  have hwhole : Reaches kind (wholeArray j) (i + 1) fun whole m ↦
      m = i + 1 ∧ (whole → j = i + 2) := by
    refine .peek fun t _ ↦ .here <| .ite (fun hone ↦ ?_) fun _ ↦ .pure ⟨rfl, fun h ↦ by cases h⟩
    refine (Reaches.resolve _).next fun found ↦ .pure ⟨rfl, fun _ ↦ ?_⟩
    exact of_decide_eq_true (Bool.and_eq_true_iff.1 hone).1
  refine hwhole.bind fun whole m hm ↦ ?_
  obtain ⟨rfl, hone⟩ := hm
  refine .ite (fun hlen ↦ ?_) fun _ ↦ (h.leads_arguments levels).next fun _ ↦
    (Reaches.expectMark h.closes (by simp)).discard.next fun _ ↦ leads_checked _ _ _ _ _ _ _ _
  obtain rfl := hone (Bool.and_eq_true_iff.1 hlen).2
  exact (Reaches.skip (h.phrase.ne_eof (Nat.lt_succ_self _))).next fun _ ↦
    (Reaches.expectMark h.closes (by simp)).discard.next fun _ ↦ .pure rfl

end IsArguments

theorem IsArguments.isCall (h : IsArguments kind (i + 1) j) (hname : kind i = .identifier) :
    IsCall kind i (j + 1) := by
  refine ⟨hname, h.opens, Nat.lt_succ_of_lt h.lt, fun levels ↦ ?_⟩
  have hopeneof : kind (i + 1) ≠ .eof := by simp [h.opens]
  refine (Reaches.expect hname (by simp) _).next fun t ↦ (leads_callee t).next fun callee ↦ .here <|
    .matchingClose h.pairs <| (Reaches.skip hopeneof).next fun _ ↦ ?_
  split
  · exact h.leads_declaredCall levels _ t
  · exact h.leads_builtinCall levels _ t

/-! ### Operands -/

namespace IsOperand

/-- An operand on every level, from one inside of which everything is a level deeper. -/
theorem of_operandWith (hlt : i < j) (h : ∀ levels stop, j ≤ stop →
    Leads kind (operandWith (operand levels) stop) i j) : IsOperand kind i j := by
  refine ⟨hlt, fun levels stop hstop ↦ ?_⟩
  cases levels with
  | zero => exact .read fun _ _ ↦ .violate rfl
  | succ levels => exact h levels stop hstop

theorem literal (h : (DataType.ofLiteral? (kind i)).isSome) : IsOperand kind i (i + 1) := by
  have hk : kind i ≠ .eof := by
    intro heof
    rw [heof] at h
    cases h
  refine of_operandWith (Nat.lt_succ_self i) fun levels stop hstop ↦
    .here <| .ifNot (Nat.not_le.2 hstop) <| .peek fun t ht ↦ ?_
  rw [ht hk]
  split
  · exact (Reaches.skip hk).next fun _ ↦ .pure rfl
  next hnone => rw [hnone] at h; cases h

theorem negated (hnot : kind i = .negation) (h : IsOperand kind (i + 1) j) :
    IsOperand kind i j := by
  have hk : kind i ≠ .eof := by simp [hnot]
  have hlt : i < j := Nat.lt_of_succ_lt h.lt
  refine of_operandWith hlt fun levels stop hstop ↦
    .here <| .ifNot (Nat.not_le.2 (Nat.lt_of_lt_of_le hlt hstop)) <| .peek fun t ht ↦ ?_
  rw [ht hk, hnot]
  exact (Reaches.skip hk).next fun _ ↦ (h.leads levels stop hstop).next fun found ↦
    .guard (.violateAt rfl t) <| .pure rfl

theorem parenthesised (hopen : kind i = .leftParen) (h : IsValue kind (i + 1) j)
    (hclose : kind j = .rightParen) : IsOperand kind i (j + 1) := by
  have hk : kind i ≠ .eof := by simp [hopen]
  have hlt : i < j := Nat.lt_of_succ_lt h.chained.lt
  have hpairs : Pairs kind i j := h.phrase.withCommas.pairs (by rw [hopen]; rfl) hclose
  refine of_operandWith (Nat.lt_succ_of_lt hlt) fun levels stop hstop ↦
    .here <| .ifNot (Nat.not_le.2 (Nat.lt_trans hlt hstop)) <| .peek fun t ht ↦ ?_
  rw [ht hk, hopen]
  show Leads kind (Check.parenthesised (operand levels) stop) i (j + 1)
  refine .here <| .matchingClose hpairs <| .ifNot (Nat.not_le.2 hstop) <| (Reaches.skip hk).next
    fun _ ↦ (h.chained.leads_expressionWith levels).next fun _ ↦ ?_
  exact (Reaches.skip (by simp [hclose])).next fun _ ↦ .pure rfl

/-- A sign that counts and the target behind it. -/
theorem counted (hsign : kind i = .increment ∨ kind i = .decrement) (hlt : i < j)
    (h : ∀ levels, Leads kind (target (operand levels)) (i + 1) j) : IsOperand kind i j := by
  have hk : kind i ≠ .eof := by rcases hsign with hk | hk <;> simp [hk]
  have htail (levels : Nat) : Leads kind (do
      discard advance
      requireInt (← target (operand levels))
      return .int : Check DataType) i j :=
    (Reaches.skip hk).next fun _ ↦ (h levels).next fun t ↦ (leads_requireInt t).next fun _ ↦
      .pure rfl
  refine of_operandWith hlt fun levels stop hstop ↦
    .here <| .ifNot (Nat.not_le.2 (Nat.lt_of_lt_of_le hlt hstop)) <| .peek fun t ht ↦ ?_
  rw [ht hk]
  rcases hsign with hk | hk
  · rw [hk]
    exact htail levels
  · rw [hk]
    exact htail levels

/-- An operand that starts with a name; the kind behind it is looked at inside the expression. -/
theorem of_nameOperand (hname : kind i = .identifier) (hlt : i < j) (h : ∀ levels stop t, j ≤ stop →
    Leads kind (nameOperand (operand levels) stop t) i j) : IsOperand kind i j := by
  refine of_operandWith hlt fun levels stop hstop ↦
    .here <| .ifNot (Nat.not_le.2 (Nat.lt_of_lt_of_le hlt hstop)) <| .peek fun t ht ↦ ?_
  rw [ht (by simp [hname]), hname]
  exact h levels stop t hstop

theorem of_isCall (h : IsCall kind i j) : IsOperand kind i j := by
  have hlt : i < j := Nat.lt_of_succ_lt h.lt
  refine of_nameOperand h.name hlt fun levels stop t hstop ↦
    .here <| .ifSo (Nat.lt_of_lt_of_le h.lt hstop) <| .secondKind ?_
  rw [h.paren]
  exact (h.leads levels).next fun type ↦ .guard (.violateAt rfl t) <| .pure rfl

theorem leads_valueSymbol (t : Token) : Leads kind (valueSymbol t) i i := by
  refine (Reaches.resolve _).next fun found ↦ ?_
  split
  · split
    · exact .violateAt rfl t
    · exact .violateAt rfl t
    · exact .pure rfl
  · exact .ite (fun _ ↦ .violateAt rfl t) fun _ ↦ .violateAt rfl t

/-- A name that is not called.  Where the expression ends right behind it, the walk does not see
what comes next. -/
theorem of_nameType (hname : kind i = .identifier) (hlt : i < j)
    (h : ∀ after, after = kind (i + 1) ∨ (j = i + 1 ∧ after = .eof) → after ≠ .leftParen ∧
      ∀ levels symbol t, Leads kind (nameType (operand levels) symbol t after) (i + 1) j) :
    IsOperand kind i j := by
  refine of_nameOperand hname hlt fun levels stop t hstop ↦ .here ?_
  have hrest {after : Kind} (hafter : after = kind (i + 1) ∨ (j = i + 1 ∧ after = .eof)) :
      Leads kind (do
        if after = .leftParen then
          let type ← call (operand levels)
          if type = .void then violateAt (.voidInExpression t.lexeme) t
          return type
        else
          let symbol ← valueSymbol t
          discard advance
          nameType (operand levels) symbol t after) i j :=
    .ifNot (h after hafter).1 <| (leads_valueSymbol t).next fun symbol ↦
      (Reaches.skip (by simp [hname])).next fun _ ↦ (h after hafter).2 levels symbol t
  refine .ite (fun _ ↦ .secondKind (hrest (.inl rfl))) fun hend ↦ hrest (.inr ⟨?_, rfl⟩)
  omega

/-- A name that is read, with what may stand behind it. -/
theorem of_isPlaceTail (hname : kind i = .identifier) (hlt : i < j)
    (h : IsPlaceTail kind (i + 1) j) : IsOperand kind i j := by
  refine of_nameType hname hlt fun after hafter ↦ ?_
  cases h with
  | element h =>
    obtain rfl : after = .leftBracket := hafter.elim (fun heq ↦ heq.trans h.opens)
      fun ⟨heq, _⟩ ↦ absurd h.lt (Nat.not_lt.2 (Nat.le_of_eq heq))
    exact ⟨by simp, fun levels symbol t ↦ h.leads levels symbol t⟩
  | member h =>
    obtain rfl : after = .dot := hafter.elim (fun heq ↦ heq.trans h.dot) fun ⟨heq, _⟩ ↦ by
      have := h.eq
      omega
    refine ⟨by simp, fun levels symbol t ↦ (h.leads symbol t).next fun m ↦ ?_⟩
    exact .otherwise (Reaches.warn _ _) <| .pure rfl
  | whole hnext heq =>
    have hplain : after.extendsName = false := by
      rcases hafter with rfl | ⟨-, rfl⟩
      · exact hnext
      · rfl
    have hparen : after ≠ .leftParen := by
      rintro rfl
      cases hplain
    refine ⟨hparen, fun levels symbol t ↦ ?_⟩
    unfold nameType
    split
    · cases hplain
    · cases hplain
    · cases hplain
    · cases hplain
    · exact .guard (.violateAt rfl t) <| .otherwise (Reaches.warn _ _) <| .pure heq

/-- A name with a sign behind it that counts. -/
theorem of_countSign (hname : kind i = .identifier)
    (hsign : kind (i + 1) = .increment ∨ kind (i + 1) = .decrement) : IsOperand kind i (i + 2) := by
  refine of_nameType hname (by omega) fun after hafter ↦ ?_
  obtain rfl : after = kind (i + 1) := hafter.resolve_right fun ⟨heq, _⟩ ↦ by omega
  have hcount (symbol : Symbol) (t : Token) : Leads kind (do
      if symbol.isConstant then violateAt (.constantReassignment symbol.name) t
      if symbol.isArray || symbol.type ≠ .int then violateAt (.countRequiresInt symbol.type) t
      discard advance
      return .int : Check DataType) (i + 1) (i + 2) :=
    .guard (.violateAt rfl t) <| .guard (.violateAt rfl t) <|
      (Reaches.skip (by rcases hsign with hk | hk <;> simp [hk])).next fun _ ↦ .pure rfl
  rcases hsign with hk | hk
  · rw [hk]
    exact ⟨by simp, fun _ symbol t ↦ hcount symbol t⟩
  · rw [hk]
    exact ⟨by simp, fun _ symbol t ↦ hcount symbol t⟩

end IsOperand

end

end FrontEnd
