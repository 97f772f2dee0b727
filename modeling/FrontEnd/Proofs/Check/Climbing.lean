import FrontEnd.Proofs.Check.Printed

/-!
# Climbing precedences

The walk over a printed expression computes the type that follows from the tree: `Evaluates`.  For a
chain of operands this is an induction along the left spine of the tree (`ensures_spine`): what is
said of it is not that the walk over the tree ends, since the left operand of an operator is never
walked over on its own, but that whatever holds of the rounds that come after the tree holds of the
rounds from its first operand on.  The right operands are chains with a higher floor, which is the
induction in `evaluates_chain`, and operands inside of others are the one in `evaluates_operand`.

The walk may come to a limit, but only where the expression is deeper or longer than the limits are.
-/

namespace FrontEnd

open Check

/-- Whether a violation is about the types of operands or a zero to divide by. -/
def Violation.isMistyping : Violation → Bool
  | .operatorMismatch .. | .notRequiresBool _ | .divisionByZero => true
  | _ => false

/-- How the walk over an expression may fail: at a limit that is too small for it, or at a mistyping
if it has no type. -/
def Expression.Fails (e : Expression) (names : String → Option DataType) (levels scan : Nat)
    (err : SemanticError) : Prop :=
  (err.violation.isLimit ∧ (levels < e.depth ∨ scan < e.print.length)) ∨
    (err.violation.isMistyping ∧ ∀ type, ¬ e.HasType names type)

/-- A check gives the type of an expression and goes to its end, or fails as the expression does. -/
def Evaluates (x : Check DataType) (e : Expression) (c : Context) (s : State)
    (levels stop : Nat) : Prop :=
  Ensures x c s (e.Fails (c.scalar? s) levels c.limits.scan) fun type after ↦
    e.HasType (c.scalar? s) type ∧ after = s.movedTo stop

/-- An expression that ends at an index is not continued there: the stretch is over, or an operator
follows that binds more loosely than the bound. -/
structure Context.Ends (c : Context) (bound j stop : Nat) : Prop where
  le : j ≤ stop
  loose : j < stop → ∃ op : Operator, c.kindAt j = op.kind ∧ op.precedence < bound

/-- Operands that are held together by no operator are evaluated, given so many levels. -/
def EvaluatesOperands (operand : Nat → Check DataType) (levels : Nat) : Prop :=
  ∀ {e : Expression} {c : Context} {s : State} {j stop : Nat}, e.PrintedAt c s j →
    Operator.maxPrecedence < e.precedence → c.Ends (e.precedence + 1) j stop →
      Evaluates (operand stop) e c s levels j

/-- Right operands of the operators from a floor on are evaluated by what walks over them. -/
def EvaluatesRight (side : Nat → Check DataType) (c : Context) (levels floor stop : Nat) : Prop :=
  ∀ {op : Operator} {e : Expression} {s : State} {j : Nat}, floor ≤ op.precedence →
    e.PrintedAt c s j → op.precedence < e.precedence → c.Ends (op.precedence + 1) j stop →
      Evaluates (side (op.precedence + 1)) e c s levels j

section

variable {c : Context} {s : State} {i j stop floor levels : Nat} {op : Operator}
  {E : SemanticError → Prop}

theorem Context.Ends.mono {bound bound' : Nat} (h : c.Ends bound j stop) (hbound : bound ≤ bound') :
    c.Ends bound' j stop := by
  refine ⟨h.le, fun hlt ↦ ?_⟩
  obtain ⟨op, hkind, hloose⟩ := h.loose hlt
  exact ⟨op, hkind, Nat.lt_of_lt_of_le hloose hbound⟩

namespace Expression.Fails

variable {e left right : Expression} {names : String → Option DataType} {scan : Nat}
  {err : SemanticError}

/-- A violation inside an expression is one of the whole. -/
theorem of_part {inner outer : Nat} {part whole : Expression}
    (h : part.Fails names inner scan err) (hdepth : inner < part.depth → outer < whole.depth)
    (hlength : part.print.length ≤ whole.print.length)
    (htype : ∀ type, whole.HasType names type → ∃ type, part.HasType names type) :
    whole.Fails names outer scan err := by
  rcases h with ⟨hlimit, hdeep | hlong⟩ | ⟨hmistyping, hnone⟩
  · exact .inl ⟨hlimit, .inl (hdepth hdeep)⟩
  · exact .inl ⟨hlimit, .inr (Nat.lt_of_lt_of_le hlong hlength)⟩
  · refine .inr ⟨hmistyping, fun type hwhole ↦ ?_⟩
    obtain ⟨type, hpart⟩ := htype type hwhole
    exact hnone type hpart

theorem of_left (h : left.Fails names levels scan err) :
    (binary op left right).Fails names levels scan err := by
  refine h.of_part (fun hdeep ↦ Nat.lt_of_lt_of_le hdeep (Nat.le_max_left _ _)) ?_ ?_
  · rw [print, List.length_append]
    exact Nat.le_add_right _ _
  · intro type htype
    obtain ⟨leftType, rightType, hleft, -⟩ := hasType_binary.1 htype
    exact ⟨leftType, hleft⟩

theorem of_right (h : right.Fails names levels scan err) :
    (binary op left right).Fails names levels scan err := by
  refine h.of_part (fun hdeep ↦ Nat.lt_of_lt_of_le hdeep (Nat.le_max_right _ _)) ?_ ?_
  · rw [print, List.length_append, List.length_cons]
    omega
  · intro type htype
    obtain ⟨leftType, rightType, -, hright, -⟩ := hasType_binary.1 htype
    exact ⟨rightType, hright⟩

theorem of_negated (h : e.Fails names levels scan err) :
    (negation e).Fails names (levels + 1) scan err :=
  h.of_part Nat.succ_lt_succ (Nat.le_succ _) fun _ htype ↦ ⟨.bool, (hasType_negation.1 htype).1⟩

theorem of_inside (h : e.Fails names levels scan err) :
    (parens e).Fails names (levels + 1) scan err := by
  refine h.of_part Nat.succ_lt_succ ?_ fun type htype ↦ ⟨type, hasType_parens.1 htype⟩
  rw [print, List.length_cons, List.length_append]
  omega

end Expression.Fails

/-! ### Names -/

theorem ensures_valueSymbol_of_isScalar {t : Token} {symbol : Symbol} {Q : Symbol → State → Prop}
    (hlookup : s.arena.lookup c.scope t.lexeme = some symbol) (hscalar : symbol.isScalar) :
    Ensures (valueSymbol t) c s E Q ↔ Q symbol s := by
  simp only [valueSymbol, ensures_bind, ensures_resolve, hlookup]
  unfold Symbol.isScalar at hscalar
  split <;> simp_all

/-- Kinds that turn a name before them into more than a name. -/
def Kind.extendsName (k : Kind) : Bool :=
  [.leftParen, .leftBracket, .dot, .increment, .decrement].contains k

theorem Operator.extendsName_kind (op : Operator) : op.kind.extendsName = false := by
  cases op <;> rfl

theorem ensures_nameType_of_isScalar {operand : Nat → Check DataType} {symbol : Symbol} {t : Token}
    {after : Kind} {Q : DataType → State → Prop} (hafter : after.extendsName = false)
    (hscalar : symbol.isScalar) (hinitialized : symbol.initialized) :
    Ensures (nameType operand symbol t after) c s E Q ↔ Q symbol.type s := by
  have harray : symbol.isArray = false := by
    unfold Symbol.isScalar at hscalar
    split at hscalar <;> simp_all
  unfold nameType
  split
  · cases hafter
  · cases hafter
  · cases hafter
  · cases hafter
  · simp [harray, hinitialized]

/-- A scalar with a value, followed by nothing that makes it more than a name. -/
theorem ensures_nameOperand_of_scalar {operand : Nat → Check DataType} {t : Token} {type : DataType}
    {Q : DataType → State → Prop} (hkind : c.kindAt s.position = .identifier)
    (htype : c.scalar? s t.lexeme = some type)
    (hnext : s.position + 1 < stop → (c.kindAt (s.position + 1)).extendsName = false) :
    Ensures (nameOperand operand stop t) c s E Q ↔ Q type (s.movedTo (s.position + 1)) := by
  obtain ⟨symbol, hlookup, hscalar, hinitialized, rfl⟩ := exists_symbol_of_scalar? htype
  -- Past the end of the stretch the walk takes the next kind for the end of the input.
  have hstep := Context.after_of_kindAt hkind (by simp)
  have hrest : ∀ after : Kind, after.extendsName = false →
      (Ensures (do
        if after = .leftParen then
          let type ← call operand
          if type = .void then violateAt (.voidInExpression t.lexeme) t
          return type
        else
          let symbol ← valueSymbol t
          discard advance
          nameType operand symbol t after) c s E Q ↔
        Q symbol.type (s.movedTo (s.position + 1))) := by
    intro after hafter
    have hparen : after ≠ .leftParen := by
      rintro rfl
      cases hafter
    simp only [if_neg hparen, ensures_bind, ensures_valueSymbol_of_isScalar hlookup hscalar,
      ensures_discard, ensures_advance, hstep,
      ensures_nameType_of_isScalar hafter hscalar hinitialized]
  simp only [nameOperand, ensures_bind, ensures_here]
  split
  next hmore => simpa using hrest _ (hnext hmore)
  next => simpa using hrest .eof rfl

/-! ### Operators -/

theorem Token.isZeroLiteral_congr {t u : Token} (hkind : t.kind = u.kind)
    (hlexeme : t.lexeme = u.lexeme) : t.isZeroLiteral = u.isZeroLiteral := by
  unfold Token.isZeroLiteral
  rw [hkind, hlexeme]

/-- An operand that no operator holds together is a bare zero if it begins with one. -/
theorem Expression.PrintedAt.isZeroLiteral_eq {e : Expression} (h : e.PrintedAt c s j)
    (htight : Operator.maxPrecedence < e.precedence) :
    (c.tokenAt s.position).isZeroLiteral = e.isZero := by
  have hother : ∀ {k : Kind}, c.kindAt s.position = k → k ≠ .eof → k ≠ .intLit → k ≠ .doubleLit →
      (c.tokenAt s.position).isZeroLiteral = false := by
    intro k hk heof hint hdouble
    have hkind := Context.kind_tokenAt_of_ne_eof (hk ▸ heof)
    unfold Token.isZeroLiteral
    rw [hkind, hk]
    split
    · contradiction
    · contradiction
    · rfl
  cases e with
  | literal kind lexeme =>
    obtain ⟨rfl, hliteral, rfl, -⟩ := printedAt_literal.1 h
    have heof : c.kindAt s.position ≠ .eof := by
      intro hk
      simp [hk, DataType.ofLiteral?] at hliteral
    exact Token.isZeroLiteral_congr (Context.kind_tokenAt_of_ne_eof heof) rfl
  | name => exact hother (printedAt_name.1 h).1 (by simp) (by simp) (by simp)
  | negation => exact hother (printedAt_negation.1 h).1 (by simp) (by simp) (by simp)
  | parens => exact hother (printedAt_parens.1 h).1 (by simp) (by simp) (by simp)
  | binary op => exact absurd htight (Nat.not_lt_of_le op.precedence_le)

theorem Operator.precedence_of_isDivision (h : op.isDivision) :
    op.precedence = Operator.maxPrecedence := by
  cases op <;> first | rfl | cases h

/-- What the walk looks at to find a zero decides whether the tree has one there: the right operand
of a division is held together by no operator. -/
theorem Expression.PrintedAt.isDivision_and_isZeroLiteral_iff {e : Expression}
    (h : e.PrintedAt c s j) (htight : op.precedence < e.precedence) :
    op.isDivision ∧ (c.tokenAt s.position).isZeroLiteral ↔ op.isDivision ∧ e.isZero := by
  refine and_congr_right fun hdivision ↦ ?_
  rw [h.isZeroLiteral_eq (Operator.precedence_of_isDivision hdivision ▸ htight)]

/-- Only divisions look at the operand that follows. -/
theorem ensures_operator?_of_kind {Q : Option (Operator × Token) → State → Prop}
    (hkind : c.kindAt s.position = op.kind) (hfloor : floor ≤ op.precedence)
    (hmore : s.position + 1 < stop) :
    Ensures (operator? stop floor) c s E Q ↔
      ((op.isDivision ∧ (c.tokenAt (s.position + 1)).isZeroLiteral) →
        E ⟨.divisionByZero, (c.tokenAt (s.position + 1)).position⟩) ∧
      (¬ (op.isDivision ∧ (c.tokenAt (s.position + 1)).isZeroLiteral) →
        Q (some (op, c.tokenAt s.position)) (s.movedTo (s.position + 1))) := by
  have heof : c.kindAt s.position ≠ .eof := hkind ▸ op.kind_ne_eof
  have hop : Operator.ofKind? (c.tokenAt s.position).kind = some op := by
    rw [Context.kind_tokenAt_of_ne_eof heof, hkind, op.ofKind?_kind]
  have htight : ¬ op.precedence < floor := Nat.not_lt_of_le hfloor
  have hinside : ¬ stop ≤ s.position + 1 := Nat.not_le_of_lt hmore
  simp only [operator?, ensures_bind, ensures_peek, hop, ensures_ite, ensures_discard,
    ensures_advance, ensures_here, State.position_movedTo, Context.after_of_ne_eof heof,
    ensures_violate, ensures_pure, ensures_violateAt, Bool.and_eq_true]
  simp [htight, hinside]

theorem ensures_operator?_of_loose {Q : Option (Operator × Token) → State → Prop}
    (hkind : c.kindAt s.position = op.kind) (hloose : op.precedence < floor) :
    Ensures (operator? stop floor) c s E Q ↔ Q none s := by
  have hop : Operator.ofKind? (c.tokenAt s.position).kind = some op := by
    rw [Context.kind_tokenAt_of_ne_eof (hkind ▸ op.kind_ne_eof), hkind, op.ofKind?_kind]
  simp [operator?, hop, hloose]

/-! ### Chains -/

/-- The walk asks before every round whether the stretch is over. -/
abbrev within (stop : Nat) : Check Bool := return (← here) < stop

/-- Rounds after a tree that is not continued end at once. -/
theorem ensures_roundsFrom_ended {side : Nat → Check DataType} {left : Nat} {type : DataType}
    {Q : DataType → State → Prop} (hends : c.Ends floor s.position stop)
    (hlimit : left = 0 → ∀ p, E ⟨.scanLimit c.limits.scan, p⟩) (hQ : Q type s) :
    Ensures (roundsFrom (within stop) (chainRound side stop floor) left type) c s E Q := by
  cases left with
  | zero =>
    refine ensures_roundsFrom_zero.2 ?_
    exact ⟨fun _ ↦ hlimit rfl _, fun _ ↦ hQ⟩
  | succ left =>
    refine ensures_roundsFrom_succ.2 ⟨fun hmore ↦ ?_, fun _ ↦ hQ⟩
    obtain ⟨op, hkind, hloose⟩ := hends.loose (of_decide_eq_true hmore)
    rw [chainRound, ensures_bind, ensures_operator?_of_loose hkind hloose]
    exact hQ

/-- A round that takes in an operator and its right operand. -/
theorem ensures_roundsFrom_operator {side : Nat → Check DataType} {left : Nat}
    {leftType : DataType} {l r : Expression} {Q : DataType → State → Prop}
    (hleftType : l.HasType (c.scalar? s) leftType) (hkind : c.kindAt s.position = op.kind)
    (hfloor : floor ≤ op.precedence) (hright : r.PrintedAt c (s.movedTo (s.position + 1)) j)
    (htight : op.precedence < r.precedence) (hstop : j ≤ stop)
    (hside : Evaluates (side (op.precedence + 1)) r c (s.movedTo (s.position + 1)) levels j)
    (hE : ∀ err, (Expression.binary op l r).Fails (c.scalar? s) levels c.limits.scan err → E err)
    (hlimit : left = 0 → c.limits.scan < (Expression.binary op l r).print.length)
    (hrest : ∀ rest type, left = rest + 1 →
      (Expression.binary op l r).HasType (c.scalar? s) type →
        Ensures (roundsFrom (within stop) (chainRound side stop floor) rest type) c
          (s.movedTo j) E Q) :
    Ensures (roundsFrom (within stop) (chainRound side stop floor) left leftType) c s E Q := by
  have hmore : s.position + 1 < stop := Nat.lt_of_lt_of_le hright.lt hstop
  have hhere : s.position < stop := Nat.lt_of_succ_lt hmore
  -- The zero that the walk looks for is the whole right operand, as that binds more tightly.
  have hbare : op.isDivision ∧ (c.tokenAt (s.position + 1)).isZeroLiteral ↔
      op.isDivision ∧ r.isZero := hright.isDivision_and_isZeroLiteral_iff htight
  cases left with
  | zero =>
    refine ensures_roundsFrom_zero.2
      ⟨fun _ ↦ hE _ (.inl ⟨rfl, .inr (hlimit rfl)⟩), fun hover ↦ ?_⟩
    exact absurd hhere (of_decide_eq_false hover)
  | succ rest =>
    refine ensures_roundsFrom_succ.2
      ⟨fun _ ↦ ?_, fun hover ↦ absurd hhere (of_decide_eq_false hover)⟩
    rw [chainRound, ensures_bind, ensures_operator?_of_kind hkind hfloor hmore, hbare]
    refine ⟨fun hzero ↦ hE _ (.inr ⟨rfl, fun type htype ↦ ?_⟩), fun hnonzero ↦ ?_⟩
    · obtain ⟨_, _, _, _, hnonzero, _⟩ := Expression.hasType_binary.1 htype
      exact hnonzero hzero
    rw [ensures_bind]
    refine hside.imp (fun err herr ↦ hE err (.of_right herr)) ?_
    rintro rightType _ ⟨hrightType, rfl⟩
    rw [ensures_bind]
    unfold apply
    cases hresult : op.resultType leftType rightType with
    | none =>
      refine hE _ (.inr ⟨rfl, fun type htype ↦ ?_⟩)
      obtain ⟨_, _, hl, hr, -, hfits⟩ := Expression.hasType_binary.1 htype
      rw [hl.unique hleftType, hr.unique hrightType, hresult] at hfits
      cases hfits
    | some type =>
      exact hrest rest type rfl (Expression.hasType_binary.2
        ⟨leftType, rightType, hleftType, hrightType, hnonzero, hresult⟩)

/-- The rounds of a chain from the first operand of a printed tree on take in the tree and go on
behind it, given that right operands are evaluated. -/
theorem ensures_spine {operand side : Nat → Check DataType}
    (hoperand : EvaluatesOperands operand levels)
    (hside : EvaluatesRight side c levels floor stop) {e : Expression}
    {Q : DataType → State → Prop} (hprinted : e.PrintedAt c s j)
    (hfloor : floor ≤ e.precedence) (hends : c.Ends (e.precedence + 1) j stop)
    (hE : ∀ err, e.Fails (c.scalar? s) levels c.limits.scan err → E err)
    (hrest : ∀ left type, c.limits.scan < left + e.print.length →
      e.HasType (c.scalar? s) type →
        Ensures (roundsFrom (within stop) (chainRound side stop floor) left type) c
          (s.movedTo j) E Q) :
    Ensures (operand stop >>= roundsFrom (within stop) (chainRound side stop floor) c.limits.scan)
      c s E Q := by
  -- Along the left spine; what is ensured grows by the rounds of the operators passed.
  induction e generalizing j E Q with
  | literal | name | negation | parens =>
    rw [ensures_bind]
    refine (hoperand hprinted (Nat.lt_succ_self _) hends).imp hE ?_
    rintro type _ ⟨htype, rfl⟩
    exact hrest _ type (Nat.lt_add_of_pos_right (Expression.length_print_pos _)) htype
  | binary op l r ihl =>
    obtain ⟨m, hleft, hkind, hright, hle, hlt⟩ := Expression.printedAt_binary.1 hprinted
    have hlength : (Expression.binary op l r).print.length =
        l.print.length + (r.print.length + 1) := by
      rw [Expression.print, List.length_append, List.length_cons]
    have hmid : c.Ends (l.precedence + 1) m stop :=
      ⟨Nat.le_trans (Nat.le_of_succ_le (Nat.le_of_lt hright.lt)) hends.le,
        fun _ ↦ ⟨op, hkind, Nat.lt_succ_of_le hle⟩⟩
    -- The left operand is followed by the operator, which is not looser than the floor.
    refine ihl hleft (Nat.le_trans hfloor hle) hmid (fun err herr ↦ hE err (.of_left herr)) ?_
    intro left leftType hscan hleftType
    refine ensures_roundsFrom_operator (s := s.movedTo m) hleftType hkind hfloor hright hlt hends.le
      (hside hfloor hright hlt hends) hE (fun hzero ↦ ?_) fun rest type hrounds htype ↦ ?_
    · omega
    · exact hrest rest type (by omega) htype

/-- One level of a chain is evaluated, if its operands and its right operands are. -/
theorem evaluates_rounds {operand side : Nat → Check DataType}
    (hoperand : EvaluatesOperands operand levels)
    (hside : EvaluatesRight side c levels floor stop) {e : Expression} (h : e.PrintedAt c s j)
    (hfloor : floor ≤ e.precedence) (hends : c.Ends floor j stop) :
    Evaluates (operand stop >>= roundsWhile (within stop) (chainRound side stop floor))
      e c s levels j := by
  refine ensures_spine hoperand hside h hfloor (hends.mono (Nat.le_succ_of_le hfloor))
    (fun _ herr ↦ herr) fun left type hscan htype ↦ ?_
  refine ensures_roundsFrom_ended hends (fun hzero p ↦ .inl ⟨rfl, .inr ?_⟩) ⟨htype, rfl⟩
  rwa [hzero, Nat.zero_add] at hscan

/-- A chain of operands is evaluated, if its operands are. -/
theorem evaluates_chain {operand : Nat → Check DataType}
    (hoperand : EvaluatesOperands operand levels) {climbs : Nat} {e : Expression}
    (hclimbs : Operator.maxPrecedence < climbs + floor) (h : e.PrintedAt c s j)
    (hfloor : floor ≤ e.precedence) (hends : c.Ends floor j stop) :
    Evaluates (chain operand stop climbs floor) e c s levels j := by
  induction climbs generalizing floor e s j with
  | zero =>
    -- No operator is above the last floor.
    refine evaluates_rounds hoperand (fun hle _ _ _ ↦ absurd hclimbs ?_) h hfloor hends
    rw [Nat.zero_add]
    exact Nat.not_lt_of_le (Nat.le_trans hle (Operator.precedence_le _))
  | succ climbs ih =>
    refine evaluates_rounds hoperand (fun hle hright htight hends ↦ ?_) h hfloor hends
    exact ih (by omega) hright htight hends

/-- An expression that ends at an index is evaluated, if its operands are. -/
theorem evaluates_expressionWith {operand : Nat → Check DataType}
    (hoperand : EvaluatesOperands operand levels) {e : Expression} (h : e.PrintedAt c s j) :
    Evaluates (expressionWith operand j) e c s levels j := by
  have hends : c.Ends 0 j j := ⟨Nat.le_refl j, fun hlt ↦ absurd hlt (Nat.lt_irrefl j)⟩
  unfold Evaluates expressionWith
  simp only [ensures_bind, ensures_here, ensures_ite, ensures_violate, ensures_peek, ensures_pure]
  refine ⟨fun hempty ↦ absurd h.lt (Nat.not_lt_of_le hempty), fun _ ↦ ?_⟩
  refine (evaluates_chain hoperand (by omega) h (Nat.zero_le _) hends).mono ?_
  rintro type _ ⟨htype, rfl⟩
  exact ⟨fun hlt ↦ absurd hlt (Nat.lt_irrefl j), fun _ ↦ ⟨htype, rfl⟩⟩

/-! ### Operands -/

theorem evaluates_parenthesised {operand : Nat → Check DataType}
    (hoperand : EvaluatesOperands operand levels) {e : Expression}
    (h : (Expression.parens e).PrintedAt c s j) (hstop : j ≤ stop) :
    Evaluates (parenthesised operand stop) (.parens e) c s (levels + 1) j := by
  obtain ⟨hopen, m, hinner, hclose, rfl⟩ := Expression.printedAt_parens.1 h
  have hcloser : (c.kindAt s.position).closer? = some .rightParen := by rw [hopen]; rfl
  have hfirst := Context.after_of_kindAt hopen (by simp)
  have hlast := Context.after_of_kindAt hclose (by simp)
  have hlength := h.add_length
  unfold Evaluates parenthesised
  rw [ensures_bind, ensures_here, ensures_bind, ensures_matchingClose_iff hcloser]
  rcases hinner.phrase.withCommas.searchClose_eq hcloser hclose c.limits.scan with
    ⟨hlimit, hsearch⟩ | hsearch
  · refine ⟨by simp [hsearch], by simp [hsearch], fun _ ↦ .inl ⟨rfl, .inr ?_⟩⟩
    omega
  · refine ⟨fun close hfound ↦ ?_, by simp [hsearch], by simp [hsearch]⟩
    obtain rfl : m = close := by simpa [hsearch] using hfound
    simp only [ensures_pure, ensures_ite, ensures_violate, ensures_discard, ensures_advance,
      ensures_bind, hfirst]
    refine ⟨fun hpast ↦ absurd hstop (Nat.not_le_of_lt (Nat.lt_succ_of_le hpast)), fun _ ↦ ?_⟩
    refine (evaluates_expressionWith hoperand hinner).imp (fun err herr ↦ .of_inside herr) ?_
    rintro type _ ⟨htype, rfl⟩
    rw [State.position_movedTo, hlast]
    exact ⟨htype, rfl⟩

/-- What an operand is evaluated to, given that operands inside of it are evaluated. -/
theorem evaluatesOperands_operandWith {operand : Nat → Check DataType}
    (hoperand : EvaluatesOperands operand levels) :
    EvaluatesOperands (operandWith operand) (levels + 1) := by
  intro e c s j stop h htight hends
  have hhere : ¬ s.position ≥ stop := Nat.not_le_of_lt (Nat.lt_of_lt_of_le h.lt hends.le)
  unfold Evaluates operandWith
  simp only [ensures_bind, ensures_here, if_neg hhere, ensures_peek]
  cases e with
  | literal kind lexeme =>
    obtain ⟨rfl, hliteral, -, rfl⟩ := Expression.printedAt_literal.1 h
    obtain ⟨type, htype⟩ := Option.isSome_iff_exists.1 hliteral
    have heof := (Kind.isPlain_iff.1 (isPlain_of_literal htype)).2.2.1
    rw [Context.kind_tokenAt_of_ne_eof heof, htype]
    simpa [Context.after_of_ne_eof heof] using htype
  | name lexeme =>
    obtain ⟨hkind, hname, rfl, rfl⟩ := Expression.printedAt_name.1 h
    obtain ⟨type, htype⟩ := Option.isSome_iff_exists.1 hname
    rw [Context.kind_tokenAt_of_kindAt hkind (by simp)]
    refine (ensures_nameOperand_of_scalar hkind htype fun hmore ↦ ?_).2 ⟨?_, rfl⟩
    · obtain ⟨op, hop, -⟩ := hends.loose hmore
      rw [hop, op.extendsName_kind]
    · exact Expression.hasType_name.2 htype
  | negation e =>
    obtain ⟨hkind, hinner, hinnerTight⟩ := Expression.printedAt_negation.1 h
    rw [Context.kind_tokenAt_of_kindAt hkind (by simp)]
    have hstep := Context.after_of_kindAt hkind (by simp)
    have hinnerEnds := hends.mono (Nat.succ_le_succ (Nat.succ_le_of_lt hinnerTight))
    simp only [DataType.ofLiteral?, ensures_bind, ensures_discard, ensures_advance, ensures_ite,
      ensures_violateAt, ensures_pure, hstep]
    refine (hoperand hinner hinnerTight hinnerEnds).imp (fun err herr ↦ .of_negated herr) ?_
    rintro type _ ⟨htype, rfl⟩
    refine ⟨fun hother ↦ .inr ⟨rfl, fun found hfound ↦ ?_⟩, fun hbool ↦ ?_⟩
    · exact hother ((Expression.hasType_negation.1 hfound).1.unique htype).symm
    · obtain rfl : type = .bool := by simpa using hbool
      exact ⟨Expression.hasType_negation.2 ⟨htype, rfl⟩, rfl⟩
  | binary op => exact absurd htight (Nat.not_lt_of_le op.precedence_le)
  | parens e =>
    rw [Context.kind_tokenAt_of_kindAt (Expression.printedAt_parens.1 h).1 (by simp)]
    exact evaluates_parenthesised hoperand h hends.le

/-- Operands are evaluated on every level. -/
theorem evaluatesOperands_operand (levels : Nat) : EvaluatesOperands (operand levels) levels := by
  induction levels with
  | zero => exact fun {e} _ _ _ _ _ _ _ ↦ .inl ⟨rfl, .inl e.depth_pos⟩
  | succ levels ih => exact evaluatesOperands_operandWith ih

end

end FrontEnd
