import FrontEnd.Check.Expression

/-!
# Expressions as trees

The reference that the walk over an expression is held against: trees of literals, names, negation,
the binary operators and explicit parentheses, how they are printed, and the type that follows from
the types of their parts.

A tree does not decide how it is printed, since parentheses are nodes of their own.  It is
`Guarded` if it has them wherever precedence and left associativity call for them; more may stand
anywhere.  Printing keeps the text of literals and names only, as marks have one spelling.
-/

namespace FrontEnd

/-- The kind of token an operator is written with. -/
def Operator.kind : Operator → Kind
  | add => .plus
  | sub => .minus
  | mul => .star
  | div => .slash
  | rem => .percent
  | concat => .concat
  | equal => .equal
  | notEqual => .notEqual
  | less => .less
  | greater => .greater
  | lessEqual => .lessEqual
  | greaterEqual => .greaterEqual
  | both => .both
  | either => .either

/-- Whether tokens of a kind differ in their text. -/
def Kind.bearsText (k : Kind) : Bool :=
  k == .identifier || (DataType.ofLiteral? k).isSome

/-- A printed token: its kind and, for literals and names, its text. -/
abbrev Piece := Kind × Option String

/-- An expression without calls, elements, members and counts. -/
inductive Expression where
  | literal (kind : Kind) (lexeme : String)
  | name (lexeme : String)
  | negation (inner : Expression)
  | binary (op : Operator) (left right : Expression)
  | parens (inner : Expression)

namespace Expression

/-- The tokens of an expression. -/
def print : Expression → List Piece
  | literal kind lexeme => [(kind, some lexeme)]
  | name lexeme => [(.identifier, some lexeme)]
  | negation inner => (.negation, none) :: inner.print
  | binary op left right => left.print ++ (op.kind, none) :: right.print
  | parens inner => (.leftParen, none) :: (inner.print ++ [(.rightParen, none)])

/-- How tightly an expression holds together: like its operator, or more than all operators. -/
def precedence : Expression → Nat
  | binary op _ _ => op.precedence
  | _ => Operator.maxPrecedence + 1

/-- Parentheses stand wherever precedence and left associativity call for them. -/
def Guarded : Expression → Prop
  | literal _ _ | name _ => True
  | negation inner => inner.Guarded ∧ Operator.maxPrecedence < inner.precedence
  | binary op left right =>
    left.Guarded ∧ right.Guarded ∧ op.precedence ≤ left.precedence ∧
      op.precedence < right.precedence
  | parens inner => inner.Guarded

/-- How many levels of nesting an expression opens: one for every operand inside another one. -/
def depth : Expression → Nat
  | literal _ _ | name _ => 1
  | negation inner | parens inner => inner.depth + 1
  | binary _ left right => max left.depth right.depth

/-- Whether an expression is a zero to which no sign, operator or parenthesis is put. -/
def isZero : Expression → Bool
  | literal kind lexeme => Token.isZeroLiteral ⟨kind, lexeme, .start⟩
  | _ => false

/-- Whether the right operand of a division is a bare zero, anywhere in the expression. -/
def DividesByZero : Expression → Prop
  | literal _ _ | name _ => False
  | negation inner | parens inner => inner.DividesByZero
  | binary op left right =>
    left.DividesByZero ∨ right.DividesByZero ∨ (op.isDivision ∧ right.isZero)

section

variable (names : String → Option DataType)

/-- The leaves are literals and names of known types. -/
def Over : Expression → Prop
  | literal kind _ => (DataType.ofLiteral? kind).isSome
  | name lexeme => (names lexeme).isSome
  | negation inner | parens inner => inner.Over
  | binary _ left right => left.Over ∧ right.Over

/-- The type of an expression that has one. -/
def type? : Expression → Option DataType
  | literal kind _ => DataType.ofLiteral? kind
  | name lexeme => names lexeme
  | negation inner => if inner.type? = some .bool then some .bool else none
  | binary op left right => do op.resultType (← left.type?) (← right.type?)
  | parens inner => inner.type?

/-- The expression has a type and nowhere divides by a bare zero. -/
def HasType (e : Expression) (type : DataType) : Prop :=
  e.type? names = some type ∧ ¬ e.DividesByZero

end

section

variable {names : String → Option DataType} {e left right : Expression} {op : Operator}
  {type type' : DataType}

theorem HasType.unique (h : e.HasType names type) (h' : e.HasType names type') : type = type' :=
  Option.some.inj (h.1.symm.trans h'.1)

@[simp]
theorem hasType_literal {kind : Kind} {lexeme : String} :
    (literal kind lexeme).HasType names type ↔ DataType.ofLiteral? kind = some type :=
  and_iff_left not_false

@[simp]
theorem hasType_name {lexeme : String} :
    (name lexeme).HasType names type ↔ names lexeme = some type :=
  and_iff_left not_false

theorem hasType_negation :
    (negation e).HasType names type ↔ e.HasType names .bool ∧ type = .bool := by
  simp only [HasType, type?, DividesByZero]
  by_cases hbool : e.type? names = some .bool
  · simp [hbool, and_comm, eq_comm]
  · simp [hbool]

@[simp]
theorem hasType_parens : (parens e).HasType names type ↔ e.HasType names type :=
  Iff.rfl

theorem hasType_binary :
    (binary op left right).HasType names type ↔
      ∃ leftType rightType, left.HasType names leftType ∧ right.HasType names rightType ∧
        ¬ (op.isDivision ∧ right.isZero) ∧ op.resultType leftType rightType = some type := by
  have hbind : (binary op left right).type? names = some type ↔
      ∃ leftType, left.type? names = some leftType ∧ ∃ rightType,
        right.type? names = some rightType ∧ op.resultType leftType rightType = some type := by
    simp only [type?, Option.bind_eq_bind, Option.bind_eq_some_iff]
  simp only [HasType, hbind, DividesByZero, not_or]
  constructor
  · rintro ⟨⟨leftType, hleft, rightType, hright, hresult⟩, hl, hr, hzero⟩
    exact ⟨leftType, rightType, ⟨hleft, hl⟩, ⟨hright, hr⟩, hzero, hresult⟩
  · rintro ⟨leftType, rightType, ⟨hleft, hl⟩, ⟨hright, hr⟩, hzero, hresult⟩
    exact ⟨⟨leftType, hleft, rightType, hright, hresult⟩, hl, hr, hzero⟩

theorem length_print_pos (e : Expression) : 0 < e.print.length := by
  induction e with
  | literal | name => exact Nat.one_pos
  | negation | parens => exact Nat.succ_pos _
  | binary op left right ihleft ihright =>
    rw [print, List.length_append]
    omega

theorem depth_pos (e : Expression) : 0 < e.depth := by
  induction e with
  | literal | name => exact Nat.one_pos
  | negation | parens => exact Nat.succ_pos _
  | binary op left right ihleft ihright => exact Nat.lt_of_lt_of_le ihleft (Nat.le_max_left _ _)

end

end Expression

namespace Operator

@[simp]
theorem ofKind?_kind (op : Operator) : ofKind? op.kind = some op := by
  cases op <;> rfl

theorem kind_of_ofKind? {k : Kind} {op : Operator} (h : ofKind? k = some op) : k = op.kind := by
  cases k <;> cases h <;> rfl

theorem kind_ne_eof (op : Operator) : op.kind ≠ .eof := by
  cases op <;> decide

@[simp]
theorem bearsText_kind (op : Operator) : op.kind.bearsText = false := by
  cases op <;> rfl

end Operator

end FrontEnd
