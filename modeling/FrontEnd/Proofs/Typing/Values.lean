import FrontEnd.Builtin
import FrontEnd.Check.Basic
import FrontEnd.Proofs.Scope.Names
import FrontEnd.Typing.Operator

/-!
# The types of expressions in a text

The reference for the types of expressions: `Typed text names form i j` says that something of a form
stands on the tokens from one index up to another, where names stand for the given symbols.  The
rules read the text and the declarations and nothing else.

A term is an expression with the precedence of its loosest operator, so that the rule for operators
says how an expression is taken apart.  No operand has the type without values.  Every argument of a
call has the type of its parameter: the rule leaves no room for another one.
-/

namespace FrontEnd

/-- The types of the parameters of a built-in function. -/
def Builtin.parameters : Builtin → List DataType
  | len => [.string]
  | scan => []

/-- A text as the rules read it: the token at an index, and what it is.  Past its end it has ended. -/
structure Text where
  kind : Nat → Kind
  token : Nat → Token

/-- The text a check walks over. -/
abbrev Context.text (c : Context) : Text :=
  ⟨c.kindAt, c.tokenAt⟩

/-- A name stands at an index, for a symbol. -/
def Text.NameAt (text : Text) (names : Names) (i : Nat) (symbol : Symbol) : Prop :=
  text.kind i = .identifier ∧ names (text.token i).lexeme = some symbol

/-- A sign that counts up or down stands at an index. -/
def Text.CountAt (text : Text) (i : Nat) : Prop :=
  text.kind i = .increment ∨ text.kind i = .decrement

/-- What may stand on a stretch of tokens in an expression. -/
inductive Form where
  | operand (type : DataType)
  /-- Operands joined by operators, of which the loosest has a precedence. -/
  | term (precedence : Nat) (type : DataType)
  /-- A whole expression. -/
  | value (type : DataType)
  /-- The name of a symbol, with what follows it for an element or a member: what it holds. -/
  | place (symbol : Symbol) (type : DataType)
  /-- A place that may be written to. -/
  | target (type : DataType)
  /-- A number of indices, each in its brackets. -/
  | indices (count : Nat)
  /-- Expressions with commas between them. -/
  | values (types : List DataType)
  /-- Expressions with commas between them, or nothing. -/
  | arguments (types : List DataType)
  /-- A call: what it returns. -/
  | call (type : DataType)

/-- What stands on the tokens from one index up to another, where names stand for symbols. -/
inductive Typed (text : Text) (names : Names) : Form → Nat → Nat → Prop
  | literal {i : Nat} {type : DataType} :
    DataType.ofLiteral? (text.kind i) = some type → Typed text names (.operand type) i (i + 1)
  | read {i j : Nat} {symbol : Symbol} {type : DataType} :
    Typed text names (.place symbol type) i j → Typed text names (.operand type) i j
  | result {i j : Nat} {type : DataType} :
    Typed text names (.call type) i j → Typed text names (.operand type) i j
  | parenthesised {i j : Nat} {type : DataType} :
    text.kind i = .leftParen → Typed text names (.value type) (i + 1) j → text.kind j = .rightParen →
      Typed text names (.operand type) i (j + 1)
  | negated {i j : Nat} :
    text.kind i = .negation → Typed text names (.operand .bool) (i + 1) j →
      Typed text names (.operand .bool) i j
  | countedBefore {i j : Nat} :
    text.CountAt i → Typed text names (.target .int) (i + 1) j → Typed text names (.operand .int) i j
  | countedAfter {i : Nat} :
    Typed text names (.target .int) i (i + 1) → text.CountAt (i + 1) →
      Typed text names (.operand .int) i (i + 2)
  | one {i j : Nat} {type : DataType} :
    Typed text names (.operand type) i j → type ≠ .void →
      Typed text names (.term (Operator.maxPrecedence + 1) type) i j
  | joined {i m j p q : Nat} {op : Operator} {left right type : DataType} :
    Typed text names (.term p left) i m → Operator.ofKind? (text.kind m) = some op →
      Typed text names (.term q right) (m + 1) j → op.precedence ≤ p → op.precedence < q →
        op.resultType left right = some type → Typed text names (.term op.precedence type) i j
  | value {i j p : Nat} {type : DataType} :
    Typed text names (.term p type) i j → Typed text names (.value type) i j
  | whole {i : Nat} {symbol : Symbol} :
    text.NameAt names i symbol → symbol.isValue → symbol.array = none →
      Typed text names (.place symbol symbol.type) i (i + 1)
  | element {i j : Nat} {symbol : Symbol} {sizes : List Dimension} :
    text.NameAt names i symbol → symbol.isValue → symbol.array = some sizes →
      Typed text names (.indices sizes.length) (i + 1) j →
        Typed text names (.place symbol symbol.type) i j
  | member {i : Nat} {symbol struct : Symbol} {structName : String} {given : List String}
    {members : List TypedName} {m : TypedName} :
    text.NameAt names i symbol → symbol.kind = .structInstance structName given →
      text.kind (i + 1) = .dot → text.kind (i + 2) = .identifier →
        names structName = some struct → struct.kind = .struct members →
          members.find? (fun other ↦ other.name == (text.token (i + 2)).lexeme) = some m →
            Typed text names (.place symbol m.type) i (i + 3)
  | target {i j : Nat} {symbol : Symbol} {type : DataType} :
    Typed text names (.place symbol type) i j → symbol.isConstant = false →
      Typed text names (.target type) i j
  | noIndex {i : Nat} : Typed text names (.indices 0) i i
  | index {i m j count : Nat} :
    text.kind i = .leftBracket → Typed text names (.value .int) (i + 1) m →
      text.kind m = .rightBracket → Typed text names (.indices count) (m + 1) j →
        Typed text names (.indices (count + 1)) i j
  | firstValue {i j : Nat} {type : DataType} :
    Typed text names (.value type) i j → Typed text names (.values [type]) i j
  | nextValue {i m j : Nat} {types : List DataType} {type : DataType} :
    Typed text names (.values types) i m → text.kind m = .comma →
      Typed text names (.value type) (m + 1) j → Typed text names (.values (types ++ [type])) i j
  | noArgument {i : Nat} : Typed text names (.arguments []) i i
  | arguments {i j : Nat} {types : List DataType} :
    Typed text names (.values types) i j → Typed text names (.arguments types) i j
  | declared {i j : Nat} {symbol : Symbol} {info : FunctionInfo} :
    text.NameAt names i symbol → symbol.functionInfo? = some info → text.kind (i + 1) = .leftParen →
      Typed text names (.arguments (info.parameters.map TypedName.type)) (i + 2) j →
        text.kind j = .rightParen → Typed text names (.call info.returns) i (j + 1)
  | builtin {i j : Nat} {b : Builtin} :
    text.kind i = .identifier → names (text.token i).lexeme = none →
      Builtin.ofName? (text.token i).lexeme = some b → text.kind (i + 1) = .leftParen →
        Typed text names (.arguments b.parameters) (i + 2) j → text.kind j = .rightParen →
          Typed text names (.call b.returns) i (j + 1)
  | lengthOfArray {i : Nat} {symbol : Symbol} :
    text.kind i = .identifier → names (text.token i).lexeme = none →
      Builtin.ofName? (text.token i).lexeme = some .len → text.kind (i + 1) = .leftParen →
        text.NameAt names (i + 2) symbol → symbol.isArray → text.kind (i + 3) = .rightParen →
          Typed text names (.call .int) i (i + 4)

/-! ### The type without values -/

theorem Operator.resultType_ne_void {op : Operator} {left right type : DataType}
    (h : op.resultType left right = some type) : type ≠ .void := by
  rintro rfl
  have hite {p : Prop} [Decidable p] {a b : Option DataType} (ha : a ≠ some .void)
      (hb : b ≠ some .void) : (if p then a else b) ≠ some .void := by
    split
    · exact ha
    · exact hb
  revert h
  unfold resultType
  cases op <;> first | exact hite nofun (hite nofun nofun) | exact hite nofun nofun

section

variable {text : Text} {names : Names} {i j p : Nat} {type : DataType}

theorem Typed.term_ne_void (h : Typed text names (.term p type) i j) : type ≠ .void := by
  cases h with
  | one _ hvoid => exact hvoid
  | joined _ _ _ _ _ hresult => exact Operator.resultType_ne_void hresult

/-- No expression has the type without values. -/
theorem Typed.value_ne_void (h : Typed text names (.value type) i j) : type ≠ .void := by
  cases h with
  | value h => exact h.term_ne_void

end

/-! ### Proper names -/

/-- A symbol that holds values, or of which a member does, has no member or values of the type
without values. -/
structure Symbol.Proper (s : Symbol) : Prop where
  type : s.isValue → s.type ≠ .void
  members : ∀ members, s.kind = .struct members → ∀ m ∈ members, m.type ≠ .void

/-- Names that stand for proper symbols only. -/
def Names.Proper (names : Names) : Prop :=
  ∀ name symbol, names name = some symbol → symbol.Proper

namespace Symbol.Proper

variable {s : Symbol}

theorem declared (h : s.Proper) : s.declared.Proper := by
  refine ⟨fun hvalue ↦ h.type (s.isValue_declared ▸ hvalue), fun members hkind ↦ h.members members ?_⟩
  rw [Symbol.kind_declared] at hkind
  cases hs : s.kind <;> rw [hs] at hkind <;> first | exact hkind | cases hkind

theorem ofFunction (name : String) (info : FunctionInfo) (p : Position) :
    (Symbol.ofFunction name info p).Proper :=
  ⟨nofun, nofun⟩

theorem ofStruct (name : String) {members : List TypedName} (h : ∀ m ∈ members, m.type ≠ .void)
    (p : Position) : (Symbol.ofStruct name members p).Proper := by
  refine ⟨nofun, fun others hothers ↦ ?_⟩
  cases hothers
  exact h

theorem ofInstance (name structName : String) (p : Position) :
    (Symbol.ofInstance name structName p).Proper :=
  ⟨fun _ ↦ nofun, nofun⟩

end Symbol.Proper

theorem Names.Proper.declaring {names : Names} (h : names.Proper) {symbols : List Symbol}
    (hsymbols : ∀ symbol ∈ symbols, symbol.Proper) : (names.declaring symbols).Proper := by
  intro name symbol hsymbol
  rcases Option.or_eq_some_iff.1 hsymbol with hfound | ⟨-, hfound⟩
  · obtain ⟨found, hfind, rfl⟩ := Option.map_eq_some_iff.1 hfound
    exact (hsymbols found (List.mem_of_find?_eq_some hfind)).declared
  · exact h name symbol hfound

end FrontEnd
