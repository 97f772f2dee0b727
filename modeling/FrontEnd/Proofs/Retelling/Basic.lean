import FrontEnd.Check.Program
import Mathlib.Data.List.Forall2

/-!
# Retellings

Two texts tell the same program if they have the same tokens but for layout and names: the tokens are
of the same kinds and stand wherever they like, and names are renamed throughout.  `Retelling` is what
relates two such texts, and this module says what it makes of everything that a check reads, keeps or
reports: `Retelling.Symbols`, `Retelling.States`, `Retelling.Errors` and so on relate what belongs to
the one text to what belongs to the other.

Names, and with them types and dimensions, are carried over by a function.  Positions are not: all that
is known of two positions is that they are those of tokens that stand at the same place.
-/

namespace FrontEnd

open Check

/-! ### Renaming -/

/-- The type with its name renamed. -/
def DataType.renamed (rename : String → String) : DataType → DataType
  | .struct name => .struct (rename name)
  | type => type

/-- The dimension with its name renamed. -/
def Dimension.renamed (rename : String → String) : Dimension → Dimension
  | .named name => .named (rename name)
  | .literal size => .literal size

/-- The fault with its names renamed. -/
def Lost.renamed (rename : String → String) : Lost → Lost
  | .declaredTwice name => .declaredTwice (rename name)
  | .noSignature name => .noSignature (rename name)
  | .bodyEndedEarly name => .bodyEndedEarly (rename name)
  | how => how

/-- The violation with its names renamed, and with the wording of what was found instead of what should
stand there changed in a way of its own. -/
def Violation.renamed (rename found : String → String) : Violation → Violation
  | .redeclaration what name => .redeclaration what (rename name)
  | .duplicateMember structName member => .duplicateMember (rename structName) (rename member)
  | .invalidReturnType text => .invalidReturnType (found text)
  | .constantWithoutInitializer name => .constantWithoutInitializer (rename name)
  | .undefinedVariable name => .undefinedVariable (rename name)
  | .undefinedFunction name => .undefinedFunction (rename name)
  | .undefinedStruct name => .undefinedStruct (rename name)
  | .notAFunction name => .notAFunction (rename name)
  | .notAVariable name => .notAVariable (rename name)
  | .notAnArray name => .notAnArray (rename name)
  | .notAStructInstance name => .notAStructInstance (rename name)
  | .noSuchMember structName member => .noSuchMember (rename structName) (rename member)
  | .functionWithoutCall name => .functionWithoutCall (rename name)
  | .structTypeAsValue name => .structTypeAsValue (rename name)
  | .arrayWithoutIndex name => .arrayWithoutIndex (rename name)
  | .wrongIndexCount name dimensions => .wrongIndexCount (rename name) dimensions
  | .argumentCount function expected count => .argumentCount (rename function) expected count
  | .argumentType index expected type =>
    .argumentType index (expected.renamed rename) (type.renamed rename)
  | .assignMismatch target value => .assignMismatch (target.renamed rename) (value.renamed rename)
  | .operatorMismatch operator left right =>
    .operatorMismatch operator (left.renamed rename) (right.renamed rename)
  | .notRequiresBool type => .notRequiresBool (type.renamed rename)
  | .voidInExpression name => .voidInExpression (rename name)
  | .conditionType construct type => .conditionType construct (type.renamed rename)
  | .forConditionType type => .forConditionType (type.renamed rename)
  | .forVariableType clause type => .forVariableType clause (type.renamed rename)
  | .constantReassignment name => .constantReassignment (rename name)
  | .countRequiresInt type => .countRequiresInt (type.renamed rename)
  | .compoundRequiresNumeric operator type =>
    .compoundRequiresNumeric operator (type.renamed rename)
  | .inputTarget type => .inputTarget (type.renamed rename)
  | .arraySizeInvalid text => .arraySizeInvalid (found text)
  | .arraySizeType name type => .arraySizeType (rename name) (type.renamed rename)
  | .arraySizeUninitialized name => .arraySizeUninitialized (rename name)
  | .tooManyDimensions name => .tooManyDimensions (rename name)
  | .arrayElementType expected text => .arrayElementType (expected.renamed rename) (found text)
  | .arrayElementUninitialized name => .arrayElementUninitialized (rename name)
  | .indexType type => .indexType (type.renamed rename)
  | .switchSelectorType type => .switchSelectorType (type.renamed rename)
  | .caseLabelType expected text => .caseLabelType (expected.renamed rename) (found text)
  | .voidReturnsValue function => .voidReturnsValue (rename function)
  | .missingReturnValue function expected =>
    .missingReturnValue (rename function) (expected.renamed rename)
  | .returnTypeMismatch expected type =>
    .returnTypeMismatch (expected.renamed rename) (type.renamed rename)
  | .missingReturn function expected => .missingReturn (rename function) (expected.renamed rename)
  | .expectedToken wanted text => .expectedToken wanted (found text)
  | .unexpectedToken text setting => .unexpectedToken (found text) setting
  | .lost how => .lost (how.renamed rename)
  | v => v

/-- What relates two texts that tell the same program. -/
structure Retelling where
  /-- What a name is renamed to. -/
  rename : String → String
  /-- Whether two tokens stand at the same place of the two texts. -/
  Tokens : Token → Token → Prop
  injective : Function.Injective rename
  /-- Reserved words are not renamed. -/
  reserved : ∀ {word k}, Kind.ofWord? word = some k → rename word = word
  /-- The names of built-in functions are not renamed. -/
  builtin : ∀ b : Builtin, rename b.name = b.name
  kind : ∀ {t u}, Tokens t u → u.kind = t.kind
  /-- Of the lexemes those of names are renamed. -/
  lexeme : ∀ {t u}, Tokens t u →
    u.lexeme = if t.kind = .identifier then rename t.lexeme else t.lexeme
  /-- The entry point has the name it is known by. -/
  entryPoint : ∀ {t u}, Tokens t u → t.kind = .mainWord → t.lexeme = entryPointName

namespace Retelling

variable (T : Retelling)

/-- What becomes of the lexeme of a token of a kind. -/
def found (k : Kind) (lexeme : String) : String :=
  if k = .identifier then T.rename lexeme else lexeme

/-- Tokens at the same place that are names of what is declared. -/
structure Names (t u : Token) : Prop where
  tokens : T.Tokens t u
  lexeme : u.lexeme = T.rename t.lexeme

/-- The lexeme of a token that is a name is the name of what it declares. -/
def Declared (name : String) : Prop :=
  ∃ t u, T.Names t u ∧ t.lexeme = name

/-- Two positions of tokens that stand at the same place. -/
def Positions (p q : Position) : Prop :=
  ∃ t u, T.Tokens t u ∧ t.position = p ∧ u.position = q

/-! ### Symbols and scopes -/

/-- The parameters or members of the two texts, each the same one. -/
structure TypedNames (a b : TypedName) : Prop where
  declared : T.Declared a.name
  name : b.name = T.rename a.name
  type : b.type = a.type.renamed T.rename
  positions : T.Positions a.position b.position

/-- What is known of a function of the one text is known of that of the other. -/
structure Infos (a b : FunctionInfo) : Prop where
  returns : b.returns = a.returns.renamed T.rename
  parameters : List.Forall₂ T.TypedNames a.parameters b.parameters
  scope : b.scope = a.scope
  body : b.body = a.body
  hasReturn : b.hasReturn = a.hasReturn
  isEntryPoint : b.isEntryPoint = a.isEntryPoint

/-- What two names were declared as is the same. -/
inductive SymbolKinds : SymbolKind → SymbolKind → Prop
  | var : SymbolKinds .var .var
  | const : SymbolKinds .const .const
  | function {a b : FunctionInfo} : T.Infos a b → SymbolKinds (.function a) (.function b)
  | struct {a b : List TypedName} : List.Forall₂ T.TypedNames a b →
    SymbolKinds (.struct a) (.struct b)
  | structInstance (structName : String) (members : List String) :
    SymbolKinds (.structInstance structName members)
      (.structInstance (T.rename structName) (members.map T.rename))

/-- The symbols of the two texts for a declaration. -/
structure Symbols (a b : Symbol) : Prop where
  declared : T.Declared a.name
  name : b.name = T.rename a.name
  kind : T.SymbolKinds a.kind b.kind
  type : b.type = a.type.renamed T.rename
  initialized : b.initialized = a.initialized
  array : b.array = a.array.map (List.map (Dimension.renamed T.rename))
  positions : T.Positions a.position b.position

/-- The labels of two scopes: that of a function has its name. -/
inductive Labels : String → String → Prop
  | plain {label : String} : ¬ "function ".toList <+: label.toList → Labels label label
  | function (name : String) : Labels ("function " ++ name) ("function " ++ T.rename name)

/-- Scopes with the same declarations in the same order. -/
structure Scopes (a b : Scope) : Prop where
  label : T.Labels a.label b.label
  parent : b.parent = a.parent
  symbols : List.Forall₂ T.Symbols a.symbols b.symbols

/-- Arenas with the same scopes. -/
def Arenas (a b : Arena) : Prop :=
  ∀ id, Option.Rel T.Scopes (a.scope? id) (b.scope? id)

/-! ### What a check knows, keeps and reports -/

/-- What two warnings of the same read say was read: a variable, or a member of one. -/
inductive Reads : String → String → Prop
  | variable {name : String} : T.Declared name → Reads name (T.rename name)
  | member {name member : String} : T.Declared name → T.Declared member →
    Reads (name ++ "." ++ member) (T.rename name ++ "." ++ T.rename member)

/-- Warnings of the same read. -/
structure Warnings (a b : Warning) : Prop where
  name : T.Reads a.name b.name
  positions : T.Positions a.position b.position

/-- The same violation at tokens that stand at the same place. -/
def Errors (a b : SemanticError) : Prop :=
  ∃ t u, T.Tokens t u ∧ t.position = a.position ∧ u.position = b.position ∧
    b.violation = a.violation.renamed T.rename (T.found t.kind)

/-- The surroundings of the same place of the two texts. -/
structure Contexts (a b : Context) : Prop where
  tokens : ∀ i, T.Tokens (a.tokenAt i) (b.tokenAt i)
  kinds : ∀ i, b.kindAt i = a.kindAt i
  size : b.tokens.size = a.tokens.size
  limits : b.limits = a.limits
  scope : b.scope = a.scope
  blocks : b.blocks = a.blocks
  blockDepth : b.blockDepth = a.blockDepth
  function : b.function = a.function.map fun f ↦
    ⟨T.rename f.name, f.returns.renamed T.rename, f.isEntryPoint⟩

/-- States at the same place of the two texts. -/
structure States (a b : State) : Prop where
  position : b.position = a.position
  arena : T.Arenas a.arena b.arena
  functions : b.functions = a.functions.map fun f ↦ (T.rename f.1, f.2)
  headers : b.headers = a.headers.map fun h ↦ (h.1, T.rename h.2)
  sawReturn : b.sawReturn = a.sawReturn
  warnings : List.Forall₂ T.Warnings a.warnings.toList b.warnings.toList

variable {T}

/-! ### Names and types -/

@[simp]
theorem rename_inj {x y : String} : T.rename x = T.rename y ↔ x = y :=
  T.injective.eq_iff

@[simp]
theorem rename_beq (x y : String) : (T.rename x == T.rename y) = (x == y) := by
  rw [Bool.eq_iff_iff, beq_iff_eq, beq_iff_eq, rename_inj]

theorem rename_entryPointName : T.rename entryPointName = entryPointName := by
  have hword : Kind.ofWord? entryPointName = some .mainWord := by decide
  exact T.reserved hword

theorem ofName?_rename (name : String) :
    Builtin.ofName? (T.rename name) = Builtin.ofName? name := by
  have hiff {x : String} {b : Builtin} : Builtin.ofName? x = some b ↔ x = b.name := by
    refine ⟨fun h ↦ ?_, fun h ↦ by cases b <;> rw [h] <;> rfl⟩
    unfold Builtin.ofName? at h
    split at h <;> cases h <;> rfl
  refine Option.ext fun b ↦ ?_
  rw [hiff, hiff, ← T.builtin b, rename_inj, T.builtin b]

theorem renamed_inj {a b : DataType} :
    a.renamed T.rename = b.renamed T.rename ↔ a = b := by
  cases a <;> cases b <;> simp [DataType.renamed]

/-- A type without a name is told from others as before. -/
theorem renamed_eq_iff {a b : DataType} (hb : b.renamed T.rename = b) :
    a.renamed T.rename = b ↔ a = b := by
  conv_lhs => rw [← hb, renamed_inj]

@[simp]
theorem isNumeric_renamed (a : DataType) : (a.renamed T.rename).isNumeric = a.isNumeric := by
  cases a <;> rfl

@[simp]
theorem isPrimitive_renamed (a : DataType) : (a.renamed T.rename).isPrimitive = a.isPrimitive := by
  cases a <;> rfl

theorem text_renamed (a : DataType) : (a.renamed T.rename).text = T.rename a.text := by
  have hword (word : String) (k : Kind) (h : Kind.ofWord? word = some k) : word = T.rename word :=
    (T.reserved h).symm
  cases a with
  | struct name => rfl
  | int => exact hword "nt" .intWord (by decide)
  | double => exact hword "dbl" .doubleWord (by decide)
  | bool => exact hword "bln" .boolWord (by decide)
  | char => exact hword "chr" .charWord (by decide)
  | string => exact hword "strng" .stringWord (by decide)
  | void => exact hword "vd" .voidWord (by decide)

/-- What an operator gives does not depend on names. -/
theorem resultType_renamed (op : Operator) (left right : DataType) :
    op.resultType (left.renamed T.rename) (right.renamed T.rename) =
      (op.resultType left right).map (DataType.renamed T.rename) := by
  unfold Operator.resultType
  simp only [isNumeric_renamed, isPrimitive_renamed, renamed_inj, renamed_eq_iff (b := .double) rfl,
    renamed_eq_iff (b := .string) rfl, renamed_eq_iff (b := .bool) rfl]
  cases op <;> simp only <;> split_ifs <;> rfl

theorem renamed_of_ofLiteral? {k : Kind} {a : DataType} (h : DataType.ofLiteral? k = some a) :
    a.renamed T.rename = a := by
  unfold DataType.ofLiteral? at h
  split at h <;> cases h <;> rfl

theorem renamed_of_ofWord? {k : Kind} {a : DataType} (h : DataType.ofWord? k = some a) :
    a.renamed T.rename = a := by
  unfold DataType.ofWord? at h
  split at h <;> cases h <;> rfl

/-! ### Tokens -/

section

variable {t u : Token}

theorem found_identifier (lexeme : String) : T.found .identifier lexeme = T.rename lexeme :=
  if_pos rfl

theorem found_of_ne {k : Kind} (hk : k ≠ .identifier) (lexeme : String) :
    T.found k lexeme = lexeme :=
  if_neg hk

theorem Names.of_identifier (h : T.Tokens t u) (hk : t.kind = .identifier) : T.Names t u :=
  ⟨h, (T.lexeme h).trans (if_pos hk)⟩

/-- The word for the entry point is the name of what it declares. -/
theorem Names.of_mainWord (h : T.Tokens t u) (hk : t.kind = .mainWord) : T.Names t u := by
  refine ⟨h, ?_⟩
  rw [T.lexeme h, if_neg (by simp [hk]), T.entryPoint h hk, rename_entryPointName]

theorem lexeme_of_ne (h : T.Tokens t u) (hk : t.kind ≠ .identifier) : u.lexeme = t.lexeme :=
  (T.lexeme h).trans (if_neg hk)

theorem Names.declared (h : T.Names t u) : T.Declared t.lexeme :=
  ⟨t, u, h, rfl⟩

theorem Positions.of_tokens (h : T.Tokens t u) : T.Positions t.position u.position :=
  ⟨t, u, h, rfl, rfl⟩

theorem isZeroLiteral_eq (h : T.Tokens t u) : u.isZeroLiteral = t.isZeroLiteral := by
  by_cases hk : t.kind = .identifier
  · simp [Token.isZeroLiteral, T.kind h, hk]
  · simp [Token.isZeroLiteral, T.kind h, lexeme_of_ne h hk]

end

/-! ### Symbols -/

section

variable {a b : Symbol}

theorem Symbols.isValue_eq (h : T.Symbols a b) : b.isValue = a.isValue := by
  unfold Symbol.isValue
  have hkind := h.kind
  generalize a.kind = j, b.kind = k at hkind
  cases hkind <;> rfl

theorem Symbols.isArray_eq (h : T.Symbols a b) : b.isArray = a.isArray := by
  rw [Symbol.isArray, Symbol.isArray, h.array, Option.isSome_map]

theorem Symbols.isScalar_eq (h : T.Symbols a b) : b.isScalar = a.isScalar := by
  unfold Symbol.isScalar
  rw [h.isArray_eq]
  have hkind := h.kind
  generalize a.kind = j, b.kind = k at hkind
  cases hkind <;> rfl

theorem Symbols.isConstant_eq (h : T.Symbols a b) : b.isConstant = a.isConstant := by
  unfold Symbol.isConstant
  have hkind := h.kind
  generalize a.kind = j, b.kind = k at hkind
  cases hkind <;> simp

theorem Symbols.functionInfo? (h : T.Symbols a b) :
    Option.Rel T.Infos a.functionInfo? b.functionInfo? := by
  unfold Symbol.functionInfo?
  have hkind := h.kind
  generalize a.kind = j, b.kind = k at hkind
  cases hkind with
  | function hinfo => exact .some hinfo
  | _ => exact .none

/-- The same symbols but for what they were declared as. -/
theorem Symbols.withKind (h : T.Symbols a b) {j k : SymbolKind} (hkind : T.SymbolKinds j k) :
    T.Symbols { a with kind := j } { b with kind := k } :=
  ⟨h.declared, h.name, hkind, h.type, h.initialized, h.array, h.positions⟩

theorem Symbols.withValue (h : T.Symbols a b) : T.Symbols a.withValue b.withValue :=
  ⟨h.declared, h.name, h.kind, h.type, rfl, h.array, h.positions⟩

theorem map_insert (member : String) (members : List String) :
    (members.insert member).map T.rename = (members.map T.rename).insert (T.rename member) := by
  by_cases hmem : member ∈ members
  · rw [List.insert_of_mem hmem, List.insert_of_mem (List.mem_map_of_mem hmem)]
  · have hnot : T.rename member ∉ members.map T.rename := by simpa using hmem
    rw [List.insert_of_not_mem hmem, List.insert_of_not_mem hnot, List.map_cons]

theorem Symbols.withMember (h : T.Symbols a b) (member : String) :
    T.Symbols (a.withMember member) (b.withMember (T.rename member)) := by
  unfold Symbol.withMember
  have hkind := h.kind
  generalize a.kind = j, b.kind = k at hkind
  cases hkind with
  | structInstance structName members =>
    refine h.withKind ?_
    rw [← map_insert]
    exact .structInstance _ _
  | _ => exact h.withValue

theorem Symbols.withReturn (h : T.Symbols a b) (hasReturn : Bool) :
    T.Symbols (a.withReturn hasReturn) (b.withReturn hasReturn) := by
  unfold Symbol.withReturn
  have hkind := h.kind
  generalize a.kind = j, b.kind = k at hkind
  cases hkind with
  | function hinfo =>
    exact h.withKind (.function ⟨hinfo.returns, hinfo.parameters, hinfo.scope, hinfo.body, rfl,
      hinfo.isEntryPoint⟩)
  | _ => exact h

end

end Retelling

end FrontEnd
