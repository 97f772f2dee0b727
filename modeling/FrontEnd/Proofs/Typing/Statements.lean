import FrontEnd.Check.Statement
import FrontEnd.Proofs.Check.HeaderText
import FrontEnd.Proofs.Typing.Values

/-!
# Well-typed programs

The reference for where values may go.  A declared slot is a target, a variable or constant, an
element of an array, a parameter or what a function returns, and wherever an expression flows into one
the rule has one type for both: nothing converts.  Compound assignments want a numeric target, and
what is counted is an integer.

The names at each place are part of the rules.  A declarator adds its symbol for what comes behind it,
and what a block declares is gone behind the block.  The names of functions and structs stand for them
everywhere, so a program is well typed from the names that its pieces declare.
-/

namespace FrontEnd

open Check

section

variable (text : Text) (names : Names)

/-! ### Slots -/

/-- The word of a primitive type stands at an index. -/
def Text.TypeWordAt (i : Nat) (type : DataType) : Prop :=
  (DataType.ofWord? (text.kind i)).filter DataType.isPrimitive = some type

/-- Input is read at an index, with a prompt. -/
structure Text.InputAt (i : Nat) : Prop where
  word : text.kind i = .inputWord
  opens : text.kind (i + 1) = .leftParen
  prompt : text.kind (i + 2) = .stringLit
  closes : text.kind (i + 3) = .rightParen

/-- What a slot of a type is given: a value of that type or, if the type is primitive, input. -/
inductive Given (type : DataType) : Nat → Nat → Prop
  | value {i j : Nat} : Typed text names (.value type) i j → Given type i j
  | input {i : Nat} : type.isPrimitive → text.InputAt i → Given type i (i + 4)

/-- A target of a type, up to the sign behind it, and what is done to it. -/
inductive Assigned (type : DataType) : Nat → Nat → Nat → Prop
  | plain {i m j : Nat} :
    Typed text names (.target type) i m → text.kind m = .assign →
      Given text names type (m + 1) j → Assigned type i m j
  | compound {i m j : Nat} {op : Operator} :
    Typed text names (.target type) i m → Operator.ofCompound? (text.kind m) = some op →
      type.isNumeric → Typed text names (.value type) (m + 1) j → Assigned type i m j
  | counted {i m : Nat} :
    Typed text names (.target type) i m → type = .int → text.CountAt m → Assigned type i m (m + 1)

/-- An element of the initializer of an array stands at an index. -/
inductive ElementAt (type : DataType) (i : Nat) : Prop
  | literal : DataType.ofLiteral? (text.kind i) = some type → ElementAt type i
  | name {symbol : Symbol} :
    text.NameAt names i symbol → symbol.isScalar → symbol.type = type → ElementAt type i

/-- Elements with commas between them. -/
inductive ElementsAt (type : DataType) : Nat → Nat → Prop
  | first {i : Nat} : ElementAt text names type i → ElementsAt type i (i + 1)
  | next {i j : Nat} :
    ElementsAt type i j → text.kind j = .comma → ElementAt text names type (j + 1) →
      ElementsAt type i (j + 2)

/-- A row of elements between braces. -/
inductive RowAt (type : DataType) : Nat → Nat → Prop
  | empty {i : Nat} :
    text.kind i = .leftBrace → text.kind (i + 1) = .rightBrace → RowAt type i (i + 2)
  | elements {i j : Nat} :
    text.kind i = .leftBrace → ElementsAt text names type (i + 1) j → text.kind j = .rightBrace →
      RowAt type i (j + 1)

/-- Rows, each with a comma behind it. -/
inductive RowsAt (type : DataType) : Nat → Nat → Prop
  | none {i : Nat} : RowsAt type i i
  | next {i m j : Nat} :
    RowsAt type i m → RowAt text names type m j → text.kind j = .comma → RowsAt type i (j + 1)

/-- The initializer of an array of a shape.  A comma may stand behind the last row of a table. -/
inductive ArrayAt (type : DataType) : Shape → Nat → Nat → Prop
  | row {i j : Nat} {size : Dimension} :
    RowAt text names type i j → ArrayAt type (.row size) i j
  | table {i m j : Nat} {rows columns : Dimension} :
    text.kind i = .leftBrace → RowsAt text names type (i + 1) m →
      m = j ∨ RowAt text names type m j → text.kind j = .rightBrace →
        ArrayAt type (.table rows columns) i (j + 1)

/-! ### Declarations -/

/-- A dimension stands at an index, with its brackets.  A named one is an integer. -/
inductive DimensionAt (i : Nat) : Dimension → Prop
  | literal {size : Nat} :
    text.kind i = .leftBracket → text.kind (i + 1) = .intLit →
      Text.natural? (text.token (i + 1)).lexeme = some size → text.kind (i + 2) = .rightBracket →
        DimensionAt i (.literal size)
  | named {symbol : Symbol} :
    text.kind i = .leftBracket → text.NameAt names (i + 1) symbol → symbol.isScalar →
      symbol.type = .int → text.kind (i + 2) = .rightBracket → DimensionAt i (.named symbol.name)

/-- The dimensions of an array. -/
inductive ShapeAt (i : Nat) : Shape → Nat → Prop
  | row {size : Dimension} : DimensionAt text names i size → ShapeAt i (.row size) (i + 3)
  | table {rows columns : Dimension} :
    DimensionAt text names i rows → DimensionAt text names (i + 3) columns →
      ShapeAt i (.table rows columns) (i + 6)

/-- A declarator of a variable or constant of a type, and the symbol it declares. -/
inductive DeclaratorAt (type : DataType) (isConstant : Bool) : Nat → Nat → Symbol → Prop
  | bare {i : Nat} :
    text.kind i = .identifier → isConstant = false →
      DeclaratorAt type isConstant i (i + 1) (bareSymbol type isConstant (text.token i))
  | given {i j : Nat} :
    text.kind i = .identifier → text.kind (i + 1) = .assign → Given text names type (i + 2) j →
      DeclaratorAt type isConstant i j (bareSymbol type isConstant (text.token i))
  | array {i j : Nat} {shape : Shape} :
    text.kind i = .identifier → ShapeAt text names (i + 1) shape j → isConstant = false →
      DeclaratorAt type isConstant i j
        { bareSymbol type isConstant (text.token i) with array := some shape.dimensions }
  | arrayGiven {i m j : Nat} {shape : Shape} :
    text.kind i = .identifier → ShapeAt text names (i + 1) shape m → text.kind m = .assign →
      ArrayAt text names type shape (m + 1) j → DeclaratorAt type isConstant i j
        { bareSymbol type isConstant (text.token i) with array := some shape.dimensions }

/-- A declarator of an instance of a struct, and the symbol it declares. -/
def InstanceAt (structName : String) (i j : Nat) (symbol : Symbol) : Prop :=
  text.kind i = .identifier ∧ j = i + 1 ∧
    symbol = .ofInstance (text.token i).lexeme structName (text.token i).position

/-- Declarators with commas between them; each is read with the names of those before it. -/
inductive Declarators (one : Names → Nat → Nat → Symbol → Prop) : Names → Nat → Nat → Names → Prop
  | first {names : Names} {i j : Nat} {symbol : Symbol} :
    one names i j symbol → Declarators one names i j (names.declaring [symbol])
  | next {names names' : Names} {i m j : Nat} {symbol : Symbol} :
    Declarators one names i m names' → text.kind m = .comma → one names' (m + 1) j symbol →
      Declarators one names i j (names'.declaring [symbol])

/-! ### Parts of statements -/

/-- The condition of a guarded statement, with its parentheses. -/
inductive GuardAt : Nat → Nat → Prop
  | mk {i j : Nat} {type : DataType} :
    text.kind i = .leftParen → Typed text names (.value type) (i + 1) j →
      type = .bool ∨ type = .int → text.kind j = .rightParen → GuardAt i (j + 1)

/-- The last clause of the header of a counted loop. -/
inductive UpdateAt : Nat → Nat → Prop
  | before {i j : Nat} : text.CountAt i → Typed text names (.target .int) (i + 1) j → UpdateAt i j
  | behind {i m j : Nat} :
    Assigned text names .int i m j → text.kind m ≠ .assign → UpdateAt i j

/-- The header of a counted loop, with its parentheses. -/
inductive ForHeaderAt : Nat → Nat → Prop
  | mk {i sign first second j : Nat} :
    text.kind i = .leftParen → Typed text names (.target .int) (i + 1) sign →
      text.kind sign = .assign → Typed text names (.value .int) (sign + 1) first →
        text.kind first = .semicolon → Typed text names (.value .bool) (first + 1) second →
          text.kind second = .semicolon → UpdateAt text names (second + 1) j →
            text.kind j = .rightParen → ForHeaderAt i (j + 1)

/-- What a function returns at a place: nothing, zero from the entry point, or a value of the type it
returns. -/
inductive ReturnAt (f : FunctionContext) : Nat → Nat → Prop
  | nothing {i : Nat} : f.isEntryPoint ∨ f.returns = .void → ReturnAt f i i
  | zero {i : Nat} :
    f.isEntryPoint → text.kind i = .intLit → (text.token i).lexeme = "0" → ReturnAt f i (i + 1)
  | value {i j : Nat} :
    f.returns ≠ .void → Typed text names (.value f.returns) i j → ReturnAt f i j

end

/-! ### Statements -/

/-- The parts of the body of a function. -/
inductive BodyPart where
  | statement
  | statements
  | block
  /-- The branches of a conditional that have a condition. -/
  | branches
  /-- The cases of a switch over a type. -/
  | cases (selector : DataType)

/-- A part of the body of a function, or outside of all functions, is well typed with the names at its
start; behind it other names may be declared. -/
inductive WellTyped (text : Text) (f : Option FunctionContext) :
    BodyPart → Names → Nat → Nat → Names → Prop
  | variables {names names' : Names} {i j : Nat} {type : DataType} :
    text.TypeWordAt i type →
      Declarators text (fun names ↦ DeclaratorAt text names type false) names (i + 1) j names' →
        text.kind j = .semicolon → WellTyped text f .statement names i (j + 1) names'
  | constants {names names' : Names} {i j : Nat} {type : DataType} :
    text.kind i = .constWord → text.TypeWordAt (i + 1) type →
      Declarators text (fun names ↦ DeclaratorAt text names type true) names (i + 2) j names' →
        text.kind j = .semicolon → WellTyped text f .statement names i (j + 1) names'
  | instances {names names' : Names} {i j : Nat} {struct : Symbol} {members : List TypedName} :
    text.kind i = .instanceWord → text.NameAt names (i + 1) struct →
      struct.kind = .struct members →
        Declarators text (fun _ ↦ InstanceAt text (text.token (i + 1)).lexeme) names (i + 2) j
          names' → text.kind j = .semicolon → WellTyped text f .statement names i (j + 1) names'
  | call {names : Names} {i j : Nat} {type : DataType} :
    Typed text names (.call type) i j → text.kind j = .semicolon →
      WellTyped text f .statement names i (j + 1) names
  | assignment {names : Names} {i m j : Nat} {type : DataType} :
    Assigned text names type i m j → text.kind j = .semicolon →
      WellTyped text f .statement names i (j + 1) names
  | count {names : Names} {i j : Nat} :
    text.CountAt i → Typed text names (.target .int) (i + 1) j → text.kind j = .semicolon →
      WellTyped text f .statement names i (j + 1) names
  | print {names : Names} {i j : Nat} {types : List DataType} :
    text.kind i = .printWord → text.kind (i + 1) = .leftParen →
      Typed text names (.arguments types) (i + 2) j → text.kind j = .rightParen →
        text.kind (j + 1) = .semicolon → WellTyped text f .statement names i (j + 2) names
  | returns {names : Names} {i j : Nat} {g : FunctionContext} :
    f = some g → text.kind i = .returnWord → ReturnAt text names g (i + 1) j →
      text.kind j = .semicolon → WellTyped text f .statement names i (j + 1) names
  | jump {names : Names} {i : Nat} :
    text.kind i ∈ [.breakWord, .continueWord, .endWord] → text.kind (i + 1) = .semicolon →
      WellTyped text f .statement names i (i + 2) names
  | whileLoop {names : Names} {i m j : Nat} :
    text.kind i = .whileWord → GuardAt text names (i + 1) m →
      WellTyped text f .block names m j names → WellTyped text f .statement names i j names
  | doLoop {names : Names} {i m j : Nat} :
    text.kind i = .doWord → WellTyped text f .block names (i + 1) m names →
      text.kind m = .whileWord → GuardAt text names (m + 1) j → text.kind j = .semicolon →
        WellTyped text f .statement names i (j + 1) names
  | forLoop {names : Names} {i m j : Nat} :
    text.kind i = .forWord → ForHeaderAt text names (i + 1) m →
      WellTyped text f .block names m j names → WellTyped text f .statement names i j names
  | switch {names : Names} {i m j : Nat} {selector : DataType} :
    text.kind i = .switchWord → text.kind (i + 1) = .leftParen →
      Typed text names (.value selector) (i + 2) m → selector = .int ∨ selector = .char →
        text.kind m = .rightParen → text.kind (m + 1) = .leftBrace →
          WellTyped text f (.cases selector) names (m + 2) j names → text.kind j = .rightBrace →
            WellTyped text f .statement names i (j + 1) names
  | conditional {names : Names} {i j : Nat} :
    WellTyped text f .branches names i j names → WellTyped text f .statement names i j names
  | otherwise {names : Names} {i m j : Nat} :
    WellTyped text f .branches names i m names → text.kind m = .elseWord →
      WellTyped text f .block names (m + 1) j names → WellTyped text f .statement names i j names
  | ifBranch {names : Names} {i m j : Nat} :
    text.kind i = .ifWord → GuardAt text names (i + 1) m →
      WellTyped text f .block names m j names → WellTyped text f .branches names i j names
  | elseIfBranch {names : Names} {i m n j : Nat} :
    WellTyped text f .branches names i m names → text.kind m = .elseIfWord →
      GuardAt text names (m + 1) n → WellTyped text f .block names n j names →
        WellTyped text f .branches names i j names
  | block {names inner : Names} {i j : Nat} :
    text.kind i = .leftBrace → WellTyped text f .statements names (i + 1) j inner →
      text.kind j = .rightBrace → WellTyped text f .block names i (j + 1) names
  | noStatement {names : Names} {i : Nat} : WellTyped text f .statements names i i names
  | next {names names' names'' : Names} {i m j : Nat} :
    WellTyped text f .statements names i m names' → WellTyped text f .statement names' m j names'' →
      WellTyped text f .statements names i j names''
  | noCase {names : Names} {i : Nat} {selector : DataType} :
    WellTyped text f (.cases selector) names i i names
  | labelled {names inner : Names} {i m j : Nat} {selector : DataType} :
    WellTyped text f (.cases selector) names i m names → text.kind m = .caseWord →
      (labelKinds selector).contains (text.kind (m + 1)) → text.kind (m + 2) = .colon →
        WellTyped text f .statements names (m + 3) j inner →
          WellTyped text f (.cases selector) names i j names
  | default {names inner : Names} {i m j : Nat} {selector : DataType} :
    WellTyped text f (.cases selector) names i m names → text.kind m = .defaultWord →
      text.kind (m + 1) = .colon → WellTyped text f .statements names (m + 2) j inner →
        WellTyped text f (.cases selector) names i j names

/-! ### Programs -/

/-- A program is well typed from an index on, with the names at the top there, and declares the given
functions and structs in this order. -/
inductive WellTypedFrom (c : Context) : Names → Nat → List Symbol → Prop
  | ended {names : Names} {i : Nat} : c.kindAt i = .eof → WellTypedFrom c names i []
  | function {names inner : Names} {i : Nat} {name : Token} {info : FunctionInfo}
    {symbols : List Symbol} :
    HeaderAt c i name info → IsBody c info.body →
      WellTyped c.text (some ⟨name.lexeme, info.returns, info.isEntryPoint⟩) .statements
        (names.declaring (info.parameters.map TypedName.parameter)) info.body.start info.body.stop
          inner → c.kindAt info.body.stop = .rightBrace →
        WellTypedFrom c names (info.body.stop + 1) symbols →
          WellTypedFrom c names i (.ofFunction name.lexeme info name.position :: symbols)
  | struct {names : Names} {i j : Nat} {name : Token} {members : List TypedName}
    {symbols : List Symbol} :
    StructAt c i name members j → WellTypedFrom c names (j + 2) symbols →
      WellTypedFrom c names i (.ofStruct name.lexeme members name.position :: symbols)
  | statement {names names' : Names} {i j : Nat} {symbols : List Symbol} :
    WellTyped c.text none .statement names i j names' → WellTypedFrom c names' j symbols →
      WellTypedFrom c names i symbols

/-- A program is well typed: so it is from its start, with the names of the functions and structs it
declares. -/
def IsWellTyped (c : Context) : Prop :=
  ∃ symbols, WellTypedFrom c (Names.declaring (fun _ ↦ none) symbols) 0 symbols

end FrontEnd
