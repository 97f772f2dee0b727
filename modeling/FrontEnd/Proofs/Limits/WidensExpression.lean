import FrontEnd.Proofs.Limits.Widens

/-!
# Expressions and declarations under wider limits

One lemma for each check, which follows its text.  Operands are a parameter of most of them: the two
runs may have different numbers of levels left.  The induction on levels is `operand`, where a refused
level is what the wider limits are spared.
-/

namespace FrontEnd

open Check

namespace Widens

variable {limits : Limits}

/-! ### Checks without loops and levels -/

section

variable (t : Token) (symbol : Symbol)

theorem operator? (stop floor : Nat) :
    Widens limits (Check.operator? stop floor) (Check.operator? stop floor) := by
  refine peek.next fun t ↦ ?_
  split
  · exact pure _
  · exact ite (pure _) <| advance.discard.next fun _ ↦ here.next fun _ ↦ guard (violateAt _ _) <|
      peek.next fun _ ↦ guard (violate _) (pure _)

theorem apply (op : Operator) (left right : DataType) :
    Widens limits (Check.apply op t left right) (Check.apply op t left right) := by
  unfold Check.apply
  split
  · exact pure _
  · exact violateAt _ _

theorem checkLiteralIndex (size : Dimension) :
    Widens limits (Check.checkLiteralIndex t size) (Check.checkLiteralIndex t size) := by
  unfold Check.checkLiteralIndex
  split
  · exact pure _
  refine ite ?_ (pure _)
  split
  · exact pure _
  · exact ite (violateAt _ _) (pure _)

theorem member : Widens limits (Check.member symbol t) (Check.member symbol t) := by
  unfold Check.member
  split
  · refine (expectMark .dot).discard.next fun _ ↦ (expect .identifier .memberName).next fun _ ↦
      (resolve _).next fun _ ↦ ?_
    split
    · split
      · exact pure _
      · exact violateAt _ _
    · exact violateAt _ _
  · exact violateAt _ _

theorem writable : Widens limits (Check.writable t) (Check.writable t) := by
  refine (resolve _).next fun _ ↦ ?_
  split
  · exact violateAt _ _
  · exact guard (violateAt _ _) (guard (violateAt _ _) (pure _))

theorem requireInt (target : Target) :
    Widens limits (Check.requireInt target) (Check.requireInt target) :=
  ite (violateAt _ _) (pure _)

theorem markInitialized (target : Target) :
    Widens limits (Check.markInitialized target) (Check.markInitialized target) :=
  modifySymbol _ _

theorem callee : Widens limits (Check.callee t) (Check.callee t) := by
  refine (resolve _).next fun _ ↦ ?_
  split
  · split
    · exact pure _
    · exact violateAt _ _
  · split
    · exact pure _
    · exact violateAt _ _

theorem checkArity (function : String) (expected found : Nat) :
    Widens limits (Check.checkArity t function expected found)
      (Check.checkArity t function expected found) :=
  ite (violateAt _ _) (pure _)

theorem checkTypes : ∀ (index : Nat) (found : List Argument) (parameters : List DataType),
    Widens limits (Check.checkTypes index found parameters)
      (Check.checkTypes index found parameters)
  | index, (_, _) :: found, _ :: parameters =>
    guard (violateAt _ _) (checkTypes (index + 1) found parameters)
  | _, [], _ => pure _
  | _, _ :: _, [] => pure _

theorem wholeArray (close : Nat) :
    Widens limits (Check.wholeArray close) (Check.wholeArray close) :=
  peek.next fun _ ↦ here.next fun _ ↦ ite ((resolve _).next fun _ ↦ pure _) (pure _)

theorem valueSymbol : Widens limits (Check.valueSymbol t) (Check.valueSymbol t) := by
  refine (resolve _).next fun _ ↦ ?_
  split
  · split
    · exact violateAt _ _
    · exact violateAt _ _
    · exact pure _
  · exact ite (violateAt _ _) (violateAt _ _)

end

/-! ### Expressions over operands -/

section

variable {operand operand' : Nat → Check DataType}
  (hoperand : ∀ stop, Widens limits (operand stop) (operand' stop))

include hoperand

omit hoperand in
theorem chainRound {rightSide rightSide' : Nat → Check DataType}
    (hright : ∀ n, Widens limits (rightSide n) (rightSide' n)) (stop floor : Nat)
    (left : DataType) :
    Widens limits (Check.chainRound rightSide stop floor left)
      (Check.chainRound rightSide' stop floor left) := by
  refine (operator? stop floor).next fun _ ↦ ?_
  split
  · exact pure _
  · exact (hright _).next fun _ ↦ (apply _ _ _ _).next fun _ ↦ pure _

theorem chain (stop levels floor : Nat) :
    Widens limits (Check.chain operand stop levels floor)
      (Check.chain operand' stop levels floor) := by
  have hdue : Widens limits (do return (← Check.here) < stop : Check Bool)
      (do return (← Check.here) < stop) := here.next fun _ ↦ pure _
  induction levels generalizing floor with
  | zero =>
    exact (hoperand stop).next fun _ ↦
      roundsWhile hdue (chainRound (fun _ ↦ hoperand stop) stop floor) _
  | succ levels ih =>
    exact (hoperand stop).next fun _ ↦ roundsWhile hdue (chainRound ih stop floor) _

theorem expressionWith (stop : Nat) :
    Widens limits (Check.expressionWith operand stop) (Check.expressionWith operand' stop) :=
  here.next fun _ ↦ guard (violate _) <| (chain hoperand stop _ 0).next fun _ ↦ here.next fun _ ↦
    ite (peek.next fun _ ↦ ite ((violate _).next fun _ ↦ pure _) ((violate _).next fun _ ↦ pure _))
      (pure _)

theorem oneIndex (size : Dimension) :
    Widens limits (Check.oneIndex operand size) (Check.oneIndex operand' size) :=
  here.next fun _ ↦ (matchingClose _).next fun close ↦ advance.discard.next fun _ ↦
    peek.next fun t ↦ here.next fun _ ↦ guard (checkLiteralIndex t size) <|
      (expressionWith hoperand close).next fun _ ↦ guard (violateAt _ _) advance.discard

theorem indices (wrongCount : Violation) (t : Token) : ∀ sizes,
    Widens limits (Check.indices operand (Check.violateAt wrongCount t) sizes)
      (Check.indices operand' (Check.violateAt wrongCount t) sizes)
  | [] => pure _
  | size :: sizes => (next? .leftBracket).next fun _ ↦ otherwise (violateAt _ _) <|
      (oneIndex hoperand size).next fun _ ↦ indices wrongCount t sizes

theorem elementType (symbol : Symbol) (t : Token) :
    Widens limits (Check.elementType operand symbol t) (Check.elementType operand' symbol t) := by
  unfold Check.elementType
  split
  · exact violateAt _ _
  · exact (indices hoperand _ _ _).next fun _ ↦ (next? .leftBracket).next fun _ ↦
      guard (violateAt _ _) (pure _)

theorem target : Widens limits (Check.target operand) (Check.target operand') := by
  refine (expect .identifier .name).next fun t ↦ (writable t).next fun symbol ↦
    peekKind.next fun _ ↦ ?_
  split
  · exact (elementType hoperand symbol t).next fun _ ↦ pure _
  · exact (member t symbol).next fun _ ↦ pure _
  · exact guard (violateAt _ _) (pure _)

theorem arguments (close : Nat) :
    Widens limits (Check.arguments operand close) (Check.arguments operand' close) := by
  have hround (before : List Argument) : Widens limits (Check.argumentRound operand close before)
      (Check.argumentRound operand' close before) :=
    peek.next fun _ ↦ (expressionEnd [.comma]).next fun _ ↦ (expressionWith hoperand _).next fun _ ↦
      here.next fun _ ↦ ite (pure _) <| (expect .comma _).discard.next fun _ ↦ pure _
  exact here.next fun _ ↦ ite (pure _) (rounds hround [])

theorem declaredCall (info : FunctionInfo) (t : Token) (close : Nat) :
    Widens limits (Check.declaredCall operand info t close)
      (Check.declaredCall operand' info t close) :=
  (arguments hoperand close).next fun _ ↦ (expectMark .rightParen).discard.next fun _ ↦
    (checkArity _ _ _ _).next fun _ ↦ (checkTypes _ _ _).next fun _ ↦ pure _

theorem builtinCall (b : Builtin) (t : Token) (close : Nat) :
    Widens limits (Check.builtinCall operand b t close) (Check.builtinCall operand' b t close) :=
  (wholeArray close).next fun _ ↦ ite
    (advance.discard.next fun _ ↦ (expectMark .rightParen).discard.next fun _ ↦ pure _)
    ((arguments hoperand close).next fun _ ↦ (expectMark .rightParen).discard.next fun _ ↦
      (checkArity _ _ _ _).next fun _ ↦ (checkTypes _ _ _).next fun _ ↦ pure _)

theorem call : Widens limits (Check.call operand) (Check.call operand') := by
  refine (expect .identifier .functionName).next fun t ↦ (callee t).next fun callee ↦
    here.next fun _ ↦ (matchingClose _).next fun close ↦ advance.discard.next fun _ ↦ ?_
  cases callee with
  | declared info => exact declaredCall hoperand info t close
  | builtin b => exact builtinCall hoperand b t close

theorem nameType (symbol : Symbol) (t : Token) (after : Kind) :
    Widens limits (Check.nameType operand symbol t after)
      (Check.nameType operand' symbol t after) := by
  unfold Check.nameType
  split
  · exact elementType hoperand symbol t
  · exact (member t symbol).next fun _ ↦ otherwise (warn _ _) (pure _)
  · exact guard (violateAt _ _) (guard (violateAt _ _) (advance.discard.next fun _ ↦ pure _))
  · exact guard (violateAt _ _) (guard (violateAt _ _) (advance.discard.next fun _ ↦ pure _))
  · exact guard (violateAt _ _) (otherwise (warn _ _) (pure _))

theorem nameOperand (stop : Nat) (t : Token) :
    Widens limits (Check.nameOperand operand stop t) (Check.nameOperand operand' stop t) := by
  have hafter (after : Kind) : Widens limits
      (do
        if after = .leftParen then
          let type ← Check.call operand
          if type = .void then Check.violateAt (.voidInExpression t.lexeme) t
          return type
        else
          let symbol ← Check.valueSymbol t
          Functor.discard Check.advance
          Check.nameType operand symbol t after)
      (do
        if after = .leftParen then
          let type ← Check.call operand'
          if type = .void then Check.violateAt (.voidInExpression t.lexeme) t
          return type
        else
          let symbol ← Check.valueSymbol t
          Functor.discard Check.advance
          Check.nameType operand' symbol t after) :=
    ite ((call hoperand).next fun _ ↦ guard (violateAt _ _) (pure _))
      ((valueSymbol t).next fun symbol ↦ advance.discard.next fun _ ↦
        nameType hoperand symbol t after)
  exact here.next fun _ ↦ ite (secondKind.next hafter) ((pure _).next hafter)

theorem parenthesised (stop : Nat) :
    Widens limits (Check.parenthesised operand stop) (Check.parenthesised operand' stop) :=
  here.next fun _ ↦ (matchingClose _).next fun close ↦ guard (violate _) <|
    advance.discard.next fun _ ↦ (expressionWith hoperand close).next fun _ ↦
      advance.discard.next fun _ ↦ pure _

theorem operandWith (stop : Nat) :
    Widens limits (Check.operandWith operand stop) (Check.operandWith operand' stop) := by
  refine here.next fun _ ↦ guard (violate _) <| peek.next fun t ↦ ?_
  split
  · exact advance.discard.next fun _ ↦ pure _
  split
  · exact parenthesised hoperand stop
  · exact advance.discard.next fun _ ↦ (hoperand stop).next fun _ ↦ guard (violateAt _ _) (pure _)
  · exact advance.discard.next fun _ ↦ (target hoperand).next fun _ ↦ (requireInt _).next fun _ ↦
      pure _
  · exact advance.discard.next fun _ ↦ (target hoperand).next fun _ ↦ (requireInt _).next fun _ ↦
      pure _
  · exact nameOperand hoperand stop t
  · exact violate _
  · exact violate _
  · exact violate _

end

/-! ### Levels -/

theorem operand {levels more : Nat} (hle : levels ≤ more) (stop : Nat) :
    Widens limits (Check.operand levels stop) (Check.operand more stop) := by
  induction levels generalizing more stop with
  | zero => exact tooDeep
  | succ levels ih =>
    obtain ⟨more, rfl⟩ : ∃ m, more = m + 1 := ⟨more - 1, by omega⟩
    exact operandWith (ih (Nat.le_of_succ_le_succ hle)) stop

section

variable {levels more : Nat} (hle : levels ≤ more)

include hle

theorem expressionType (stop : Nat) :
    Widens limits (Check.expressionType levels stop) (Check.expressionType more stop) :=
  expressionWith (operand hle) stop

theorem valueType (terminators : List Kind) :
    Widens limits (Check.valueType levels terminators) (Check.valueType more terminators) :=
  (expressionEnd terminators).next (expressionType hle)

end

/-! ### Assignments -/

theorem inputValue (type : DataType) :
    Widens limits (Check.inputValue type) (Check.inputValue type) :=
  advance.next fun _ ↦ otherwise (violateAt _ _) <| (expectMark .leftParen).discard.next fun _ ↦
    (expect .stringLit .promptString).discard.next fun _ ↦ (expectMark .rightParen).discard

theorem requireType (wanted value : DataType) (t : Token) :
    Widens limits (Check.requireType wanted value t) (Check.requireType wanted value t) :=
  ite (violateAt _ _) (pure _)

section

variable {levels more : Nat} (hle : levels ≤ more)

include hle

theorem plainAssignment (terminators : List Kind) (target : Target) (t : Token) :
    Widens limits (Check.plainAssignment levels terminators target t)
      (Check.plainAssignment more terminators target t) :=
  (next? .inputWord).next fun _ ↦ ite ((inputValue _).next fun _ ↦ markInitialized target) <|
    (valueType hle terminators).next fun _ ↦ (requireType _ _ _).next fun _ ↦
      markInitialized target

theorem compoundAssignment (terminators : List Kind) (op : Operator) (target : Target)
    (t : Token) :
    Widens limits (Check.compoundAssignment levels terminators op target t)
      (Check.compoundAssignment more terminators op target t) :=
  otherwise (violateAt _ _) <| peek.next fun _ ↦ guard (violate _) <| otherwise (warn _ _) <|
    (valueType hle terminators).next fun _ ↦ requireType _ _ _

theorem assignmentTail (terminators : List Kind) (target : Target) :
    Widens limits (Check.assignmentTail levels terminators target)
      (Check.assignmentTail more terminators target) := by
  refine peek.next fun t ↦ ?_
  split
  · exact advance.discard.next fun _ ↦ plainAssignment hle terminators target t
  · exact advance.discard.next fun _ ↦ requireInt target
  · exact advance.discard.next fun _ ↦ requireInt target
  · split
    · exact advance.discard.next fun _ ↦ compoundAssignment hle terminators _ target t
    · exact violate _

end

/-! ### Declarations -/

theorem typeWord (wanted : Wanted) :
    Widens limits (Check.typeWord wanted) (Check.typeWord wanted) := by
  refine advance.next fun _ ↦ ?_
  split
  · exact pure _
  · exact violateAt _ _

theorem declarators {one one' : Check Unit} (hone : Widens limits one one') :
    Widens limits (Check.declarators one) (Check.declarators one') := by
  have hanother : Widens limits Check.another Check.another :=
    (next? .comma).next fun _ ↦ ite (advance.discard.next fun _ ↦ pure true)
      ((expect .semicolon _).discard.next fun _ ↦ pure false)
  exact rounds (fun _ ↦ hone.next fun _ ↦ hanother.next fun _ ↦ pure _) ()

theorem dimension : Widens limits Check.dimension Check.dimension := by
  have hnamed (t : Token) : Widens limits (Check.namedSize t) (Check.namedSize t) := by
    refine (resolve _).next fun _ ↦ ?_
    split
    · exact violateAt _ _
    · exact guard (violateAt _ _) (otherwise (violateAt _ _) (pure _))
  have hliteral (t : Token) : Widens limits (Check.literalSize t) (Check.literalSize t) := by
    unfold Check.literalSize
    split
    · exact violateAt _ _
    · exact guard (violateAt _ _) (pure _)
  refine advance.discard.next fun _ ↦ next ?_ fun _ ↦ (expectMark .rightBracket).discard.next
    fun _ ↦ pure _
  refine advance.next fun t ↦ ?_
  split
  · exact hliteral t
  · exact violateAt _ _
  · exact hnamed t
  · exact violateAt _ _

theorem arrayShape (t : Token) : Widens limits (Check.arrayShape t) (Check.arrayShape t) :=
  dimension.next fun _ ↦ (next? .leftBracket).next fun _ ↦ ite
    (dimension.next fun _ ↦ (next? .leftBracket).next fun _ ↦ guard (violate _) (pure _)) (pure _)

theorem element (type : DataType) : Widens limits (Check.element type) (Check.element type) := by
  refine advance.next fun _ ↦ ?_
  split
  · exact ite (violateAt _ _) (pure _)
  · refine guard (violateAt _ _) <| (resolve _).next fun _ ↦ ?_
    split
    · exact violateAt _ _
    · exact guard (violateAt _ _) (ite (pure _) (violateAt _ _))

theorem row (type : DataType) : Widens limits (Check.row type) (Check.row type) := by
  have hround (count : Nat) : Widens limits
      (do
        Check.element type
        if ← Check.next? .comma then
          Functor.discard Check.advance
          return ForInStep.yield (count + 1)
        else
          return ForInStep.done (count + 1))
      (do
        Check.element type
        if ← Check.next? .comma then
          Functor.discard Check.advance
          return ForInStep.yield (count + 1)
        else
          return ForInStep.done (count + 1)) :=
    (element type).next fun _ ↦ (next? .comma).next fun _ ↦
      ite (advance.discard.next fun _ ↦ pure _) (pure _)
  have hend (count : Nat) : Widens limits
      (do Functor.discard (Check.expectMark .rightBrace); return count)
      (do Functor.discard (Check.expectMark .rightBrace); return count) :=
    (expectMark .rightBrace).discard.next fun _ ↦ pure count
  exact (expectMark .leftBrace).discard.next fun _ ↦ (next? .rightBrace).next fun _ ↦
    ite (hend _) ((rounds hround 0).next hend)

theorem checkCount (size : Dimension) (isConstant : Bool) (count : Nat) (t : Token)
    (tooMany : Nat → Nat → Violation) :
    Widens limits (Check.checkCount size isConstant count t tooMany)
      (Check.checkCount size isConstant count t tooMany) := by
  unfold Check.checkCount
  split
  · exact pure _
  · exact guard (violateAt _ _) (ite (violateAt _ _) (pure _))

theorem arrayInitializer (type : DataType) (isConstant : Bool) (shape : Shape) :
    Widens limits (Check.arrayInitializer type isConstant shape)
      (Check.arrayInitializer type isConstant shape) := by
  cases shape with
  | row size => exact peek.next fun t ↦ (row type).next fun _ ↦ checkCount _ _ _ _ _
  | table rowCount columns =>
    have hrows : Widens limits (Check.rows type columns isConstant)
        (Check.rows type columns isConstant) :=
      roundsWhile ((next? .rightBrace).next fun _ ↦ pure _) (fun _ ↦ peek.next fun _ ↦
        (row type).next fun _ ↦ (checkCount _ _ _ _ _).next fun _ ↦ (next? .comma).next fun _ ↦
          ite (advance.discard.next fun _ ↦ pure _) (pure _)) 0
    exact (expectMark .leftBrace).next fun _ ↦ hrows.next fun _ ↦
      (expectMark .rightBrace).discard.next fun _ ↦ checkCount _ _ _ _ _

theorem arrayDeclarator (type : DataType) (isConstant : Bool) (t : Token) :
    Widens limits (Check.arrayDeclarator type isConstant t)
      (Check.arrayDeclarator type isConstant t) :=
  (arrayShape t).next fun shape ↦ (next? .assign).next fun _ ↦ ite
    (advance.discard.next fun _ ↦ (arrayInitializer type isConstant shape).next fun _ ↦ pure _)
    (guard (violateAt _ _) (pure _))

theorem instanceDeclaration :
    Widens limits Check.instanceDeclaration Check.instanceDeclaration := by
  refine advance.discard.next fun _ ↦ (expect .identifier .structTypeName).next fun _ ↦
    (resolve _).next fun _ ↦ ?_
  split
  · exact declarators ((expect .identifier .name).next fun _ ↦ declare _ _)
  · exact violateAt _ _

section

variable {levels more : Nat} (hle : levels ≤ more)

include hle

theorem initializer (type : DataType) (t : Token) :
    Widens limits (Check.initializer levels type t) (Check.initializer more type t) :=
  (next? .inputWord).next fun _ ↦ ite (inputValue type) <|
    (valueType hle [.comma]).next fun _ ↦ requireType _ _ _

theorem declarator (type : DataType) (isConstant : Bool) :
    Widens limits (Check.declarator levels type isConstant)
      (Check.declarator more type isConstant) :=
  (expect .identifier .name).next fun t ↦ (declaredHere _).next fun _ ↦ guard (violateAt _ _) <|
    (next? .leftBracket).next fun _ ↦ ite
      ((arrayDeclarator type isConstant t).next fun _ ↦ declare _ _) <|
      (next? .assign).next fun _ ↦ ite
        (advance.next fun sign ↦ (initializer hle type sign).next fun _ ↦ declare _ _)
        (guard (violateAt _ _) (declare _ _))

theorem variableDeclaration :
    Widens limits (Check.variableDeclaration levels) (Check.variableDeclaration more) :=
  (typeWord .dataType).next fun type ↦ declarators (declarator hle type false)

theorem constantDeclaration :
    Widens limits (Check.constantDeclaration levels) (Check.constantDeclaration more) :=
  advance.discard.next fun _ ↦ (typeWord .dataType).next fun type ↦
    declarators (declarator hle type true)

end

end Widens

end FrontEnd
