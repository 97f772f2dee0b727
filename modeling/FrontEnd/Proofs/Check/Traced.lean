import FrontEnd.Check.Program
import FrontEnd.Proofs.Check.Trace

/-!
# All checks leave traces

One lemma for each check, which follows its text.  A walk over an expression only reads
(`Rules.Reading`), so it leaves traces under most rules; the walks over statements do under all rules
that admit what statements do.  Where a value is given or something is declared, what is known of it
then is told with the step: the part was found there by the check of the target, a shape has the
dimensions that were read, and a struct is still known when its instances are declared.

The walk over the headers declares in scopes other than the innermost one (`Rules.Declaring`), opens
the scopes of functions and records them (`Rules.Surveying`).  The walk over the bodies goes into them
(`Rules.Entering`) and records whether they return.
-/

namespace FrontEnd

/-- What the walk over the headers declares, functions apart, and in which scopes. -/
inductive HeaderEntry : Nat → Symbol → Prop
  | parameter (scope : Nat) (p : TypedName) (htype : p.type.isPrimitive) :
    HeaderEntry scope (Symbol.ofVariable p.name p.type p.position).withValue
  | struct (name : String) (members : List TypedName) (place : Position) :
    HeaderEntry 0 (.ofStruct name members place)

/-- Rules that admit what the headers declare, functions apart. -/
class Rules.Declaring (R : Rules) : Prop where
  declared {c : Context} {s : State} {scope : Nat} {symbol : Symbol} {arena : Arena}
    (hentry : HeaderEntry scope symbol) (h : s.arena.insert scope symbol = some arena) :
    R.change c s { s with arena := arena }

/-- Rules that admit what the walk over the headers does with functions. -/
class Rules.Surveying (R : Rules) : Prop extends R.Declaring where
  opened {c : Context} {s : State} (label : String) :
    R.change c s { s with arena := s.arena.push 0 label }
  recorded {c : Context} {s : State} {name : String} {info : FunctionInfo} {place : Position}
    {arena : Arena} (keyword : Nat)
    (h : s.arena.insert 0 (.ofFunction name info place) = some arena) :
    R.change c s { s with
      arena := arena
      functions := (name, info.scope) :: s.functions
      headers := (keyword, name) :: s.headers }

/-- Rules that admit the walk into the bodies of functions. -/
class Rules.Entering (R : Rules) : Prop where
  started {c : Context} {s : State} (index : Nat) :
    R.change c s { s with position := index, sawReturn := false }
  function (c : Context) (name : String) (info : FunctionInfo) :
    R.inside c (Check.inFunction name info c)

namespace Traced

variable {R : Rules} {α : Type}

/-! ### Checks that change nothing themselves -/

theorem apply (op : Operator) (t : Token) (left right : DataType) :
    Traced R (Check.apply op t left right) := by
  unfold Check.apply
  split
  · exact pure _
  · exact violateAt _ _

theorem checkLiteralIndex (index : Token) (size : Dimension) :
    Traced R (Check.checkLiteralIndex index size) := by
  unfold Check.checkLiteralIndex
  split
  · exact pure _
  · refine ite ?_ (pure _)
    split
    · exact pure _
    · exact ite (violateAt _ _) (pure _)

theorem writable (t : Token) : Traced R (Check.writable t) := by
  refine (resolve t.lexeme).bind fun found ↦ ?_
  split
  · exact violateAt _ _
  · exact guard (violateAt _ _) <| guard (violateAt _ _) (pure _)

theorem requireInt (t : Target) : Traced R (Check.requireInt t) :=
  ite (violateAt _ _) (pure _)

theorem callee (name : Token) : Traced R (Check.callee name) := by
  refine (resolve name.lexeme).bind fun found ↦ ?_
  split
  · split
    · exact pure _
    · exact violateAt _ _
  · split
    · exact pure _
    · exact violateAt _ _

theorem checkArity (name : Token) (function : String) (expected found : Nat) :
    Traced R (Check.checkArity name function expected found) :=
  ite (violateAt _ _) (pure _)

theorem checkTypes : ∀ index arguments parameters,
    Traced R (Check.checkTypes index arguments parameters)
  | index, (_, _) :: arguments, _ :: parameters =>
    guard (violateAt _ _) (checkTypes (index + 1) arguments parameters)
  | _, [], _ => pure _
  | _, _ :: _, [] => pure _

theorem valueSymbol (t : Token) : Traced R (Check.valueSymbol t) := by
  refine (resolve t.lexeme).bind fun found ↦ ?_
  split
  · split
    · exact violateAt _ _
    · exact violateAt _ _
    · exact pure _
  · exact ite (violateAt _ _) (violateAt _ _)

theorem tooDeep : Traced R (Check.tooDeep : Check α) :=
  read.bind fun _ ↦ violate _

theorem requireType (wanted value : DataType) (place : Token) :
    Traced R (Check.requireType wanted value place) :=
  ite (violateAt _ _) (pure _)

theorem checkCount (size : Dimension) (isConstant : Bool) (count : Nat) (place : Token)
    (tooMany : Nat → Nat → Violation) :
    Traced R (Check.checkCount size isConstant count place tooMany) := by
  unfold Check.checkCount
  split
  · exact pure _
  · exact guard (violateAt _ _) <| ite (violateAt _ _) (pure _)

theorem requireForVariable (clause : ForClause) (t : Target) :
    Traced R (Check.requireForVariable clause t) :=
  ite (violateAt _ _) (pure _)

theorem statementsUntil {statement : Check Check.Ending} (hstatement : Traced R statement)
    (terminators : List Kind) : Traced R (Check.statementsUntil statement terminators) := by
  refine rounds fun last ↦ peekKind.bind fun k ↦ ite (pure _) <| guard (violate _) ?_
  exact hstatement.bind fun _ ↦ pure _

theorem requireFree (what : Redeclared) (name : Token) :
    Traced R (Check.requireFree what name) :=
  get.bind fun _ ↦ ite (violateAt _ _) (pure _)

theorem isRecorded (name : String) : Traced R (Check.isRecorded name) :=
  fun c s ↦ .nil c s

theorem signature (name : String) : Traced R (Check.signature name) := by
  refine get.bind fun s ↦ ?_
  split
  · split
    · exact pure _
    · exact violate _
  · exact violate _

section

variable [R.Reading]

/-! ### Operands and expressions -/

section

variable {operand : Nat → Check DataType} (hoperand : ∀ stop, Traced R (operand stop))

theorem operator? (stop floor : Nat) : Traced R (Check.operator? stop floor) := by
  refine peek.bind fun t ↦ ?_
  split
  · exact pure none
  · exact ite (pure none) <| advance.discard.bind fun _ ↦ here.bind fun _ ↦
      guard (violateAt _ _) <| peek.bind fun _ ↦ guard (violate _) (pure _)

theorem chainRound {rightSide : Nat → Check DataType} (hright : ∀ n, Traced R (rightSide n))
    (stop floor : Nat) (left : DataType) :
    Traced R (Check.chainRound rightSide stop floor left) := by
  refine (operator? stop floor).bind fun found ↦ ?_
  split
  · exact pure _
  · exact (hright _).bind fun _ ↦ (apply _ _ _ _).bind fun _ ↦ pure _

include hoperand in
theorem chain (stop levels floor : Nat) : Traced R (Check.chain operand stop levels floor) := by
  induction levels generalizing floor with
  | zero =>
    exact (hoperand stop).bind fun _ ↦ roundsWhile (here.bind fun _ ↦ pure _) fun _ ↦
      chainRound (fun _ ↦ hoperand stop) stop floor _
  | succ levels ih =>
    exact (hoperand stop).bind fun _ ↦ roundsWhile (here.bind fun _ ↦ pure _) fun _ ↦
      chainRound ih stop floor _

include hoperand in
theorem expressionWith (stop : Nat) : Traced R (Check.expressionWith operand stop) := by
  refine here.bind fun _ ↦ guard (violate _) ?_
  refine (chain hoperand stop (Operator.maxPrecedence + 1) 0).bind fun type ↦ here.bind fun _ ↦ ?_
  refine ite (peek.bind fun t ↦ ?_) (pure type)
  exact ite ((violate _).bind fun _ ↦ pure type) ((violate _).bind fun _ ↦ pure type)

/-! ### Indices, members and targets -/

include hoperand in
theorem oneIndex (size : Dimension) : Traced R (Check.oneIndex operand size) := by
  have hexpression (close : Nat) := expressionWith hoperand close
  exact here.bind fun _ ↦ (matchingClose _).bind fun close ↦ advance.discard.bind fun _ ↦
    peek.bind fun _ ↦ here.bind fun _ ↦ guard (checkLiteralIndex _ _) <|
      (hexpression close).bind fun _ ↦ guard (violateAt _ _) advance.discard

include hoperand in
theorem indices {wrongCount : Check Unit} (hwrong : Traced R wrongCount) :
    ∀ sizes, Traced R (Check.indices operand wrongCount sizes)
  | [] => pure _
  | size :: sizes =>
    (next? .leftBracket).bind fun _ ↦ otherwise hwrong <|
      (oneIndex hoperand size).bind fun _ ↦ indices hwrong sizes

include hoperand in
theorem elementType (symbol : Symbol) (name : Token) :
    Traced R (Check.elementType operand symbol name) := by
  unfold Check.elementType
  split
  · exact violateAt _ _
  · exact (indices hoperand (violateAt _ _) _).bind fun _ ↦ (next? .leftBracket).bind fun _ ↦
      guard (violateAt _ _) (pure _)

theorem member (symbol : Symbol) (name : Token) : Traced R (Check.member symbol name) := by
  unfold Check.member
  split
  · refine (expectMark .dot).discard.bind fun _ ↦ (expect .identifier .memberName).bind fun t ↦
      (resolve _).bind fun _ ↦ ?_
    split
    · split
      · exact pure _
      · exact violateAt _ _
    · exact violateAt _ _
  · exact violateAt _ _

include hoperand in
theorem target : Traced R (Check.target operand) := by
  refine (expect .identifier .name).bind fun t ↦ (writable t).bind fun symbol ↦
    peekKind.bind fun after ↦ ?_
  split
  · exact (elementType hoperand symbol t).bind fun _ ↦ pure _
  · exact (member symbol t).bind fun _ ↦ pure _
  · exact guard (violateAt _ _) (pure _)

/-! ### Calls -/

include hoperand in
theorem arguments (close : Nat) : Traced R (Check.arguments operand close) := by
  have hround (before : List Check.Argument) :
      Traced R (Check.argumentRound operand close before) :=
    peek.bind fun _ ↦ (expressionEnd [.comma]).bind fun _ ↦ (expressionWith hoperand _).bind fun _ ↦
      here.bind fun _ ↦ ite (pure _) <| (expect .comma _).discard.bind fun _ ↦ pure _
  exact here.bind fun _ ↦ ite (pure _) (rounds hround)

include hoperand in
theorem call : Traced R (Check.call operand) := by
  refine (expect .identifier .functionName).bind fun name ↦ (callee name).bind fun callee ↦
    here.bind fun _ ↦ (matchingClose _).bind fun close ↦ advance.discard.bind fun _ ↦ ?_
  have harguments := arguments hoperand close
  split
  · exact harguments.bind fun _ ↦ (expectMark .rightParen).discard.bind fun _ ↦
      (checkArity _ _ _ _).bind fun _ ↦ (checkTypes _ _ _).bind fun _ ↦ pure _
  · have hwhole : Traced R (Check.wholeArray close) :=
      peek.bind fun _ ↦ here.bind fun _ ↦ ite ((resolve _).bind fun _ ↦ pure _) (pure _)
    refine hwhole.bind fun _ ↦ ite ?_ ?_
    · exact advance.discard.bind fun _ ↦ (expectMark .rightParen).discard.bind fun _ ↦ pure _
    · exact harguments.bind fun _ ↦ (expectMark .rightParen).discard.bind fun _ ↦
        (checkArity _ _ _ _).bind fun _ ↦ (checkTypes _ _ _).bind fun _ ↦ pure _

/-! ### Operands -/

include hoperand in
theorem nameType (symbol : Symbol) (t : Token) (after : Kind) :
    Traced R (Check.nameType operand symbol t after) := by
  unfold Check.nameType
  split
  · exact elementType hoperand symbol t
  · exact (member symbol t).bind fun _ ↦ otherwise (warn _ _) (pure _)
  · exact guard (violateAt _ _) <| guard (violateAt _ _) <| advance.discard.bind fun _ ↦ pure _
  · exact guard (violateAt _ _) <| guard (violateAt _ _) <| advance.discard.bind fun _ ↦ pure _
  · exact guard (violateAt _ _) <| otherwise (warn _ _) (pure _)

include hoperand in
theorem nameOperand (stop : Nat) (t : Token) :
    Traced R (Check.nameOperand operand stop t) := by
  exact here.bind fun _ ↦ choose secondKind (pure _) fun after ↦ ite
    ((call hoperand).bind fun _ ↦ guard (violateAt _ _) (pure _))
    ((valueSymbol t).bind fun symbol ↦ advance.discard.bind fun _ ↦
      nameType hoperand symbol t after)

include hoperand in
theorem operandWith (stop : Nat) : Traced R (Check.operandWith operand stop) := by
  refine here.bind fun _ ↦ guard (violate _) <| peek.bind fun t ↦ ?_
  split
  · exact advance.discard.bind fun _ ↦ pure _
  · split
    · exact here.bind fun _ ↦ (matchingClose _).bind fun close ↦ guard (violate _) <|
        advance.discard.bind fun _ ↦ (expressionWith hoperand close).bind fun _ ↦
          advance.discard.bind fun _ ↦ pure _
    · exact advance.discard.bind fun _ ↦ (hoperand stop).bind fun _ ↦
        guard (violateAt _ _) (pure _)
    · exact advance.discard.bind fun _ ↦ (target hoperand).bind fun _ ↦
        (requireInt _).bind fun _ ↦ pure _
    · exact advance.discard.bind fun _ ↦ (target hoperand).bind fun _ ↦
        (requireInt _).bind fun _ ↦ pure _
    · exact nameOperand hoperand stop t
    · exact violate _
    · exact violate _
    · exact violate _

end

theorem operand : ∀ levels stop, Traced R (Check.operand levels stop)
  | 0, _ => tooDeep
  | levels + 1, stop => operandWith (operand levels) stop

theorem expressionType (levels stop : Nat) : Traced R (Check.expressionType levels stop) :=
  expressionWith (operand levels) stop

theorem valueType (levels : Nat) (terminators : List Kind) :
    Traced R (Check.valueType levels terminators) :=
  (expressionEnd terminators).bind fun stop ↦ expressionType levels stop

/-! ### Assignments -/

theorem inputValue (type : DataType) : Traced R (Check.inputValue type) :=
  advance.bind fun _ ↦ otherwise (violateAt _ _) <| (expectMark .leftParen).discard.bind fun _ ↦
    (expect .stringLit .promptString).discard.bind fun _ ↦ (expectMark .rightParen).discard

theorem compoundAssignment (levels : Nat) (terminators : List Kind) (op : Operator) (t : Target)
    (sign : Token) : Traced R (Check.compoundAssignment levels terminators op t sign) :=
  otherwise (violateAt _ _) <| peek.bind fun _ ↦ guard (violate _) <| otherwise (warn _ _) <|
    (valueType levels terminators).bind fun _ ↦ requireType _ _ _

/-! ### Declarations -/

/-- The word of a primitive type, and what goes on with it. -/
theorem typeWordThen (wanted : Wanted) {f : DataType → Check α}
    (hf : ∀ type, type.isPrimitive → Traced R (f type)) : Traced R (Check.typeWord wanted >>= f) := by
  refine (bind_assoc (m := Check) _ _ _).symm ▸ advance.bind fun t ↦ ?_
  split
  next type htype => exact hf type (Option.filter_eq_some_iff.1 htype).2
  next => exact fun c s ↦ .nil c s

theorem typeWord (wanted : Wanted) : Traced R (Check.typeWord wanted) := by
  refine advance.bind fun t ↦ ?_
  split
  · exact pure _
  · exact violateAt _ _

theorem another : Traced R Check.another :=
  (next? .comma).bind fun _ ↦ ite (advance.discard.bind fun _ ↦ pure true)
    ((expect .semicolon _).discard.bind fun _ ↦ pure false)

theorem declarators {one : Check Unit} (hone : Traced R one) : Traced R (Check.declarators one) :=
  rounds fun _ ↦ hone.bind fun _ ↦ another.bind fun _ ↦ pure _

theorem arraySize : Traced R Check.arraySize := by
  refine advance.bind fun t ↦ ?_
  split
  · show Traced R (Check.literalSize t)
    unfold Check.literalSize
    split
    · exact violateAt _ _
    · exact guard (violateAt _ _) (pure _)
  · exact violateAt _ _
  · refine (resolve t.lexeme).bind fun found ↦ ?_
    split
    · exact violateAt _ _
    · exact guard (violateAt _ _) <| otherwise (violateAt _ _) (pure _)
  · exact violateAt _ _

theorem arrayShape (name : Token) : Traced R (Check.arrayShape name) := by
  have hdimension : Traced R Check.dimension :=
    advance.discard.bind fun _ ↦ arraySize.bind fun _ ↦
      (expectMark .rightBracket).discard.bind fun _ ↦ pure _
  exact hdimension.bind fun _ ↦ (next? .leftBracket).bind fun _ ↦ ite
    (hdimension.bind fun _ ↦ (next? .leftBracket).bind fun _ ↦ guard (violate _) (pure _)) (pure _)

theorem element (type : DataType) : Traced R (Check.element type) := by
  refine advance.bind fun t ↦ ?_
  split
  · exact ite (violateAt _ _) (pure _)
  · refine guard (violateAt _ _) <| (resolve t.lexeme).bind fun found ↦ ?_
    split
    · exact violateAt _ _
    · exact guard (violateAt _ _) <| ite (pure _) (violateAt _ _)

theorem row (type : DataType) : Traced R (Check.row type) := by
  have hround (count : Nat) : Traced R (do
      Check.element type
      if ← Check.next? .comma then
        Functor.discard Check.advance
        return ForInStep.yield (count + 1)
      else
        return ForInStep.done (count + 1)) :=
    (element type).bind fun _ ↦ (next? .comma).bind fun _ ↦
      ite (advance.discard.bind fun _ ↦ pure _) (pure _)
  have hend (count : Nat) : Traced R (do
      Functor.discard (Check.expectMark .rightBrace)
      return count) :=
    (expectMark .rightBrace).discard.bind fun _ ↦ pure count
  exact (expectMark .leftBrace).discard.bind fun _ ↦ (next? .rightBrace).bind fun _ ↦
    ite (hend _) ((rounds hround).bind hend)

theorem arrayInitializer (type : DataType) (isConstant : Bool) (shape : Check.Shape) :
    Traced R (Check.arrayInitializer type isConstant shape) := by
  cases shape with
  | row size => exact peek.bind fun _ ↦ (row type).bind fun _ ↦ checkCount _ _ _ _ _
  | table rowCount columns =>
    have hrows : Traced R (Check.rows type columns isConstant) :=
      roundsWhile ((next? .rightBrace).bind fun _ ↦ pure _) fun _ ↦ peek.bind fun _ ↦
        (row type).bind fun _ ↦ (checkCount _ _ _ _ _).bind fun _ ↦ (next? .comma).bind fun _ ↦
          ite (advance.discard.bind fun _ ↦ pure _) (pure _)
    exact (expectMark .leftBrace).bind fun _ ↦ hrows.bind fun _ ↦
      (expectMark .rightBrace).discard.bind fun _ ↦ checkCount _ _ _ _ _

end

/-! ### What is known where a value is given or something is declared -/

section

variable {c : Context} {s : State} {operand : Nat → Check DataType}

/-- A member that was read is one of the struct of the instance. -/
theorem ensures_member_part {symbol : Symbol} {name : String} (token : Token)
    (hsymbol : s.arena.lookup c.scope name = some symbol) :
    Ensures (Check.member symbol token) c s (fun _ ↦ True) fun m after ↦
      after.arena.HasPart c.scope name (.member m.name) := by
  unfold Check.member
  split
  next structName given hkind =>
    simp only [ensures_bind, ensures_discard, ensures_expectMark, ensures_expect, ensures_resolve]
    refine ⟨fun _ ↦ ⟨fun _ ↦ ?_, fun _ ↦ trivial⟩, fun _ ↦ trivial⟩
    split
    next members hstruct =>
      obtain ⟨struct, hlookup, hstruct⟩ := Option.map_eq_some_iff.1 hstruct
      obtain ⟨owner, hholds, hname⟩ := Arena.holds_of_lookup hlookup
      have hknown : s.arena.KnowsStruct structName members :=
        ⟨owner, struct, hholds, hname, by rw [Symbol.members?, hstruct]⟩
      split
      next m hfound =>
        refine ⟨symbol, structName, given, members, hsymbol, hkind, hknown, ?_⟩
        exact List.mem_map.2 ⟨m, List.mem_of_find?_eq_some hfound, by
          simpa using List.find?_some hfound⟩
      next => trivial
    next => trivial
  next => trivial

/-- The part a target stands for is there. -/
theorem ensures_target_part : Ensures (Check.target operand) c s (fun _ ↦ True) fun t after ↦
    after.arena.HasPart c.scope t.name t.part := by
  simp only [Check.target, ensures_bind, ensures_expect, ensures_peekKind]
  refine ⟨fun _ ↦ ?_, fun _ ↦ trivial⟩
  have hwritable (t : Token) (u : State) : Ensures (Check.writable t) c u (fun _ ↦ True)
      fun symbol after ↦ after = u ∧ u.arena.lookup c.scope symbol.name = some symbol := by
    simp only [Check.writable, ensures_bind, ensures_resolve]
    split
    · trivial
    next symbol hlookup =>
      obtain ⟨-, -, hname⟩ := Arena.holds_of_lookup hlookup
      simp only [ensures_bind, ensures_ite, ensures_violateAt, ensures_pure]
      exact ⟨fun _ ↦ trivial, fun _ ↦ ⟨fun _ ↦ trivial, fun _ ↦ ⟨trivial, hname ▸ hlookup⟩⟩⟩
  refine (hwritable _ _).mono ?_
  rintro symbol _ ⟨rfl, hlookup⟩
  split
  · rw [ensures_bind]
    exact (ensures_leaves _ c _).mono fun _ _ _ ↦ trivial
  · rw [ensures_bind]
    exact ensures_member_part _ hlookup
  · simp only [ensures_bind, ensures_ite, ensures_violateAt, ensures_pure]
    exact ⟨fun _ ↦ trivial, fun _ ↦ trivial⟩

theorem ensures_literalSize_pos (t : Token) :
    Ensures (Check.literalSize t) c s (fun _ ↦ True) fun found _ ↦
      ∀ size, found = .literal size → 1 ≤ size := by
  unfold Check.literalSize
  split
  · trivial
  next size _ =>
    simp only [ensures_bind, ensures_ite, ensures_violateAt, ensures_pure]
    refine ⟨fun _ ↦ trivial, fun hpos _ hsame ↦ ?_⟩
    cases hsame
    exact Nat.one_le_iff_ne_zero.2 hpos

theorem ensures_dimension_pos : Ensures Check.dimension c s (fun _ ↦ True) fun found _ ↦
    ∀ size, found = .literal size → 1 ≤ size := by
  simp only [Check.dimension, Check.arraySize, ensures_bind, ensures_discard, ensures_advance,
    ensures_expectMark, ensures_pure]
  have hbracket {d : Dimension} (h : ∀ size, d = .literal size → 1 ≤ size) (t : State) :
      (c.kindAt t.position = .rightBracket → ∀ size, d = .literal size → 1 ≤ size) ∧
        (c.kindAt t.position ≠ .rightBracket → True) :=
    ⟨fun _ ↦ h, fun _ ↦ trivial⟩
  split
  · exact (ensures_literalSize_pos _).mono fun _ t h ↦ hbracket h t
  · trivial
  · simp only [Check.namedSize, ensures_bind, ensures_resolve]
    split
    · trivial
    next symbol _ =>
      have hnamed : ∀ size, Dimension.named symbol.name = .literal size → 1 ≤ size := by
        simp
      simp only [ensures_bind, ensures_ite, ensures_violateAt, ensures_pure]
      exact ⟨fun _ ↦ trivial, fun _ ↦ ⟨fun _ ↦ hbracket hnamed _, fun _ ↦ trivial⟩⟩
  · trivial

/-- An array has one or two dimensions, the literal ones positive, and a constant one has a value. -/
theorem ensures_arrayDeclarator_shape (type : DataType) (isConstant : Bool) (name : Token) :
    Ensures (Check.arrayDeclarator type isConstant name) c s (fun _ ↦ True) fun found _ ↦
      ((found.1.dimensions.length = 1 ∨ found.1.dimensions.length = 2) ∧
        ∀ size, .literal size ∈ found.1.dimensions → 1 ≤ size) ∧
          (isConstant = true → found.2 = true) := by
  have hshape : Ensures (Check.arrayShape name) c s (fun _ ↦ True) fun shape _ ↦
      (shape.dimensions.length = 1 ∨ shape.dimensions.length = 2) ∧
        ∀ size, .literal size ∈ shape.dimensions → 1 ≤ size := by
    simp only [Check.arrayShape, ensures_bind, ensures_next?, ensures_ite, ensures_violate,
      ensures_pure]
    refine ensures_dimension_pos.mono fun first _ hfirst ↦ ⟨fun _ ↦ ?_, fun _ ↦ ⟨.inl rfl, ?_⟩⟩
    · refine ensures_dimension_pos.mono fun second _ hsecond ↦
        ⟨fun _ ↦ trivial, fun _ ↦ ⟨.inr rfl, fun size hsize ↦ ?_⟩⟩
      obtain h | h : .literal size = first ∨ .literal size = second := by
        simpa [Check.Shape.dimensions] using hsize
      · exact hfirst size h.symm
      · exact hsecond size h.symm
    · intro size hsize
      have h : .literal size = first := by simpa [Check.Shape.dimensions] using hsize
      exact hfirst size h.symm
  simp only [Check.arrayDeclarator, ensures_bind, ensures_next?, ensures_ite, ensures_discard,
    ensures_advance, ensures_violateAt, ensures_pure]
  refine hshape.mono fun shape _ hshape ↦ ⟨fun _ ↦ ?_, fun _ ↦ ⟨fun _ ↦ trivial, fun hvariable ↦ ?_⟩⟩
  · exact (ensures_leaves _ c _).mono fun _ _ _ ↦ ⟨hshape, fun _ ↦ trivial⟩
  · exact ⟨hshape, fun hconstant ↦ absurd hconstant hvariable⟩

end

/-! ### Assignments of values -/

section

variable [R.Reading] {c : Context} {s : State} {t : Target} {I : State → Prop}

theorem plainAssignment (h : Markable R c t I) (levels : Nat) (terminators : List Kind) (sign : Token)
    (hs : I s) : TracedFrom R (Check.plainAssignment levels terminators t sign) c s :=
  h.next (next? .inputWord) (next? .inputWord) hs fun _ _ hs ↦ .ite
    (fun _ ↦ h.next (inputValue t.type) (inputValue t.type) hs fun _ _ hs ↦ h.mark hs)
    (fun _ ↦ h.next (valueType levels terminators) (valueType levels terminators) hs
      fun found _ hs ↦ h.next (requireType t.type found sign) (requireType t.type found sign) hs
        fun _ _ hs ↦ h.mark hs)

theorem assignmentTail (h : Markable R c t I) (levels : Nat) (terminators : List Kind) (hs : I s) :
    TracedFrom R (Check.assignmentTail levels terminators t) c s := by
  refine h.next peek peek hs fun sign after hs ↦ ?_
  split
  · exact h.next advance.discard advance.discard hs fun _ _ hs ↦
      plainAssignment h levels terminators sign hs
  · exact (advance.discard.bind fun _ ↦ requireInt t) c after
  · exact (advance.discard.bind fun _ ↦ requireInt t) c after
  · split
    · exact (advance.discard.bind fun _ ↦ compoundAssignment levels terminators _ t sign) c after
    · exact violate _ c after

end

/-! ### Parts of declarations, and statements that write to nothing -/

section

variable [R.Reading]

theorem arrayDeclarator (type : DataType) (isConstant : Bool) (name : Token) :
    Traced R (Check.arrayDeclarator type isConstant name) :=
  (arrayShape name).bind fun shape ↦ (next? .assign).bind fun _ ↦ ite
    (advance.discard.bind fun _ ↦ (arrayInitializer type isConstant shape).bind fun _ ↦ pure _)
    (guard (violateAt _ _) (pure _))

theorem initializer (levels : Nat) (type : DataType) (sign : Token) :
    Traced R (Check.initializer levels type sign) :=
  (next? .inputWord).bind fun _ ↦ ite (inputValue type)
    ((valueType levels [.comma]).bind fun _ ↦ requireType _ _ _)

theorem countStatement (levels : Nat) : Traced R (Check.countStatement levels) :=
  advance.discard.bind fun _ ↦ (target (operand levels)).bind fun t ↦ (requireInt t).bind fun _ ↦
    (expectMark .semicolon).discard

theorem printStatement (levels : Nat) : Traced R (Check.printStatement levels) :=
  advance.discard.bind fun _ ↦ here.bind fun _ ↦ (expectMark .leftParen).discard.bind fun _ ↦
    (matchingClose _).bind fun close ↦ (arguments (operand levels) close).discard.bind fun _ ↦
      (expectMark .rightParen).discard.bind fun _ ↦ (expectMark .semicolon).discard

theorem inParentheses (levels : Nat) : Traced R (Check.inParentheses levels) :=
  here.bind fun _ ↦ (expectMark .leftParen).bind fun _ ↦ (matchingClose _).bind fun close ↦
    (expressionType levels close).bind fun _ ↦ (expectMark .rightParen).discard.bind fun _ ↦ pure _

theorem condition (levels : Nat) (construct : Guarded) :
    Traced R (Check.condition levels construct) :=
  (inParentheses levels).bind fun _ ↦ ite (violateAt _ _) (pure _)

theorem caseLabel (selector : DataType) (labels : List String) :
    Traced R (Check.caseLabel selector labels) :=
  advance.bind fun _ ↦ otherwise (violateAt _ _) <| guard (violateAt _ _) (pure _)

theorem forCondition (levels : Nat) : Traced R (Check.forCondition levels) :=
  (valueType levels []).bind fun _ ↦ guard (violate _) (expectMark .semicolon).discard

theorem breakStatement : Traced R Check.breakStatement :=
  advance.bind fun _ ↦ read.bind fun _ ↦ guard (violateAt _ _) (expectMark .semicolon).discard

theorem continueStatement : Traced R Check.continueStatement := by
  refine advance.bind fun keyword ↦ read.bind fun c ↦ ?_
  split
  · exact (expectMark .semicolon).discard
  · exact violateAt _ _
  · exact violateAt _ _

theorem endStatement : Traced R Check.endStatement :=
  advance.bind fun _ ↦ read.bind fun _ ↦ otherwise (violateAt _ _) <|
    (expectMark .semicolon).discard.bind fun _ ↦ (next? .rightBrace).bind fun _ ↦
      ite (pure _) (violateAt _ _)

end

section

variable [R.Stepping]

/-! ### Declarations of names -/

theorem declarator (levels : Nat) {type : DataType} (htype : type.isPrimitive) (isConstant : Bool) :
    Traced R (Check.declarator levels type isConstant) := by
  have hvalue (name : Token) : (Check.bareSymbol type isConstant name).isValue := by
    cases isConstant <;> rfl
  have hformed (name : Token) (isStruct : String → List TypedName → Prop) :
      (Check.bareSymbol type isConstant name).WellFormed isStruct := by
    cases isConstant
    · exact Symbol.wellFormed_of_isPrimitive (.inl rfl) htype nofun
    · exact Symbol.wellFormed_of_isPrimitive (.inr ⟨rfl, rfl⟩) htype nofun
  refine (expect .identifier .name).bind fun name ↦ (declaredHere _).bind fun _ ↦
    guard (violateAt _ _) <| (next? .leftBracket).bind fun _ ↦ ite ?_ ?_
  · refine fun c s ↦ .next (arrayDeclarator type isConstant name c s)
      (ensures_arrayDeclarator_shape type isConstant name) ?_
    rintro ⟨shape, initialized⟩ after ⟨hshape, hgiven⟩
    refine .declare name (hvalue name) ?_
    cases isConstant with
    | false =>
      exact Symbol.wellFormed_of_isPrimitive (.inl rfl) htype fun _ h ↦ Option.some.inj h ▸ hshape
    | true =>
      exact Symbol.wellFormed_of_isPrimitive (.inr ⟨rfl, hgiven rfl⟩) htype
        fun _ h ↦ Option.some.inj h ▸ hshape
  · exact (next? .assign).bind fun _ ↦ ite
      (advance.bind fun sign ↦ (initializer levels type sign).bind fun _ _ _ ↦
        .declare name (hvalue name) (hformed name _).withValue)
      (guard (violateAt _ _) fun _ _ ↦ .declare name (hvalue name) (hformed name _))

theorem variableDeclaration (levels : Nat) : Traced R (Check.variableDeclaration levels) :=
  typeWordThen .dataType fun _ htype ↦ declarators (declarator levels htype false)

theorem constantDeclaration (levels : Nat) : Traced R (Check.constantDeclaration levels) :=
  advance.discard.bind fun _ ↦ typeWordThen .dataType fun _ htype ↦
    declarators (declarator levels htype true)

/-- Instances of a struct that is known; what they are called does not make it unknown. -/
theorem instances {c : Context} {s : State} {structName : String} {members : List TypedName}
    (hknown : s.arena.KnowsStruct structName members) :
    TracedFrom R (Check.declarators do
      let name ← Check.expect .identifier .name
      Check.declare (.ofInstance name.lexeme structName name.position) name) c s := by
  have hanother : Traced R Check.another := another
  refine .roundsWhile (I := fun _ u ↦ u.arena.KnowsStruct structName members) hknown (.pure true)
    fun _ u hu ↦ (ensures_pure true).2 fun _ ↦ ⟨?_, ?_⟩
  · refine TracedFrom.bind (TracedFrom.next (expect .identifier .name c u) (Q := fun _ after ↦ after.arena = u.arena)
      (E := fun _ ↦ True) (ensures_expect.2 ⟨fun _ ↦ rfl, fun _ ↦ trivial⟩) fun name after hsame ↦ ?_)
      fun _ after _ ↦ (hanother.bind fun _ ↦ pure _) c after
    exact .declare name rfl (Symbol.wellFormed_ofInstance (hsame ▸ hu) _ _)
  · simp only [Check.declare, Check.another, ensures_bind, ensures_expect, ensures_read,
      ensures_insertSymbol, ensures_ite, ensures_violateAt, ensures_pure, ensures_next?,
      ensures_discard, ensures_advance]
    refine ⟨fun _ ↦ ⟨fun arena hinsert ↦ ⟨fun _ ↦ ⟨fun _ _ _ ↦ ?_, fun _ ↦ ⟨fun _ _ _ ↦ ?_, fun _ ↦ trivial⟩⟩,
      fun _ ↦ trivial⟩, fun _ ↦ ⟨by simp, fun _ ↦ trivial⟩⟩, fun _ ↦ trivial⟩
    · exact hu.insert hinsert
    · exact hu.insert hinsert

theorem instanceDeclaration : Traced R Check.instanceDeclaration := by
  refine advance.discard.bind fun _ ↦ (expect .identifier .structTypeName).bind fun structName c s ↦ ?_
  refine .next (resolve structName.lexeme c s) (E := fun _ ↦ True)
    (Q := fun found after ↦ found = s.arena.lookup c.scope structName.lexeme ∧ after = s)
    (ensures_resolve.2 ⟨rfl, rfl⟩) ?_
  rintro _ _ ⟨rfl, rfl⟩
  split
  next members hstruct =>
    obtain ⟨struct, hlookup, hstruct⟩ := Option.map_eq_some_iff.1 hstruct
    obtain ⟨owner, hholds, hname⟩ := Arena.holds_of_lookup hlookup
    exact instances ⟨owner, struct, hholds, hname, by rw [Symbol.members?, hstruct]⟩
  next => exact violateAt _ _ c _

/-! ### Statements -/

section

variable {inner : Check.Inner} (hinner : ∀ terminators, Traced R (inner terminators))

include hinner in
theorem block (label : String) : Traced R (Check.block inner label) :=
  (expectMark .leftBrace).discard.bind fun _ ↦
    (inScope label (hinner [.rightBrace])).discard.bind fun _ ↦ (expectMark .rightBrace).discard

theorem nameStatement (levels : Nat) : Traced R (Check.nameStatement levels) :=
  secondKind.bind fun _ ↦ ite
    ((call (operand levels)).discard.bind fun _ ↦ (expectMark .semicolon).discard)
    fun c s ↦ .next (target (operand levels) c s) ensures_target_part fun _ _ hpart ↦
      TracedFrom.bind (assignmentTail .of_hasPart levels [] hpart) fun _ after _ ↦
        (expectMark .semicolon).discard c after

include hinner in
theorem ifStatement (levels : Nat) : Traced R (Check.ifStatement levels inner) :=
  advance.discard.bind fun _ ↦ (condition levels .ifBlock).bind fun _ ↦
    (block hinner _).bind fun _ ↦
      (roundsWhile (next? .elseIfWord) fun _ ↦ advance.discard.bind fun _ ↦
        (condition levels .elseIfBlock).bind fun _ ↦ (block hinner _).bind fun _ ↦ pure _).bind
          fun _ ↦ (next? .elseWord).bind fun _ ↦
            ite (advance.discard.bind fun _ ↦ block hinner _) (pure _)

include hinner in
theorem caseBlock (keyword : Token) (which : CaseBlock) :
    Traced R (Check.caseBlock inner keyword which) :=
  (expectMark .colon).discard.bind fun _ ↦
    (inScope "case block" (inBlock .case (hinner _))).bind fun _ ↦ ite (violateAt _ _) (pure _)

include hinner in
theorem switchRound (selector : DataType) (soFar : Check.SwitchSoFar) :
    Traced R (Check.switchRound inner selector soFar) := by
  refine peek.bind fun t ↦ ?_
  split
  · exact pure _
  · exact advance.discard.bind fun _ ↦ (caseLabel selector soFar.labels).bind fun _ ↦
      (caseBlock hinner t _).bind fun _ ↦ pure _
  · exact guard (violateAt _ _) <| advance.discard.bind fun _ ↦
      (caseBlock hinner t .default).bind fun _ ↦ pure _
  · exact violate _
  · exact violate _

include hinner in
theorem switchStatement (levels : Nat) : Traced R (Check.switchStatement levels inner) :=
  advance.bind fun _ ↦ read.bind fun _ ↦ guard (violateAt _ _) <|
    (inParentheses levels).bind fun _ ↦ guard (violateAt _ _) <|
      (expectMark .leftBrace).discard.bind fun _ ↦
        (inBlock .switch (rounds (switchRound hinner _))).discard.bind fun _ ↦
          (expectMark .rightBrace).discard

include hinner in
theorem whileStatement (levels : Nat) : Traced R (Check.whileStatement levels inner) :=
  advance.discard.bind fun _ ↦ (condition levels .whileLoop).bind fun _ ↦
    inBlock .loop (block hinner "while block")

include hinner in
theorem doStatement (levels : Nat) : Traced R (Check.doStatement levels inner) :=
  advance.discard.bind fun _ ↦ (inBlock .loop (block hinner "do block")).bind fun _ ↦
    (expectMark .whileWord).discard.bind fun _ ↦ (condition levels .doLoop).bind fun _ ↦
      (expectMark .semicolon).discard

theorem forStart (levels : Nat) : Traced R (Check.forStart levels) := by
  refine fun c s ↦ .next (target (operand levels) c s) ensures_target_part fun t _ hpart ↦ ?_
  have h : Markable R c t _ := .of_hasPart
  exact h.next (requireForVariable .start t) (requireForVariable .start t) hpart fun _ _ hpart ↦
    h.next (expectMark .assign) (expectMark .assign) hpart fun sign _ hpart ↦
      h.next (valueType levels []) (valueType levels []) hpart fun found _ hpart ↦
        h.next (requireType .int found sign) (requireType .int found sign) hpart fun _ _ hpart ↦
          TracedFrom.bind (h.mark hpart) fun _ after _ ↦ (expectMark .semicolon).discard c after

theorem forUpdate (levels : Nat) : Traced R (Check.forUpdate levels) := by
  refine peekKind.bind fun k ↦ ?_
  split
  · exact advance.discard.bind fun _ ↦ (target (operand levels)).bind fun t ↦
      requireForVariable .update t
  · exact advance.discard.bind fun _ ↦ (target (operand levels)).bind fun t ↦
      requireForVariable .update t
  · refine fun c s ↦ .next (target (operand levels) c s) ensures_target_part fun t _ hpart ↦ ?_
    have h : Markable R c t _ := .of_hasPart
    exact h.next (requireForVariable .update t) (requireForVariable .update t) hpart fun _ _ hpart ↦
      h.next peekKind peekKind hpart fun _ after hpart ↦
        .ite (fun _ ↦ assignmentTail h levels [.rightParen] hpart) fun _ ↦ violate _ c after
  · exact violate _

include hinner in
theorem forStatement (levels : Nat) : Traced R (Check.forStatement levels inner) := by
  refine advance.discard.bind fun _ ↦ here.bind fun _ ↦ (expectMark .leftParen).discard.bind
    fun _ ↦ (matchingClose _).bind fun _ ↦ (forStart levels).bind fun _ ↦
      (forCondition levels).bind fun _ ↦ (forUpdate levels).bind fun _ ↦ here.bind fun _ ↦ ?_
  have hrest := (expectMark .rightParen).discard.bind fun _ ↦
    inBlock .loop (block hinner "for block")
  exact ite (peek.bind fun _ ↦ (violate _).bind fun _ ↦ hrest) hrest

theorem returnStatement (levels : Nat) : Traced R (Check.returnStatement levels) := by
  refine advance.bind fun keyword ↦ read.bind fun c ↦ ?_
  have hmark : Traced R (do
      (MonadState.modifyGet fun s ↦ ((), { s with sawReturn := true }) : Check Unit)
      Functor.discard (Check.expectMark .semicolon)) :=
    bind (modify fun _ _ ↦ Rules.Stepping.step .returned) fun _ ↦ (expectMark .semicolon).discard
  split
  · exact violateAt _ _
  · refine ite (bind ?_ fun _ ↦ hmark) (ite (bind ?_ fun _ ↦ hmark) (bind ?_ fun _ ↦ hmark))
    · exact (next? .semicolon).bind fun _ ↦ ite (pure _) <| peek.bind fun _ ↦
        secondKind.bind fun _ ↦ ite advance.discard (violateAt _ _)
    · exact (next? .semicolon).bind fun _ ↦ ite (pure _) (violateAt _ _)
    · exact (next? .semicolon).bind fun _ ↦ guard (violateAt _ _) <|
        (valueType levels []).bind fun _ ↦ ite (violateAt _ _) (pure _)

include hinner in
theorem ordinaryStatement (levels : Nat) (t : Token) :
    Traced R (Check.ordinaryStatement levels inner t) := by
  unfold Check.ordinaryStatement
  split
  case h_1 | h_2 | h_3 | h_4 | h_5 => exact variableDeclaration levels
  case h_6 => exact constantDeclaration levels
  case h_7 => exact instanceDeclaration
  case h_8 => exact nameStatement levels
  case h_9 | h_10 => exact countStatement levels
  case h_11 => exact printStatement levels
  case h_12 => exact ifStatement hinner levels
  case h_13 => exact switchStatement hinner levels
  case h_14 => exact forStatement hinner levels
  case h_15 => exact whileStatement hinner levels
  case h_16 => exact doStatement hinner levels
  case h_17 => exact returnStatement levels
  case h_18 => exact continueStatement
  case h_19 => exact endStatement
  all_goals exact violate _

include hinner in
theorem statementWith (levels : Nat) : Traced R (Check.statementWith levels inner) :=
  peek.bind fun t ↦ ite (breakStatement.bind fun _ ↦ pure _)
    ((ordinaryStatement hinner levels t).bind fun _ ↦ pure _)

end

theorem statementsBelow : ∀ levels terminators,
    Traced R (Check.statementsBelow levels terminators)
  | 0, _ => tooDeep
  | levels + 1, terminators => statementsUntil (statementWith (statementsBelow levels) levels) terminators

theorem statement (levels : Nat) : Traced R (Check.statement levels) :=
  statementWith (statementsBelow levels) levels

theorem skipStruct [R.Moving] : Traced R Check.skipStruct :=
  (roundsWhile ((next? .leftBrace).bind fun _ ↦ pure _) fun _ ↦ atEnd.bind fun _ ↦
    guard (violate _) (advance.discard.bind fun _ ↦ pure _)).bind fun _ ↦ here.bind fun _ ↦
      (matchingClose _).bind fun _ ↦ (moveTo _).bind fun _ ↦ (expectMark .semicolon).discard

end

/-! ### Parts of headers -/

section

theorem typedName [R.Reading] (wantedType wantedName : Wanted) :
    Traced R (Check.typedName wantedType wantedName) :=
  (typeWord wantedType).bind fun _ ↦ (expect .identifier wantedName).bind fun _ ↦ pure _

theorem bodyRange [R.Reading] [R.Moving] : Traced R Check.bodyRange :=
  (next? .leftBrace).bind fun _ ↦ otherwise (expectMark .leftBrace).discard <|
    here.bind fun _ ↦ (matchingClose _).bind fun _ ↦ (moveTo _).bind fun _ ↦ pure _

variable [R.Moving] [R.Declaring]

theorem insertSymbol {scope : Nat} {symbol : Symbol} (hentry : HeaderEntry scope symbol) :
    Traced R (Check.insertSymbol scope symbol) := by
  intro c s
  refine (Trace.nil c s).change ?_
  show R.change c s ((Check.insertSymbol scope symbol).runFrom c s).2
  rw [runFrom_insertSymbol]
  split
  next hfree => exact Rules.Declaring.declared hentry hfree
  · exact Rules.Moving.moved s.position

theorem declareGlobal {symbol : Symbol} (hentry : HeaderEntry 0 symbol) (name : Token) :
    Traced R (Check.declareGlobal symbol name) :=
  (insertSymbol hentry).bind fun _ ↦ ite (pure _) (violateAt _ _)

theorem ensures_typedName_isPrimitive (wantedType wantedName : Wanted) {c : Context} {s : State} :
    Ensures (Check.typedName wantedType wantedName) c s (fun _ ↦ True) fun p _ ↦
      p.type.isPrimitive := by
  simp only [Check.typedName, Check.typeWord, ensures_bind, ensures_advance]
  split
  next type htype =>
    simp only [ensures_pure, ensures_expect]
    exact ⟨fun _ ↦ (Option.filter_eq_some_iff.1 htype).2, fun _ ↦ trivial⟩
  next => trivial

variable [R.Reading]

theorem parameters (scope : Nat) : Traced R (Check.parameters scope) := by
  have hround (before : List TypedName) : Traced R (Check.parameterRound scope before) := by
    refine fun c s ↦ .next (typedName _ _ c s) (ensures_typedName_isPrimitive _ _)
      fun p after hp ↦ ?_
    refine ((insertSymbol (.parameter scope p hp)).bind fun _ ↦ otherwise (refuse _) ?_) c after
    exact (next? .comma).bind fun _ ↦ ite (advance.discard.bind fun _ ↦ pure _) (pure _)
  exact (next? .rightParen).bind fun _ ↦ ite (pure _) (rounds hround)

theorem structHeader : Traced R Check.structHeader := by
  have hround (structName : String) (before : List TypedName) :
      Traced R (Check.memberRound structName before) :=
    (typedName _ _).bind fun _ ↦ guard (refuse _) <|
      (expectMark .semicolon).discard.bind fun _ ↦ pure _
  exact advance.discard.bind fun _ ↦ (expect .identifier .structName).bind fun name ↦
    (requireFree .struct name).bind fun _ ↦ (expectMark .leftBrace).discard.bind fun _ ↦
      (roundsWhile ((next? .rightBrace).bind fun _ ↦ pure _) (hround name.lexeme)).bind
        fun members ↦ (expectMark .rightBrace).discard.bind fun _ ↦
          (expectMark .semicolon).discard.bind fun _ ↦
            declareGlobal (.struct name.lexeme members name.position) name

end

section

variable [R.Surveying]

theorem openFunctionScope (label : String) : Traced R (Check.openFunctionScope label) :=
  fun c s ↦ (Trace.nil c s).change (Rules.Surveying.opened label)

end

/-! ### Bodies -/

section

variable [R.Stepping] [R.Entering]

theorem bodyStatements (name : String) (info : FunctionInfo) :
    Traced R (Check.bodyStatements name info) := by
  refine read.bind fun c ↦ withReader (fun _ ↦ Rules.Entering.function _ name info)
    (bind (modify fun _ _ ↦ Rules.Entering.started _) fun _ ↦ ?_)
  exact (statementsUntil (statement c.limits.nesting) [.rightBrace]).discard.bind fun _ ↦
    here.bind fun _ ↦ ite (violate _) (pure _)

variable [R.Moving]

/-- The walk over a body, where it may be recorded whether this one returns. -/
theorem functionBody {name : String} (hrecord : ∀ (c : Context) (s : State) (sawReturn : Bool),
    R.change c s { s with arena := s.arena.modify 0 name (Symbol.withReturn sawReturn) }) :
    Traced R (Check.functionBody name) := by
  refine (signature name).bind fun found ↦ (bodyStatements name found.1).bind fun _ ↦
    (moveTo _).bind fun _ ↦ get.bind fun s ↦ bind (modify fun _ _ ↦ hrecord _ _ _) fun _ ↦ ?_
  exact ite (refuse _) (pure _)

theorem programRound (hrecord : ∀ (c : Context) (s : State) (name : String) (sawReturn : Bool),
    R.change c s { s with arena := s.arena.modify 0 name (Symbol.withReturn sawReturn) }) :
    Traced R Check.programRound := by
  refine peekKind.bind fun k ↦ ?_
  split
  iterate 2
    · refine get.bind fun s ↦ here.bind fun i ↦ ?_
      split
      next name _ => exact functionBody fun c s ↦ hrecord c s name
      next => exact violate _
  · exact skipStruct
  · exact read.bind fun c ↦ (statement c.limits.nesting).discard

end

end Traced

end FrontEnd
