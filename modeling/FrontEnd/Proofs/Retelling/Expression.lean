import FrontEnd.Proofs.Retelling.Alike

/-!
# Expressions of retold texts

The checks of expressions end alike: chains of operands, what may follow a name, calls and operands.
One lemma for each of them, which follows its text.  Names only ever go into lookups and reports, and
types are only compared with each other and with types that have no name.
-/

namespace FrontEnd

open Check

/-- The part with its name renamed. -/
def Part.renamed (rename : String → String) : Part → Part
  | .member name => .member (rename name)
  | part => part

namespace Retelling

variable (T : Retelling)

/-- The targets of the same assignment. -/
structure Targets (a b : Target) : Prop where
  declared : T.Declared a.name
  name : b.name = T.rename a.name
  type : T.Types a.type b.type
  part : b.part = a.part.renamed T.rename
  initialized : b.initialized = a.initialized
  token : T.Tokens a.token b.token

/-- The members behind the same instance. -/
structure Members (a b : Member) : Prop where
  declared : T.Declared a.name
  name : b.name = T.rename a.name
  type : T.Types a.type b.type
  initialized : b.initialized = a.initialized

/-- What the same call calls. -/
inductive Callees : Callee → Callee → Prop
  | declared {a b : FunctionInfo} : T.Infos a b → Callees (.declared a) (.declared b)
  | builtin (b : Builtin) : Callees (.builtin b) (.builtin b)

/-- The same arguments. -/
structure Arguments (a b : Argument) : Prop where
  type : T.Types a.1 b.1
  token : T.Tokens a.2 b.2

variable {T}

namespace Alike

variable {t u : Token} {a b : Symbol}

/-! ### Chains of operands -/

section

variable {operand operand' : Nat → Check DataType}

theorem operator? (stop floor : Nat) :
    T.Alike (Option.Rel fun a b ↦ b.1 = a.1 ∧ T.Tokens a.2 b.2) (Check.operator? stop floor)
      (Check.operator? stop floor) := by
  refine peek.bind fun t u h ↦ ?_
  rw [T.kind h]
  split
  · exact pure .none
  · exact ite Iff.rfl (pure .none) <| advance.discard.next fun _ ↦ here.next fun _ ↦
      guard Iff.rfl (violateAt h rfl) <| peek.bind fun _ _ hnext ↦
        guard (by rw [isZeroLiteral_eq hnext]) (violate fun _ ↦ rfl) (pure (.some ⟨rfl, h⟩))

theorem apply (op : Operator) (h : T.Tokens t u) (left right : DataType) :
    T.Alike T.Types (Check.apply op t left right)
      (Check.apply op u (left.renamed T.rename) (right.renamed T.rename)) := by
  unfold Check.apply
  rw [resultType_renamed]
  cases op.resultType left right with
  | none => exact violateAt h rfl
  | some type => exact pure rfl

theorem chainRound {rightSide rightSide' : Nat → Check DataType}
    (hright : ∀ n, T.Alike T.Types (rightSide n) (rightSide' n)) (stop floor : Nat) (left : DataType) :
    T.Alike (Steps T.Types) (Check.chainRound rightSide stop floor left)
      (Check.chainRound rightSide' stop floor (left.renamed T.rename)) := by
  refine (operator? stop floor).bind fun found found' hfound ↦ ?_
  cases hfound with
  | none => exact pure (.done rfl)
  | @some a b h =>
    obtain ⟨op, t⟩ := a
    obtain ⟨op', u⟩ := b
    obtain rfl : op = op' := h.1.symm
    exact (hright _).typed fun right ↦ (apply op h.2 left right).typed fun _ ↦ pure (.yield rfl)

variable (hoperand : ∀ stop, T.Alike T.Types (operand stop) (operand' stop))

include hoperand

theorem chain (stop levels floor : Nat) :
    T.Alike T.Types (Check.chain operand stop levels floor)
      (Check.chain operand' stop levels floor) := by
  have hdue : T.Alike Eq (do return (← Check.here) < stop : Check Bool)
      (do return (← Check.here) < stop) := here.next fun _ ↦ same _
  induction levels generalizing floor with
  | zero =>
    refine (hoperand stop).typed fun _ ↦ roundsWhile hdue ?_ rfl
    rintro left _ rfl
    exact chainRound (fun _ ↦ hoperand stop) stop floor left
  | succ levels ih =>
    refine (hoperand stop).typed fun _ ↦ roundsWhile hdue ?_ rfl
    rintro left _ rfl
    exact chainRound ih stop floor left

theorem expressionWith (stop : Nat) :
    T.Alike T.Types (Check.expressionWith operand stop) (Check.expressionWith operand' stop) := by
  refine here.next fun _ ↦ guard Iff.rfl (violate fun _ ↦ rfl) <|
    (chain hoperand stop _ 0).typed fun type ↦ here.next fun _ ↦ ite Iff.rfl ?_ (pure rfl)
  refine peekAt fun t u h ↦ .ite (by rw [T.kind h]) ?_ ?_
  · exact .of_alike ((violate fun _ ↦ rfl).next fun _ ↦ pure rfl)
  · exact (AlikeAt.violate (congrArg (Violation.unexpectedToken · .expression) (T.lexeme h))).next
      fun _ ↦ pure rfl

end

/-! ### Indices, members and targets -/

theorem checkLiteralIndex (h : T.Tokens t u) (size : Dimension) :
    T.Alike Eq (Check.checkLiteralIndex t size)
      (Check.checkLiteralIndex u (size.renamed T.rename)) := by
  cases size with
  | named name => exact same _
  | literal size =>
    unfold Check.checkLiteralIndex
    simp only [Dimension.renamed, T.kind h]
    by_cases hk : t.kind = .identifier
    · rw [hk]
      exact same _
    · rw [lexeme_of_ne h hk]
      refine ite Iff.rfl ?_ (same _)
      split
      · exact same _
      · exact ite Iff.rfl (violateAt h rfl) (same _)

section

variable {operand operand' : Nat → Check DataType}
  (hoperand : ∀ stop, T.Alike T.Types (operand stop) (operand' stop))

include hoperand

theorem oneIndex (size : Dimension) :
    T.Alike Eq (Check.oneIndex operand size)
      (Check.oneIndex operand' (size.renamed T.rename)) := by
  refine here.next fun _ ↦ (matchingClose _).next fun close ↦ advance.discard.next fun _ ↦
    peek.bind fun t u h ↦ here.next fun _ ↦ guard Iff.rfl (checkLiteralIndex h size) <|
      (expressionWith hoperand close).typed fun found ↦ ?_
  exact guard (by rw [ne_eq, ne_eq, renamed_eq_iff rfl]) (violateAt h rfl) advance.discard

theorem indices {wrong wrong' : Check Unit} (hwrong : T.Alike Eq wrong wrong') :
    ∀ sizes : List Dimension, T.Alike Eq (Check.indices operand wrong sizes)
      (Check.indices operand' wrong' (sizes.map (Dimension.renamed T.rename)))
  | [] => same _
  | size :: sizes =>
    (next? .leftBracket).next fun _ ↦ otherwise Iff.rfl hwrong <|
      (oneIndex hoperand size).next fun _ ↦ indices hwrong sizes

theorem elementType (ha : T.Symbols a b) (h : T.Tokens t u) :
    T.Alike T.Types (Check.elementType operand a t) (Check.elementType operand' b u) := by
  unfold Check.elementType
  rw [ha.array]
  cases a.array with
  | none => exact violateAt h (congrArg Violation.notAnArray ha.name)
  | some sizes =>
    have hwrong : T.Alike Eq
        (Check.violateAt (.wrongIndexCount a.name sizes.length) t : Check Unit)
        (Check.violateAt (.wrongIndexCount b.name (sizes.map (Dimension.renamed T.rename)).length) u) :=
      violateAt h (by rw [ha.name, List.length_map]; rfl)
    exact (indices hoperand hwrong sizes).next fun _ ↦ (next? .leftBracket).next fun _ ↦
      guard Iff.rfl hwrong (pure ha.type)

end

theorem contains_map (name : String) (names : List String) :
    (names.map T.rename).contains (T.rename name) = names.contains name := by
  simp

theorem member (ha : T.Symbols a b) (h : T.Tokens t u) :
    T.Alike T.Members (Check.member a t) (Check.member b u) := by
  unfold Check.member
  have hkind := ha.kind
  generalize a.kind = j, b.kind = k at hkind
  cases hkind with
  | structInstance structName members =>
    refine (expectMark .dot).discard.next fun _ ↦ (expectName .memberName).bind fun m n hname ↦
      (resolve rfl).bind fun found found' hfound ↦ ?_
    cases hfound with
    | none => exact violateAt h rfl
    | @some s s' hstruct =>
      have hmembers := hstruct.kind
      simp only [Option.map_some]
      generalize s.kind = j, s'.kind = k at hmembers
      cases hmembers with
      | @struct ms ns hmembers =>
        have hfound := rel_find? hmembers fun p q h ↦ (by rw [h.name, hname.lexeme, rename_beq] :
          (q.name == n.lexeme) = (p.name == m.lexeme))
        dsimp only
        generalize ms.find? _ = found, ns.find? _ = found' at hfound
        cases hfound with
        | none => exact violateAt hname.tokens (congrArg (Violation.noSuchMember _) hname.lexeme)
        | some hmember =>
          refine pure ⟨hname.declared, hname.lexeme, hmember.type, ?_⟩
          rw [hname.lexeme]
          exact contains_map m.lexeme members
      | _ => exact violateAt h rfl
  | _ => exact violateAt h (congrArg Violation.notAStructInstance ha.name)

theorem writable (h : T.Names t u) :
    T.Alike T.Symbols (Check.writable t) (Check.writable u) := by
  refine (resolve h.lexeme).bind fun found found' hfound ↦ ?_
  cases hfound with
  | none => exact violateAt h.tokens (congrArg Violation.undefinedVariable h.lexeme)
  | some hsymbol =>
    exact guard (by rw [hsymbol.isValue_eq])
      (violateAt h.tokens (congrArg Violation.notAVariable hsymbol.name)) <|
      guard (by rw [hsymbol.isConstant_eq])
        (violateAt h.tokens (congrArg Violation.constantReassignment hsymbol.name)) (pure hsymbol)

theorem target {operand operand' : Nat → Check DataType}
    (hoperand : ∀ stop, T.Alike T.Types (operand stop) (operand' stop)) :
    T.Alike T.Targets (Check.target operand) (Check.target operand') := by
  refine (expectName .name).bind fun t u h ↦ (writable h).bind fun a b ha ↦
    peekKind.next fun after ↦ ?_
  split
  · exact (elementType hoperand ha h.tokens).bind fun _ _ htype ↦
      pure ⟨ha.declared, ha.name, htype, rfl, ha.initialized, h.tokens⟩
  · exact (member ha h.tokens).bind fun m n hm ↦
      pure ⟨ha.declared, ha.name, hm.type, congrArg Part.member hm.name, hm.initialized, h.tokens⟩
  · exact guard (by rw [ha.isArray_eq])
      (violateAt h.tokens (congrArg Violation.arrayWithoutIndex ha.name))
      (pure ⟨ha.declared, ha.name, ha.type, rfl, ha.initialized, h.tokens⟩)

theorem requireInt {t u : Target} (h : T.Targets t u) :
    T.Alike Eq (Check.requireInt t) (Check.requireInt u) := by
  refine ite (by rw [h.type, ne_eq, ne_eq, renamed_eq_iff rfl]) ?_ (same _)
  exact violateAt h.token (congrArg Violation.countRequiresInt h.type)

theorem markInitialized {t u : Target} (h : T.Targets t u) :
    T.Alike Eq (Check.markInitialized t) (Check.markInitialized u) := by
  refine modifySymbol h.name fun hsymbol ↦ ?_
  rw [h.part]
  cases t.part with
  | member name => exact hsymbol.withMember name
  | whole => exact hsymbol.withValue
  | element => exact hsymbol.withValue

/-! ### Calls -/

theorem callee (h : T.Names t u) :
    T.Alike T.Callees (Check.callee t) (Check.callee u) := by
  refine (resolve h.lexeme).bind fun found found' hfound ↦ ?_
  cases hfound with
  | none =>
    rw [h.lexeme, ofName?_rename]
    cases Builtin.ofName? t.lexeme with
    | none => exact violateAt h.tokens rfl
    | some b => exact pure (.builtin b)
  | @some s s' hsymbol =>
    have hinfo := hsymbol.functionInfo?
    dsimp only
    generalize s.functionInfo? = info, s'.functionInfo? = info' at hinfo
    cases hinfo with
    | none => exact violateAt h.tokens (congrArg Violation.notAFunction h.lexeme)
    | some hinfo => exact pure (.declared hinfo)

theorem checkArity (h : T.Tokens t u) {function function' : String}
    (hfunction : function' = T.rename function) (expected found : Nat) :
    T.Alike Eq (Check.checkArity t function expected found)
      (Check.checkArity u function' expected found) :=
  ite Iff.rfl (violateAt h (congrArg (Violation.argumentCount · expected found) hfunction)) (same _)

theorem checkTypes (index : Nat) {found found' : List Argument}
    (hfound : List.Forall₂ T.Arguments found found') (parameters : List DataType) :
    T.Alike Eq (Check.checkTypes index found parameters)
      (Check.checkTypes index found' (parameters.map (DataType.renamed T.rename))) := by
  induction hfound generalizing index parameters with
  | nil => exact same _
  | cons hfirst _ ih =>
    cases parameters with
    | nil => exact same _
    | cons expected parameters =>
      refine guard (by rw [hfirst.type, ne_eq, ne_eq, renamed_inj]) ?_ (ih _ _)
      exact violateAt hfirst.token (congrArg (Violation.argumentType _ _) hfirst.type)

theorem wholeArray (close : Nat) :
    T.Alike Eq (Check.wholeArray close) (Check.wholeArray close) := by
  refine peek.bind fun t u h ↦ here.next fun i ↦ ?_
  by_cases hk : t.kind = .identifier
  · refine ite (by rw [T.kind h]) ?_ (same _)
    refine (resolve (Names.of_identifier h hk).lexeme).bind fun found found' hfound ↦ pure ?_
    cases hfound with
    | none => rfl
    | some hsymbol => exact hsymbol.isArray_eq.symm
  · simp only [T.kind h, hk, decide_false, Bool.and_false, Bool.false_eq_true, if_false]
    exact same false

section

variable {operand operand' : Nat → Check DataType}
  (hoperand : ∀ stop, T.Alike T.Types (operand stop) (operand' stop))

include hoperand

theorem arguments (close : Nat) :
    T.Alike (List.Forall₂ T.Arguments) (Check.arguments operand close)
      (Check.arguments operand' close) := by
  have hround (before before' : List Argument) (hbefore : List.Forall₂ T.Arguments before before') :
      T.Alike (Steps (List.Forall₂ T.Arguments)) (Check.argumentRound operand close before)
        (Check.argumentRound operand' close before') := by
    refine peek.bind fun t u h ↦ (expressionEnd [.comma]).next fun stop ↦
      (expressionWith hoperand _).typed fun type ↦ here.next fun _ ↦ ?_
    have harguments : List.Forall₂ T.Arguments (before ++ [(type, t)])
        (before' ++ [(type.renamed T.rename, u)]) :=
      List.rel_append hbefore (.cons ⟨rfl, h⟩ .nil)
    exact ite Iff.rfl (pure (.done harguments)) <|
      (expect .comma _).discard.next fun _ ↦ pure (.yield harguments)
  exact here.next fun _ ↦ ite Iff.rfl (pure .nil) (rounds hround .nil)

theorem declaredCall {a b : FunctionInfo} (hinfo : T.Infos a b) (h : T.Names t u) (close : Nat) :
    T.Alike T.Types (Check.declaredCall operand a t close)
      (Check.declaredCall operand' b u close) := by
  have hcount : b.parameters.length = a.parameters.length := hinfo.parameters.length_eq.symm
  have htypes : b.parameters.map TypedName.type =
      (a.parameters.map TypedName.type).map (DataType.renamed T.rename) := by
    have hparameters := hinfo.parameters
    generalize a.parameters = ms, b.parameters = ns at hparameters
    induction hparameters with
    | nil => rfl
    | cons hfirst _ ih => simp only [List.map_cons, hfirst.type, ih]
  refine (arguments hoperand close).bind fun found found' hfound ↦
    (expectMark .rightParen).discard.next fun _ ↦ ?_
  rw [hcount, hfound.length_eq, htypes]
  exact (checkArity h.tokens h.lexeme _ _).next fun _ ↦ (checkTypes 1 hfound _).next fun _ ↦
    pure hinfo.returns

theorem builtinCall (b : Builtin) (h : T.Tokens t u) (close : Nat) :
    T.Alike T.Types (Check.builtinCall operand b t close)
      (Check.builtinCall operand' b u close) := by
  refine (wholeArray close).next fun whole ↦ ite Iff.rfl ?_ ?_
  · exact advance.discard.next fun _ ↦ (expectMark .rightParen).discard.next fun _ ↦
      pure (by cases b <;> rfl)
  · refine (arguments hoperand close).bind fun found found' hfound ↦
      (expectMark .rightParen).discard.next fun _ ↦ ?_
    rw [hfound.length_eq]
    refine (checkArity h (T.builtin b).symm _ _).next fun _ ↦ ?_
    cases b with
    | len => exact (checkTypes 1 hfound [.string]).next fun _ ↦ pure rfl
    | scan => exact (checkTypes 1 hfound []).next fun _ ↦ pure rfl

theorem call : T.Alike T.Types (Check.call operand) (Check.call operand') := by
  refine (expectName .functionName).bind fun t u h ↦ (callee h).bind fun callee callee' hcallee ↦
    here.next fun _ ↦ (matchingClose _).next fun close ↦ advance.discard.next fun _ ↦ ?_
  cases hcallee with
  | declared hinfo => exact declaredCall hoperand hinfo h close
  | builtin b => exact builtinCall hoperand b h.tokens close

end

/-! ### Operands -/

theorem valueSymbol (h : T.Names t u) :
    T.Alike T.Symbols (Check.valueSymbol t) (Check.valueSymbol u) := by
  refine (resolve h.lexeme).bind fun found found' hfound ↦ ?_
  cases hfound with
  | none =>
    refine ite (by rw [h.lexeme, ofName?_rename]) ?_ ?_
    · exact violateAt h.tokens (congrArg Violation.functionWithoutCall h.lexeme)
    · exact violateAt h.tokens (congrArg Violation.undefinedVariable h.lexeme)
  | @some s s' hsymbol =>
    have hkind := hsymbol.kind
    dsimp only
    generalize s.kind = j, s'.kind = k at hkind
    cases hkind with
    | function => exact violateAt h.tokens (congrArg Violation.functionWithoutCall hsymbol.name)
    | struct => exact violateAt h.tokens (congrArg Violation.structTypeAsValue hsymbol.name)
    | _ => exact pure hsymbol

section

variable {operand operand' : Nat → Check DataType}
  (hoperand : ∀ stop, T.Alike T.Types (operand stop) (operand' stop))

include hoperand

theorem nameType (ha : T.Symbols a b) (h : T.Tokens t u) (after : Kind) :
    T.Alike T.Types (Check.nameType operand a t after) (Check.nameType operand' b u after) := by
  have hcount : T.Alike T.Types
      (do
        if a.isConstant then Check.violateAt (.constantReassignment a.name) t
        if a.isArray || a.type ≠ .int then Check.violateAt (.countRequiresInt a.type) t
        Functor.discard Check.advance
        return .int)
      (do
        if b.isConstant then Check.violateAt (.constantReassignment b.name) u
        if b.isArray || b.type ≠ .int then Check.violateAt (.countRequiresInt b.type) u
        Functor.discard Check.advance
        return .int) :=
    guard (by rw [ha.isConstant_eq])
        (violateAt h (congrArg Violation.constantReassignment ha.name)) <|
      guard (by simp only [ha.isArray_eq, ha.type, ne_eq, renamed_eq_iff (b := .int) rfl])
        (violateAt h (congrArg Violation.countRequiresInt ha.type)) <|
      advance.discard.next fun _ ↦ pure rfl
  unfold Check.nameType
  split
  · exact elementType hoperand ha h
  · refine (member ha h).bind fun m n hm ↦ otherwise (by rw [hm.initialized]) ?_ (pure hm.type)
    rw [ha.name, hm.name]
    exact warn (.member ha.declared hm.declared) h
  · exact hcount
  · exact hcount
  · exact guard (by rw [ha.isArray_eq])
      (violateAt h (congrArg Violation.arrayWithoutIndex ha.name)) <|
      otherwise (by rw [ha.initialized]) (warn (ha.name ▸ .variable ha.declared) h) (pure ha.type)

theorem nameOperand (stop : Nat) (h : T.Names t u) :
    T.Alike T.Types (Check.nameOperand operand stop t) (Check.nameOperand operand' stop u) := by
  have hafter (after : Kind) : T.Alike T.Types
      (do
        if after = .leftParen then
          let type ← Check.call operand
          if type = .void then Check.violateAt (.voidInExpression t.lexeme) t
          return type
        else
          let symbol ← Check.valueSymbol t
          Functor.discard Check.advance
          Check.nameType operand symbol t after)
      (do
        if after = .leftParen then
          let type ← Check.call operand'
          if type = .void then Check.violateAt (.voidInExpression u.lexeme) u
          return type
        else
          let symbol ← Check.valueSymbol u
          Functor.discard Check.advance
          Check.nameType operand' symbol u after) := by
    refine ite Iff.rfl ((call hoperand).typed fun type ↦ ?_) ?_
    · exact guard (renamed_eq_iff rfl)
        (violateAt h.tokens (congrArg Violation.voidInExpression h.lexeme)) (pure rfl)
    · exact (valueSymbol h).bind fun _ _ ha ↦ advance.discard.next fun _ ↦
        nameType hoperand ha h.tokens after
  exact here.next fun _ ↦ ite Iff.rfl (secondKind.next hafter) ((same _).next hafter)

theorem parenthesised (stop : Nat) :
    T.Alike T.Types (Check.parenthesised operand stop) (Check.parenthesised operand' stop) :=
  here.next fun _ ↦ (matchingClose _).next fun close ↦ guard Iff.rfl (violate fun _ ↦ rfl) <|
    advance.discard.next fun _ ↦ (expressionWith hoperand close).typed fun _ ↦
      advance.discard.next fun _ ↦ pure rfl

theorem operandWith (stop : Nat) :
    T.Alike T.Types (Check.operandWith operand stop) (Check.operandWith operand' stop) := by
  refine here.next fun _ ↦ guard Iff.rfl (violate fun _ ↦ rfl) <| peekAt fun t u h ↦ ?_
  have hcount : T.Alike T.Types
      (do
        Functor.discard Check.advance
        Check.requireInt (← Check.target operand)
        return .int)
      (do
        Functor.discard Check.advance
        Check.requireInt (← Check.target operand')
        return .int) :=
    advance.discard.next fun _ ↦ (target hoperand).bind fun _ _ htarget ↦
      (requireInt htarget).next fun _ ↦ pure rfl
  rw [T.kind h]
  split
  next type htype =>
    exact .of_alike (advance.discard.next fun _ ↦ pure (renamed_of_ofLiteral? htype).symm)
  split
  · exact .of_alike (parenthesised hoperand stop)
  · refine .of_alike (advance.discard.next fun _ ↦ (hoperand stop).typed fun found ↦ ?_)
    exact guard (by rw [ne_eq, ne_eq, renamed_eq_iff rfl]) (violateAt h rfl) (pure rfl)
  · exact .of_alike hcount
  · exact .of_alike hcount
  next hname => exact .of_alike (nameOperand hoperand stop (.of_identifier h hname))
  · exact .of_alike (violate fun _ ↦ rfl)
  · exact .of_alike (violate fun _ ↦ rfl)
  · exact .violate (congrArg (Violation.unexpectedToken · .expression) (T.lexeme h))

end

theorem tooDeep {α : Type} {rel : α → α → Prop} :
    T.Alike rel Check.tooDeep Check.tooDeep :=
  read.bind fun c d hc ↦ violate fun _ ↦ by rw [hc.limits]; rfl

theorem operand (levels stop : Nat) :
    T.Alike T.Types (Check.operand levels stop) (Check.operand levels stop) := by
  induction levels generalizing stop with
  | zero => exact tooDeep
  | succ levels ih => exact operandWith ih stop

theorem expressionType (levels stop : Nat) :
    T.Alike T.Types (Check.expressionType levels stop) (Check.expressionType levels stop) :=
  expressionWith (operand levels) stop

theorem valueType (levels : Nat) (terminators : List Kind) :
    T.Alike T.Types (Check.valueType levels terminators) (Check.valueType levels terminators) :=
  (expressionEnd terminators).next fun stop ↦ expressionType levels stop

end Alike

end Retelling

end FrontEnd
