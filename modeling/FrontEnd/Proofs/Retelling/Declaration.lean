import FrontEnd.Proofs.Retelling.Expression

/-!
# Assignments and declarations of retold texts

The checks of what follows a target and of declarations end alike.  Sizes, elements and counts are read
off literals, whose lexemes are the same in both texts; what is declared has the renamed name and stands
at the same place.
-/

namespace FrontEnd

open Check

/-- The shape with its names renamed. -/
def Check.Shape.renamed (rename : String → String) : Shape → Shape
  | .row size => .row (size.renamed rename)
  | .table rows columns => .table (rows.renamed rename) (columns.renamed rename)

namespace Retelling.Alike

variable {T : Retelling} {t u : Token}

/-! ### Assignments -/

theorem inputValue (type : DataType) :
    T.Alike Eq (Check.inputValue type) (Check.inputValue (type.renamed T.rename)) :=
  advance.bind fun t u h ↦ otherwise (by rw [isPrimitive_renamed]) (violateAt h rfl) <|
    (expectMark .leftParen).discard.next fun _ ↦
      (expect .stringLit .promptString).discard.next fun _ ↦ (expectMark .rightParen).discard

theorem requireType (wanted value : DataType) (h : T.Tokens t u) :
    T.Alike Eq (Check.requireType wanted value t)
      (Check.requireType (wanted.renamed T.rename) (value.renamed T.rename) u) :=
  ite (by rw [ne_eq, ne_eq, renamed_inj]) (violateAt h rfl) (same _)

theorem plainAssignment (levels : Nat) (terminators : List Kind) {a b : Target}
    (ha : T.Targets a b) (h : T.Tokens t u) :
    T.Alike Eq (Check.plainAssignment levels terminators a t)
      (Check.plainAssignment levels terminators b u) := by
  unfold Check.plainAssignment
  rw [ha.type]
  exact (next? .inputWord).next fun _ ↦ ite Iff.rfl
    ((inputValue a.type).next fun _ ↦ markInitialized ha)
    ((valueType levels terminators).typed fun value ↦ (requireType a.type value h).next fun _ ↦
      markInitialized ha)

theorem compoundAssignment (levels : Nat) (terminators : List Kind) (op : Operator) {a b : Target}
    (ha : T.Targets a b) (h : T.Tokens t u) :
    T.Alike Eq (Check.compoundAssignment levels terminators op a t)
      (Check.compoundAssignment levels terminators op b u) := by
  unfold Check.compoundAssignment
  rw [ha.type, T.kind h, ha.initialized]
  exact otherwise (by rw [isNumeric_renamed]) (violateAt h rfl) <| peek.bind fun v w hnext ↦
    guard (by rw [isZeroLiteral_eq hnext]) (violate fun _ ↦ rfl) <|
      otherwise Iff.rfl (warn (ha.name ▸ .variable ha.declared) ha.token) <|
        (valueType levels terminators).typed fun value ↦ requireType a.type value h

theorem assignmentTail (levels : Nat) (terminators : List Kind) {a b : Target}
    (ha : T.Targets a b) : T.Alike Eq (Check.assignmentTail levels terminators a)
      (Check.assignmentTail levels terminators b) := by
  refine peekAt fun t u h ↦ ?_
  rw [T.kind h]
  split
  · exact .of_alike (advance.discard.next fun _ ↦ plainAssignment levels terminators ha h)
  · exact .of_alike (advance.discard.next fun _ ↦ requireInt ha)
  · exact .of_alike (advance.discard.next fun _ ↦ requireInt ha)
  · split
    · exact .of_alike (advance.discard.next fun _ ↦ compoundAssignment levels terminators _ ha h)
    · exact .violate (congrArg (Violation.expectedToken .assignmentOperator) (T.lexeme h))

/-! ### Declarations -/

theorem typeWord (wanted : Wanted) :
    T.Alike T.Types (Check.typeWord wanted) (Check.typeWord wanted) := by
  refine advance.bind fun t u h ↦ ?_
  unfold primitiveType?
  rw [T.kind h]
  cases hword : DataType.ofWord? t.kind with
  | none => exact violateAt h (congrArg (Violation.expectedToken wanted) (T.lexeme h))
  | some type =>
    rw [Option.filter_some]
    by_cases hprimitive : type.isPrimitive
    · rw [if_pos hprimitive]
      exact pure (renamed_of_ofWord? hword).symm
    · rw [if_neg hprimitive]
      exact violateAt h (congrArg (Violation.expectedToken wanted) (T.lexeme h))

theorem declarators {one one' : Check Unit} (hone : T.Alike Eq one one') :
    T.Alike Eq (Check.declarators one) (Check.declarators one') := by
  have hanother : T.Alike Eq Check.another Check.another :=
    (next? .comma).next fun _ ↦ ite Iff.rfl (advance.discard.next fun _ ↦ same true)
      ((expect .semicolon _).discard.next fun _ ↦ same false)
  refine rounds (fun _ _ _ ↦ hone.next fun _ ↦ hanother.next fun more ↦ pure ?_) rfl
  cases more
  · exact .done rfl
  · exact .yield rfl

/-! ### Arrays -/

theorem arraySize :
    T.Alike (fun a b ↦ b = a.renamed T.rename) Check.arraySize Check.arraySize := by
  refine advance.bind fun t u h ↦ ?_
  rw [T.kind h]
  split
  next hk =>
    have hlexeme := lexeme_of_ne h (by simp [hk])
    unfold Check.literalSize
    rw [hlexeme]
    split
    · exact violateAt h (congrArg Violation.arraySizeInvalid (hlexeme ▸ T.lexeme h))
    · exact guard Iff.rfl (violateAt h rfl) (pure rfl)
  next hk => exact violateAt h (congrArg Violation.arraySizeNotPositive (lexeme_of_ne h (by simp [hk])))
  next hk =>
    have hname := Names.of_identifier h hk
    refine (resolve hname.lexeme).bind fun found found' hfound ↦ ?_
    cases hfound with
    | none => exact violateAt h (congrArg Violation.undefinedVariable hname.lexeme)
    | some hsymbol =>
      refine guard ?_ (violateAt h (congrArg₂ Violation.arraySizeType hsymbol.name hsymbol.type)) <|
        otherwise (by rw [hsymbol.initialized])
          (violateAt h (congrArg Violation.arraySizeUninitialized hsymbol.name))
          (pure (congrArg Dimension.named hsymbol.name))
      simp only [hsymbol.isScalar_eq, hsymbol.type, ne_eq, renamed_eq_iff (b := .int) rfl]
  · exact violateAt h (congrArg Violation.arraySizeInvalid (T.lexeme h))

theorem arrayShape (h : T.Names t u) :
    T.Alike (fun a b ↦ b = a.renamed T.rename) (Check.arrayShape t) (Check.arrayShape u) := by
  have hdimension : T.Alike (fun a b ↦ b = a.renamed T.rename) Check.dimension Check.dimension :=
    advance.discard.next fun _ ↦ arraySize.bind fun _ _ hsize ↦
      (expectMark .rightBracket).discard.next fun _ ↦ pure hsize
  have hmany (found : String → String) : Violation.tooManyDimensions u.lexeme =
      (Violation.tooManyDimensions t.lexeme).renamed T.rename found :=
    congrArg Violation.tooManyDimensions h.lexeme
  exact hdimension.bind fun _ _ hfirst ↦ (next? .leftBracket).next fun _ ↦ ite Iff.rfl
    (hdimension.bind fun _ _ hsecond ↦ (next? .leftBracket).next fun _ ↦
      guard Iff.rfl (violate hmany) (pure (congrArg₂ Shape.table hfirst hsecond)))
    (pure (congrArg Shape.row hfirst))

theorem element (type : DataType) :
    T.Alike Eq (Check.element type) (Check.element (type.renamed T.rename)) := by
  refine advance.bind fun t u h ↦ ?_
  rw [T.kind h]
  split
  next found hfound =>
    have hk : t.kind ≠ .identifier := fun hk ↦ by simp [hk, DataType.ofLiteral?] at hfound
    have htype : found = type.renamed T.rename ↔ found = type := by
      rw [eq_comm, renamed_eq_iff (renamed_of_ofLiteral? hfound), eq_comm]
    exact ite (not_congr htype) (violateAt h (congrArg (Violation.arrayElementType _)
      (found_of_ne hk found.text).symm)) (same _)
  next =>
    by_cases hk : t.kind = .identifier
    · have hname := Names.of_identifier h hk
      rw [if_neg (not_not.2 hk), if_neg (not_not.2 hk)]
      refine (resolve hname.lexeme).bind fun found found' hfound ↦ ?_
      cases hfound with
      | none => exact violateAt h (congrArg Violation.undefinedVariable hname.lexeme)
      | @some s s' hsymbol =>
        have htext : s'.type.text = T.found t.kind s.type.text := by
          rw [hk, found_identifier, hsymbol.type, text_renamed]
        refine guard (by simp only [hsymbol.isScalar_eq, hsymbol.type, ne_eq, renamed_inj])
          (violateAt h (congrArg (Violation.arrayElementType _) htext)) ?_
        exact ite (by rw [hsymbol.initialized]) (same _)
          (violateAt h (congrArg Violation.arrayElementUninitialized hsymbol.name))
    · rw [if_pos hk, if_pos hk]
      have hrefused : T.Alike (fun _ _ ↦ False)
          (Check.violateAt (.arrayElementType type t.lexeme) t : Check Unit)
          (Check.violateAt (.arrayElementType (type.renamed T.rename) u.lexeme) u) :=
        violateAt h (congrArg (Violation.arrayElementType _) (T.lexeme h))
      exact hrefused.bind fun _ _ hfalse ↦ hfalse.elim

theorem row (type : DataType) :
    T.Alike Eq (Check.row type) (Check.row (type.renamed T.rename)) := by
  have hround (count count' : Nat) (hcount : count = count') : T.Alike (Steps Eq)
      (do
        Check.element type
        if ← Check.next? .comma then
          Functor.discard Check.advance
          return ForInStep.yield (count + 1)
        else
          return ForInStep.done (count + 1))
      (do
        Check.element (type.renamed T.rename)
        if ← Check.next? .comma then
          Functor.discard Check.advance
          return ForInStep.yield (count' + 1)
        else
          return ForInStep.done (count' + 1)) := by
    subst hcount
    exact (element type).next fun _ ↦ (next? .comma).next fun _ ↦
      ite Iff.rfl (advance.discard.next fun _ ↦ pure (.yield rfl)) (pure (.done rfl))
  have hend (count : Nat) : T.Alike Eq
      (do Functor.discard (Check.expectMark .rightBrace); return count)
      (do Functor.discard (Check.expectMark .rightBrace); return count) :=
    (expectMark .rightBrace).discard.next fun _ ↦ same count
  exact (expectMark .leftBrace).discard.next fun _ ↦ (next? .rightBrace).next fun _ ↦
    ite Iff.rfl (hend _) ((rounds hround rfl).next hend)

theorem checkCount (size : Dimension) (isConstant : Bool) (count : Nat) (h : T.Tokens t u)
    {tooMany : Nat → Nat → Violation} (hmany : ∀ count size found,
      tooMany count size = (tooMany count size).renamed T.rename found) :
    T.Alike Eq (Check.checkCount size isConstant count t tooMany)
      (Check.checkCount (size.renamed T.rename) isConstant count u tooMany) := by
  cases size with
  | named name => exact same _
  | literal size => exact guard Iff.rfl (violateAt h (hmany _ _ _)) (ite Iff.rfl (violateAt h rfl) (same _))

theorem arrayInitializer (type : DataType) (isConstant : Bool) (shape : Shape) :
    T.Alike Eq (Check.arrayInitializer type isConstant shape)
      (Check.arrayInitializer (type.renamed T.rename) isConstant (shape.renamed T.rename)) := by
  cases shape with
  | row size =>
    exact peek.bind fun t u h ↦ (row type).next fun count ↦
      checkCount size isConstant count h fun _ _ _ ↦ rfl
  | table rowCount columns =>
    have hrows : T.Alike Eq (Check.rows type columns isConstant)
        (Check.rows (type.renamed T.rename) (columns.renamed T.rename) isConstant) := by
      refine roundsWhile ((next? .rightBrace).next fun _ ↦ same _) ?_ rfl
      rintro count _ rfl
      exact peek.bind fun t u h ↦ (row type).next fun length ↦
        (checkCount columns isConstant length h fun _ _ _ ↦ rfl).next fun _ ↦
          (next? .comma).next fun _ ↦ ite Iff.rfl
            (advance.discard.next fun _ ↦ pure (.yield rfl)) (pure (.done rfl))
    exact (expectMark .leftBrace).bind fun t u h ↦ hrows.next fun count ↦
      (expectMark .rightBrace).discard.next fun _ ↦
        checkCount rowCount isConstant count h fun _ _ _ ↦ rfl

/-! ### Declarators -/

theorem initializer (levels : Nat) (type : DataType) (h : T.Tokens t u) :
    T.Alike Eq (Check.initializer levels type t)
      (Check.initializer levels (type.renamed T.rename) u) :=
  (next? .inputWord).next fun _ ↦ ite Iff.rfl (inputValue type) <|
    (valueType levels [.comma]).typed fun value ↦ requireType type value h

theorem arrayDeclarator (type : DataType) (isConstant : Bool) (h : T.Names t u) :
    T.Alike (fun a b ↦ b = (a.1.renamed T.rename, a.2)) (Check.arrayDeclarator type isConstant t)
      (Check.arrayDeclarator (type.renamed T.rename) isConstant u) := by
  refine (arrayShape h).bind ?_
  rintro shape _ rfl
  exact (next? .assign).next fun _ ↦ ite Iff.rfl
    (advance.discard.next fun _ ↦ (arrayInitializer type isConstant shape).next fun _ ↦ pure rfl)
    (guard Iff.rfl
      (violateAt h.tokens (congrArg Violation.constantWithoutInitializer h.lexeme)) (pure rfl))

theorem symbols_bareSymbol (type : DataType) (isConstant : Bool) (h : T.Names t u) :
    T.Symbols (bareSymbol type isConstant t) (bareSymbol (type.renamed T.rename) isConstant u) := by
  cases isConstant
  · exact ⟨h.declared, h.lexeme, .var, rfl, rfl, rfl, .of_tokens h.tokens⟩
  · exact ⟨h.declared, h.lexeme, .const, rfl, rfl, rfl, .of_tokens h.tokens⟩

theorem declarator (levels : Nat) (type : DataType) (isConstant : Bool) :
    T.Alike Eq (Check.declarator levels type isConstant)
      (Check.declarator levels (type.renamed T.rename) isConstant) := by
  refine (expectName .name).bind fun t u h ↦ (declaredHere h.lexeme).next fun _ ↦
    guard Iff.rfl (violateAt h.tokens (congrArg (Violation.redeclaration .var) h.lexeme)) <|
      (next? .leftBracket).next fun _ ↦ ite Iff.rfl ?_ ?_
  · refine (arrayDeclarator type isConstant h).bind ?_
    rintro ⟨shape, initialized⟩ _ rfl
    have hbare := symbols_bareSymbol type isConstant h
    refine declare ⟨hbare.declared, hbare.name, hbare.kind, hbare.type, rfl, ?_, hbare.positions⟩ h.tokens
    cases shape <;> rfl
  · have hbare := symbols_bareSymbol type isConstant h
    exact (next? .assign).next fun _ ↦ ite Iff.rfl
      (advance.bind fun sign sign' hsign ↦ (initializer levels type hsign).next fun _ ↦
        declare hbare.withValue h.tokens)
      (guard Iff.rfl
        (violateAt h.tokens (congrArg Violation.constantWithoutInitializer h.lexeme))
        (declare hbare h.tokens))

theorem variableDeclaration (levels : Nat) :
    T.Alike Eq (Check.variableDeclaration levels) (Check.variableDeclaration levels) :=
  (typeWord .dataType).typed fun type ↦ declarators (declarator levels type false)

theorem constantDeclaration (levels : Nat) :
    T.Alike Eq (Check.constantDeclaration levels) (Check.constantDeclaration levels) :=
  advance.discard.next fun _ ↦ (typeWord .dataType).typed fun type ↦
    declarators (declarator levels type true)

theorem instanceDeclaration :
    T.Alike Eq Check.instanceDeclaration Check.instanceDeclaration := by
  refine advance.discard.next fun _ ↦ (expectName .structTypeName).bind fun t u h ↦
    (resolve h.lexeme).bind fun found found' hfound ↦ ?_
  have hundefined : T.Alike Eq (Check.violateAt (.undefinedStruct t.lexeme) t : Check Unit)
      (Check.violateAt (.undefinedStruct u.lexeme) u) :=
    violateAt h.tokens (congrArg Violation.undefinedStruct h.lexeme)
  cases hfound with
  | none => exact hundefined
  | @some s s' hsymbol =>
    have hkind := hsymbol.kind
    simp only [Option.map_some]
    generalize s.kind = j, s'.kind = k at hkind
    cases hkind with
    | struct hmembers =>
      refine declarators ((expectName .name).bind fun v w hname ↦ declare ?_ hname.tokens)
      refine ⟨hname.declared, hname.lexeme, ?_, ?_, rfl, rfl, .of_tokens hname.tokens⟩
      · simp only [Symbol.ofInstance, h.lexeme]
        exact .structInstance _ []
      · simp only [Symbol.ofInstance, h.lexeme]
        rfl
    | _ => exact hundefined

end Retelling.Alike

end FrontEnd
