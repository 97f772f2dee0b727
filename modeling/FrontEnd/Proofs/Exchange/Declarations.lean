import FrontEnd.Proofs.Exchange.Expressions

/-!
# Assignments and declarations over a shared stretch

The checks of what follows a target and of declarations follow each other over a stretch that two texts
share.  This is where values are asked for: a variable that is the size of an array, or an element of one,
must have been given a value.  Only there may the second run stop although the first goes on
(`Passage.Follows.arraySize`, `Passage.Follows.element`).
-/

namespace FrontEnd

open Check

namespace Forward

theorem resolve (name : String) : Forward (Check.resolve name) :=
  fun _ _ ↦ Nat.le_refl _

theorem namedSize (t : Token) : Forward (Check.namedSize t) := by
  refine .bind (resolve _) fun found ↦ ?_
  cases found with
  | none => exact .violateAt _ _
  | some symbol =>
    exact .ite (.bind (.violateAt _ _) fun _ ↦ .ite (.pure _) (.bind (.violateAt _ _) fun _ ↦ .pure _))
      (.ite (.pure _) (.bind (.violateAt _ _) fun _ ↦ .pure _))

end Forward

/-- A symbol that is not refused as the wrong thing to ask a value of is a scalar. -/
theorem Symbol.isScalar_of_fits {a : Symbol} {type : DataType}
    (h : ¬ (!a.isScalar || a.type ≠ type) = true) : a.isScalar := by
  by_contra hnot
  exact h (by simp [hnot])

namespace Passage.Follows

variable {S : Stretch} {late : String → Prop}

/-! ### Assignments -/

theorem inputValue (type : DataType) :
    S.Follows late Eq (Check.inputValue type) (Check.inputValue type) :=
  advance.next fun _ ↦ otherwise id (quits_violateAt _ _) <|
    (expectMark .leftParen).discard.next fun _ ↦
      (expect .stringLit .promptString).discard.next fun _ ↦ (expectMark .rightParen).discard

theorem requireType (wanted value : DataType) (t : Token) :
    S.Follows late Eq (Check.requireType wanted value t) (Check.requireType wanted value t) :=
  ite Iff.rfl violateAt (same ())

section

variable (levels : Nat) (terminators : List Kind) {t u : Target} (h : t.Agrees u)

include h

theorem plainAssignment (sign : Token) :
    S.Follows late Eq (Check.plainAssignment levels terminators t sign)
      (Check.plainAssignment levels terminators u sign) := by
  unfold Check.plainAssignment
  rw [h.type]
  exact (next? .inputWord).next fun _ ↦ ite Iff.rfl
    ((inputValue t.type).next fun _ ↦ markInitialized h)
    ((valueType levels terminators).next fun value ↦ (requireType t.type value sign).next fun _ ↦
      markInitialized h)

theorem compoundAssignment (op : Operator) (sign : Token) :
    S.Follows late Eq (Check.compoundAssignment levels terminators op t sign)
      (Check.compoundAssignment levels terminators op u sign) := by
  unfold Check.compoundAssignment
  rw [h.type]
  exact otherwise id (quits_violateAt _ _) <| peek.next fun v ↦ guard id (quits_violate _) <|
    warned <| (valueType levels terminators).next fun value ↦ requireType t.type value sign

theorem assignmentTail : S.Follows late Eq (Check.assignmentTail levels terminators t)
    (Check.assignmentTail levels terminators u) := by
  refine peek.next fun sign ↦ ?_
  split
  · exact advance.discard.next fun _ ↦ plainAssignment levels terminators h sign
  · exact advance.discard.next fun _ ↦ requireInt h
  · exact advance.discard.next fun _ ↦ requireInt h
  · split
    · exact advance.discard.next fun _ ↦ compoundAssignment levels terminators h _ sign
    · exact violate

end

/-! ### Declarations -/

theorem typeWord {P : Passage} (wanted : Wanted) :
    P.Follows Eq (Check.typeWord wanted) (Check.typeWord wanted) := by
  refine advance.next fun t ↦ ?_
  cases primitiveType? t with
  | none => exact violateAt
  | some type => exact same type

theorem declarators {one : Check Unit} (hone : S.Follows late Eq one one) :
    S.Follows late Eq (Check.declarators one) (Check.declarators one) := by
  have hanother : S.Follows late Eq Check.another Check.another :=
    (next? .comma).next fun _ ↦ ite Iff.rfl (advance.discard.next fun _ ↦ same true)
      ((expect .semicolon _).discard.next fun _ ↦ same false)
  refine rounds (fun _ ↦ rfl) (fun _ _ _ ↦ hone.next fun _ ↦ hanother.next fun more ↦ pure ?_) rfl
  cases more
  · exact .done rfl
  · exact .yield rfl

/-! ### Arrays -/

theorem namedSize {t : Token} (ht : S.Has t) (hk : t.kind = .identifier) :
    S.Follows late Eq (Check.namedSize t) (Check.namedSize t) := by
  refine resolveThen fun found found' hfound hname ↦ ?_
  cases hfound with
  | none => exact violateAt
  | @some a b h =>
    exact except (by rw [h.isScalar_eq, h.type]; exact id) (quits_violateAt _ _) fun hfits ↦
      asked h (Symbol.isScalar_of_fits hfits) (hname a rfl) ht hk (.inl rfl)
        (pure (congrArg Dimension.named h.name.symm)) ((quits_violateAt _ _).bind _) fun _ _ ↦ rfl

theorem arraySize : S.Follows late Eq Check.arraySize Check.arraySize := by
  refine advanceThen (fun t ↦ ?_) fun t ht ↦ ?_
  · split
    · unfold Check.literalSize
      split
      · exact .violateAt _ _
      · exact .ite (.bind (.violateAt _ _) fun _ ↦ .pure _) (.pure _)
    · exact .violateAt _ _
    · exact .namedSize t
    · exact .violateAt _ _
  · split
    · unfold Check.literalSize
      split
      · exact violateAt
      · exact guard id (quits_violateAt _ _) (same _)
    · exact violateAt
    next hk => exact namedSize (ht (by rw [hk]; decide)) hk
    · exact violateAt

theorem arrayShape (t : Token) :
    S.Follows late Eq (Check.arrayShape t) (Check.arrayShape t) := by
  have hdimension : S.Follows late Eq Check.dimension Check.dimension :=
    advance.discard.next fun _ ↦ arraySize.next fun size ↦
      (expectMark .rightBracket).discard.next fun _ ↦ same size
  exact hdimension.next fun first ↦ (next? .leftBracket).next fun _ ↦ ite Iff.rfl
    (hdimension.next fun second ↦ (next? .leftBracket).next fun _ ↦
      guard id (quits_violate _) (same _)) (same _)

theorem element (type : DataType) :
    S.Follows late Eq (Check.element type) (Check.element type) := by
  refine advanceThen (fun t ↦ ?_) fun t ht ↦ ?_
  · split
    · exact .ite (.violateAt _ _) (.pure _)
    · refine .ite (.bind (.violateAt _ _) fun _ ↦ ?_) ?_
      all_goals
        refine .bind (.resolve _) fun found ↦ ?_
        cases found with
        | none => exact .violateAt _ _
        | some symbol =>
          exact .ite (.bind (.violateAt _ _) fun _ ↦ .ite (.pure _) (.violateAt _ _))
            (.ite (.pure _) (.violateAt _ _))
  · split
    · exact ite Iff.rfl violateAt (same ())
    · by_cases hk : t.kind = .identifier
      · rw [if_neg (not_not.2 hk)]
        refine resolveThen fun found found' hfound hname ↦ ?_
        cases hfound with
        | none => exact violateAt
        | @some a b h =>
          exact except (by rw [h.isScalar_eq, h.type]; exact id) (quits_violateAt _ _) fun hfits ↦
            asked h (Symbol.isScalar_of_fits hfits) (hname a rfl)
              (ht (by rw [hk]; decide)) hk (.inr rfl) (same ()) (quits_violateAt _ _) fun _ _ ↦ rfl
      · rw [if_pos hk]
        exact of_quits ((quits_violateAt _ _).bind _)

theorem row (type : DataType) : S.Follows late Eq (Check.row type) (Check.row type) := by
  have hend (count : Nat) : S.Follows late Eq
      (do Functor.discard (Check.expectMark .rightBrace); return count)
      (do Functor.discard (Check.expectMark .rightBrace); return count) :=
    (expectMark .rightBrace).discard.next fun _ ↦ same count
  refine (expectMark .leftBrace).discard.next fun _ ↦ (next? .rightBrace).next fun _ ↦
    ite Iff.rfl (hend _) ((rounds (fun _ ↦ rfl) ?_ rfl).next hend)
  rintro count _ rfl
  exact (element type).next fun _ ↦ (next? .comma).next fun _ ↦
    ite Iff.rfl (advance.discard.next fun _ ↦ pure (.yield rfl)) (pure (.done rfl))

theorem checkCount (size : Dimension) (isConstant : Bool) (count : Nat) (t : Token)
    (tooMany : Nat → Nat → Violation) :
    S.Follows late Eq (Check.checkCount size isConstant count t tooMany)
      (Check.checkCount size isConstant count t tooMany) := by
  cases size with
  | named name => exact same ()
  | literal size => exact guard id (quits_violateAt _ _) (ite Iff.rfl violateAt (same ()))

theorem arrayInitializer (type : DataType) (isConstant : Bool) (shape : Shape) :
    S.Follows late Eq (Check.arrayInitializer type isConstant shape)
      (Check.arrayInitializer type isConstant shape) := by
  cases shape with
  | row size =>
    exact peek.next fun t ↦ (row type).next fun count ↦ checkCount size isConstant count t _
  | table rowCount columns =>
    have hrows : S.Follows late Eq (Check.rows type columns isConstant)
        (Check.rows type columns isConstant) := by
      refine roundsWhile (fun _ ↦ rfl) ((next? .rightBrace).next fun _ ↦ same _) ?_ rfl
      rintro count _ rfl
      exact peek.next fun t ↦ (row type).next fun length ↦
        (checkCount columns isConstant length t _).next fun _ ↦ (next? .comma).next fun _ ↦
          ite Iff.rfl (advance.discard.next fun _ ↦ pure (.yield rfl)) (pure (.done rfl))
    exact (expectMark .leftBrace).next fun t ↦ hrows.next fun count ↦
      (expectMark .rightBrace).discard.next fun _ ↦ checkCount rowCount isConstant count t _

/-! ### Declarators -/

theorem initializer (levels : Nat) (type : DataType) (sign : Token) :
    S.Follows late Eq (Check.initializer levels type sign) (Check.initializer levels type sign) :=
  (next? .inputWord).next fun _ ↦ ite Iff.rfl (inputValue type) <|
    (valueType levels [.comma]).next fun value ↦ requireType type value sign

theorem arrayDeclarator (type : DataType) (isConstant : Bool) (t : Token) :
    S.Follows late Eq (Check.arrayDeclarator type isConstant t)
      (Check.arrayDeclarator type isConstant t) :=
  (arrayShape t).next fun shape ↦ (next? .assign).next fun _ ↦ ite Iff.rfl
    (advance.discard.next fun _ ↦ (arrayInitializer type isConstant shape).next fun _ ↦ same _)
    (guard id (quits_violateAt _ _) (same _))

theorem declarator (levels : Nat) (type : DataType) (isConstant : Bool) :
    S.Follows late Eq (Check.declarator levels type isConstant)
      (Check.declarator levels type isConstant) :=
  (expect .identifier .name).next fun t ↦ (declaredHere t.lexeme).next fun _ ↦
    guard id (quits_violateAt _ _) <| (next? .leftBracket).next fun _ ↦ ite Iff.rfl
      ((arrayDeclarator type isConstant t).next fun _ ↦ declare (.refl late _) t t)
      ((next? .assign).next fun _ ↦ ite Iff.rfl
        (advance.next fun sign ↦ (initializer levels type sign).next fun _ ↦
          declare (.refl late _) t t)
        (guard id (quits_violateAt _ _) (declare (.refl late _) t t)))

theorem variableDeclaration (levels : Nat) :
    S.Follows late Eq (Check.variableDeclaration levels) (Check.variableDeclaration levels) :=
  (typeWord .dataType).next fun type ↦ declarators (declarator levels type false)

theorem constantDeclaration (levels : Nat) :
    S.Follows late Eq (Check.constantDeclaration levels) (Check.constantDeclaration levels) :=
  advance.discard.next fun _ ↦ (typeWord .dataType).next fun type ↦
    declarators (declarator levels type true)

theorem instanceDeclaration :
    S.Follows late Eq Check.instanceDeclaration Check.instanceDeclaration := by
  refine advance.discard.next fun _ ↦ (expect .identifier .structTypeName).next fun t ↦
    (resolve t.lexeme).bind rel_mirrors_refl fun found found' hfound ↦ ?_
  cases hfound with
  | none => exact violateAt
  | @some s s' h =>
    have hkind := h.kind
    simp only [Option.map_some]
    generalize s.kind = j, s'.kind = k at hkind
    cases hkind with
    | struct members =>
      exact declarators ((expect .identifier .name).next fun u ↦ declare (.refl late _) u u)
    | _ => exact violateAt

end Passage.Follows

end FrontEnd
