import FrontEnd.Proofs.Check.AttentiveExpression
import FrontEnd.Proofs.Check.CarefulDeclaration

/-!
# The walk over a declaration or an assignment is attentive

The brackets of a dimension stand behind the name that is declared or behind other brackets, and a
name inside of them or among the elements of an initializer is looked up and found to be no array.
Where declarators start is known from the walk being careful (`secures_declarator`).
-/

namespace FrontEnd

open Check

section

variable {M : Lookups} {P : Kind → Prop} {c : Context} {s : State} {b : Nat} {symbol : Symbol}

theorem Symbol.array_of_isScalar (h : symbol.isScalar) : symbol.array = none := by
  unfold isScalar at h
  split at h
  · exact Option.not_isSome_iff_eq_none.1 (by simpa [isArray] using h)
  · exact Option.not_isSome_iff_eq_none.1 (by simpa [isArray] using h)
  · cases h

/-! ### Assignments -/

namespace Attentive

theorem inputValue (type : DataType) : Attentive M (· = .inputWord) (Check.inputValue type) :=
  (word rfl).bind fun _ ↦ .otherwise (.violateAt (by simp)) <| (mark rfl).bind fun _ ↦
    (expect rfl _).discard.bind fun _ ↦ mark rfl

section

variable (hM : M.Shown)

include hM

theorem plainAssignment (levels : Nat) (terminators : List Kind) (t : Target) (sign : Token) :
    Attentive M P (Check.plainAssignment levels terminators t sign) :=
  nextIte ((inputValue t.type).bind fun _ ↦ of_still (.markInitialized t))
    ((valueType hM levels terminators).bind fun _ ↦ .after (.requireType _ _ _) fun _ ↦
      of_still (.markInitialized t))

theorem compoundAssignment (levels : Nat) (terminators : List Kind) (op : Operator) (t : Target)
    (sign : Token) : Attentive M P (Check.compoundAssignment levels terminators op t sign) := by
  have hvalue : Attentive M P (do
      unless t.initialized do warn t.name t.token
      requireType t.type (← Check.valueType levels terminators) sign) :=
    .otherwise (.warn _ _) <| (valueType hM levels terminators).bind fun _ ↦
      of_still (.requireType _ _ _)
  refine .otherwise (.violateAt (by simp)) <| .after .peek fun _ ↦ .ite (fun c s _ _ ↦ ?_) hvalue
  rw [secures_bind]
  exact (secures_violate _).2 trivial

theorem assignmentTail (levels : Nat) (terminators : List Kind) (t : Target) :
    Attentive M P (Check.assignmentTail levels terminators t) := by
  refine peek fun sign ↦ ?_
  have hsign {k : Kind} (hk : sign.kind = k) (hbystander : k.isBystander) :
      Attentive M (fun other ↦ P other ∧ other = sign.kind) Check.advance :=
    advance fun _ h ↦ h.2 ▸ hk ▸ hbystander
  split
  next hk => exact (hsign hk rfl).discard.bind fun _ ↦ plainAssignment hM levels terminators t sign
  next hk => exact (hsign hk rfl).discard.bind fun _ ↦ of_still (.requireInt t)
  next hk => exact (hsign hk rfl).discard.bind fun _ ↦ of_still (.requireInt t)
  next =>
    split
    next op hop =>
      have hbystander : sign.kind.isBystander := by
        cases hk : sign.kind <;> rw [hk] at hop <;> first | rfl | cases hop
      exact (hsign rfl hbystander).discard.bind fun _ ↦
        compoundAssignment hM levels terminators op t sign
    next => exact .violate (by simp)

end

/-! ### Types and marks -/

theorem typeWord (wanted : Wanted) : Attentive M P (Check.typeWord wanted) := by
  refine advanceThen (fun t _ ↦ ?_) fun t hother ↦ ?_
  · split
    · exact .pure _
    · exact .violateAt (by simp)
  · have hnone : primitiveType? t = none := by
      unfold primitiveType?
      cases hk : t.kind <;> rw [hk] at hother <;> first | rfl | cases hother
    rw [hnone]
    exact .violateAt (by simp)

theorem another : Attentive M P Check.another :=
  nextIte ((word rfl).discard.bind fun _ ↦ .pure _) ((expect rfl _).discard.bind fun _ ↦ .pure _)

end Attentive

/-! ### Array shapes -/

/-- The name of a size is looked up and found to be no array. -/
theorem secures_namedSize_used (t : Token) :
    Secures M (namedSize t) c s (fun _ ↦ True) fun _ after ↦ after = s ∧ M c s t.lexeme ∧
      ∃ symbol, s.arena.lookup c.scope t.lexeme = some symbol ∧ symbol.array = none := by
  simp only [namedSize, secures_bind, secures_resolve]
  intro hlooked
  split
  · exact (secures_violateAt _ _).2 trivial
  next symbol hfound =>
    simp only [secures_ite, secures_bind, secures_violateAt, secures_pure, Bool.or_eq_true, not_or]
    refine ⟨fun _ ↦ trivial, fun hscalar ↦ ⟨fun _ ↦ ⟨trivial, hlooked, symbol, hfound, ?_⟩,
      fun _ ↦ trivial⟩⟩
    exact Symbol.array_of_isScalar (by simpa using hscalar.1)

theorem Attentive.arraySize : Attentive M P Check.arraySize := by
  intro c s hc _
  simp only [Check.arraySize, secures_bind, secures_advance, hc.kind_tokenAt]
  have hstill {x : Check Dimension} (hx : Still x) (hk : (c.kindAt s.position).isBystander) :
      Secures M x c (s.movedTo (c.after s.position)) (fun _ ↦ True) fun _ after ↦
        UsedTo M c.text s.position after.position := by
    refine .of_ensures ((hx c _).imp (fun _ _ ↦ trivial) fun _ after hafter ↦ ?_)
    exact hafter ▸ .bystander hk
  split
  next hk => exact hstill (.literalSize _) (hk ▸ rfl)
  next => exact (secures_violateAt _ _).2 trivial
  next hk =>
    have hnext := Context.after_of_kindAt hk (by simp)
    refine (secures_namedSize_used _).mono ?_
    rintro _ _ ⟨rfl, hlooked, symbol, hfound, harray⟩
    have huse : NameUse M c.text s.position :=
      .single ⟨c, _, hlooked, .inr hnext, rfl, hfound⟩ harray
    exact .after (.of_name hk huse)
  next => exact (secures_violateAt _ _).2 trivial

/-- A dimension behind the name that is declared or behind another dimension. -/
theorem secures_dimension_used (hc : c.Closed) (hopen : c.kindAt s.position = .leftBracket)
    (hbehind : ∀ b, s.position = b + 1 → c.kindAt b = .identifier → DeclaresFrom c.kindAt b) :
    Secures M dimension c s (fun _ ↦ True) fun _ after ↦ UsedTo M c.text s.position after.position ∧
      ∀ b, after.position = b + 1 → c.kindAt b = .rightBracket := by
  have hfirst : UsedTo M c.text s.position (s.position + 1) :=
    .one ⟨fun hname ↦ by simp [hopen] at hname, fun _ b hb hname ↦ .inl (hbehind b hb hname)⟩
  simp only [dimension, secures_bind, secures_discard, secures_advance, secures_expectMark,
    secures_pure, Context.after_of_kindAt hopen (by decide : Kind.leftBracket ≠ .eof)]
  refine (Attentive.arraySize (P := fun _ ↦ True) hc trivial).mono fun _ later hsize ↦ ?_
  refine ⟨fun hclose ↦ ⟨(hfirst.trans hsize).trans (.bystander (hclose ▸ rfl)), fun b hb ↦ ?_⟩,
    fun _ ↦ trivial⟩
  rw [State.position_movedTo, Context.after_of_kindAt hclose (by simp)] at hb
  obtain rfl : later.position = b := by omega
  exact hclose

theorem secures_arrayShape_used (hc : c.Closed) (hopen : c.kindAt s.position = .leftBracket)
    (hfrom : DeclaresFrom c.kindAt b) (hb : s.position = b + 1) (name : Token) :
    Secures M (arrayShape name) c s (fun _ ↦ True) fun _ after ↦
      UsedTo M c.text s.position after.position := by
  simp only [arrayShape, secures_bind, secures_next?, secures_ite, beq_iff_eq, secures_violate,
    secures_pure]
  have hbehind : ∀ b', s.position = b' + 1 → c.kindAt b' = .identifier → DeclaresFrom c.kindAt b' := by
    intro b' hb' _
    obtain rfl : b' = b := by omega
    exact hfrom
  refine (secures_dimension_used hc hopen hbehind).mono ?_
  rintro _ after ⟨hused, hlast⟩
  refine ⟨fun hsecond ↦ ?_, fun _ ↦ hused⟩
  refine (secures_dimension_used hc hsecond fun b' hb' hname ↦ ?_).mono fun _ _ hmore ↦
    ⟨fun _ ↦ trivial, fun _ ↦ hused.trans hmore.1⟩
  simp [hlast b' hb'] at hname

/-! ### Array initializers -/

/-- The name of an element is looked up and found to be no array. -/
theorem Attentive.element (type : DataType) : Attentive M P (Check.element type) := by
  intro c s hc _
  simp only [Check.element, secures_bind, secures_advance, hc.kind_tokenAt]
  cases hliteral : DataType.ofLiteral? (c.kindAt s.position) with
  | some found =>
    simp only [secures_ite, secures_violateAt, secures_pure]
    exact ⟨fun _ ↦ trivial, fun _ ↦ .bystander (DataType.isBystander_of_ofLiteral? hliteral)⟩
  | none =>
    simp only [secures_ite, secures_bind, secures_violateAt, secures_resolve]
    refine ⟨fun _ ↦ trivial, fun hname hlooked ↦ ?_⟩
    have hname : c.kindAt s.position = .identifier := Decidable.not_not.1 hname
    have hnext := Context.after_of_kindAt hname (by simp)
    split
    · exact (secures_violateAt _ _).2 trivial
    next symbol hfound =>
      simp only [secures_ite, secures_bind, secures_violateAt, secures_pure, Bool.or_eq_true, not_or]
      refine ⟨fun _ ↦ trivial, fun hscalar ↦ ⟨fun _ ↦ ?_, fun _ ↦ trivial⟩⟩
      have huse : NameUse M c.text s.position := .single ⟨c, _, hlooked, .inr hnext, rfl, hfound⟩
        (Symbol.array_of_isScalar (by simpa using hscalar.1))
      exact .after (.of_name hname huse)

namespace Attentive

theorem row (type : DataType) : Attentive M P (Check.row type) := by
  have hround (count : Nat) : Attentive M (fun _ ↦ True) (do
      Check.element type
      if ← Check.next? .comma then
        Functor.discard Check.advance
        return ForInStep.yield (count + 1)
      else
        return ForInStep.done (count + 1)) :=
    (element type).bind fun _ ↦ nextIte ((word rfl).discard.bind fun _ ↦ .pure _) (.pure _)
  have hend (count : Nat) {P : Kind → Prop} : Attentive M P (do
      Functor.discard (Check.expectMark .rightBrace)
      return count) :=
    (mark rfl).bind fun _ ↦ .pure count
  exact (mark rfl).bind fun _ ↦ nextIte (hend _) ((rounds hround).bind fun _ ↦ hend _)

theorem arrayInitializer (type : DataType) (isConstant : Bool) (shape : Shape) :
    Attentive M P (Check.arrayInitializer type isConstant shape) := by
  cases shape with
  | row size =>
    exact .after .peek fun _ ↦ (row type).bind fun _ ↦ of_still (.checkCount _ _ _ _ (by simp))
  | table rowCount columns =>
    have hrows : Attentive M (fun _ ↦ True) (Check.rows type columns isConstant) :=
      roundsWhile ((Still.next? .rightBrace).bind fun _ ↦ .pure _) fun _ ↦ .after .peek fun _ ↦
        (row type).bind fun _ ↦ .after (.checkCount _ _ _ _ (by simp)) fun _ ↦
          nextIte ((word rfl).discard.bind fun _ ↦ .pure _) (.pure _)
    exact (expectMark rfl).bind fun _ ↦ hrows.bind fun _ ↦
      (mark rfl).bind fun _ ↦ of_still (.checkCount _ _ _ _ (by simp))

theorem initializer (hM : M.Shown) (levels : Nat) (type : DataType) (sign : Token) :
    Attentive M P (Check.initializer levels type sign) :=
  nextIte (inputValue type)
    ((valueType hM levels [.comma]).bind fun _ ↦ of_still (.requireType _ _ _))

end Attentive

/-! ### Declarators -/

/-- The sign behind the shape of an array with the initializer, if there is one. -/
theorem Attentive.arrayGiven (type : DataType) (isConstant : Bool) (name : Token) (shape : Shape) :
    Attentive M P (do
      if ← Check.next? .assign then
        Functor.discard Check.advance
        Check.arrayInitializer type isConstant shape
        return (shape, true)
      else
        if isConstant then Check.violateAt (.constantWithoutInitializer name.lexeme) name
        return (shape, false)) :=
  nextIte ((word rfl).discard.bind fun _ ↦ (arrayInitializer type isConstant shape).bind fun _ ↦
    .pure _) (.guard (.violateAt (by simp)) (.pure _))

theorem secures_arrayDeclarator_used (hc : c.Closed) (hopen : c.kindAt s.position = .leftBracket)
    (hfrom : DeclaresFrom c.kindAt b) (hb : s.position = b + 1) (type : DataType)
    (isConstant : Bool) (name : Token) :
    Secures M (arrayDeclarator type isConstant name) c s (fun _ ↦ True) fun _ after ↦
      UsedTo M c.text s.position after.position := by
  rw [arrayDeclarator, secures_bind]
  refine (secures_arrayShape_used hc hopen hfrom hb name).mono fun shape later hshape ↦ ?_
  exact (Attentive.arrayGiven type isConstant name shape (P := fun _ ↦ True) hc trivial).mono
    fun _ _ hgiven ↦ hshape.trans hgiven

theorem secures_declarator_used (hM : M.Shown) (hc : c.Closed)
    (hfrom : DeclaresFrom c.kindAt s.position) (levels : Nat) (type : DataType) (isConstant : Bool) :
    Secures M (declarator levels type isConstant) c s (fun _ ↦ True) fun _ after ↦
      UsedTo M c.text s.position after.position := by
  have hdeclare (symbol : Symbol) (place : Token) {P : Kind → Prop} :
      Attentive M P (Check.declare symbol place) :=
    .of_still (.declare symbol place)
  have hinitializer (name : Token) : Attentive M (· = .assign) (do
      let sign ← advance
      Check.initializer levels type sign
      Check.declare (bareSymbol type isConstant name).withValue name) :=
    (Attentive.word rfl).bind fun _ ↦ (Attentive.initializer hM levels type _).bind fun _ ↦
      hdeclare _ _
  have hbare (name : Token) : Attentive M (fun _ ↦ True) (do
      if isConstant then violateAt (.constantWithoutInitializer name.lexeme) name
      Check.declare (bareSymbol type isConstant name) name) :=
    .guard (.violateAt (by simp)) (hdeclare _ _)
  rw [declarator, secures_bind, secures_expect]
  refine ⟨fun hname ↦ ?_, fun _ ↦ trivial⟩
  have hfirst : UsedTo M c.text s.position (s.position + 1) := .name hname (.declared hfrom)
  have hread {x : Check Unit} {P : Kind → Prop} (hx : Attentive M P x)
      (hk : P (c.kindAt (s.position + 1))) : Secures M x c (s.movedTo (s.position + 1))
        (fun _ ↦ True) fun _ after ↦ UsedTo M c.text s.position after.position :=
    (hx hc hk).mono fun _ _ hlater ↦ hfirst.trans hlater
  rw [Context.after_of_kindAt hname (by simp)]
  rw [secures_bind, secures_declaredHere, secures_ite]
  refine ⟨fun _ ↦ ?_, fun _ ↦ ?_⟩
  · rw [secures_bind]
    exact (secures_violateAt _ _).2 trivial
  rw [secures_bind, secures_next?, secures_ite, beq_iff_eq]
  refine ⟨fun hopen ↦ ?_, fun _ ↦ ?_⟩
  · rw [secures_bind]
    refine (secures_arrayDeclarator_used hc hopen hfrom rfl type isConstant _).mono
      fun _ later hshape ↦ ?_
    exact (hdeclare _ _ (P := fun _ ↦ True) hc trivial).mono fun _ _ hlater ↦
      (hfirst.trans hshape).trans hlater
  rw [secures_bind, secures_next?, secures_ite, beq_iff_eq]
  exact ⟨fun hassign ↦ hread (hinitializer _) hassign, fun _ ↦ hread (hbare _) trivial⟩

/-- Declarators up to their semicolon. -/
theorem secures_declarators_used (hM : M.Shown) (hc : c.Closed)
    (hfrom : DeclaresFrom c.kindAt s.position) (levels : Nat) (type : DataType) (isConstant : Bool) :
    Secures M (declarators (declarator levels type isConstant)) c s (fun _ ↦ True) fun _ after ↦
      UsedTo M c.text s.position after.position := by
  refine secures_rounds (fun _ ↦ trivial) (I := fun _ t ↦
    UsedTo M c.text s.position t.position ∧ DeclaresFrom c.kindAt t.position)
    ⟨.refl M c.text _, hfrom⟩ ?_
  rintro _ t ⟨hused, hfrom⟩
  rw [secures_bind]
  refine ((secures_declarator_used hM hc hfrom levels type isConstant).both
    (secures_declarator hc hfrom levels type isConstant)).mono ?_
  rintro _ later ⟨hone, hread⟩
  rw [secures_bind]
  refine ((Attentive.another (P := fun _ ↦ True) hc trivial).and ensures_another_typed).mono ?_
  rintro more _ ⟨hmark, rfl, hkind⟩
  have hall := (hused.trans hone).trans hmark
  cases more with
  | true => exact (secures_pure _).2 ⟨hall, .next hfrom hread.text hkind⟩
  | false => exact (secures_pure _).2 hall

namespace Attentive

section

variable (hM : M.Shown)

include hM

/-- The word of a type with declarators behind it. -/
theorem typedDeclarators (levels : Nat) (wanted : Wanted) (isConstant : Bool) :
    Attentive M P (do
      let type ← Check.typeWord wanted
      Check.declarators (Check.declarator levels type isConstant)) := by
  intro c s hc _
  rw [secures_bind]
  refine ((typeWord wanted (P := fun _ ↦ True) hc trivial).and (ensures_typeWord_typed hc wanted)).mono ?_
  rintro type _ ⟨hword, htype, rfl⟩
  exact (secures_declarators_used hM hc (.first htype.isPrimitiveType) levels type isConstant).mono
    fun _ _ hlater ↦ hword.trans hlater

theorem variableDeclaration (levels : Nat) : Attentive M P (Check.variableDeclaration levels) :=
  typedDeclarators hM levels .dataType false

theorem constantDeclaration (levels : Nat) :
    Attentive M (· = .constWord) (Check.constantDeclaration levels) :=
  (word rfl).discard.bind fun _ ↦ typedDeclarators hM levels .dataType true

end

end Attentive

/-! ### Instances -/

/-- An instance is declared. -/
theorem secures_instance_used (hfrom : InstantiatesFrom c.kindAt s.position) (structName : String) :
    Secures M (do
      let name ← expect .identifier .name
      declare (.ofInstance name.lexeme structName name.position) name : Check Unit) c s
      (fun _ ↦ True) fun _ after ↦ after.position = s.position + 1 ∧
        UsedTo M c.text s.position after.position := by
  rw [secures_bind, secures_expect]
  refine ⟨fun hname ↦ ?_, fun _ ↦ trivial⟩
  have hnext := Context.after_of_kindAt hname (by simp)
  refine .of_ensures ((Still.declare _ _ c _).imp (fun _ _ ↦ trivial) fun _ after hafter ↦ ?_)
  rw [hafter, State.position_movedTo, hnext]
  exact ⟨rfl, .name hname (.instantiated hfrom)⟩

theorem Attentive.instanceDeclaration : Attentive M (· = .instanceWord) Check.instanceDeclaration := by
  intro c s hc hword
  have hnext := Context.after_of_kindAt hword (by simp)
  simp only [Check.instanceDeclaration, secures_bind, secures_discard, secures_advance,
    secures_expect, hnext, State.position_movedTo]
  refine ⟨fun hname ↦ ?_, fun _ ↦ trivial⟩
  have hfirst : UsedTo M c.text s.position (s.position + 2) :=
    (UsedTo.token hword rfl).trans (.name hname (.struct rfl hword))
  rw [Context.after_of_kindAt hname (by simp), secures_resolve]
  refine fun _ ↦ ?_
  split
  · refine secures_rounds (fun _ ↦ trivial) (I := fun _ t ↦
      UsedTo M c.text s.position t.position ∧ InstantiatesFrom c.kindAt t.position)
      ⟨hfirst, .first hword⟩ ?_
    rintro _ t ⟨hused, hfrom⟩
    rw [secures_bind]
    refine (secures_instance_used hfrom _).mono ?_
    rintro _ later ⟨hlast, hone⟩
    rw [secures_bind]
    refine ((Attentive.another (P := fun _ ↦ True) hc trivial).and ensures_another_typed).mono ?_
    rintro more _ ⟨hmark, rfl, hkind⟩
    have hall := (hused.trans hone).trans hmark
    cases more with
    | true =>
      refine (secures_pure _).2 ⟨hall, ?_⟩
      rw [hlast] at hkind ⊢
      exact .next hfrom hkind
    | false => exact (secures_pure _).2 hall
  · exact (secures_violateAt _ _).2 trivial

end

end FrontEnd
