import FrontEnd.Check.Statement
import FrontEnd.Proofs.Check.CarefulExpression
import FrontEnd.Proofs.Check.TypedDeclaration

/-!
# The walk over a declaration or an assignment is careful

The sign of an assignment writes to the target in front of it (`secures_assignmentTail`), and the sign
in a declarator gives the name declared there its first value (`secures_declarator`).  A declarator of
a constant has such a sign, and declarators of constants stand up to a semicolon, so the word in front
of them is sound as well.
-/

namespace FrontEnd

open Check

section

variable {M : Lookups} {P : Kind → Prop} {c : Context} {s : State} {b : Nat} {levels : Nat}
  {terminators : List Kind}

/-! ### Checks that stay where they are -/

namespace Still

theorem requireType (wanted value : DataType) (place : Token) :
    Still (Check.requireType wanted value place) :=
  ite (violateAt (by simp)) (pure _)

theorem markInitialized (t : Target) : Still (Check.markInitialized t) :=
  read.bind fun _ ↦ modify fun _ ↦ rfl

theorem declare (symbol : Symbol) (place : Token) : Still (Check.declare symbol place) := by
  refine read.bind fun c ↦ bind (fun d s ↦ ?_) fun _ ↦ ite (pure _) (violateAt (by simp))
  rw [ensures_insertSymbol]
  exact ⟨fun _ _ ↦ rfl, fun _ ↦ rfl⟩

theorem literalSize (t : Token) : Still (Check.literalSize t) := by
  unfold Check.literalSize
  split
  · exact violateAt (by simp)
  · exact guard (violateAt (by simp)) (pure _)

theorem namedSize (t : Token) : Still (Check.namedSize t) := by
  refine (resolve t.lexeme).bind fun found ↦ ?_
  split
  · exact violateAt (by simp)
  · exact guard (violateAt (by simp)) <| otherwise (violateAt (by simp)) (pure _)

theorem checkCount (size : Dimension) (isConstant : Bool) (count : Nat) (place : Token)
    {tooMany : Nat → Nat → Violation} (h : ∀ m n, tooMany m n ≠ .divisionByZero) :
    Still (Check.checkCount size isConstant count place tooMany) := by
  unfold Check.checkCount
  split
  · exact pure _
  · exact guard (violateAt (h _ _)) (ite (violateAt (by simp)) (pure _))

end Still

/-! ### Assignments -/

namespace Careful

theorem inputValue (type : DataType) : Careful M (· = .inputWord) (Check.inputValue type) := by
  refine (advance ?_).bind fun _ ↦ .otherwise (.violateAt (by simp)) <|
    (expectMark rfl).discard.bind fun _ ↦ (expect rfl _).discard.bind fun _ ↦
      (expectMark rfl).discard
  rintro _ rfl
  rfl

theorem plainAssignment (levels : Nat) (terminators : List Kind) (t : Target) (sign : Token) :
    Careful M P (Check.plainAssignment levels terminators t sign) :=
  nextIte ((inputValue t.type).bind fun _ ↦ of_still (.markInitialized t))
    ((valueType levels terminators).bind fun _ ↦ .after (.requireType _ _ _) fun _ ↦
      of_still (.markInitialized t))

end Careful

/-- The right side of a compound assignment.  If it divides, no literal zero stands at its start. -/
theorem secures_compoundAssignment (hc : c.Closed) (hfresh : Fresh c.kindAt s.position) {op : Operator}
    (hop : Operator.ofCompound? (c.kindAt b) = some op) (hb : s.position = b + 1) (t : Target)
    (sign : Token) :
    Secures M (compoundAssignment levels terminators op t sign) c s (Justified c.text)
      fun _ after ↦ SoundTo M c.text s.position after.position ∧
        ((c.kindAt b).isDivision → (c.tokenAt (b + 1)).isZeroLiteral = false) := by
  have hvalue : Careful M (fun _ ↦ True) (do
      unless t.initialized do warn t.name t.token
      requireType t.type (← valueType levels terminators) sign) :=
    .otherwise (.warn _ _) <| (Careful.valueType levels terminators).bind fun _ ↦
      .of_still (.requireType _ _ _)
  have hdivision : (c.kindAt b).isDivision = op.isDivision := by
    cases hk : c.kindAt b <;> rw [hk] at hop <;> cases hop <;> rfl
  unfold compoundAssignment
  rw [secures_ite]
  refine ⟨fun _ ↦ ?_, fun _ ↦ ?_⟩
  · rw [secures_bind, secures_peek, secures_ite, hb, Bool.and_eq_true]
    refine ⟨fun ⟨hdivides, hzero⟩ ↦ ?_, fun hzero ↦ ?_⟩
    · rw [secures_bind, secures_violate]
      exact fun _ ↦ ⟨b, hdivision.trans hdivides, hzero, by rw [hb]⟩
    · refine (hvalue hc hfresh trivial).mono fun _ after hsound ↦ ⟨hb ▸ hsound, fun hdivides ↦ ?_⟩
      exact Bool.eq_false_iff.2 fun h ↦ hzero ⟨hdivision ▸ hdivides, h⟩
  · rw [secures_bind, secures_violateAt]
    exact .of_ne (by simp)

/-- What follows a target that may be written to. -/
theorem secures_assignmentTail (hc : c.Closed) (hplace : PlaceText c.kindAt b s.position)
    (hwritable : M.Writable c.text b) (t : Target) :
    Secures M (assignmentTail levels terminators t) c s (Justified c.text)
      fun _ after ↦ SoundTo M c.text s.position after.position := by
  have hwrites : WritesTo c.text b s.position := .inl hplace
  have hsign {k : Kind} (hk : c.text.kind s.position = k) (hdivision : k.isDivision = false)
      (hconstant : k ≠ .constWord) : Sound M c.text s.position :=
    .of_writing (hk ▸ hdivision) (.inr ⟨b, hwrites, hwritable⟩) (hk ▸ hconstant)
  -- The sign itself divides nothing and writes to the target in front of it.
  have hafter {k : Kind} (hk : c.kindAt s.position = k) (hne : k ≠ .eof ∧ k ≠ .dot)
      (hsound : Sound M c.text s.position) {rest : Check Unit}
      (hrest : Careful M (fun _ ↦ True) rest) :
      Secures M (do discard advance; rest) c s (Justified c.text) fun _ after ↦
        SoundTo M c.text s.position after.position := by
    have hdot : c.kindAt s.position ≠ .dot := hk ▸ hne.2
    simp only [secures_bind, secures_discard, secures_advance, Context.after_of_kindAt hk hne.1]
    exact (hrest hc (fresh_succ hdot) trivial).mono fun _ _ hlater ↦
      (SoundTo.one hsound hdot).trans hlater
  simp only [assignmentTail, secures_bind, secures_peek, hc.kind_tokenAt]
  split
  next hk =>
    have := hafter hk (by decide) (hsign hk rfl (by decide))
      (.plainAssignment levels terminators t (c.tokenAt s.position))
    simpa only [secures_bind] using this
  next hk =>
    have := hafter hk (by decide) (hsign hk rfl (by decide)) (.of_still (.requireInt t))
    simpa only [secures_bind] using this
  next hk =>
    have := hafter hk (by decide) (hsign hk rfl (by decide)) (.of_still (.requireInt t))
    simpa only [secures_bind] using this
  next =>
    split
    next op hop =>
      obtain ⟨hconstant, hne, hdot⟩ : c.kindAt s.position ≠ .constWord ∧
          c.kindAt s.position ≠ .eof ∧ c.kindAt s.position ≠ .dot := by
        cases hk : c.kindAt s.position <;> rw [hk] at hop <;> cases hop <;> decide
      simp only [secures_bind, secures_discard, secures_advance, Context.after_of_ne_eof hne]
      refine (secures_compoundAssignment hc (fresh_succ hdot) hop rfl t _).mono ?_
      rintro _ after ⟨hsound, hzero⟩
      exact (SoundTo.one ⟨hzero, fun _ ↦ .inr ⟨b, hwrites, hwritable⟩,
        fun h ↦ absurd h hconstant⟩ hdot).trans hsound
    next => exact (secures_violate _).2 (.of_ne (by simp))

/-! ### Types, marks and array shapes -/

namespace Careful

theorem typeWord (wanted : Wanted) : Careful M P (Check.typeWord wanted) := by
  refine advanceThen (fun t _ ↦ ?_) fun t hother ↦ ?_
  · split
    · exact .pure _
    · exact .violateAt (by simp)
  · have hnone : primitiveType? t = none := by
      unfold primitiveType?
      cases hk : t.kind <;> rw [hk] at hother <;> first | rfl | cases hother
    rw [hnone]
    exact .violateAt (by simp)

theorem another : Careful M P Check.another := by
  refine nextIte ((advance ?_).discard.bind fun _ ↦ .pure _)
    ((expect rfl _).discard.bind fun _ ↦ .pure _)
  rintro _ rfl
  rfl

theorem declarators {one : Check Unit} (hone : Careful M (fun _ ↦ True) one) :
    Careful M P (Check.declarators one) :=
  rounds fun _ ↦ hone.bind fun _ ↦ another.bind fun _ ↦ .pure _

theorem arraySize : Careful M P Check.arraySize := by
  refine advanceThen (fun t _ ↦ ?_) fun t hother ↦ ?_
  · split
    · exact of_still (.literalSize t)
    · exact .violateAt (by simp)
    · exact of_still (.namedSize t)
    · exact .violateAt (by simp)
  · split
    next hk => rw [hk] at hother; cases hother
    · exact .violateAt (by simp)
    next hk => rw [hk] at hother; cases hother
    · exact .violateAt (by simp)

theorem dimension : Careful M (· = .leftBracket) Check.dimension := by
  refine (advance ?_).discard.bind fun _ ↦ arraySize.bind fun _ ↦
    (expectMark rfl).discard.bind fun _ ↦ .pure _
  rintro _ rfl
  rfl

theorem arrayShape (name : Token) : Careful M (· = .leftBracket) (Check.arrayShape name) :=
  dimension.bind fun _ ↦ nextIte
    (dimension.bind fun _ ↦ .after (.next? _) fun _ ↦ .guard (.violate (by simp)) (.pure _))
    (.pure _)

/-! ### Array initializers -/

theorem element (type : DataType) : Careful M P (Check.element type) := by
  refine advanceThen (fun t _ ↦ ?_) fun t hother ↦ ?_
  · split
    · exact .ite (.violateAt (by simp)) (.pure _)
    · refine .guard (.violateAt (by simp)) <| .after (.resolve t.lexeme) fun found ↦ ?_
      split
      · exact .violateAt (by simp)
      · exact .guard (.violateAt (by simp)) <| .ite (.pure _) (.violateAt (by simp))
  · have hnone : DataType.ofLiteral? t.kind = none := by
      cases hk : t.kind <;> rw [hk] at hother <;> first | rfl | cases hother
    have hname : t.kind ≠ .identifier := fun hk ↦ by rw [hk] at hother; cases hother
    simp only [hnone, if_pos hname]
    exact .bind (.violateAt (by simp))

theorem row (type : DataType) : Careful M P (Check.row type) := by
  have hmark {k : Kind} (hk : k.isHarmless) : Careful M (· = k) Check.advance :=
    advance fun _ h ↦ h ▸ hk
  have hround (count : Nat) : Careful M (fun _ ↦ True) (do
      Check.element type
      if ← Check.next? .comma then
        Functor.discard Check.advance
        return ForInStep.yield (count + 1)
      else
        return ForInStep.done (count + 1)) :=
    (element type).bind fun _ ↦ nextIte ((hmark rfl).discard.bind fun _ ↦ .pure _) (.pure _)
  have hend (count : Nat) {P : Kind → Prop} : Careful M P (do
      Functor.discard (Check.expectMark .rightBrace)
      return count) :=
    (expectMark rfl).discard.bind fun _ ↦ .pure count
  exact (expectMark rfl).discard.bind fun _ ↦ nextIte (hend _) ((rounds hround).bind fun _ ↦ hend _)

theorem arrayInitializer (type : DataType) (isConstant : Bool) (shape : Shape) :
    Careful M P (Check.arrayInitializer type isConstant shape) := by
  have hcomma : Careful M (· = .comma) Check.advance := by
    refine advance ?_
    rintro _ rfl
    rfl
  cases shape with
  | row size =>
    exact .after .peek fun _ ↦ (row type).bind fun _ ↦ of_still (.checkCount _ _ _ _ (by simp))
  | table rowCount columns =>
    have hrows : Careful M (fun _ ↦ True) (Check.rows type columns isConstant) :=
      roundsWhile ((Still.next? .rightBrace).bind fun _ ↦ .pure _) fun _ ↦ .after .peek fun _ ↦
        (row type).bind fun _ ↦ .after (.checkCount _ _ _ _ (by simp)) fun _ ↦
          nextIte (hcomma.discard.bind fun _ ↦ .pure _) (.pure _)
    exact (expectMark rfl).bind fun _ ↦ hrows.bind fun _ ↦
      (expectMark rfl).discard.bind fun _ ↦ of_still (.checkCount _ _ _ _ (by simp))

theorem initializer (levels : Nat) (type : DataType) (sign : Token) :
    Careful M P (Check.initializer levels type sign) :=
  nextIte (inputValue type)
    ((valueType levels [.comma]).bind fun _ ↦ of_still (.requireType _ _ _))

end Careful

/-! ### The text of declarators -/

/-- The brackets of a dimension continue a place. -/
theorem ensures_dimension_place (hc : c.Closed) (hplace : PlaceText c.kindAt b s.position)
    (hopen : c.kindAt s.position = .leftBracket) :
    Ensures dimension c s (fun _ ↦ True) fun _ after ↦ PlaceText c.kindAt b after.position := by
  have hsize {k : Kind} (hk : c.kindAt (s.position + 1) = k) (hplain : k.isPlain) :
      c.kindAt (s.position + 2) = .rightBracket → PlaceText c.kindAt b (s.position + 3) :=
    fun hclose ↦ .element hplace hopen (.one (hk ▸ hplain)) hclose
  simp only [dimension, arraySize, ensures_bind, ensures_discard]
  refine ensures_advance_of hopen (by decide) ?_
  simp only [ensures_advance, State.position_movedTo, State.movedTo_movedTo, hc.kind_tokenAt]
  split
  next hk =>
    rw [Context.after_of_kindAt hk (by decide)]
    refine (ensures_literalSize _).imp (fun _ _ ↦ trivial) ?_
    rintro _ _ rfl
    exact ensures_expectMark_of (by decide) (hsize hk rfl)
  · trivial
  next hk =>
    rw [Context.after_of_kindAt hk (by decide)]
    refine (ensures_namedSize _).imp (fun _ _ ↦ trivial) ?_
    rintro _ _ rfl
    exact ensures_expectMark_of (by decide) (hsize hk rfl)
  · trivial

theorem ensures_arrayShape_place (hc : c.Closed) (hplace : PlaceText c.kindAt b s.position)
    (hopen : c.kindAt s.position = .leftBracket) (name : Token) :
    Ensures (arrayShape name) c s (fun _ ↦ True) fun _ after ↦
      PlaceText c.kindAt b after.position := by
  simp only [arrayShape, ensures_bind, ensures_next?, ensures_ite, beq_iff_eq, ensures_violate,
    ensures_pure]
  refine (ensures_dimension_place hc hplace hopen).mono fun _ after hfirst ↦ ?_
  refine ⟨fun hsecond ↦ ?_, fun _ ↦ hfirst⟩
  exact (ensures_dimension_place hc hfirst hsecond).mono fun _ _ hboth ↦
    ⟨fun _ ↦ trivial, fun _ ↦ hboth⟩

/-- Braces with something balanced inside. -/
theorem InitializerText.braces {inside : Nat} (hopen : c.kindAt s.position = .leftBrace)
    (hinside : Balanced c.kindAt (s.position + 1) inside) (hclose : c.kindAt inside = .rightBrace) :
    InitializerText c.kindAt s.position (c.after inside) :=
  .inr ⟨inside, hopen, hinside, hclose, Context.after_of_kindAt hclose (by decide)⟩

theorem ensures_row_text (hc : c.Closed) (type : DataType) :
    Ensures (row type) c s (fun _ ↦ True) fun _ after ↦
      InitializerText c.kindAt s.position after.position := by
  simp only [row, ensures_bind, ensures_discard, ensures_expectMark, ensures_next?, ensures_ite,
    ensures_pure]
  refine ⟨fun hopen ↦ ?_, fun _ ↦ trivial⟩
  have hnext := Context.after_of_kindAt hopen (by decide)
  refine ⟨fun _ ↦ ⟨fun hclose ↦ ?_, fun _ ↦ trivial⟩, fun _ ↦ ?_⟩
  · exact .braces hopen (hnext ▸ .nil) hclose
  · refine (walks_elements type c _ hc).imp (fun _ _ ↦ trivial) fun _ _ hinside ↦ ?_
    exact ⟨.braces hopen (hnext ▸ hinside.balanced), fun _ ↦ trivial⟩

theorem ensures_arrayInitializer_text (hc : c.Closed) (type : DataType) (isConstant : Bool)
    (shape : Shape) :
    Ensures (arrayInitializer type isConstant shape) c s (fun _ ↦ True) fun _ after ↦
      InitializerText c.kindAt s.position after.position := by
  cases shape with
  | row size =>
    simp only [arrayInitializer, ensures_bind, ensures_peek]
    refine (ensures_row_text hc type).mono fun _ after htext ↦ ?_
    refine (ensures_checkCount _ _ _ _ (by simp)).imp (fun _ _ ↦ trivial) ?_
    rintro _ _ rfl
    exact htext
  | table rowCount columns =>
    simp only [arrayInitializer, ensures_bind, ensures_discard, ensures_expectMark]
    refine ⟨fun hopen ↦ ?_, fun _ ↦ trivial⟩
    refine (walks_rows type columns isConstant c _ hc).imp (fun _ _ ↦ trivial) fun _ _ hinside ↦
      ⟨fun hclose ↦ ?_, fun _ ↦ trivial⟩
    refine (ensures_checkCount _ _ _ _ (by simp)).imp (fun _ _ ↦ trivial) ?_
    rintro _ _ rfl
    refine .braces hopen ?_ hclose
    have hbalanced := hinside.balanced
    rwa [State.position_movedTo, Context.after_of_kindAt hopen (by decide)] at hbalanced

/-- An expression takes in a token at least. -/
theorem ensures_valueType_lt (hc : c.Closed) (levels : Nat) {terminators : List Kind}
    (hterminators : ∀ k ∈ terminators, k.isPlain = false) :
    Ensures (valueType levels terminators) c s (fun _ ↦ True) fun _ after ↦
      s.position < after.position ∧ Phrase c.kindAt false s.position after.position := by
  have hlt (stop : Nat) : Ensures (expressionWith (operand levels) stop) c s (fun _ ↦ True)
      fun _ after ↦ s.position < after.position := by
    by_cases hstop : stop ≤ s.position
    · simp only [expressionWith, ensures_bind, ensures_here, ensures_ite, ensures_violate]
      exact ⟨fun _ ↦ trivial, fun h ↦ absurd hstop h⟩
    · exact (ensures_expressionWith (takePhrases_operand levels) fun _ ↦ hc.seesTo stop).imp (fun _ _ ↦ trivial)
        fun _ _ hafter ↦ Nat.lt_of_lt_of_le (Nat.lt_of_not_le hstop) hafter.2
  have hfirst : Ensures (valueType levels terminators) c s (fun _ ↦ True) fun _ after ↦
      s.position < after.position := by
    rw [valueType, ensures_bind]
    refine (ensures_expressionEnd hterminators).imp (fun _ _ ↦ trivial) ?_
    rintro stop _ ⟨rfl, -⟩
    exact hlt stop
  exact hfirst.and ((takesPhrase_valueType levels hterminators s).mono fun _ _ h ↦ h.phrase)

theorem ensures_initializer_text (hc : c.Closed) (levels : Nat) (type : DataType) (sign : Token) :
    Ensures (initializer levels type sign) c s (fun _ ↦ True) fun _ after ↦
      InitializerText c.kindAt s.position after.position := by
  simp only [initializer, ensures_bind, ensures_next?, ensures_ite, beq_iff_eq]
  refine ⟨fun hinput ↦ ?_, fun _ ↦ ?_⟩
  · simp only [inputValue, ensures_bind, ensures_ite, ensures_violateAt, ensures_discard]
    refine ensures_advance_of hinput (by decide) ⟨fun _ ↦ ?_, fun _ ↦ trivial⟩
    refine ensures_expectMark_of (by decide) fun hopen ↦ ?_
    refine ensures_expect_of (by decide) fun hprompt ↦ ?_
    refine ensures_expectMark_of (by decide) fun hclose ↦
      .inl ⟨by simp only [State.position_movedTo]; omega, ?_⟩
    refine .plain (hinput ▸ rfl) (.brackets (hopen ▸ rfl) (hopen ▸ by decide) (.one ?_) hclose)
    exact hprompt ▸ rfl
  · refine (ensures_valueType_lt hc levels (by simp [Kind.isPlain])).mono fun _ _ hvalue ↦ ?_
    refine (ensures_requireType ..).imp (fun _ _ ↦ trivial) ?_
    rintro _ _ rfl
    exact .inl hvalue

/-! ### Declarators -/

/-- A declarator was read: its tokens are sound, and it has an initializer if it must. -/
structure DeclaratorRead (M : Lookups) (c : Context) (isConstant : Bool) (s after : State) :
    Prop where
  sound : SoundTo M c.text s.position after.position
  text : DeclaratorText c.kindAt isConstant s.position after.position

/-- The sign of a declarator with the initializer behind it. -/
theorem secures_given (hc : c.Closed) (hfrom : DeclaresFrom c.kindAt b)
    (hplace : PlaceText c.kindAt b s.position) (hassign : c.kindAt s.position = .assign)
    {given : Check Unit} (hcareful : Careful M (fun _ ↦ True) given)
    (htext : Ensures given c (s.movedTo (s.position + 1)) (fun _ ↦ True) fun _ after ↦
      InitializerText c.kindAt (s.position + 1) after.position) :
    Secures M given c (s.movedTo (s.position + 1)) (Justified c.text) fun _ after ↦
      SoundTo M c.text s.position after.position ∧ GivenText c.kindAt b after.position := by
  have hsign : SoundTo M c.text s.position (s.position + 1) :=
    .assign hassign (.inl ⟨hassign, b, hfrom, hplace⟩)
  refine ((hcareful hc (fresh_succ (by simp [hassign])) trivial).and htext).mono ?_
  rintro _ after ⟨hsound, hinitializer⟩
  exact ⟨hsign.trans hsound, s.position, hplace, hassign, hinitializer⟩

theorem secures_arrayDeclarator (hc : c.Closed) (hfresh : Fresh c.kindAt s.position) (hfrom : DeclaresFrom c.kindAt b)
    (hplace : PlaceText c.kindAt b s.position) (hopen : c.kindAt s.position = .leftBracket)
    (type : DataType) (isConstant : Bool) (name : Token) :
    Secures M (arrayDeclarator type isConstant name) c s (Justified c.text) fun _ after ↦
      SoundTo M c.text s.position after.position ∧
        DeclaratorText c.kindAt isConstant b after.position := by
  simp only [arrayDeclarator, secures_bind, secures_next?, secures_ite, secures_discard,
    secures_advance, secures_violateAt, secures_pure, beq_iff_eq, Bool.not_eq_true]
  refine ((Careful.arrayShape name hc hfresh hopen).and
    (ensures_arrayShape_place hc hplace hopen name)).mono ?_
  rintro shape later ⟨hshape, hplace⟩
  refine ⟨fun hassign ↦ ?_, fun _ ↦ ⟨fun _ ↦ .of_ne (by simp), fun hvariable ↦
    ⟨hshape, .inr ⟨hvariable, hplace⟩⟩⟩⟩
  rw [Context.after_of_kindAt hassign (by decide)]
  refine (secures_given hc hfrom hplace hassign (.arrayInitializer type isConstant shape)
    (ensures_arrayInitializer_text hc type isConstant shape)).mono ?_
  rintro _ after ⟨hsound, hgiven⟩
  exact ⟨hshape.trans hsound, .inl hgiven⟩

theorem secures_declarator (hc : c.Closed) (hfrom : DeclaresFrom c.kindAt s.position) (levels : Nat)
    (type : DataType) (isConstant : Bool) :
    Secures M (declarator levels type isConstant) c s (Justified c.text) fun _ after ↦
      DeclaratorRead M c isConstant s after := by
  have hdeclare {later : State} (symbol : Symbol) (place : Token)
      (hsound : SoundTo M c.text s.position later.position)
      (htext : DeclaratorText c.kindAt isConstant s.position later.position) :
      Secures M (declare symbol place) c later (Justified c.text) fun _ after ↦
        DeclaratorRead M c isConstant s after := by
    refine .of_ensures ((Still.declare symbol place c later).imp (fun _ ↦ .of_ne) ?_)
    exact fun _ after hafter ↦ ⟨hafter ▸ hsound, hafter ▸ htext⟩
  simp only [declarator, secures_bind, secures_expect]
  refine ⟨fun hname ↦ ?_, fun _ ↦ justified_expected _ _⟩
  have hfirst : SoundTo M c.text s.position (c.after s.position) := .harmless (hname ▸ rfl)
  rw [Context.after_of_kindAt hname (by decide)] at hfirst ⊢
  have hplace : PlaceText c.kindAt s.position (s.position + 1) := .name hfrom.fresh hname
  simp only [secures_ite, secures_bind, secures_violateAt, secures_next?, secures_advance,
    secures_declaredHere, beq_iff_eq]
  refine ⟨fun _ ↦ .of_ne (by simp), fun _ ↦ ⟨fun hopen ↦ ?_, fun _ ↦ ⟨fun hassign ↦ ?_,
    fun _ ↦ ⟨fun _ ↦ .of_ne (by simp), fun hvariable ↦ ?_⟩⟩⟩⟩
  · refine (secures_arrayDeclarator hc (hfirst.fresh hfrom.fresh) hfrom hplace hopen type isConstant _).mono ?_
    rintro result later ⟨hsound, htext⟩
    exact hdeclare _ _ (hfirst.trans hsound) htext
  · have hnext : c.after (s.position + 1) = s.position + 2 :=
      Context.after_of_kindAt hassign (by decide)
    rw [State.position_movedTo, State.movedTo_movedTo, hnext]
    refine (secures_given (s := s.movedTo (s.position + 1)) hc hfrom hplace hassign
      (.initializer levels type _) (ensures_initializer_text hc levels type _)).mono ?_
    rintro _ later ⟨hsound, hgiven⟩
    exact hdeclare _ _ (hfirst.trans hsound) (.inl hgiven)
  · exact hdeclare _ _ hfirst (.inr ⟨by simpa using hvariable, hplace⟩)

/-- Declarators up to their semicolon. -/
theorem secures_declarators (hc : c.Closed) (hfrom : DeclaresFrom c.kindAt s.position) (levels : Nat)
    (type : DataType) (isConstant : Bool) :
    Secures M (declarators (declarator levels type isConstant)) c s (Justified c.text) fun _ after ↦
      SoundTo M c.text s.position after.position ∧ (isConstant →
        ∃ j, GivenTexts c.kindAt s.position j ∧ c.kindAt j = .semicolon) := by
  refine secures_rounds (fun _ ↦ .of_ne (by simp)) (I := fun _ t ↦
    SoundTo M c.text s.position t.position ∧ DeclaresFrom c.kindAt t.position ∧ (isConstant →
      t.position = s.position ∨
        ∃ m, GivenTexts c.kindAt s.position m ∧ c.kindAt m = .comma ∧ t.position = m + 1))
    ⟨.refl M c.text _, hfrom, fun _ ↦ .inl rfl⟩ ?_
  rintro _ t ⟨hsound, hfrom, hbefore⟩
  rw [secures_bind]
  refine (secures_declarator hc hfrom levels type isConstant).mono fun _ later hone ↦ ?_
  rw [secures_bind]
  have hfresh := (hone.sound).fresh hfrom.fresh
  refine ((Careful.another (P := fun _ ↦ True) hc hfresh trivial).and ensures_another_typed).mono ?_
  rintro more _ ⟨hmark, rfl, hkind⟩
  have hall := (hsound.trans hone.sound).trans hmark
  have hgiven (hconstant : isConstant) : GivenTexts c.kindAt s.position later.position := by
    have hlast : GivenText c.kindAt t.position later.position :=
      hone.text.resolve_right fun h ↦ by simp [hconstant] at h
    obtain hstart | ⟨m, hread, hcomma, hm⟩ := hbefore hconstant
    · exact .first (hstart ▸ hlast)
    · exact .next hread hcomma (hm ▸ hlast)
  cases more with
  | true =>
    exact (secures_pure _).2 ⟨hall, .next hfrom hone.text hkind, fun hconstant ↦
      .inr ⟨_, hgiven hconstant, hkind, rfl⟩⟩
  | false => exact (secures_pure _).2 ⟨hall, fun hconstant ↦ ⟨_, hgiven hconstant, hkind⟩⟩

/-- Declarators may stand behind the word of a type. -/
theorem Text.TypeWordAt.isPrimitiveType {text : Text} {i : Nat} {type : DataType}
    (h : text.TypeWordAt i type) : (text.kind i).isPrimitiveType := by
  obtain ⟨hword, hprimitive⟩ := Option.filter_eq_some_iff.1 h
  cases hk : text.kind i <;> rw [hk] at hword <;> cases hword <;> first | rfl | cases hprimitive

/-- The word of a type, and that declarators may stand behind it. -/
theorem secures_typeWord (hc : c.Closed) (hfresh : Fresh c.kindAt s.position) (wanted : Wanted) :
    Secures M (typeWord wanted) c s (Justified c.text) fun _ after ↦
      SoundTo M c.text s.position after.position ∧ (c.kindAt s.position).isPrimitiveType ∧
        after = s.movedTo (s.position + 1) := by
  refine ((Careful.typeWord wanted (P := fun _ ↦ True) hc hfresh trivial).and
    (ensures_typeWord_typed hc wanted)).mono ?_
  rintro type _ ⟨hsound, hword, rfl⟩
  exact ⟨hsound, hword.isPrimitiveType, rfl⟩

namespace Careful

theorem variableDeclaration (levels : Nat) : Careful M P (Check.variableDeclaration levels) := by
  intro c s hc hfresh _
  rw [Check.variableDeclaration, secures_bind]
  refine (secures_typeWord hc hfresh _).mono ?_
  rintro type _ ⟨hword, hprimitive, rfl⟩
  exact (secures_declarators hc (.first hprimitive) levels type false).mono fun _ _ hlater ↦
    hword.trans hlater.1

theorem constantDeclaration (levels : Nat) :
    Careful M (· = .constWord) (Check.constantDeclaration levels) := by
  intro c s hc hfresh hconst
  simp only [Check.constantDeclaration, secures_bind, secures_discard, secures_advance,
    Context.after_of_kindAt hconst (by decide : Kind.constWord ≠ .eof)]
  have hnext : Fresh c.kindAt (s.position + 1) := fresh_succ (by simp [hconst])
  refine (secures_typeWord hc hnext _).mono ?_
  rintro type _ ⟨hword, hprimitive, rfl⟩
  refine (secures_declarators hc (.first hprimitive) levels type true).mono ?_
  rintro _ after ⟨hlater, hgiven⟩
  refine SoundTo.trans (.one ⟨fun h ↦ ?_, fun h ↦ ?_, fun _ ↦ ⟨hprimitive, hgiven rfl⟩⟩ ?_)
    (hword.trans hlater)
  · rw [show c.text.kind s.position = _ from hconst] at h
    cases h
  · rw [show c.text.kind s.position = _ from hconst] at h
    cases h
  · show c.kindAt s.position ≠ .dot
    rw [hconst]
    decide

theorem instanceDeclaration : Careful M (· = .instanceWord) Check.instanceDeclaration := by
  refine (advance ?_).discard.bind fun _ ↦ (expect rfl _).bind fun structName ↦
    .after (.resolve structName.lexeme) fun found ↦ ?_
  · rintro _ rfl
    rfl
  · split
    · exact declarators ((expect rfl _).bind fun name ↦ of_still (.declare _ name))
    · exact .violateAt (by simp)

end Careful

end

end FrontEnd
