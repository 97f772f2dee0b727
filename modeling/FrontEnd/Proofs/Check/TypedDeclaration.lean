import FrontEnd.Proofs.Check.SymbolLife
import FrontEnd.Proofs.Check.TypedExpression
import FrontEnd.Proofs.Typing.Statements

/-!
# The walk over assignments and declarations types them

What a slot is given is what the rules of a well-typed program allow for it.  Assignments mark symbols
and declarations add them; the marks do not show in the names of a place, and a declared symbol hides
what its name stood for.
-/

namespace FrontEnd

open Check

section

variable {c : Context} {names : Names} {s after : State} {i j levels : Nat} {type : DataType}
  {symbol : Symbol} {terminators : List Kind}

/-! ### What names stand for on the way -/

namespace Context.Shows

/-- A change that adds nothing to the scope at hand or around it does not show. -/
theorem of_addsTo (h : c.Shows s names) {id : Nat} (hid : c.scope < id)
    (hadds : s.arena.AddsTo id after.arena) : c.Shows after names :=
  ⟨by rw [hadds.size]; exact h.live, (hadds.names hid).trans h.names_eq, h.proper⟩

/-- A declared symbol hides what its name stood for. -/
theorem declared (h : c.Shows s names) {arena : Arena} (hproper : symbol.Proper)
    (hinsert : s.arena.insert c.scope symbol = some arena) :
    c.Shows { s with arena := arena } (names.declaring [symbol]) := by
  refine ⟨?_, ?_, h.proper.declaring fun other hother ↦ List.mem_singleton.1 hother ▸ hproper⟩
  · show c.scope < arena.size
    rw [Arena.size_insert hinsert]
    exact h.live
  · rw [← h.names_eq]
    exact Arena.names_insert hinsert

theorem marked (h : c.Shows s names) (name : String) (part : Part) :
    c.Shows { s with arena := s.arena.modify c.scope name part.mark } names :=
  h.of_addsTo (Nat.lt_succ_self _) (.modify part.marked_mark _ _ _ _)

end Context.Shows

theorem Symbol.Proper.bareSymbol (htype : type ≠ .void) (isConstant : Bool) (t : Token) :
    (bareSymbol type isConstant t).Proper := by
  unfold Check.bareSymbol
  split
  · exact ⟨fun _ ↦ htype, nofun⟩
  · exact ⟨fun _ ↦ htype, nofun⟩

theorem ne_void_of_isPrimitive (h : type.isPrimitive) : type ≠ .void := by
  rintro rfl
  cases h

theorem Text.TypeWordAt.ne_void {text : Text} (h : text.TypeWordAt i type) : type ≠ .void :=
  ne_void_of_isPrimitive (Option.filter_eq_some_iff.1 h).2

/-! ### Tokens that must stand here -/

theorem ensures_expect_of {k : Kind} {wanted : Wanted} {Q : Token → State → Prop} (hk : k ≠ .eof)
    (h : c.kindAt s.position = k → Q (c.tokenAt s.position) (s.movedTo (s.position + 1))) :
    Ensures (expect k wanted) c s (fun _ ↦ True) Q :=
  ensures_expect.2 ⟨fun hkind ↦ Context.after_of_kindAt hkind hk ▸ h hkind, fun _ ↦ trivial⟩

theorem ensures_expectMark_of {k : Kind} {Q : Token → State → Prop} (hk : k ≠ .eof)
    (h : c.kindAt s.position = k → Q (c.tokenAt s.position) (s.movedTo (s.position + 1))) :
    Ensures (expectMark k) c s (fun _ ↦ True) Q :=
  ensures_expect_of hk h

theorem ensures_advance_of {k : Kind} {E : SemanticError → Prop} {Q : Token → State → Prop}
    (hkind : c.kindAt s.position = k) (hk : k ≠ .eof)
    (h : Q (c.tokenAt s.position) (s.movedTo (s.position + 1))) : Ensures advance c s E Q :=
  ensures_advance.2 (Context.after_of_kindAt hkind hk ▸ h)

/-! ### What is given to slots -/

theorem ensures_inputValue_typed (names : Names) (hinput : c.kindAt s.position = .inputWord) (type : DataType) :
    Ensures (inputValue type) c s (fun _ ↦ True) fun _ after ↦
      Given c.text names type s.position after.position ∧ SameTables s after := by
  simp only [inputValue, ensures_bind, ensures_ite, ensures_violateAt, ensures_discard]
  refine ensures_advance_of hinput (by decide) ⟨fun hprimitive ↦ ?_, fun _ ↦ trivial⟩
  refine ensures_expectMark_of (by decide) fun hopen ↦ ?_
  refine ensures_expect_of (by decide) fun hprompt ↦ ?_
  refine ensures_expectMark_of (by decide) fun hclose ↦ ?_
  exact ⟨.input hprimitive ⟨hinput, hopen, hprompt, hclose⟩, by simp⟩

/-- A value of a wanted type. -/
theorem ensures_valueOfType_typed (hc : c.Closed) (hshows : c.Shows s names)
    (hterminators : ∀ k ∈ terminators, k.isPlain = false) (wanted : DataType) (place : Token) :
    Ensures (valueType levels terminators) c s (fun _ ↦ True) fun found later ↦
      Ensures (requireType wanted found place) c later (fun _ ↦ True) fun _ last ↦
        TypedTo c names (.value wanted) s last := by
  refine (ensures_valueType_typed hc hshows levels hterminators).mono fun found later hvalue ↦ ?_
  simp only [requireType, ensures_ite, ensures_violateAt, ensures_pure]
  refine ⟨fun _ ↦ trivial, fun hsame ↦ ?_⟩
  obtain rfl : found = wanted := Decidable.not_not.1 hsame
  exact hvalue

/-! ### Assignments -/

theorem ensures_markInitialized_typed (hshows : c.Shows s names) (t : Target) :
    Ensures (markInitialized t) c s (fun _ ↦ True) fun _ after ↦
      after.position = s.position ∧ c.Shows after names := by
  have hmark : Ensures (markInitialized t) c s (fun _ ↦ True) fun _ after ↦
      after = { s with arena := s.arena.modify c.scope t.name t.part.mark } := rfl
  refine hmark.mono ?_
  rintro _ _ rfl
  exact ⟨rfl, hshows.marked t.name t.part⟩

/-- A target with the sign behind it and what is done to it. -/
theorem ensures_assignmentTail_typed (hc : c.Closed) (hshows : c.Shows s names)
    (hterminators : ∀ k ∈ terminators, k.isPlain = false) (t : Target)
    (htarget : Typed c.text names (.target t.type) i s.position) :
    Ensures (assignmentTail levels terminators t) c s (fun _ ↦ True) fun _ after ↦
      Assigned c.text names t.type i s.position after.position ∧ c.Shows after names := by
  have hnext := hshows.movedTo (s.position + 1)
  have hcount {k : Kind} (hk : c.kindAt s.position = k) (hsign : k = .increment ∨ k = .decrement) :
      Ensures (discard advance >>= fun _ ↦ requireInt t) c s (fun _ ↦ True) fun _ after ↦
        Assigned c.text names t.type i s.position after.position ∧ c.Shows after names := by
    simp only [ensures_bind, ensures_discard]
    refine ensures_advance_of hk (by rcases hsign with rfl | rfl <;> decide) ?_
    refine (ensures_requireInt_typed t).mono ?_
    rintro _ _ ⟨rfl, hint⟩
    exact ⟨.counted htarget hint (hsign.imp hk.trans hk.trans), hnext⟩
  simp only [assignmentTail, ensures_bind, ensures_peek, hc.kind_tokenAt]
  split
  next hk =>
    simp only [ensures_bind, ensures_discard, plainAssignment, ensures_next?, ensures_ite, beq_iff_eq]
    refine ensures_advance_of hk (by decide) ⟨fun hinput ↦ ?_, fun _ ↦ ?_⟩
    · refine (ensures_inputValue_typed names hinput t.type).mono ?_
      rintro _ later ⟨hgiven, hsame⟩
      refine (ensures_markInitialized_typed (hnext.of_tables hsame) t).mono ?_
      rintro _ last ⟨hposition, hlast⟩
      exact ⟨hposition ▸ .plain htarget hk hgiven, hlast⟩
    · refine (ensures_valueOfType_typed hc hnext hterminators t.type _).mono fun _ _ h ↦ h.mono ?_
      rintro _ later hvalue
      refine (ensures_markInitialized_typed (hnext.of_tables hvalue.tables) t).mono ?_
      rintro _ last ⟨hposition, hlast⟩
      exact ⟨hposition ▸ .plain htarget hk (.value hvalue.typed), hlast⟩
  next hk => exact hcount hk (.inl rfl)
  next hk => exact hcount hk (.inr rfl)
  next =>
    split
    next op hop =>
      have hne : c.kindAt s.position ≠ .eof := fun hk ↦ by
        rw [hk] at hop
        cases hop
      -- The value is checked in the same way behind a warning and without one.
      have hvalue : ∀ {later : State}, SameTables (s.movedTo (s.position + 1)) later →
          later.position = s.position + 1 → t.type.isNumeric → ∀ sign,
            Ensures (valueType levels terminators) c later (fun _ ↦ True) fun found later ↦
              Ensures (requireType t.type found sign) c later (fun _ ↦ True) fun _ after ↦
                Assigned c.text names t.type i s.position after.position ∧ c.Shows after names := by
        intro later hsame hposition hnumeric sign
        have hlater := hnext.of_tables hsame
        refine (ensures_valueOfType_typed hc hlater hterminators t.type sign).mono fun _ _ h ↦ h.mono ?_
        rintro _ last hvalue
        exact ⟨.compound htarget hop hnumeric (hposition ▸ hvalue.typed),
          hlater.of_tables hvalue.tables⟩
      simp only [ensures_bind, ensures_discard, ensures_advance, Context.after_of_ne_eof hne,
        compoundAssignment, ensures_ite, ensures_violateAt, ensures_violate, ensures_peek]
      refine ⟨fun hnumeric ↦ ⟨fun _ ↦ trivial, fun _ ↦ ⟨fun _ ↦ ?_, fun _ ↦ ?_⟩⟩, fun _ ↦ trivial⟩
      · exact hvalue (.refl _) rfl hnumeric _
      · simp only [warn, ensures_modify]
        refine hvalue (?_ : SameTables _ { s.movedTo (s.position + 1) with
          warnings := s.warnings.push ⟨t.name, t.token.position⟩ }) rfl hnumeric _
        exact ⟨rfl, rfl, rfl, rfl⟩
    next => trivial

/-! ### Array shapes and initializers -/

theorem ensures_dimension_typed (hc : c.Closed) (hshows : c.Shows s names)
    (hopen : c.kindAt s.position = .leftBracket) :
    Ensures dimension c s (fun _ ↦ True) fun size after ↦
      DimensionAt c.text names s.position size ∧ after = s.movedTo (s.position + 3) := by
  simp only [dimension, arraySize, ensures_bind, ensures_discard]
  refine ensures_advance_of hopen (by decide) ?_
  simp only [ensures_advance, State.position_movedTo, State.movedTo_movedTo, hc.kind_tokenAt]
  split
  next hk =>
    rw [Context.after_of_kindAt hk (by decide)]
    unfold literalSize
    split
    · trivial
    next size hsize =>
      simp only [ensures_bind, ensures_ite, ensures_violateAt, ensures_pure]
      refine ⟨fun _ ↦ trivial, fun _ ↦ ?_⟩
      exact ensures_expectMark_of (by decide) fun hclose ↦ ⟨.literal hopen hk hsize hclose, rfl⟩
  · trivial
  next hk =>
    rw [Context.after_of_kindAt hk (by decide)]
    simp only [namedSize, ensures_bind, ensures_resolve]
    split
    · trivial
    next symbol hfound =>
      simp only [ensures_bind, ensures_ite, ensures_violateAt, ensures_pure]
      refine ⟨fun _ ↦ trivial, fun hint ↦ ⟨fun _ ↦ ?_, fun _ ↦ trivial⟩⟩
      simp only [Bool.or_eq_true, Bool.not_eq_true', decide_eq_true_eq, not_or, Bool.not_eq_false,
        Decidable.not_not] at hint
      refine ensures_expectMark_of (by decide) fun hclose ↦ ⟨?_, rfl⟩
      have hscalar : symbol.declared.isScalar := by rw [Symbol.isScalar_declared, hint.1]
      have hdimension : DimensionAt c.text names s.position (.named symbol.declared.name) :=
        .named hopen (hshows.nameAt hk hfound) hscalar hint.2 hclose
      exact hdimension
  · trivial

theorem ensures_arrayShape_typed (hc : c.Closed) (hshows : c.Shows s names)
    (hopen : c.kindAt s.position = .leftBracket) (name : Token) :
    Ensures (arrayShape name) c s (fun _ ↦ True) fun shape after ↦
      ShapeAt c.text names s.position shape after.position ∧ SameTables s after := by
  simp only [arrayShape, ensures_bind, ensures_next?, ensures_ite, beq_iff_eq, ensures_violate,
    ensures_pure]
  refine (ensures_dimension_typed hc hshows hopen).mono ?_
  rintro first _ ⟨hfirst, rfl⟩
  refine ⟨fun hsecond ↦ ?_, fun _ ↦ ⟨.row hfirst, by simp⟩⟩
  refine (ensures_dimension_typed hc (hshows.movedTo _) hsecond).mono ?_
  rintro second _ ⟨hsecond, rfl⟩
  exact ⟨fun _ ↦ trivial, fun _ ↦ ⟨.table hfirst hsecond, by simp⟩⟩

theorem ensures_element_typed (hc : c.Closed) (hshows : c.Shows s names) (type : DataType) :
    Ensures (element type) c s (fun _ ↦ True) fun _ after ↦
      ElementAt c.text names type s.position ∧ after = s.movedTo (s.position + 1) := by
  simp only [element, ensures_bind, ensures_advance, hc.kind_tokenAt]
  split
  next found hfound =>
    have hne : c.kindAt s.position ≠ .eof := fun hk ↦ by
      rw [hk] at hfound
      cases hfound
    simp only [ensures_ite, ensures_violateAt, ensures_pure, Context.after_of_ne_eof hne]
    refine ⟨fun _ ↦ trivial, fun hsame ↦ ⟨.literal ?_, trivial⟩⟩
    rwa [Decidable.not_not.1 hsame] at hfound
  next =>
    simp only [ensures_bind, ensures_ite, ensures_violateAt, ensures_resolve]
    refine ⟨fun _ ↦ trivial, fun hname ↦ ?_⟩
    have hkind : c.kindAt s.position = .identifier := Decidable.not_not.1 hname
    rw [Context.after_of_kindAt hkind (by decide)]
    split
    · trivial
    next symbol hfound =>
      simp only [ensures_bind, ensures_ite, ensures_violateAt, ensures_pure]
      refine ⟨fun _ ↦ trivial, fun htype ↦ ⟨fun _ ↦ ⟨?_, trivial⟩, fun _ ↦ trivial⟩⟩
      simp only [Bool.or_eq_true, Bool.not_eq_true', decide_eq_true_eq, not_or, Bool.not_eq_false,
        Decidable.not_not] at htype
      have hscalar : symbol.declared.isScalar := by rw [Symbol.isScalar_declared, htype.1]
      exact .name (hshows.nameAt hkind hfound) hscalar htype.2

/-- What the rounds over a row have read: nothing yet, or elements and a comma. -/
def ElementsSoFar (c : Context) (names : Names) (type : DataType) (s after : State) : Prop :=
  SameTables s after ∧ (after.position = s.position ∨
    ∃ j, ElementsAt c.text names type s.position j ∧ c.kindAt j = .comma ∧ after.position = j + 1)

theorem ElementsSoFar.element (h : ElementsSoFar c names type s after)
    (helement : ElementAt c.text names type after.position) :
    ElementsAt c.text names type s.position (after.position + 1) := by
  obtain ⟨-, hstart | ⟨j, helements, hcomma, hj⟩⟩ := h
  · exact hstart ▸ .first helement
  · rw [hj] at helement ⊢
    exact .next helements hcomma helement

theorem ensures_row_typed (hc : c.Closed) (hshows : c.Shows s names) (type : DataType) :
    Ensures (row type) c s (fun _ ↦ True) fun _ after ↦
      RowAt c.text names type s.position after.position ∧ SameTables s after := by
  have helements {t : State} (ht : c.Shows t names) : Ensures (rounds (fun count ↦ do
      element type
      if ← next? .comma then
        discard advance
        return .yield (count + 1)
      else
        return .done (count + 1)) 0) c t (fun _ ↦ True) fun _ after ↦
          ElementsAt c.text names type t.position after.position ∧ SameTables t after := by
    refine ensures_rounds (fun _ ↦ trivial) (I := fun _ after ↦ ElementsSoFar c names type t after)
      ⟨.refl t, .inl rfl⟩ ?_
    intro count after hafter
    simp only [ensures_bind, ensures_next?, ensures_ite, beq_iff_eq, ensures_discard, ensures_pure]
    refine (ensures_element_typed hc (ht.of_tables hafter.1) type).mono ?_
    rintro _ _ ⟨helement, rfl⟩
    have hread := hafter.element helement
    refine ⟨fun hcomma ↦ ensures_advance_of hcomma (by decide) ?_,
      fun _ ↦ ⟨hread, SameTables.movedTo.2 hafter.1⟩⟩
    exact ⟨by simpa using hafter.1, .inr ⟨after.position + 1, hread, hcomma, rfl⟩⟩
  simp only [row, ensures_bind, ensures_discard, ensures_next?, ensures_ite, ensures_pure]
  refine ensures_expectMark_of (by decide) fun hopen ↦ ⟨fun _ ↦ ?_, fun _ ↦ ?_⟩
  · exact ensures_expectMark_of (by decide) fun hclose ↦ ⟨.empty hopen hclose, by simp⟩
  · refine (helements (hshows.movedTo _)).mono ?_
    rintro _ after ⟨hread, hsame⟩
    refine ensures_expectMark_of (by decide) fun hclose ↦ ⟨.elements hopen hread hclose, ?_⟩
    simpa using hsame

theorem ensures_checkCount_typed (size : Dimension) (isConstant : Bool) (count : Nat) (place : Token)
    (tooMany : Nat → Nat → Violation) :
    Ensures (checkCount size isConstant count place tooMany) c s (fun _ ↦ True) fun _ after ↦
      after = s := by
  unfold checkCount
  split
  · simp
  · simp

theorem ensures_rows_typed (hc : c.Closed) (hshows : c.Shows s names) (type : DataType)
    (columns : Dimension) (isConstant : Bool) :
    Ensures (rows type columns isConstant) c s (fun _ ↦ True) fun _ after ↦ SameTables s after ∧
      ∃ m, RowsAt c.text names type s.position m ∧
        (m = after.position ∨ RowAt c.text names type m after.position) := by
  refine ensures_roundsWhile (fun _ ↦ trivial) (I := fun _ after ↦ SameTables s after ∧
    RowsAt c.text names type s.position after.position) ⟨.refl s, .none⟩ ?_
  rintro count after ⟨hsame, hrows⟩
  simp only [ensures_bind, ensures_peek, ensures_next?, ensures_ite, beq_iff_eq, ensures_discard,
    ensures_pure]
  refine ⟨fun _ ↦ ?_, fun _ ↦ ⟨hsame, _, hrows, .inl rfl⟩⟩
  refine (ensures_row_typed hc (hshows.of_tables hsame) type).mono ?_
  rintro length later ⟨hrow, hlater⟩
  refine (ensures_checkCount_typed ..).mono ?_
  rintro _ _ rfl
  have hthere := hsame.trans hlater
  refine ⟨fun hcomma ↦ ensures_advance_of hcomma (by decide) ?_, fun _ ↦ ⟨hthere, _, hrows, .inr hrow⟩⟩
  exact ⟨SameTables.movedTo.2 hthere, .next hrows hrow hcomma⟩

theorem ensures_arrayInitializer_typed (hc : c.Closed) (hshows : c.Shows s names) (type : DataType)
    (isConstant : Bool) (shape : Shape) :
    Ensures (arrayInitializer type isConstant shape) c s (fun _ ↦ True) fun _ after ↦
      ArrayAt c.text names type shape s.position after.position ∧ SameTables s after := by
  cases shape with
  | row size =>
    simp only [arrayInitializer, ensures_bind, ensures_peek]
    refine (ensures_row_typed hc hshows type).mono ?_
    rintro count after ⟨hrow, hsame⟩
    refine (ensures_checkCount_typed ..).mono ?_
    rintro _ _ rfl
    exact ⟨.row hrow, hsame⟩
  | table rowCount columns =>
    simp only [arrayInitializer, ensures_bind, ensures_discard]
    refine ensures_expectMark_of (by decide) fun hopen ↦ ?_
    refine (ensures_rows_typed hc (hshows.movedTo _) type columns isConstant).mono ?_
    rintro count after ⟨hsame, m, hrows, hlast⟩
    refine ensures_expectMark_of (by decide) fun hclose ↦ ?_
    refine (ensures_checkCount_typed ..).mono ?_
    rintro _ _ rfl
    exact ⟨.table hopen hrows hlast hclose, by simpa using hsame⟩

/-! ### Declarators -/

theorem ensures_declare_typed (hshows : c.Shows s names) (hproper : symbol.Proper) (place : Token) :
    Ensures (declare symbol place) c s (fun _ ↦ True) fun _ after ↦
      after.position = s.position ∧ c.Shows after (names.declaring [symbol]) := by
  simp only [declare, ensures_bind, ensures_read, ensures_insertSymbol, ensures_ite,
    ensures_violateAt, ensures_pure]
  exact ⟨fun arena harena ↦ ⟨fun _ ↦ ⟨trivial, hshows.declared hproper harena⟩, fun _ ↦ trivial⟩,
    fun _ ↦ ⟨fun h ↦ absurd h Bool.false_ne_true, fun _ ↦ trivial⟩⟩

/-- A declarator is of the given form and adds its symbol. -/
def DeclaresOne (one : Check Unit) (c : Context) (form : Names → Nat → Nat → Symbol → Prop) : Prop :=
  ∀ {s : State} {names : Names}, c.Shows s names → Ensures one c s (fun _ ↦ True) fun _ after ↦
    ∃ symbol, form names s.position after.position symbol ∧ c.Shows after (names.declaring [symbol])

theorem Names.declaring_withValue (names : Names) (symbol : Symbol) (initialized : Bool) :
    names.declaring [{ symbol with initialized := initialized }] = names.declaring [symbol] :=
  declaring_congr (by rfl) names

theorem declaresOne_declarator (hc : c.Closed) (levels : Nat) (htype : type ≠ .void)
    (isConstant : Bool) :
    DeclaresOne (declarator levels type isConstant) c fun names ↦
      DeclaratorAt c.text names type isConstant := by
  intro s names hshows
  simp only [declarator, ensures_bind, ensures_declaredHere, ensures_ite, ensures_violateAt,
    ensures_next?, beq_iff_eq]
  refine ensures_expect_of (by decide) fun hname ↦ ⟨fun _ ↦ trivial, fun _ ↦ ?_⟩
  have hnext := hshows.movedTo (s.position + 1)
  have hbare : (bareSymbol type isConstant (c.tokenAt s.position)).Proper :=
    .bareSymbol htype isConstant _
  refine ⟨fun hopen ↦ ?_, fun _ ↦ ⟨fun hassign ↦ ?_, fun _ ↦ ⟨fun _ ↦ trivial, fun hvariable ↦ ?_⟩⟩⟩
  -- Both forms of an array are declared in the same way, with a value or without one.
  · have harray : ∀ {later : State} {shape : Shape} {initialized : Bool}, c.Shows later names →
        DeclaratorAt c.text names type isConstant s.position later.position
          { bareSymbol type isConstant (c.tokenAt s.position) with
            array := some shape.dimensions } →
        Ensures (declare { bareSymbol type isConstant (c.tokenAt s.position) with
          array := some shape.dimensions, initialized := initialized } (c.tokenAt s.position)) c later
            (fun _ ↦ True) fun _ after ↦ ∃ symbol, DeclaratorAt c.text names type isConstant s.position
              after.position symbol ∧ c.Shows after (names.declaring [symbol]) := by
      intro later shape initialized hlater hdeclarator
      have hproper : Symbol.Proper { bareSymbol type isConstant (c.tokenAt s.position) with
          array := some shape.dimensions, initialized := initialized } :=
        ⟨hbare.type, hbare.members⟩
      refine (ensures_declare_typed hlater hproper _).mono ?_
      rintro _ after ⟨hposition, hafter⟩
      refine ⟨_, hposition ▸ hdeclarator, ?_⟩
      rwa [← Names.declaring_withValue names _ initialized]
    simp only [arrayDeclarator, ensures_bind, ensures_next?, ensures_ite, beq_iff_eq, ensures_discard,
      ensures_violateAt, ensures_pure]
    refine (ensures_arrayShape_typed hc hnext hopen _).mono ?_
    rintro shape later ⟨hshape, hsame⟩
    have hlater := hnext.of_tables hsame
    refine ⟨fun hassign ↦ ensures_advance_of hassign (by decide) ?_, fun _ ↦ ⟨fun _ ↦ trivial, fun hvariable ↦ ?_⟩⟩
    · refine (ensures_arrayInitializer_typed hc (hlater.movedTo _) type isConstant shape).mono ?_
      rintro _ last ⟨hinitializer, hsame⟩
      exact harray ((hlater.movedTo _).of_tables hsame) (.arrayGiven hname hshape hassign hinitializer)
    · exact harray hlater (.array hname hshape (by simpa using hvariable))
  · refine ensures_advance_of hassign (by decide) ?_
    have hgiven : Ensures (initializer levels type (c.tokenAt (s.position + 1))) c
        (s.movedTo (s.position + 2)) (fun _ ↦ True) fun _ later ↦
          Given c.text names type (s.position + 2) later.position ∧
            SameTables (s.movedTo (s.position + 2)) later := by
      simp only [initializer, ensures_bind, ensures_next?, ensures_ite, beq_iff_eq]
      refine ⟨fun hinput ↦ ensures_inputValue_typed names hinput type, fun _ ↦ ?_⟩
      refine (ensures_valueOfType_typed hc (hshows.movedTo _) (by simp [Kind.isPlain]) type _).mono
        fun _ _ h ↦ h.mono ?_
      rintro _ later hvalue
      exact ⟨.value hvalue.typed, hvalue.tables⟩
    refine hgiven.mono ?_
    rintro _ later ⟨hgiven, hsame⟩
    have hlater := (hshows.movedTo (s.position + 2)).of_tables hsame
    have hproper : (bareSymbol type isConstant (c.tokenAt s.position)).withValue.Proper :=
      ⟨hbare.type, hbare.members⟩
    refine (ensures_declare_typed hlater hproper _).mono ?_
    rintro _ after ⟨hposition, hafter⟩
    refine ⟨bareSymbol type isConstant (c.tokenAt s.position),
      hposition ▸ .given hname hassign hgiven, ?_⟩
    rwa [← Names.declaring_withValue names _ true]
  · refine (ensures_declare_typed hnext hbare _).mono ?_
    rintro _ after ⟨hposition, hafter⟩
    exact ⟨_, hposition ▸ .bare hname (by simpa using hvariable), hafter⟩

theorem ensures_another_typed :
    Ensures another c s (fun _ ↦ True) fun more after ↦ after = s.movedTo (s.position + 1) ∧
      c.kindAt s.position = if more then .comma else .semicolon := by
  simp only [another, ensures_bind, ensures_next?, ensures_ite, beq_iff_eq, ensures_discard,
    ensures_pure]
  exact ⟨fun hcomma ↦ ensures_advance_of hcomma (by decide) ⟨rfl, hcomma⟩,
    fun _ ↦ ensures_expect_of (by decide) fun hsemicolon ↦ ⟨rfl, hsemicolon⟩⟩

/-- What the rounds over declarators have read: nothing yet, or declarators and a comma. -/
def DeclaratorsSoFar (c : Context) (form : Names → Nat → Nat → Symbol → Prop) (names : Names)
    (s after : State) : Prop :=
  after = s ∨ ∃ j names', Declarators c.text form names s.position j names' ∧ c.kindAt j = .comma ∧
    after.position = j + 1 ∧ c.Shows after names'

/-- Declarators with the semicolon behind them. -/
theorem ensures_declarators_typed {one : Check Unit} {form : Names → Nat → Nat → Symbol → Prop}
    (hone : DeclaresOne one c form) (hshows : c.Shows s names) :
    Ensures (declarators one) c s (fun _ ↦ True) fun _ after ↦
      ∃ j names', Declarators c.text form names s.position j names' ∧ c.kindAt j = .semicolon ∧
        after.position = j + 1 ∧ c.Shows after names' := by
  refine ensures_rounds (fun _ ↦ trivial) (I := fun _ after ↦ DeclaratorsSoFar c form names s after)
    (.inl rfl) ?_
  intro _ after hafter
  have hround : Ensures one c after (fun _ ↦ True) fun _ later ↦ ∃ names', c.Shows later names' ∧
      Declarators c.text form names s.position later.position names' := by
    obtain rfl | ⟨j, names', hread, hcomma, hj, hafter⟩ := hafter
    · refine (hone hshows).mono ?_
      rintro _ later ⟨symbol, hform, hlater⟩
      exact ⟨_, hlater, .first hform⟩
    · refine (hone hafter).mono ?_
      rintro _ later ⟨symbol, hform, hlater⟩
      exact ⟨_, hlater, .next hread hcomma (hj ▸ hform)⟩
  simp only [ensures_bind]
  refine hround.mono ?_
  rintro _ later ⟨names', hlater, hread⟩
  refine ensures_another_typed.mono ?_
  rintro more _ ⟨rfl, hmark⟩
  cases more with
  | true => exact .inr ⟨_, names', hread, hmark, rfl, hlater.movedTo _⟩
  | false => exact ⟨_, names', hread, hmark, rfl, hlater.movedTo _⟩

theorem ensures_typeWord_typed (hc : c.Closed) (wanted : Wanted) :
    Ensures (typeWord wanted) c s (fun _ ↦ True) fun type after ↦
      c.text.TypeWordAt s.position type ∧ after = s.movedTo (s.position + 1) := by
  simp only [typeWord, primitiveType?, ensures_bind, ensures_advance, hc.kind_tokenAt]
  split
  next type htype =>
    obtain ⟨hword, -⟩ := Option.filter_eq_some_iff.1 htype
    have hne := (Kind.isOrdinary_iff.1 (isOrdinary_of_typeWord hword)).2.2.1
    exact ⟨htype, by rw [Context.after_of_ne_eof hne]⟩
  next => trivial

/-- A part of a body from one state to another, with the names at both. -/
structure Context.Flows (c : Context) (part : BodyPart) (names : Names) (s : State) (names' : Names)
    (after : State) : Prop where
  typed : WellTyped c.text c.function part names s.position after.position names'
  shows : c.Shows after names'

/-- A check of a statement that is well typed. -/
def TypesStatement {α : Type} (x : Check α) (c : Context) (s : State) (names : Names) : Prop :=
  Ensures x c s (fun _ ↦ True) fun _ after ↦ ∃ names', c.Flows .statement names s names' after

theorem typesStatement_variableDeclaration (hc : c.Closed) (hshows : c.Shows s names)
    (levels : Nat) : TypesStatement (variableDeclaration levels) c s names := by
  unfold TypesStatement
  rw [variableDeclaration, ensures_bind]
  refine (ensures_typeWord_typed hc _).mono ?_
  rintro type _ ⟨hword, rfl⟩
  refine (ensures_declarators_typed (declaresOne_declarator hc levels hword.ne_void false)
    (hshows.movedTo _)).mono ?_
  rintro _ after ⟨j, names', hread, hsemicolon, hj, hafter⟩
  exact ⟨names', hj ▸ .variables hword hread hsemicolon, hafter⟩

theorem typesStatement_constantDeclaration (hc : c.Closed) (hshows : c.Shows s names)
    (hk : c.kindAt s.position = .constWord) (levels : Nat) :
    TypesStatement (constantDeclaration levels) c s names := by
  unfold TypesStatement
  simp only [constantDeclaration, ensures_bind, ensures_discard]
  refine ensures_advance_of hk (by decide) ?_
  refine (ensures_typeWord_typed hc _).mono ?_
  rintro type _ ⟨hword, rfl⟩
  refine (ensures_declarators_typed (declaresOne_declarator hc levels hword.ne_void true)
    (hshows.movedTo _)).mono ?_
  rintro _ after ⟨j, names', hread, hsemicolon, hj, hafter⟩
  exact ⟨names', hj ▸ .constants hk hword hread hsemicolon, hafter⟩

theorem typesStatement_instanceDeclaration (hshows : c.Shows s names)
    (hk : c.kindAt s.position = .instanceWord) : TypesStatement instanceDeclaration c s names := by
  unfold TypesStatement
  simp only [instanceDeclaration, ensures_bind, ensures_discard, ensures_resolve]
  refine ensures_advance_of hk (by decide) (ensures_expect_of (by decide) fun hname ↦ ?_)
  split
  next members hstruct =>
    obtain ⟨struct, hfound, hmembers⟩ := Option.map_eq_some_iff.1 hstruct
    have hone : DeclaresOne (do
        let name ← expect .identifier .name
        declare (.ofInstance name.lexeme (c.tokenAt (s.position + 1)).lexeme name.position) name) c
          fun _ ↦ InstanceAt c.text (c.tokenAt (s.position + 1)).lexeme := by
      intro t names ht
      rw [ensures_bind]
      refine ensures_expect_of (by decide) fun hkind ↦ ?_
      refine (ensures_declare_typed (ht.movedTo _) (.ofInstance _ _ _) _).mono ?_
      rintro _ after ⟨hposition, hafter⟩
      exact ⟨_, ⟨hkind, hposition, rfl⟩, hafter⟩
    refine (ensures_declarators_typed hone (hshows.movedTo _)).mono ?_
    rintro _ after ⟨j, names', hread, hsemicolon, hj, hafter⟩
    have hstructKind : struct.declared.kind = .struct members := by
      rw [Symbol.kind_declared, hmembers]
      rfl
    exact ⟨names', hj ▸ .instances hk (hshows.nameAt hname hfound) hstructKind hread hsemicolon, hafter⟩
  · trivial

end

end FrontEnd
