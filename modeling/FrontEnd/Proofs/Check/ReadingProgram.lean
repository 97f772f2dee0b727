import FrontEnd.Proofs.Check.ReadingStatement

/-!
# The walk over the program that the grammar derives

Every rule of the table respects the reading of the categories where it applies
(`placed_stands`), so a guided derivation of a program is a row of pieces that the walk leads over
(`topRow_of_guided`).
-/

namespace FrontEnd

open Check Grammar Nonterminal

section

variable {kind : Nat → Kind} {r : Rule} {i j m n : Nat}

/-! ### Structs -/

theorem walked_structMember (hr : r ∈ rules structMember)
    (hrow : RowAt kind (Stands kind) r.body i j) : Walked kind structMember i j := by
  obtain ⟨t, -, rfl⟩ := List.mem_map.1 hr
  obtain ⟨hword, hname, rfl⟩ := hrow
  exact ⟨hword ▸ isTypeWord_word t, hname, rfl⟩

theorem walked_structBody (hr : r ∈ rules structBody)
    (hrow : RowAt kind (Stands kind) r.body i j) : Walked kind structBody i j := by
  obtain rfl := List.mem_singleton.1 hr
  obtain ⟨m, hmember, hend, n, hmore, rfl⟩ := hrow
  obtain rfl := hmember.walked.eq
  exact .head ⟨hmember.walked, hend, rfl⟩ hmore.walked

theorem walked_moreMembers (hr : r ∈ rules moreMembers)
    (hrow : RowAt kind (Stands kind) r.body i j) : Walked kind moreMembers i j := by
  simp only [rules, List.mem_cons, List.not_mem_nil, or_false] at hr
  obtain rfl | rfl := hr
  · obtain ⟨m, hbody, rfl⟩ := hrow
    exact hbody.walked
  · obtain rfl : i = j := hrow
    exact .refl

theorem walked_structDeclaration (hr : r ∈ rules structDeclaration)
    (hrow : RowAt kind (Stands kind) r.body i j) : Walked kind structDeclaration i j := by
  obtain rfl := List.mem_singleton.1 hr
  obtain ⟨hword, hname, hopen, m, hbody, hclose, hend, rfl⟩ := hrow
  exact ⟨hword, hname, hopen, m, hbody.walked, hclose, hend, rfl⟩

/-! ### Functions -/

theorem walked_dataType (hr : r ∈ rules dataType)
    (hrow : RowAt kind (Stands kind) r.body i j) : Walked kind dataType i j := by
  obtain ⟨hk, rfl⟩ := isToken_of_eachItself hr hrow
  refine ⟨?_, rfl⟩
  obtain ⟨t, -, ht⟩ := List.mem_map.1 (show kind i ∈ Primitive.all.map Primitive.word from hk)
  exact ht ▸ isTypeWord_word t

theorem walked_returnType (hr : r ∈ rules returnType)
    (hrow : RowAt kind (Stands kind) r.body i j) : Walked kind returnType i j := by
  simp only [rules, List.mem_cons, List.not_mem_nil, or_false] at hr
  obtain rfl | rfl := hr
  · obtain ⟨hk, rfl⟩ := hrow
    exact ⟨by rw [hk]; rfl, rfl⟩
  · obtain ⟨m, hword, rfl⟩ := hrow
    obtain ⟨⟨type, htype, -⟩, rfl⟩ := hword.walked
    exact ⟨by rw [htype]; rfl, rfl⟩

theorem walked_parameters (hr : r ∈ rules parameters)
    (hrow : RowAt kind (Stands kind) r.body i j) : Walked kind parameters i j := by
  simp only [rules, List.mem_cons, List.not_mem_nil, or_false] at hr
  obtain rfl | rfl := hr
  · obtain ⟨m, hword, hname, n, hmore, rfl⟩ := hrow
    obtain ⟨htype, rfl⟩ := hword.walked
    have hfirst : IsTypedName kind i (i + 2) := ⟨htype, hname, rfl⟩
    obtain rfl | ⟨hcomma, rfl | hrest⟩ := hmore.walked
    · exact .inr (.one hfirst)
    · exact .inr (.trailing hfirst hcomma)
    · exact .inr (.more hfirst hcomma hrest)
  · exact .inl hrow

theorem walked_moreParameters (hr : r ∈ rules moreParameters)
    (hrow : RowAt kind (Stands kind) r.body i j) : Walked kind moreParameters i j := by
  simp only [rules, List.mem_cons, List.not_mem_nil, or_false] at hr
  obtain rfl | rfl := hr
  · obtain ⟨hcomma, m, hparameters, rfl⟩ := hrow
    exact .inr ⟨hcomma, hparameters.walked⟩
  · exact .inl hrow

theorem walked_functions (hr : r ∈ rules functions)
    (hrow : RowAt kind (Stands kind) r.body i j) : Walked kind functions i j := by
  intro hafter
  simp only [rules, List.mem_cons, List.not_mem_nil, or_false] at hr
  obtain rfl | rfl := hr
  · obtain ⟨hword, _, hreturns, hname, hopen, m, hparameters, hclose, hbrace, n, hlocals, p,
      hstatements, hend, q, hrest, rfl⟩ := hrow
    obtain ⟨htype, rfl⟩ := hreturns.walked
    have hheader : IsFunctionHeader kind i (m + 1) :=
      ⟨hword, htype, hname, hopen, m, hparameters.walked, hclose, rfl⟩
    have hbody : IsFunctionBody kind (m + 1) p :=
      ⟨hbrace, hlocals.walked.trans hstatements.walked,
        (hlocals.onBalanced rfl).trans (hstatements.onBalanced rfl), hend⟩
    exact .function hheader hbody (hrest.walked hafter)
  · obtain rfl : i = j := hrow
    exact hafter

/-! ### The top of a program -/

/-- A declaration and its semicolon in front of a row. -/
theorem topRow_of_declaration (h : IsStatement kind i (j + 1)) (hbalanced : Balanced kind i j)
    (hend : kind j = .semicolon) (hrest : TopRow kind (j + 1)) : TopRow kind i :=
  .statement h (hbalanced.trans (.one (by rw [hend]; rfl))) (Nat.lt_succ_of_le hbalanced.le) hrest

theorem walked_globalDeclarations (hr : r ∈ rules globalDeclarations)
    (hrow : RowAt kind (Stands kind) r.body i j) : Walked kind globalDeclarations i j := by
  intro hafter
  simp only [rules, List.mem_cons, List.not_mem_nil, or_false] at hr
  obtain rfl | rfl | rfl | rfl | rfl := hr
  · obtain ⟨m, hstruct, n, hrest, rfl⟩ := hrow
    exact .struct hstruct.walked (hrest.walked hafter)
  · obtain ⟨m, hvariables, hend, n, hrest, rfl⟩ := hrow
    exact topRow_of_declaration (hvariables.walked hend) (hvariables.onBalanced rfl) hend
      (hrest.walked hafter)
  · obtain ⟨m, hconstants, hend, n, hrest, rfl⟩ := hrow
    exact topRow_of_declaration (hconstants.walked hend) (hconstants.onBalanced rfl) hend
      (hrest.walked hafter)
  · obtain ⟨hword, hstruct, hname, m, hmore, hend, n, hrest, rfl⟩ := hrow
    have hbalanced : Balanced kind i m := .ordinary (by rw [hword]; rfl) <|
      .ordinary (by rw [hstruct]; rfl) <| .ordinary (by rw [hname]; rfl) (hmore.onBalanced rfl)
    exact topRow_of_declaration (isStatement_of_instances hword hstruct hname hmore.walked hend)
      hbalanced hend (hrest.walked hafter)
  · obtain rfl : i = j := hrow
    exact hafter

theorem walked_program (hr : r ∈ rules program) (hrow : RowAt kind (Stands kind) r.body i j) :
    Walked kind program i j := by
  intro heof
  obtain rfl := List.mem_singleton.1 hr
  obtain ⟨m, hglobal, n, hfunctions, hmain, hopen, hclose, hbrace, p, hdeclarations, q, hstatements,
    hword, hend, hshut, rfl⟩ := hrow
  have hlast : IsStatement kind q (q + 2) :=
    .of_kind hword rfl (by decide) (fun _ _ ht ↦ by simp only [ordinaryStatement, ht])
      fun _ ↦ leads_endStatement hword hend
  have hbody : IsFunctionBody kind (n + 3) (q + 2) :=
    ⟨hbrace, (hdeclarations.walked.trans hstatements.walked).tail hlast,
      (hdeclarations.onBalanced rfl).trans <| (hstatements.onBalanced rfl).trans <|
        .ordinary (by rw [hword]; rfl) (.one (by rw [hend]; rfl)), hshut⟩
  exact hglobal.walked <| hfunctions.walked <|
    .entryPoint ⟨hmain, hopen, hclose, rfl⟩ hbody (.ended heof)

/-! ### Every category -/

/-- Every rule respects what the categories are to the walk. -/
theorem walked_of_rule (A : Nonterminal) (hr : r ∈ rules A) (hlook : kind i ∈ r.lookaheads)
    (hrow : RowAt kind (Stands kind) r.body i j) : Walked kind A i j := by
  -- One case for each category.  Where each row is a single token, or the one row is another category, there
  -- is no lemma of its own.
  cases A with
  | program => exact walked_program hr hrow
  | globalDeclarations => exact walked_globalDeclarations hr hrow
  | declarations => exact walked_declarations hr hrow
  | typedVariables => exact walked_typedVariables hr hrow
  | value => exact walked_value hr hlook hrow
  | moreValues => exact walked_moreValues hr hrow
  | boolValue => exact walked_of_one rfl hr hrow id
  | charValue => exact walked_charValue hr hrow
  | stringValue => exact walked_stringValue hr hrow
  | intArithmetic => exact walked_intArithmetic hr hrow
  | intOperand => exact walked_intOperand hr hrow
  | intLiteral => exact isToken_of_eachItself hr hrow
  | doubleLiteral => exact isToken_of_eachItself hr hrow
  | moreIntArithmetic => exact walked_moreIntArithmetic hr hlook hrow
  | countedName => exact walked_countedName hr hrow
  | countedNameTail => exact walked_countedNameTail hr hlook hrow
  | countSign => exact isToken_of_eachItself hr hrow
  | arithmeticOperator => exact isToken_of_eachItself hr hrow
  | logicalOperator => exact isToken_of_eachItself hr hrow
  | relationalOperator => exact isToken_of_eachItself hr hrow
  | nameUse => exact walked_nameUse hr hrow
  | nameUseTail => exact walked_nameUseTail hr hrow
  | place => exact walked_place hr hrow
  | placeTail => exact walked_placeTail hr hrow
  | arrayAccess => exact walked_arrayAccess hr hrow
  | index => exact walked_of_one rfl hr hrow id
  | secondIndex => exact walked_secondIndex hr hlook hrow
  | memberAccess => exact walked_memberAccess hr hrow
  | call => exact walked_call hr hrow
  | arguments => exact walked_arguments hr hrow
  | argument => exact walked_of_one rfl hr hrow id
  | moreArguments => exact walked_moreArguments hr hrow
  | expression => exact walked_of_one rfl hr hrow id
  | operandChain => exact walked_operandChain hr hrow
  | operand => exact walked_operand hr hrow
  | operandTail => exact walked_operandTail hr hlook hrow
  | doubleArithmetic => exact walked_doubleArithmetic hr hrow
  | numericOperand => exact walked_numericOperand hr hrow
  | moreDoubleArithmetic => exact walked_moreDoubleArithmetic hr hlook hrow
  | concatenation => exact walked_concatenation hr hrow
  | concatenated => exact walked_concatenated hr hrow
  | moreConcatenation => exact walked_moreConcatenation hr hlook hrow
  | arraySize => exact isToken_of_eachItself hr hrow
  | arrayDeclaration => exact walked_arrayDeclaration hr hrow
  | arrayInitializer => exact walked_arrayInitializer hr hlook hrow
  | elements => exact walked_elements hr hrow
  | element => exact walked_element hr hrow
  | moreElements => exact walked_moreElements hr hrow
  | rowsInitializer => exact walked_rowsInitializer hr hlook hrow
  | rows => exact walked_rows hr hrow
  | moreRows => exact walked_moreRows hr hrow
  | constants => exact walked_constants hr hrow
  | typedConstants => exact walked_typedConstants hr hrow
  | constantSize => exact walked_of_one rfl hr hrow id
  | constantInitializer => exact walked_constantInitializer hr hrow
  | constantValue => exact walked_constantValue hr hrow
  | moreConstants => exact walked_moreConstants hr hrow
  | constantArray => exact walked_constantArray hr hrow
  | constantArrayInitializer => exact walked_constantArrayInitializer hr hrow
  | moreInstances => exact walked_moreInstances hr hrow
  | structDeclaration => exact walked_structDeclaration hr hrow
  | structBody => exact walked_structBody hr hrow
  | structMember => exact walked_structMember hr hrow
  | moreMembers => exact walked_moreMembers hr hrow
  | functions => exact walked_functions hr hrow
  | returnType => exact walked_returnType hr hrow
  | dataType => exact walked_dataType hr hrow
  | parameters => exact walked_parameters hr hrow
  | moreParameters => exact walked_moreParameters hr hrow
  | localVariables => exact walked_localVariables hr hrow
  | statements => exact walked_statements hr hrow
  | nameStatement => exact walked_nameStatement hr hrow
  | nameStatementTail => exact walked_nameStatementTail hr hlook hrow
  | assignment => exact walked_assignment hr hrow
  | assignOperator => exact isToken_of_eachItself hr hrow
  | assignedValue => exact walked_assignedValue hr hrow
  | assignedValueOrInput => exact walked_assignedValueOrInput hr hrow
  | inputCall => exact walked_inputCall hr hrow
  | countStatement => exact walked_countStatement hr hrow
  | output => exact walked_output hr hrow
  | outputValue => exact walked_of_one rfl hr hrow id
  | moreOutput => exact walked_moreOutput hr hrow
  | conditional => exact walked_conditional hr hrow
  | condition => exact walked_of_one rfl hr hrow id
  | elseIfBlocks => exact walked_elseIfBlocks hr hlook hrow
  | elseBlock => exact walked_elseBlock hr hlook hrow
  | switchBody => exact walked_switchBody hr hrow
  | cases => exact walked_cases hr hrow
  | caseLabel => exact walked_caseLabel hr hrow
  | moreCases => exact walked_moreCases hr hrow
  | defaultCase => exact walked_defaultCase hr hrow
  | forLoop => exact walked_forLoop hr hrow
  | forStart => exact walked_forStart hr hrow
  | forCondition => exact walked_of_one rfl hr hrow id
  | forStep => exact walked_forStep hr hrow
  | forStepTail => exact walked_forStepTail hr hrow
  | forStepBefore => exact walked_forStepBefore hr hrow
  | forStepValue => exact walked_forStepValue hr hrow
  | doLoop => exact walked_doLoop hr hrow
  | whileLoop => exact walked_whileLoop hr hrow
  | returnStatement => exact walked_returnStatement hr hrow
  | returnValue => exact walked_returnValue hr hrow
  | jump => exact walked_jump hr hrow

theorem placed_stands : Placed kind (Stands kind) := by
  intro A r hr i j hlook hrow
  refine ⟨⟨r, hr, hlook⟩, ?_, ?_, walked_of_rule A hr hlook hrow⟩
  · exact placed_onPhrases A r hr i j hlook (hrow.mono fun _ _ _ h ↦ h.onPhrases)
  · exact placed_onBalanced A r hr i j hlook (hrow.mono fun _ _ _ h ↦ h.onBalanced)

/-- What is spelled by a word with a guided derivation is a row of pieces. -/
theorem topRow_of_guided {u : List Kind} {rs : List Rewrite} (hspells : Grammar.Spells kind 0 u)
    (h : Guided [.nonterminal program] u [] rs) : TopRow kind 0 := by
  obtain ⟨j, hrow, hend⟩ := h.rowAt placed_stands hspells
  exact (rowAt_one.1 hrow).walked hend.kind_eq

end

end FrontEnd
