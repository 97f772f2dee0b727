import FrontEnd.Proofs.Check.ReadingDeclaration

/-!
# The walk over the statements that the grammar derives

The statements inside the braces of a conditional may be followed by further branches before the
closing brace.  The walk stops at the first of them, for what it means there, so that a stray branch
is the last statement of its block (`statements_of_branches`).
-/

namespace FrontEnd

open Check Grammar Nonterminal

section

variable {kind : Nat → Kind} {r : Rule} {i j m n l : Nat}

/-! ### Assignments and calls -/

theorem walked_assignedValue (hr : r ∈ rules assignedValue)
    (hrow : RowAt kind (Stands kind) r.body i j) : Walked kind assignedValue i j := by
  obtain rfl := List.mem_singleton.1 hr
  obtain ⟨m, hvalue, hend, rfl⟩ := hrow
  exact ⟨m, ⟨hvalue.onPhrases rfl, hvalue.walked⟩, hend, rfl⟩

theorem walked_inputCall (hr : r ∈ rules inputCall)
    (hrow : RowAt kind (Stands kind) r.body i j) : Walked kind inputCall i j := by
  obtain rfl := List.mem_singleton.1 hr
  obtain ⟨hword, hopen, hprompt, hclose, hend, rfl⟩ := hrow
  exact ⟨hword, hopen, hprompt, hclose, hend, rfl⟩

theorem walked_assignedValueOrInput (hr : r ∈ rules assignedValueOrInput)
    (hrow : RowAt kind (Stands kind) r.body i j) : Walked kind assignedValueOrInput i j := by
  rintro n rfl hassign
  simp only [rules, List.mem_cons, List.not_mem_nil, or_false] at hr
  obtain rfl | rfl := hr
  · obtain ⟨m, hassigned, rfl⟩ := hrow
    have hinput : kind (n + 1) ≠ .inputWord := hassigned.ne_of_not_mem (by decide)
    obtain ⟨l, hvalue, hend, rfl⟩ := hassigned.walked
    exact ⟨l, .of_isValue hassign hvalue hinput (by simp) (by rw [hend]; rfl), hend, rfl⟩
  · obtain ⟨m, hinput, rfl⟩ := hrow
    obtain ⟨hword, hopen, hprompt, hclose, hend, rfl⟩ := hinput.walked
    exact ⟨n + 5, .of_input hassign hword hopen hprompt hclose, hend, rfl⟩

theorem isSome_ofCompound?_of_mem {k : Kind} (h : k ∈ compoundSigns) :
    (Operator.ofCompound? k).isSome := by
  revert k
  decide

theorem walked_assignment (hr : r ∈ rules assignment)
    (hrow : RowAt kind (Stands kind) r.body i j) : Walked kind assignment i j := by
  simp only [rules, List.mem_cons, List.not_mem_nil, or_false] at hr
  obtain rfl | rfl := hr
  · obtain ⟨hassign, m, hvalue, rfl⟩ := hrow
    exact hvalue.walked i rfl hassign
  · obtain ⟨m, hoperator, n, hassigned, rfl⟩ := hrow
    obtain ⟨hk, rfl⟩ := hoperator.walked
    obtain ⟨l, hvalue, hend, rfl⟩ := hassigned.walked
    have hcompound := isSome_ofCompound?_of_mem hk
    exact ⟨l, .of_compound hcompound hvalue (by simp) (by rw [hend]; rfl), hend, rfl⟩

/-- A target and an assignment to it. -/
theorem isStatement_of_assignment (hname : kind i = .identifier)
    (htail : IsPlaceTail kind (i + 1) m) (hparen : kind (i + 1) ≠ .leftParen)
    (hassignment : IsAssignment kind [] m j) (hend : kind j = .semicolon) :
    IsStatement kind i (j + 1) :=
  .of_kind hname rfl (by decide) (fun _ _ ht ↦ by simp only [ordinaryStatement, ht])
    (leads_nameStatement_of_assignment hparen (htail.leads_target hname) hassignment hend)

theorem walked_nameStatementTail (hr : r ∈ rules nameStatementTail)
    (hlook : kind i ∈ r.lookaheads) (hrow : RowAt kind (Stands kind) r.body i j) :
    Walked kind nameStatementTail i j := by
  rintro n rfl hname
  simp only [rules, List.mem_cons, List.not_mem_nil, or_false] at hr
  obtain rfl | rfl | rfl | rfl := hr
  · obtain ⟨m, hcall, hend, rfl⟩ := hrow
    obtain ⟨l, harguments, rfl⟩ := hcall.walked
    exact .of_kind hname rfl (by decide) (fun _ _ ht ↦ by simp only [ordinaryStatement, ht])
      (leads_nameStatement_of_call (harguments.isCall hname) hend)
  · obtain ⟨m, hplace, p, hassigned, rfl⟩ := hrow
    obtain ⟨l, hassignment, hend, rfl⟩ := hassigned.walked
    have hnext : (kind m).extendsName = false := by
      obtain ⟨r, hr, hlook⟩ := hassigned.begins
      revert r
      cases kind m <;> decide
    refine isStatement_of_assignment hname (hplace.walked hnext) (fun hk ↦ ?_) hassignment hend
    rw [hk] at hlook
    exact absurd hlook (by decide)
  · obtain ⟨m, hassigned, rfl⟩ := hrow
    obtain ⟨l, hassignment, hend, rfl⟩ := hassigned.walked
    have hnext : (kind (n + 1)).extendsName = false ∧ kind (n + 1) ≠ .leftParen := by
      revert hlook
      cases kind (n + 1) <;> decide
    exact isStatement_of_assignment hname (.whole hnext.1 rfl) hnext.2 hassignment hend
  · obtain ⟨m, hsign, hend, rfl⟩ := hrow
    obtain ⟨hk, rfl⟩ := hsign.walked
    have hsign : kind (n + 1) = .increment ∨ kind (n + 1) = .decrement := by
      simpa [countSigns] using hk
    have hparen : kind (n + 1) ≠ .leftParen := by rcases hsign with hk | hk <;> simp [hk]
    have htarget (levels : Nat) : Leads kind (target (operand levels)) n (n + 1) := by
      refine leads_target_of_name hname ?_ ?_ levels
      · rcases hsign with hk | hk <;> simp [hk]
      · rcases hsign with hk | hk <;> simp [hk]
    exact .of_kind hname rfl (by decide) (fun _ _ ht ↦ by simp only [ordinaryStatement, ht])
      (leads_nameStatement_of_assignment hparen htarget (.of_countSign hsign) hend)

theorem walked_nameStatement (hr : r ∈ rules nameStatement)
    (hrow : RowAt kind (Stands kind) r.body i j) : Walked kind nameStatement i j := by
  obtain rfl := List.mem_singleton.1 hr
  obtain ⟨hname, m, htail, rfl⟩ := hrow
  exact htail.walked i rfl hname

theorem walked_countStatement (hr : r ∈ rules countStatement)
    (hrow : RowAt kind (Stands kind) r.body i j) : Walked kind countStatement i j := by
  obtain rfl := List.mem_singleton.1 hr
  obtain ⟨m, hsign, hname, hend, rfl⟩ := hrow
  obtain ⟨hk, rfl⟩ := hsign.walked
  have hsign : kind i = .increment ∨ kind i = .decrement := by simpa [countSigns] using hk
  have hleads := leads_countStatement (by rcases hsign with hk | hk <;> simp [hk]) hname hend
  rcases hsign with hk | hk
  · exact .of_kind hk rfl (by decide) (fun _ _ ht ↦ by simp only [ordinaryStatement, ht]) hleads
  · exact .of_kind hk rfl (by decide) (fun _ _ ht ↦ by simp only [ordinaryStatement, ht]) hleads

theorem walked_output (hr : r ∈ rules output) (hrow : RowAt kind (Stands kind) r.body i j) :
    Walked kind output i j := by
  obtain rfl := List.mem_singleton.1 hr
  obtain ⟨hword, hopen, m, hfirst, n, hmore, hclose, hend, rfl⟩ := hrow
  have hvalue : IsValue kind (i + 2) m := ⟨hfirst.onPhrases rfl, hfirst.walked⟩
  have harguments : IsArguments kind (i + 1) n :=
    ⟨hopen, hvalue.phrase.withCommas.trans (hmore.onPhrases rfl),
      .inr (.cons hvalue (hmore.walked hclose)), hclose⟩
  exact .of_kind hword rfl (by decide) (fun _ _ ht ↦ by simp only [ordinaryStatement, ht])
    (leads_printStatement hword harguments hend)

theorem walked_returnValue (hr : r ∈ rules returnValue)
    (hrow : RowAt kind (Stands kind) r.body i j) : Walked kind returnValue i j := by
  simp only [rules, List.mem_cons, List.not_mem_nil, or_false] at hr
  obtain rfl | rfl := hr
  · obtain ⟨m, hvalue, rfl⟩ := hrow
    exact .inr ⟨hvalue.onPhrases rfl, hvalue.walked⟩
  · exact .inl hrow

theorem walked_returnStatement (hr : r ∈ rules returnStatement)
    (hrow : RowAt kind (Stands kind) r.body i j) : Walked kind returnStatement i j := by
  obtain rfl := List.mem_singleton.1 hr
  obtain ⟨hword, m, hvalue, hend, rfl⟩ := hrow
  exact .of_kind hword rfl (by decide) (fun _ _ ht ↦ by simp only [ordinaryStatement, ht])
    (leads_returnStatement hword ⟨hvalue.walked, hend⟩)

theorem walked_jump (hr : r ∈ rules jump) (hrow : RowAt kind (Stands kind) r.body i j) :
    Walked kind jump i j := by
  simp only [rules, List.mem_cons, List.not_mem_nil, or_false] at hr
  obtain rfl | rfl := hr
  · obtain ⟨hword, hend, rfl⟩ := hrow
    exact .of_break hword hend
  · obtain ⟨hword, hend, rfl⟩ := hrow
    exact .of_kind hword rfl (by decide) (fun _ _ ht ↦ by simp only [ordinaryStatement, ht])
      fun _ ↦ leads_continueStatement hword hend

/-! ### Conditionals -/

theorem walked_elseIfBlocks (hr : r ∈ rules elseIfBlocks) (hlook : kind i ∈ r.lookaheads)
    (hrow : RowAt kind (Stands kind) r.body i j) : Walked kind elseIfBlocks i j := by
  simp only [rules, List.mem_cons, List.not_mem_nil, or_false] at hr
  obtain rfl | rfl := hr
  · obtain ⟨hword, hopen, m, hcondition, hclose, hbrace, n, hstatements, hend, p, hrest, rfl⟩ :=
      hrow
    obtain ⟨hbranches, hlast⟩ := hrest.walked
    have hvalue : IsValue kind (i + 2) m := ⟨hcondition.onPhrases rfl, hcondition.walked⟩
    have hblock := (IsBlockBody.of_statements hstatements.walked hend).isBlock hbrace
    exact ⟨.head ⟨hword, m + 1, hvalue.isCondition hopen hclose, hblock⟩ hbranches, hlast⟩
  · obtain rfl : i = j := hrow
    refine ⟨.refl, fun hk ↦ ?_⟩
    rw [hk] at hlook
    exact absurd hlook (by decide)

theorem walked_elseBlock (hr : r ∈ rules elseBlock) (hlook : kind i ∈ r.lookaheads)
    (hrow : RowAt kind (Stands kind) r.body i j) : Walked kind elseBlock i j := by
  simp only [rules, List.mem_cons, List.not_mem_nil, or_false] at hr
  obtain rfl | rfl := hr
  · obtain ⟨hword, hopen, m, hstatements, hclose, rfl⟩ := hrow
    exact .inr ⟨hword, (IsBlockBody.of_statements hstatements.walked hclose).isBlock hopen⟩
  · refine .inl ⟨hrow, fun hk ↦ ?_⟩
    rw [hk] at hlook
    exact absurd hlook (by decide)

/-- Statements with branches behind them that belong to no conditional. -/
theorem statements_of_branches (h : Statements kind i m)
    (hbranches : Relation.ReflTransGen (IsElseIf kind) m n) (helse : IsElse kind n j) :
    Statements kind i j := by
  obtain rfl | ⟨p, hbranch, -⟩ := hbranches.cases_head
  · rcases helse with ⟨rfl, -⟩ | ⟨hword, -⟩
    · exact h
    · exact h.tail (.of_stray (.inl hword))
  · exact h.tail (.of_stray (.inr hbranch.word))

/-- A name between the parentheses of a switch. -/
theorem isCondition_of_name (hopen : kind i = .leftParen) (hname : kind (i + 1) = .identifier)
    (hclose : kind (i + 2) = .rightParen) : IsCondition kind i (i + 3) := by
  have hvalue : IsValue kind (i + 1) (i + 2) :=
    ⟨.one (by rw [hname]; rfl),
      .one (.of_isPlaceTail hname (Nat.lt_succ_self _) (.whole (by rw [hclose]; rfl) rfl))⟩
  exact hvalue.isCondition hopen hclose

theorem walked_conditional (hr : r ∈ rules conditional)
    (hrow : RowAt kind (Stands kind) r.body i j) : Walked kind conditional i j := by
  simp only [rules, List.mem_cons, List.not_mem_nil, or_false] at hr
  obtain rfl | rfl := hr
  · obtain ⟨hword, hopen, m, hcondition, hclose, hbrace, n, hstatements, p, hstray, q, hstrayElse,
      hend, l, hbranches, _, helse, rfl⟩ := hrow
    have hvalue : IsValue kind (i + 2) m := ⟨hcondition.onPhrases rfl, hcondition.walked⟩
    have hbody : Statements kind (m + 2) q :=
      statements_of_branches hstatements.walked hstray.walked.1 hstrayElse.walked
    have hblock := (IsBlockBody.of_statements hbody hend).isBlock hbrace
    exact .of_kind hword rfl (by decide) (fun _ _ ht ↦ by simp only [ordinaryStatement, ht])
      (leads_ifStatement hword (hvalue.isCondition hopen hclose) hblock hbranches.walked.1
        hbranches.walked.2 helse.walked)
  · obtain ⟨hword, hopen, hname, hclose, hbrace, m, hbody, hend, rfl⟩ := hrow
    exact .of_kind hword rfl (by decide) (fun _ _ ht ↦ by simp only [ordinaryStatement, ht])
      (leads_switchStatement hword (isCondition_of_name hopen hname hclose) hbrace
        (hbody.walked hend) hend)

theorem walked_caseLabel (hr : r ∈ rules caseLabel)
    (hrow : RowAt kind (Stands kind) r.body i j) : Walked kind caseLabel i j := by
  simp only [rules, List.mem_cons, List.not_mem_nil, or_false] at hr
  obtain rfl | rfl := hr
  · obtain ⟨hk, rfl⟩ := hrow
    exact ⟨by simp [hk], rfl⟩
  · obtain ⟨m, hliteral, rfl⟩ := hrow
    obtain ⟨hk, rfl⟩ := hliteral.walked
    refine ⟨fun heof ↦ ?_, rfl⟩
    rw [heof] at hk
    exact absurd hk (by decide)

/-- Where further cases begin, a block of a switch has ended. -/
theorem Stands.ends_of_moreCases (h : Stands kind moreCases i j) :
    kind i ∈ [.caseWord, .defaultWord, .rightBrace] := by
  obtain ⟨r, hr, hlook⟩ := h.begins
  simp only [rules, List.mem_cons, List.not_mem_nil, or_false] at hr
  obtain rfl | rfl := hr
  · exact List.mem_cons.2 (.inl (List.mem_singleton.1 hlook))
  · exact List.mem_cons.2 (.inr hlook)

theorem walked_cases (hr : r ∈ rules cases) (hrow : RowAt kind (Stands kind) r.body i j) :
    Walked kind cases i j := by
  simp only [rules, List.mem_cons, List.not_mem_nil, or_false] at hr
  obtain rfl | rfl := hr
  · obtain ⟨hword, m, hlabel, hcolon, n, hstatements, p, hmore, rfl⟩ := hrow
    obtain ⟨hsome, rfl⟩ := hlabel.walked
    exact .head (.labelled hword hsome ⟨hcolon, hstatements.walked, hmore.ends_of_moreCases⟩)
      hmore.walked
  · obtain rfl : i = j := hrow
    exact .refl

theorem walked_moreCases (hr : r ∈ rules moreCases)
    (hrow : RowAt kind (Stands kind) r.body i j) : Walked kind moreCases i j := by
  simp only [rules, List.mem_cons, List.not_mem_nil, or_false] at hr
  obtain rfl | rfl := hr
  · obtain ⟨m, hcases, n, hmore, rfl⟩ := hrow
    exact hcases.walked.trans hmore.walked
  · obtain rfl : i = j := hrow
    exact .refl

theorem walked_defaultCase (hr : r ∈ rules defaultCase)
    (hrow : RowAt kind (Stands kind) r.body i j) : Walked kind defaultCase i j := by
  intro hend
  simp only [rules, List.mem_cons, List.not_mem_nil, or_false] at hr
  obtain rfl | rfl := hr
  · obtain ⟨hword, hcolon, m, hstatements, rfl⟩ := hrow
    exact .single (.default hword ⟨hcolon, hstatements.walked, by simp [hend]⟩)
  · obtain rfl : i = j := hrow
    exact .refl

theorem walked_switchBody (hr : r ∈ rules switchBody)
    (hrow : RowAt kind (Stands kind) r.body i j) : Walked kind switchBody i j := by
  intro hend
  obtain rfl := List.mem_singleton.1 hr
  obtain ⟨m, hcases, n, hdefault, rfl⟩ := hrow
  exact hcases.walked.trans (hdefault.walked hend)

/-! ### Loops -/

theorem walked_forStart (hr : r ∈ rules forStart)
    (hrow : RowAt kind (Stands kind) r.body i j) : Walked kind forStart i j := by
  obtain rfl := List.mem_singleton.1 hr
  obtain ⟨m, hplace, hassign, n, hvalue, rfl⟩ := hrow
  obtain ⟨hname, htail⟩ := hplace.walked (by rw [hassign]; rfl)
  exact ⟨hname, m, htail, hassign, hvalue.onPhrases rfl, hvalue.walked⟩

theorem walked_forStepValue (hr : r ∈ rules forStepValue)
    (hrow : RowAt kind (Stands kind) r.body i j) : Walked kind forStepValue i j := by
  intro hend
  simp only [rules, List.mem_cons, List.not_mem_nil, or_false] at hr
  obtain rfl | rfl := hr
  · obtain ⟨m, hplace, rfl⟩ := hrow
    obtain ⟨hname, htail⟩ := hplace.walked hend
    exact .one (.of_isPlaceTail hname htail.le htail)
  · obtain ⟨m, hliteral, rfl⟩ := hrow
    exact .one (hliteral.walked.isOperand (by decide))

theorem walked_forStepTail (hr : r ∈ rules forStepTail)
    (hrow : RowAt kind (Stands kind) r.body i j) : Walked kind forStepTail i j := by
  rintro hend n rfl hname
  simp only [rules, List.mem_cons, List.not_mem_nil, or_false] at hr
  obtain rfl | rfl := hr
  · obtain ⟨m, hoperator, p, hvalue, rfl⟩ := hrow
    obtain ⟨hk, rfl⟩ := hoperator.walked
    have hcompound := isSome_ofCompound?_of_mem hk
    have hchain : IsValue kind (n + 2) p :=
      ⟨hvalue.onPhrases rfl, hvalue.walked (by rw [hend]; rfl)⟩
    refine .assignment hname ?_ <|
      .of_compound hcompound hchain (by decide) (by rw [hend]; rfl)
    simp [updates, hcompound]
  · obtain ⟨m, hsign, rfl⟩ := hrow
    obtain ⟨hk, rfl⟩ := hsign.walked
    have hsign : kind (n + 1) = .increment ∨ kind (n + 1) = .decrement := by
      simpa [countSigns] using hk
    refine .assignment hname ?_ (.of_countSign hsign)
    rcases hsign with hk | hk <;> simp [updates, hk]

theorem walked_forStepBefore (hr : r ∈ rules forStepBefore)
    (hrow : RowAt kind (Stands kind) r.body i j) : Walked kind forStepBefore i j := by
  intro hend
  obtain rfl := List.mem_singleton.1 hr
  obtain ⟨m, hsign, hname, rfl⟩ := hrow
  obtain ⟨hk, rfl⟩ := hsign.walked
  exact .count (by simpa [countSigns] using hk) hname rfl

theorem walked_forStep (hr : r ∈ rules forStep) (hrow : RowAt kind (Stands kind) r.body i j) :
    Walked kind forStep i j := by
  intro hend
  simp only [rules, List.mem_cons, List.not_mem_nil, or_false] at hr
  obtain rfl | rfl := hr
  · obtain ⟨hname, m, htail, rfl⟩ := hrow
    exact htail.walked hend i rfl hname
  · obtain ⟨m, hbefore, rfl⟩ := hrow
    exact hbefore.walked hend

theorem walked_forLoop (hr : r ∈ rules forLoop) (hrow : RowAt kind (Stands kind) r.body i j) :
    Walked kind forLoop i j := by
  obtain rfl := List.mem_singleton.1 hr
  obtain ⟨hword, hopen, m, hstart, hfirst, l, hcondition, hsecond, n, hstep, hclose, hbrace, p,
    hstatements, hend, rfl⟩ := hrow
  have hpairs : Pairs kind (i + 1) n := pairs_of_clauses hopen (hstart.onPhrases rfl) hfirst
    (hcondition.onPhrases rfl) hsecond (hstep.onPhrases rfl) hclose
  have hblock := (IsBlockBody.of_statements hstatements.walked hend).isBlock hbrace
  exact .of_kind hword rfl (by decide) (fun _ _ ht ↦ by simp only [ordinaryStatement, ht])
    (leads_forStatement hword hpairs hopen hstart.walked hfirst
      ⟨hcondition.onPhrases rfl, hcondition.walked⟩ hsecond (hstep.walked hclose) hclose hblock)

theorem walked_doLoop (hr : r ∈ rules doLoop) (hrow : RowAt kind (Stands kind) r.body i j) :
    Walked kind doLoop i j := by
  obtain rfl := List.mem_singleton.1 hr
  obtain ⟨hword, hbrace, m, hstatements, hclose, hwhile, hopen, n, hcondition, hshut, hend, rfl⟩ :=
    hrow
  have hvalue : IsValue kind (m + 3) n := ⟨hcondition.onPhrases rfl, hcondition.walked⟩
  have hblock := (IsBlockBody.of_statements hstatements.walked hclose).isBlock hbrace
  exact .of_kind hword rfl (by decide) (fun _ _ ht ↦ by simp only [ordinaryStatement, ht])
    (leads_doStatement hword hblock hwhile (hvalue.isCondition hopen hshut) hend)

theorem walked_whileLoop (hr : r ∈ rules whileLoop)
    (hrow : RowAt kind (Stands kind) r.body i j) : Walked kind whileLoop i j := by
  obtain rfl := List.mem_singleton.1 hr
  obtain ⟨hword, hopen, m, hcondition, hclose, hbrace, n, hstatements, hend, rfl⟩ := hrow
  have hvalue : IsValue kind (i + 2) m := ⟨hcondition.onPhrases rfl, hcondition.walked⟩
  have hblock := (IsBlockBody.of_statements hstatements.walked hend).isBlock hbrace
  exact .of_kind hword rfl (by decide) (fun _ _ ht ↦ by simp only [ordinaryStatement, ht])
    (leads_whileStatement hword (hvalue.isCondition hopen hclose) hblock)

/-! ### Statements one behind the other -/

/-- A statement of a category that derives statements only, and the statements behind it. -/
theorem statements_of_row {A : Nonterminal} (hA : Walked kind A = IsStatement kind)
    (hrow : RowAt kind (Stands kind) [.nonterminal A, .nonterminal statements] i j) :
    Statements kind i j := by
  obtain ⟨m, hfirst, n, hrest, rfl⟩ := hrow
  exact .head (hA ▸ hfirst.walked) hrest.walked

theorem walked_statements (hr : r ∈ rules statements)
    (hrow : RowAt kind (Stands kind) r.body i j) : Walked kind statements i j := by
  simp only [rules, List.mem_cons, List.not_mem_nil, or_false] at hr
  obtain rfl | rfl | rfl | rfl | rfl | rfl | rfl | rfl | rfl | rfl := hr
  · exact statements_of_row rfl hrow
  · exact statements_of_row rfl hrow
  · exact statements_of_row rfl hrow
  · exact statements_of_row rfl hrow
  · exact statements_of_row rfl hrow
  · exact statements_of_row rfl hrow
  · exact statements_of_row rfl hrow
  · exact statements_of_row rfl hrow
  · exact statements_of_row rfl hrow
  · obtain rfl : i = j := hrow
    exact .refl

end

end FrontEnd
