import FrontEnd.Proofs.Check.LeadsDeclaration

/-!
# Where the walk over a statement leads

The forms of statements as stretches the walk leads over, on any level of nesting.  A block is
walked one level down, and since the forms hold on every level, a statement needs of its blocks only
that they have the form, and no induction.

Behind the statements of a branch the grammar admits further branches inside the same braces.  The
walk refuses these as branches without a conditional, which is no matter of shape, so they count as
a statement that is never left (`IsStatement.of_stray`).
-/

namespace FrontEnd

open Check

/-- Kinds that no statement begins with and that are no fault of the statement either: those that
end a block, and those that make up the top of a program. -/
def Kind.isBoundary (k : Kind) : Bool :=
  [.rightBrace, .caseWord, .defaultWord, .eof, .functionWord, .mainWord, .structWord].contains k

/-- A statement. -/
structure IsStatement (kind : Nat → Kind) (i j : Nat) : Prop where
  begins : (kind i).isBoundary = false
  leads : ∀ levels, Leads kind (statement levels) i j

/-- Statements one behind the other. -/
abbrev Statements (kind : Nat → Kind) : Nat → Nat → Prop :=
  Relation.ReflTransGen (IsStatement kind)

/-- What stands between the braces of a block. -/
structure IsBlockBody (kind : Nat → Kind) (i j : Nat) : Prop where
  leads : ∀ levels, Leads kind (statementsBelow levels [.rightBrace]) i j
  closes : kind j = .rightBrace

/-- A block with its braces. -/
structure IsBlock (kind : Nat → Kind) (i j : Nat) : Prop where
  opens : kind i = .leftBrace
  leads : ∀ levels label, Leads kind (block (statementsBelow levels) label) i j

/-- An expression between parentheses. -/
structure IsCondition (kind : Nat → Kind) (i j : Nat) : Prop where
  opens : kind i = .leftParen
  leads : ∀ levels, Leads kind (inParentheses levels) i j

/-- What stands behind a target, up to a terminator. -/
def IsAssignment (kind : Nat → Kind) (terminators : List Kind) (i j : Nat) : Prop :=
  ∀ levels t, Leads kind (assignmentTail levels terminators t) i j

section

variable {kind : Nat → Kind} {i j m n : Nat} {terminators : List Kind}

/-! ### Statements in a row -/

/-- A statement other than a jump out of a block. -/
theorem IsStatement.of_ordinary (hbegins : (kind i).isBoundary = false)
    (hbreak : kind i ≠ .breakWord) (h : ∀ levels t, t.kind = kind i →
      Leads kind (ordinaryStatement levels (statementsBelow levels) t) i j) :
    IsStatement kind i j := by
  have hk : kind i ≠ .eof := by
    intro heof
    rw [heof] at hbegins
    cases hbegins
  refine ⟨hbegins, fun levels ↦ .peek fun t ht ↦ .ifNot ?_ ?_⟩
  · rwa [ht hk]
  · exact (h levels t (ht hk)).next fun _ ↦ .pure rfl

/-- A statement of the sort its first kind tells. -/
theorem IsStatement.of_kind {k : Kind} {x : Nat → Check Unit} (hk : kind i = k)
    (hbegins : k.isBoundary = false) (hbreak : k ≠ .breakWord)
    (hx : ∀ levels t, t.kind = k → ordinaryStatement levels (statementsBelow levels) t = x levels)
    (h : ∀ levels, Leads kind (x levels) i j) : IsStatement kind i j := by
  subst hk
  exact .of_ordinary hbegins hbreak fun levels t ht ↦ hx levels t ht ▸ h levels

/-- A branch without a conditional is refused for what it means. -/
theorem IsStatement.of_stray (h : kind i = .elseWord ∨ kind i = .elseIfWord) :
    IsStatement kind i j := by
  have hstray {k : Kind} (hk : kind i = k) (hbegins : k.isBoundary = false)
      (hbreak : k ≠ .breakWord) (hx : ∀ levels t, t.kind = k →
        ordinaryStatement levels (statementsBelow levels) t =
          violate (.conditionalWithoutIf k)) : IsStatement kind i j :=
    .of_kind hk hbegins hbreak hx fun _ ↦ .violate rfl
  rcases h with hk | hk
  · exact hstray hk rfl (by decide) fun _ _ ht ↦ by simp only [ordinaryStatement, ht]
  · exact hstray hk rfl (by decide) fun _ _ ht ↦ by simp only [ordinaryStatement, ht]

/-- Statements lead to the terminator behind them. -/
theorem Statements.leads_statementsUntil (h : Statements kind i j)
    (hterminators : ∀ k ∈ terminators, k.isBoundary) (hend : kind j ∈ terminators) (levels : Nat) :
    Leads kind (statementsUntil (statement levels) terminators) i j := by
  refine .rounds (I := fun m ↦ Statements kind m j) h fun last m hm ↦ .peekKind ?_
  obtain rfl | ⟨n, hstatement, hrest⟩ := hm.cases_head
  · exact .ifSo (List.contains_iff_mem.2 hend) <| .pure rfl
  · have hmore : kind m ∉ terminators := by
      intro hmem
      have hboundary := hterminators _ hmem
      rw [hstatement.begins] at hboundary
      cases hboundary
    have heof : kind m ≠ .eof := by
      intro heof
      have hbegins := hstatement.begins
      rw [heof] at hbegins
      cases hbegins
    refine .ifNot (fun hcontains ↦ hmore (List.contains_iff_mem.1 hcontains)) <| .ifNot heof ?_
    exact (hstatement.leads levels).next fun _ ↦ .pure hrest

theorem Statements.leads_statementsBelow (h : Statements kind i j)
    (hterminators : ∀ k ∈ terminators, k.isBoundary) (hend : kind j ∈ terminators) (levels : Nat) :
    Leads kind (statementsBelow levels terminators) i j := by
  cases levels with
  | zero => exact .read fun _ _ ↦ .violate rfl
  | succ levels => exact h.leads_statementsUntil hterminators hend levels

theorem IsBlockBody.of_statements (h : Statements kind i j) (hclose : kind j = .rightBrace) :
    IsBlockBody kind i j :=
  ⟨h.leads_statementsBelow (by simp [Kind.isBoundary]) (by simp [hclose]), hclose⟩

theorem IsBlockBody.isBlock (h : IsBlockBody kind (i + 1) j) (hopen : kind i = .leftBrace) :
    IsBlock kind i (j + 1) :=
  ⟨hopen, fun levels label ↦ (Reaches.expectMark hopen (by simp)).discard.next fun _ ↦
    (Reaches.inScope label (h.leads levels)).discard.next fun _ ↦
      (Reaches.expectMark h.closes (by simp)).discard⟩

/-! ### Simple statements -/

/-- An expression between parentheses. -/
theorem IsValue.isCondition (h : IsValue kind (i + 1) j) (hopen : kind i = .leftParen)
    (hclose : kind j = .rightParen) : IsCondition kind i (j + 1) := by
  have hpairs : Pairs kind i j := h.phrase.withCommas.pairs (by rw [hopen]; rfl) hclose
  exact ⟨hopen, fun levels ↦ .here <| (Reaches.expectMark hopen (by simp)).next fun t ↦
    .matchingClose hpairs <| (h.chained.leads_expressionWith levels).next fun type ↦
      (Reaches.expectMark hclose (by simp)).discard.next fun _ ↦ .pure rfl⟩

theorem IsCondition.leads_condition (h : IsCondition kind i j) (levels : Nat)
    (construct : Guarded) : Leads kind (condition levels construct) i j :=
  (h.leads levels).next fun found ↦ .ite (fun _ ↦ .violateAt rfl found.2) fun _ ↦ .pure rfl

namespace IsAssignment

theorem leads_markInitialized (t : Target) : Leads kind (markInitialized t) i i :=
  .modifySymbol _ _

theorem leads_requireType (wanted found : DataType) (place : Token) :
    Leads kind (requireType wanted found place) i i :=
  .ite (fun _ ↦ .violateAt rfl place) fun _ ↦ .pure rfl

theorem of_isValue (hassign : kind i = .assign) (h : IsValue kind (i + 1) j)
    (hinput : kind (i + 1) ≠ .inputWord) (hterminators : ∀ k ∈ terminators, k.isPlain = false)
    (hend : (kind j).endsExpression terminators) : IsAssignment kind terminators i j := by
  refine fun levels t ↦ .peek fun sign hsign ↦ ?_
  rw [hsign (by simp [hassign]), hassign]
  refine (Reaches.skip (by simp [hassign])).next fun _ ↦ ?_
  show Leads kind (plainAssignment levels terminators t sign) (i + 1) j
  exact .unlessNext hinput <| (h.leads_valueType hterminators hend levels).next fun value ↦
    (leads_requireType _ _ sign).next fun _ ↦ leads_markInitialized t

theorem of_input (hassign : kind i = .assign) (hinput : kind (i + 1) = .inputWord)
    (hopen : kind (i + 2) = .leftParen) (hprompt : kind (i + 3) = .stringLit)
    (hclose : kind (i + 4) = .rightParen) : IsAssignment kind terminators i (i + 5) := by
  refine fun levels t ↦ .peek fun sign hsign ↦ ?_
  rw [hsign (by simp [hassign]), hassign]
  have hvalue : Leads kind (inputValue t.type) (i + 1) (i + 5) :=
    .advance (by simp [hinput]) fun input _ ↦ .otherwise (.violateAt rfl input) <|
      (Reaches.expectMark hopen (by simp)).discard.next fun _ ↦
        (Reaches.expect hprompt (by simp) _).discard.next fun _ ↦
          (Reaches.expectMark hclose (by simp)).discard
  refine (Reaches.skip (by simp [hassign])).next fun _ ↦ ?_
  show Leads kind (plainAssignment levels terminators t sign) (i + 1) (i + 5)
  exact .whenNext hinput <| hvalue.next fun _ ↦ leads_markInitialized t

theorem of_compound (hsign : (Operator.ofCompound? (kind i)).isSome) (h : IsValue kind (i + 1) j)
    (hterminators : ∀ k ∈ terminators, k.isPlain = false)
    (hend : (kind j).endsExpression terminators) : IsAssignment kind terminators i j := by
  have hk : kind i ≠ .eof := by
    intro heof
    rw [heof] at hsign
    cases hsign
  refine fun levels t ↦ .peek fun sign ht ↦ ?_
  rw [ht hk]
  split
  next hassign => rw [hassign] at hsign; cases hsign
  next hcount => rw [hcount] at hsign; cases hsign
  next hcount => rw [hcount] at hsign; cases hsign
  next =>
    split
    next op _ =>
      refine (Reaches.skip hk).next fun _ ↦ ?_
      show Leads kind (compoundAssignment levels terminators op t sign) (i + 1) j
      exact .otherwise (.violateAt rfl sign) <| .peek fun _ _ ↦ .guard (.violate rfl) <|
        .otherwise (.warn _ _) <| (h.leads_valueType hterminators hend levels).next fun value ↦
          leads_requireType _ _ sign
    next hnone => rw [hnone] at hsign; cases hsign

theorem of_countSign (hsign : kind i = .increment ∨ kind i = .decrement) :
    IsAssignment kind terminators i (i + 1) := by
  have hk : kind i ≠ .eof := by rcases hsign with hk | hk <;> simp [hk]
  have hcount (t : Target) : Leads kind (discard advance >>= fun _ ↦ requireInt t) i (i + 1) :=
    (Reaches.skip hk).next fun _ ↦ leads_requireInt t
  refine fun levels t ↦ .peek fun sign ht ↦ ?_
  rw [ht hk]
  rcases hsign with hk | hk
  · rw [hk]
    exact hcount t
  · rw [hk]
    exact hcount t

end IsAssignment

theorem leads_nameStatement_of_call (h : IsCall kind i j) (hend : kind j = .semicolon)
    (levels : Nat) : Leads kind (nameStatement levels) i (j + 1) :=
  .secondKind <| .ifSo h.paren <| (h.leads levels).discard.next fun _ ↦
    (Reaches.expectMark hend (by simp)).discard

theorem leads_nameStatement_of_assignment (hparen : kind (i + 1) ≠ .leftParen)
    (h : ∀ levels, Leads kind (target (operand levels)) i m)
    (hassignment : IsAssignment kind [] m j) (hend : kind j = .semicolon) (levels : Nat) :
    Leads kind (nameStatement levels) i (j + 1) :=
  .secondKind <| .ifNot hparen <| (h levels).next fun t ↦ (hassignment levels t).next fun _ ↦
    (Reaches.expectMark hend (by simp)).discard

theorem leads_countStatement (hsign : kind i ≠ .eof) (hname : kind (i + 1) = .identifier)
    (hend : kind (i + 2) = .semicolon) (levels : Nat) :
    Leads kind (countStatement levels) i (i + 3) := by
  have htail : IsPlaceTail kind (i + 2) (i + 2) := .whole (by rw [hend]; rfl) rfl
  exact (Reaches.skip hsign).next fun _ ↦ (htail.leads_target hname levels).next fun t ↦
    (leads_requireInt t).next fun _ ↦ (Reaches.expectMark hend (by simp)).discard

theorem leads_printStatement (hword : kind i = .printWord) (h : IsArguments kind (i + 1) j)
    (hend : kind (j + 1) = .semicolon) (levels : Nat) :
    Leads kind (printStatement levels) i (j + 2) :=
  (Reaches.skip (by simp [hword])).next fun _ ↦ .here <|
    (Reaches.expectMark h.opens (by simp)).discard.next fun _ ↦ .matchingClose h.pairs <|
      (h.leads_arguments levels).discard.next fun _ ↦
        (Reaches.expectMark h.closes (by simp)).discard.next fun _ ↦
          (Reaches.expectMark hend (by simp)).discard

theorem leads_breakStatement (hword : kind i = .breakWord) (hend : kind (i + 1) = .semicolon) :
    Leads kind breakStatement i (i + 2) :=
  .advance (by simp [hword]) fun keyword _ ↦ .read fun _ _ ↦ .guard (.violateAt rfl keyword)
    (Reaches.expectMark hend (by simp)).discard

theorem IsStatement.of_break (hword : kind i = .breakWord) (hend : kind (i + 1) = .semicolon) :
    IsStatement kind i (i + 2) := by
  have hk : kind i ≠ .eof := by simp [hword]
  refine ⟨by rw [hword]; rfl, fun levels ↦ .peek fun t ht ↦ .ifSo ((ht hk).trans hword) ?_⟩
  exact (leads_breakStatement hword hend).next fun _ ↦ .pure rfl

theorem leads_continueStatement (hword : kind i = .continueWord)
    (hend : kind (i + 1) = .semicolon) : Leads kind continueStatement i (i + 2) := by
  refine .advance (by simp [hword]) fun keyword _ ↦ .read fun c _ ↦ ?_
  split
  · exact (Reaches.expectMark hend (by simp)).discard
  · exact .violateAt rfl keyword
  · exact .violateAt rfl keyword

theorem leads_endStatement (hword : kind i = .endWord) (hend : kind (i + 1) = .semicolon) :
    Leads kind endStatement i (i + 2) :=
  .advance (by simp [hword]) fun keyword _ ↦ .read fun _ _ ↦ .otherwise (.violateAt rfl keyword) <|
    (Reaches.expectMark hend (by simp)).discard.next fun _ ↦ .next? <|
      .ite (fun _ ↦ .pure rfl) fun _ ↦ .violateAt rfl keyword

/-- There is no semicolon inside of a phrase. -/
theorem Phrase.ne_semicolon {b : Bool} (h : Phrase kind b i j) :
    ∀ m, i ≤ m → m < j → kind m ≠ .semicolon := by
  induction h with
  | nil => exact fun m hm hlt ↦ absurd hlt (Nat.not_lt.2 hm)
  | plain hi _ ih =>
    intro m hm hlt
    rcases Nat.eq_or_lt_of_le hm with rfl | hlater
    · exact (Kind.isPlain_iff.1 hi).2.2.2.1
    · exact ih m hlater hlt
  | comma hi _ ih =>
    intro m hm hlt
    rcases Nat.eq_or_lt_of_le hm with rfl | hlater
    · simp [hi]
    · exact ih m hlater hlt
  | @group _ i n _ closing hopen _ _ hclose _ ihinner ih =>
    intro m hm hlt
    rcases Nat.eq_or_lt_of_le hm with rfl | hlater
    · intro hsemicolon
      rw [hsemicolon] at hopen
      cases hopen
    rcases Nat.lt_trichotomy m n with hinside | rfl | hbehind
    · exact ihinner m hlater hinside
    · intro hsemicolon
      rcases Kind.closer?_eq_some hopen with ⟨-, rfl⟩ | ⟨-, rfl⟩ | ⟨-, rfl⟩ <;>
        simp [hsemicolon] at hclose
    · exact ih m hbehind hlt

/-- What a return returns: nothing or a value, up to the semicolon. -/
structure IsReturned (kind : Nat → Kind) (i j : Nat) : Prop where
  value : i = j ∨ IsValue kind i j
  ends : kind j = .semicolon

namespace IsReturned

variable (h : IsReturned kind i j)

include h

theorem eq_of_semicolon (hnext : kind i = .semicolon) : i = j := by
  rcases h.value with heq | hvalue
  · exact heq
  · exact absurd hnext (hvalue.phrase.ne_semicolon i (Nat.le_refl i) hvalue.chained.lt)

theorem isValue (hnext : kind i ≠ .semicolon) : IsValue kind i j :=
  h.value.resolve_left fun heq ↦ hnext (heq ▸ h.ends)

/-- The entry point returns nothing or one token. -/
theorem leads_entryPointReturn (keyword : Token) : Leads kind (entryPointReturn keyword) i j := by
  refine .next? <| .ite (fun hnext ↦ .pure (h.eq_of_semicolon (beq_iff_eq.1 hnext))) fun hnext ↦ ?_
  have hvalue := h.isValue fun heq ↦ hnext (beq_iff_eq.2 heq)
  refine .peek fun value _ ↦ .secondKind <| .ite (fun hzero ↦ ?_) fun _ ↦ .violateAt rfl keyword
  have hsecond : kind (i + 1) = .semicolon := beq_iff_eq.1 (Bool.and_eq_true_iff.1 hzero).2
  -- The semicolon behind the literal is the one behind the value.
  obtain rfl : j = i + 1 := by
    have hlt := hvalue.chained.lt
    refine Nat.le_antisymm (Nat.not_lt.1 fun hmore ↦ ?_) hlt
    exact hvalue.phrase.ne_semicolon (i + 1) (Nat.le_succ i) hmore hsecond
  exact .skip (hvalue.phrase.ne_eof (Nat.lt_succ_self i))

theorem leads_voidReturn (f : FunctionContext) (keyword : Token) :
    Leads kind (voidReturn f keyword) i j :=
  .next? <| .ite (fun hnext ↦ .pure (h.eq_of_semicolon (beq_iff_eq.1 hnext))) fun _ ↦
    .violateAt rfl keyword

theorem leads_valueReturn (levels : Nat) (f : FunctionContext) (keyword : Token) :
    Leads kind (valueReturn levels f keyword) i j := by
  refine .next? <| .ite (fun _ ↦ .violateAt_then rfl keyword) fun hnext ↦ ?_
  have hvalue := h.isValue fun heq ↦ hnext (beq_iff_eq.2 heq)
  refine (hvalue.leads_valueType (by simp) (by rw [h.ends]; rfl) levels).next fun found ↦ ?_
  exact .ite (fun _ ↦ .violateAt rfl keyword) fun _ ↦ .pure rfl

end IsReturned

/-- A return, from its word on. -/
theorem leads_returnStatement (hword : kind i = .returnWord) (h : IsReturned kind (i + 1) j)
    (levels : Nat) : Leads kind (returnStatement levels) i (j + 1) := by
  have hmark : Leads kind (do
      modify fun s ↦ { s with sawReturn := true }
      discard (expectMark .semicolon) : Check Unit) j (j + 1) :=
    Reaches.next (m := j) (.modify fun _ ↦ rfl) fun _ ↦
      (Reaches.expectMark h.ends (by simp)).discard
  refine .advance (by simp [hword]) fun keyword _ ↦ .read fun c _ ↦ ?_
  split
  · exact .violateAt rfl keyword
  next f _ =>
    exact .ite (fun _ ↦ (h.leads_entryPointReturn keyword).next fun _ ↦ hmark) fun _ ↦
      .ite (fun _ ↦ (h.leads_voidReturn f keyword).next fun _ ↦ hmark) fun _ ↦
        (h.leads_valueReturn levels f keyword).next fun _ ↦ hmark

/-! ### Conditionals -/

/-- A further branch of a conditional. -/
structure IsElseIf (kind : Nat → Kind) (i j : Nat) : Prop where
  word : kind i = .elseIfWord
  parts : ∃ m, IsCondition kind (i + 1) m ∧ IsBlock kind m j

/-- The last branch of a conditional, if there is one. -/
def IsElse (kind : Nat → Kind) (i j : Nat) : Prop :=
  (i = j ∧ kind i ≠ .elseWord) ∨ (kind i = .elseWord ∧ IsBlock kind (i + 1) j)

theorem leads_ifStatement (hword : kind i = .ifWord) {l : Nat}
    (hcondition : IsCondition kind (i + 1) m) (hblock : IsBlock kind m n) (hbranches : Relation.ReflTransGen (IsElseIf kind) n l)
    (hl : kind l ≠ .elseIfWord) (helse : IsElse kind l j) (levels : Nat) :
    Leads kind (ifStatement levels (statementsBelow levels)) i j := by
  refine (Reaches.skip (by simp [hword])).next fun _ ↦ (hcondition.leads_condition levels _).next
    fun _ ↦ (hblock.leads levels _).next fun _ ↦ Reaches.next (m := l) (.roundsWhile
      (I := fun p ↦ Relation.ReflTransGen (IsElseIf kind) p l) hbranches fun _ p hp ↦
        .asks ⟨rfl, fun hmore ↦ ?_, fun hlast ↦ ?_⟩) fun _ ↦ ?_
  · obtain rfl | ⟨q, ⟨hk, r, hcondition, hblock⟩, hrest⟩ := hp.cases_head
    · exact absurd (beq_iff_eq.1 hmore) hl
    · exact (Reaches.skip (by simp [hk])).next fun _ ↦ (hcondition.leads_condition levels _).next
        fun _ ↦ (hblock.leads levels _).next fun _ ↦ .pure hrest
  · obtain rfl | ⟨q, hbranch, -⟩ := hp.cases_head
    · rfl
    · simp [hbranch.word] at hlast
  · rcases helse with ⟨rfl, hno⟩ | ⟨hyes, hlast⟩
    · exact .unlessNext hno <| .pure rfl
    · exact .whenNext hyes <| (Reaches.skip (by simp [hyes])).next fun _ ↦ hlast.leads levels _

/-- A colon and the statements of a block of a switch. -/
structure IsCaseBlock (kind : Nat → Kind) (i j : Nat) : Prop where
  colon : kind i = .colon
  statements : Statements kind (i + 1) j
  ends : kind j ∈ [.caseWord, .defaultWord, .rightBrace]

/-- A block of a switch with its label. -/
inductive IsCase (kind : Nat → Kind) (i j : Nat) : Prop
  | labelled : kind i = .caseWord → kind (i + 1) ≠ .eof → IsCaseBlock kind (i + 2) j →
    IsCase kind i j
  | default : kind i = .defaultWord → IsCaseBlock kind (i + 1) j → IsCase kind i j

theorem IsCaseBlock.leads_caseBlock (h : IsCaseBlock kind i j) (levels : Nat) (keyword : Token)
    (which : CaseBlock) : Leads kind (caseBlock (statementsBelow levels) keyword which) i j :=
  (Reaches.expectMark h.colon (by simp)).discard.next fun _ ↦
    (Reaches.inScope _ <| .inBlock _ <| h.statements.leads_statementsBelow
      (by simp [Kind.isBoundary]) h.ends levels).next fun _ ↦
        .ite (fun _ ↦ .violateAt rfl keyword) fun _ ↦ .pure rfl

/-- Cases lead to the brace behind them. -/
theorem leads_switchRounds (h : Relation.ReflTransGen (IsCase kind) i j)
    (hclose : kind j = .rightBrace) (levels : Nat) (selector : DataType) (soFar : SwitchSoFar) :
    Leads kind (rounds (switchRound (statementsBelow levels) selector) soFar) i j := by
  refine .rounds (I := fun m ↦ Relation.ReflTransGen (IsCase kind) m j) h fun soFar m hm ↦
    .peek fun t ht ↦ ?_
  obtain rfl | ⟨n, hcase, hrest⟩ := hm.cases_head
  · rw [ht (by simp [hclose]), hclose]
    exact .pure rfl
  cases hcase with
  | labelled hword hlabel hblock =>
    rw [ht (by simp [hword]), hword]
    have hcaseLabel : Leads kind (caseLabel selector soFar.labels) (m + 1) (m + 2) :=
      .advance hlabel fun label _ ↦ .otherwise (.violateAt rfl label) <|
        .guard (.violateAt rfl label) <| .pure rfl
    exact (Reaches.skip (by simp [hword])).next fun _ ↦ hcaseLabel.next fun label ↦
      (hblock.leads_caseBlock levels t _).next fun _ ↦ .pure hrest
  | default hword hblock =>
    rw [ht (by simp [hword]), hword]
    exact .guard (.violateAt rfl t) <| (Reaches.skip (by simp [hword])).next fun _ ↦
      (hblock.leads_caseBlock levels t _).next fun _ ↦ .pure hrest

theorem leads_switchStatement (hword : kind i = .switchWord)
    (hselector : IsCondition kind (i + 1) m) (hopen : kind m = .leftBrace) (h : Relation.ReflTransGen (IsCase kind) (m + 1) j)
    (hclose : kind j = .rightBrace) (levels : Nat) :
    Leads kind (switchStatement levels (statementsBelow levels)) i (j + 1) :=
  .advance (by simp [hword]) fun keyword _ ↦ .read fun _ _ ↦ .guard (.violateAt rfl keyword) <|
    (hselector.leads levels).next fun selector ↦ .guard (.violateAt rfl selector.2) <|
      (Reaches.expectMark hopen (by simp)).discard.next fun _ ↦
        (Reaches.inBlock _ (leads_switchRounds h hclose levels selector.1 _)).discard.next fun _ ↦
          (Reaches.expectMark hclose (by simp)).discard

/-! ### Loops -/

theorem leads_whileStatement (hword : kind i = .whileWord) (hcondition : IsCondition kind (i + 1) m)
    (hblock : IsBlock kind m j) (levels : Nat) :
    Leads kind (whileStatement levels (statementsBelow levels)) i j :=
  (Reaches.skip (by simp [hword])).next fun _ ↦ (hcondition.leads_condition levels _).next fun _ ↦
    .inBlock _ (hblock.leads levels _)

theorem leads_doStatement (hword : kind i = .doWord) (hblock : IsBlock kind (i + 1) m)
    (hwhile : kind m = .whileWord) (hcondition : IsCondition kind (m + 1) j)
    (hend : kind j = .semicolon) (levels : Nat) :
    Leads kind (doStatement levels (statementsBelow levels)) i (j + 1) :=
  (Reaches.skip (by simp [hword])).next fun _ ↦ (Reaches.inBlock _ (hblock.leads levels _)).next
    fun _ ↦ (Reaches.expectMark hwhile (by simp)).discard.next fun _ ↦
      (hcondition.leads_condition levels _).next fun _ ↦ (Reaches.expectMark hend (by simp)).discard

/-- The first clause of a loop header, up to its semicolon. -/
structure IsForStart (kind : Nat → Kind) (i j : Nat) : Prop where
  name : kind i = .identifier
  parts : ∃ m, IsPlaceTail kind (i + 1) m ∧ kind m = .assign ∧ IsValue kind (m + 1) j

/-- The last clause of a loop header, up to the parenthesis. -/
inductive IsForUpdate (kind : Nat → Kind) (i j : Nat) : Prop
  | count : kind i = .increment ∨ kind i = .decrement → kind (i + 1) = .identifier → j = i + 2 →
    IsForUpdate kind i j
  | assignment : kind i = .identifier → updates (kind (i + 1)) →
    IsAssignment kind [.rightParen] (i + 1) j → IsForUpdate kind i j

theorem leads_requireForVariable (clause : ForClause) (t : Target) :
    Leads kind (requireForVariable clause t) i i :=
  .ite (fun _ ↦ .violateAt rfl t.token) fun _ ↦ .pure rfl

theorem IsForStart.leads_forStart (h : IsForStart kind i j) (hend : kind j = .semicolon)
    (levels : Nat) : Leads kind (forStart levels) i (j + 1) := by
  obtain ⟨hname, m, htail, hassign, hvalue⟩ := h
  refine (htail.leads_target hname levels).next fun t ↦ (leads_requireForVariable _ t).next fun _ ↦
    (Reaches.expectMark hassign (by simp)).next fun sign ↦
      (hvalue.leads_valueType (by simp) (by rw [hend]; rfl) levels).next fun value ↦ ?_
  exact (IsAssignment.leads_requireType _ _ sign).next fun _ ↦
    (IsAssignment.leads_markInitialized t).next fun _ ↦ (Reaches.expectMark hend (by simp)).discard

theorem leads_forCondition (h : IsValue kind i j) (hend : kind j = .semicolon) (levels : Nat) :
    Leads kind (forCondition levels) i (j + 1) :=
  (h.leads_valueType (by simp) (by rw [hend]; rfl) levels).next fun found ↦
    .guard (.violate rfl) (Reaches.expectMark hend (by simp)).discard

theorem IsForUpdate.leads_forUpdate (h : IsForUpdate kind i j) (hend : kind j = .rightParen)
    (levels : Nat) : Leads kind (forUpdate levels) i j := by
  refine .peekKind ?_
  cases h with
  | count hsign hname heq =>
    subst heq
    have htail : IsPlaceTail kind (i + 2) (i + 2) := .whole (by rw [hend]; rfl) rfl
    have hcount : Leads kind (do
        discard advance
        requireForVariable .update (← target (operand levels)) : Check Unit) i (i + 2) :=
      (Reaches.skip (by rcases hsign with hk | hk <;> simp [hk])).next fun _ ↦
        (htail.leads_target hname levels).next fun t ↦ leads_requireForVariable _ t
    rcases hsign with hk | hk
    · rw [hk]
      exact hcount
    · rw [hk]
      exact hcount
  | assignment hname hupdates h =>
    rw [hname]
    refine (leads_target_of_name hname ?_ ?_ levels).next fun t ↦
      (leads_requireForVariable _ t).next fun _ ↦ .peekKind <| .ifSo hupdates (h levels t)
    · intro hk
      rw [hk] at hupdates
      cases hupdates
    · intro hk
      rw [hk] at hupdates
      cases hupdates

/-- The header of a loop holds three clauses between its parentheses. -/
theorem pairs_of_clauses {l : Nat} (hopen : kind i = .leftParen)
    (hstart : Phrase kind false (i + 1) m) (hfirst : kind m = .semicolon) (hcondition : Phrase kind false (m + 1) l)
    (hsecond : kind l = .semicolon) (hupdate : Phrase kind false (l + 1) n)
    (hclose : kind n = .rightParen) : Pairs kind i n := by
  have hsort : Kind.closer? .leftParen = some .rightParen := rfl
  refine .of_goesOn (hopen ▸ hsort) hclose ?_
  rintro c rfl
  rw [hopen]
  have hpass {p : Nat} (hp : c.kindAt p = .semicolon) :
      GoesOn p (p + 1) (c.searchClose .leftParen .rightParen · p 1)
        (c.searchClose .leftParen .rightParen · (p + 1) 1) :=
    goesOn_other (by simp [hp]) (by simp [hp]) (by simp [hp])
  exact (goesOn_opening hsort hopen).trans <|
    (hstart.goesOn_searchClose hsort (Nat.le_refl 1)).trans <| (hpass hfirst).trans <|
      (hcondition.goesOn_searchClose hsort (Nat.le_refl 1)).trans <| (hpass hsecond).trans <|
        hupdate.goesOn_searchClose hsort (Nat.le_refl 1)

theorem leads_forStatement (hword : kind i = .forWord) (hpairs : Pairs kind (i + 1) n)
    {l : Nat} (hopen : kind (i + 1) = .leftParen) (hstart : IsForStart kind (i + 2) m)
    (hfirst : kind m = .semicolon) (hcondition : IsValue kind (m + 1) l)
    (hsecond : kind l = .semicolon) (hupdate : IsForUpdate kind (l + 1) n)
    (hclose : kind n = .rightParen) (hblock : IsBlock kind (n + 1) j) (levels : Nat) :
    Leads kind (forStatement levels (statementsBelow levels)) i j :=
  (Reaches.skip (by simp [hword])).next fun _ ↦ .here <|
    (Reaches.expectMark hopen (by simp)).discard.next fun _ ↦ .matchingClose hpairs <|
      (hstart.leads_forStart hfirst levels).next fun _ ↦
        (leads_forCondition hcondition hsecond levels).next fun _ ↦
          (hupdate.leads_forUpdate hclose levels).next fun _ ↦ .here <| .ifNot (by simp) <|
            (Reaches.expectMark hclose (by simp)).discard.next fun _ ↦
              .inBlock _ (hblock.leads levels _)

end

end FrontEnd
