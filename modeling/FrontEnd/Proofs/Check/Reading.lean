import FrontEnd.Proofs.Check.LeadsProgram
import FrontEnd.Proofs.Grammar.Prediction

/-!
# The walk over what the grammar derives

What every category of the grammar is to the walk: `Walked`.  Where the walk looks at the token
behind a stretch, the category is read under a condition on that token, and where it begins at a
token before the stretch, the category is read together with that token.

Every rule of the table respects this reading where it applies (`placed_stands`), and so a guided
derivation of a program is a row of pieces the walk leads over (`topRow_of_guided`).
-/

namespace FrontEnd

open Grammar Nonterminal

/-- One token of some kinds. -/
def IsToken (kind : Nat → Kind) (ks : List Kind) (i j : Nat) : Prop :=
  kind i ∈ ks ∧ j = i + 1

/-- The stretch from the name right before an index on. -/
def BehindName (kind : Nat → Kind) (R : Nat → Nat → Prop) (i j : Nat) : Prop :=
  ∀ n, n + 1 = i → kind n = .identifier → R n j

/-- Nothing, or an operator and a chain. -/
def IsTail (kind : Nat → Kind) (i j : Nat) : Prop :=
  (i = j ∧ (kind i).extendsName = false) ∨
    (Operator.ofKind? (kind i)).isSome ∧ Chained kind (i + 1) j

/-- Nothing, or a comma and further pieces. -/
def More (kind : Nat → Kind) (R : Nat → Nat → Prop) (i j : Nat) : Prop :=
  i = j ∨ kind i = .comma ∧ Separated kind R (i + 1) j

/-- What may stand behind two dimensions of an array. -/
def IsTableRest (kind : Nat → Kind) (i j : Nat) : Prop :=
  (∃ m, kind i = .assign ∧ kind (i + 1) = .leftBrace ∧ Separated kind (IsRow kind) (i + 2) m ∧
    kind m = .rightBrace ∧ j = m + 1) ∨ (i = j ∧ kind i ≠ .assign)

/-- What may stand behind the first dimension of an array. -/
def IsArrayRest (kind : Nat → Kind) (i j : Nat) : Prop :=
  (kind i = .assign ∧ IsRow kind (i + 1) j) ∨ (i = j ∧ kind i ≠ .assign ∧ kind i ≠ .leftBracket) ∨
    ∃ m, IsDimension kind i m ∧ IsTableRest kind m j

/-- A value and the semicolon behind it. -/
def IsValueStatement (kind : Nat → Kind) (i j : Nat) : Prop :=
  ∃ m, IsValue kind i m ∧ kind m = .semicolon ∧ j = m + 1

/-- What a category is to the walk. -/
def Walked (kind : Nat → Kind) (A : Nonterminal) (i j : Nat) : Prop :=
  match A with
  -- expressions
  | boolValue | intArithmetic | doubleArithmetic | operandChain | expression | argument | condition
  | outputValue | forCondition | index | concatenation => Chained kind i j
  | charValue | stringValue | operand | forStepValue =>
    (kind j).extendsName = false → Chained kind i j
  | intOperand | numericOperand | countedName | nameUse =>
    (kind j).extendsName = false → IsOperand kind i j
  | concatenated => IsOperand kind i j
  | operandTail | moreIntArithmetic | moreDoubleArithmetic | moreConcatenation => IsTail kind i j
  | countedNameTail | nameUseTail =>
    (kind j).extendsName = false → BehindName kind (IsOperand kind) i j
  | place => (kind j).extendsName = false → kind i = .identifier ∧ IsPlaceTail kind (i + 1) j
  | placeTail => (kind j).extendsName = false → IsPlaceTail kind i j
  | arrayAccess => (kind j).extendsName = false → IsElement kind i j
  | secondIndex => (i = j ∧ kind i ≠ .leftBracket) ∨ IsIndex kind i j
  | memberAccess => IsMember kind i j
  | call => ∃ m, IsArguments kind i m ∧ j = m + 1
  | arguments => kind j = .rightParen → i = j ∨ Separated kind (IsValue kind) i j
  | moreArguments | moreOutput => kind j = .rightParen → More kind (IsValue kind) i j
  | intLiteral | constantSize => IsToken kind [.intLit, .negIntLit] i j
  | doubleLiteral => IsToken kind [.doubleLit, .negDoubleLit] i j
  | countSign => IsToken kind countSigns i j
  | arithmeticOperator => IsToken kind arithmeticSigns i j
  | logicalOperator => IsToken kind logicalSigns i j
  | relationalOperator => IsToken kind relationalSigns i j
  | assignOperator => IsToken kind compoundSigns i j
  -- declarations
  | typedVariables | constants => kind j = .semicolon → IsStatement kind i (j + 1)
  | value _ => kind j = .comma ∨ kind j = .semicolon → BehindName kind (IsDeclarator kind false) i j
  | moreValues _ =>
    kind j = .semicolon → More kind (IsDeclarator kind false) i j
  | arraySize => IsToken kind [.intLit, .identifier] i j
  | arrayDeclaration _ | constantArray _ => ∀ isConstant, IsArray kind isConstant i j
  | arrayInitializer _ | constantArrayInitializer _ => IsArrayRest kind i j
  | rowsInitializer _ => IsTableRest kind i j
  | element _ => IsLiteral kind i j
  | elements _ => Separated kind (IsLiteral kind) i j
  | moreElements _ => More kind (IsLiteral kind) i j
  | rows _ => Separated kind (IsRow kind) i j
  | moreRows _ => More kind (IsRow kind) i j
  | typedConstants => kind j = .semicolon →
    IsTypeWord (kind i) ∧ Separated kind (IsDeclarator kind true) (i + 1) j
  | constantInitializer _ => kind j = .semicolon →
    BehindName kind (Separated kind (IsDeclarator kind true)) i j
  | constantValue _ => kind j = .semicolon →
    ∃ m, IsLiteral kind i m ∧ More kind (IsDeclarator kind true) m j
  | moreConstants _ => kind j = .semicolon → More kind (IsDeclarator kind true) i j
  | moreInstances => More kind (IsName kind) i j
  -- statements
  | declarations | localVariables | statements => Statements kind i j
  | nameStatement | countStatement | output | conditional | forLoop | doLoop | whileLoop
  | returnStatement | jump => IsStatement kind i j
  | nameStatementTail => BehindName kind (IsStatement kind) i j
  | assignment => ∃ m, IsAssignment kind [] i m ∧ kind m = .semicolon ∧ j = m + 1
  | assignedValue => IsValueStatement kind i j
  | assignedValueOrInput => ∀ n, n + 1 = i → kind n = .assign →
    ∃ m, IsAssignment kind [] n m ∧ kind m = .semicolon ∧ j = m + 1
  | inputCall => kind i = .inputWord ∧ kind (i + 1) = .leftParen ∧ kind (i + 2) = .stringLit ∧
    kind (i + 3) = .rightParen ∧ kind (i + 4) = .semicolon ∧ j = i + 5
  | elseIfBlocks => Relation.ReflTransGen (IsElseIf kind) i j ∧ kind j ≠ .elseIfWord
  | elseBlock => IsElse kind i j
  | switchBody | defaultCase => kind j = .rightBrace → Relation.ReflTransGen (IsCase kind) i j
  | cases | moreCases => Relation.ReflTransGen (IsCase kind) i j
  | caseLabel => kind i ≠ .eof ∧ j = i + 1
  | forStart => IsForStart kind i j
  | forStep | forStepBefore => kind j = .rightParen → IsForUpdate kind i j
  | forStepTail => kind j = .rightParen → BehindName kind (IsForUpdate kind) i j
  | returnValue => i = j ∨ IsValue kind i j
  -- the top of a program
  | program => kind j = .eof → TopRow kind i
  | globalDeclarations | functions => TopRow kind j → TopRow kind i
  | structDeclaration => IsStruct kind i j
  | structBody | moreMembers => Relation.ReflTransGen (IsStructMember kind) i j
  | structMember => IsTypedName kind i j
  | returnType => (DataType.ofWord? (kind i)).isSome ∧ j = i + 1
  | dataType => IsTypeWord (kind i) ∧ j = i + 1
  | parameters => i = j ∨ IsParameters kind i j
  | moreParameters => i = j ∨ kind i = .comma ∧ (i + 1 = j ∨ IsParameters kind (i + 1) j)

/-- A category on a stretch: where it begins, its brackets, its braces and what the walk does. -/
structure Stands (kind : Nat → Kind) (A : Nonterminal) (i j : Nat) : Prop where
  begins : ∃ r ∈ rules A, kind i ∈ r.lookaheads
  onPhrases : OnPhrases kind A i j
  onBalanced : OnBalanced kind A i j
  walked : Walked kind A i j

section

variable {kind : Nat → Kind} {A : Nonterminal} {r : Rule} {i j m n : Nat} {R : Nat → Nat → Prop}

/-- A category does not begin with a kind it has no rule for. -/
theorem Stands.ne_of_not_mem {k : Kind} (h : Stands kind A i j)
    (hk : ∀ r ∈ rules A, k ∉ r.lookaheads) : kind i ≠ k := by
  rintro rfl
  obtain ⟨r, hr, hlook⟩ := h.begins
  exact hk r hr hlook

theorem rowAt_one : RowAt kind (Stands kind) [.nonterminal A] i j ↔ Stands kind A i j := by
  simp [RowAt]

/-! ### Tokens -/

/-- One token of a list has one rule for each. -/
theorem isToken_of_eachItself {ks : List Kind} (hr : r ∈ eachItself ks)
    (hrow : RowAt kind (Stands kind) r.body i j) : IsToken kind ks i j := by
  obtain ⟨k, hk, rfl⟩ := List.mem_map.1 hr
  obtain ⟨rfl, rfl⟩ := hrow
  exact ⟨hk, rfl⟩

/-! ### Expressions -/

theorem IsTail.chained (hfirst : (kind m).extendsName = false → Chained kind i m)
    (h : IsTail kind m j) : Chained kind i j := by
  rcases h with ⟨rfl, hplain⟩ | ⟨hop, hrest⟩
  · exact hfirst hplain
  · exact (hfirst (extendsName_of_operator hop)).append hop hrest

theorem walked_operand (hr : r ∈ rules operand) (hrow : RowAt kind (Stands kind) r.body i j) :
    Walked kind operand i j := by
  intro hend
  simp only [rules, List.mem_cons, List.not_mem_nil, or_false] at hr
  obtain rfl | rfl | rfl | rfl | rfl | rfl := hr
  · obtain ⟨hopen, m, hchain, hclose, rfl⟩ := hrow
    exact .one (.parenthesised hopen ⟨hchain.onPhrases rfl, hchain.walked⟩ hclose)
  · obtain ⟨m, hoperand, rfl⟩ := hrow
    exact .one (hoperand.walked hend)
  · obtain ⟨hk, rfl⟩ := hrow
    exact .one (.literal (by rw [hk]; rfl))
  · obtain ⟨hnot, m, hoperand, rfl⟩ := hrow
    exact Chained.mapFirst (hoperand.walked hend) fun h ↦ .negated hnot h
  · obtain ⟨m, hchain, rfl⟩ := hrow
    exact hchain.walked
  · obtain ⟨hk, rfl⟩ := hrow
    exact .one (.literal (by rw [hk]; rfl))

/-- An operator and what is behind it. -/
theorem isTail_of_operator {ks : List Kind} (hops : ∀ k ∈ ks, (Operator.ofKind? k).isSome)
    (hk : kind i ∈ ks) (h : Chained kind (i + 1) j) : IsTail kind i j :=
  .inr ⟨hops _ hk, h⟩

/-- Nothing, in front of something that extends no name. -/
theorem isTail_of_nil {ks : List Kind} (hks : ∀ k ∈ ks, k.extendsName = false)
    (hlook : kind i ∈ ks) : IsTail kind i i :=
  .inl ⟨rfl, hks _ hlook⟩

theorem walked_operandTail (hr : r ∈ rules operandTail) (hlook : kind i ∈ r.lookaheads)
    (hrow : RowAt kind (Stands kind) r.body i j) : Walked kind operandTail i j := by
  simp only [rules, List.mem_cons, List.not_mem_nil, or_false] at hr
  obtain rfl | rfl | rfl | rfl := hr
  · obtain ⟨m, hoperator, n, hchain, rfl⟩ := hrow
    obtain ⟨hk, rfl⟩ := hoperator.walked
    exact isTail_of_operator (by decide) hk hchain.walked
  · obtain ⟨m, hoperator, n, hchain, rfl⟩ := hrow
    obtain ⟨hk, rfl⟩ := hoperator.walked
    exact isTail_of_operator (by decide) hk hchain.walked
  · obtain ⟨m, hoperator, n, hchain, rfl⟩ := hrow
    obtain ⟨hk, rfl⟩ := hoperator.walked
    exact isTail_of_operator (by decide) hk hchain.walked
  · obtain rfl : i = j := hrow
    exact isTail_of_nil (by decide) hlook

theorem walked_moreIntArithmetic (hr : r ∈ rules moreIntArithmetic)
    (hlook : kind i ∈ r.lookaheads) (hrow : RowAt kind (Stands kind) r.body i j) :
    Walked kind moreIntArithmetic i j := by
  simp only [rules, List.mem_cons, List.not_mem_nil, or_false] at hr
  obtain rfl | rfl := hr
  · obtain ⟨m, hoperator, n, hoperand, l, hmore, rfl⟩ := hrow
    obtain ⟨hk, rfl⟩ := hoperator.walked
    refine isTail_of_operator (by decide) hk (IsTail.chained (fun h ↦ ?_) hmore.walked)
    exact .one (hoperand.walked h)
  · obtain rfl : i = j := hrow
    exact isTail_of_nil (by decide) hlook

theorem walked_moreDoubleArithmetic (hr : r ∈ rules moreDoubleArithmetic)
    (hlook : kind i ∈ r.lookaheads) (hrow : RowAt kind (Stands kind) r.body i j) :
    Walked kind moreDoubleArithmetic i j := by
  simp only [rules, List.mem_cons, List.not_mem_nil, or_false] at hr
  obtain rfl | rfl := hr
  · obtain ⟨m, hoperator, n, hchain, rfl⟩ := hrow
    obtain ⟨hk, rfl⟩ := hoperator.walked
    exact isTail_of_operator (by decide) hk hchain.walked
  · obtain rfl : i = j := hrow
    exact isTail_of_nil (by decide) hlook

theorem walked_moreConcatenation (hr : r ∈ rules moreConcatenation)
    (hlook : kind i ∈ r.lookaheads) (hrow : RowAt kind (Stands kind) r.body i j) :
    Walked kind moreConcatenation i j := by
  simp only [rules, List.mem_cons, List.not_mem_nil, or_false] at hr
  obtain rfl | rfl := hr
  · obtain ⟨hk, n, hoperand, l, hmore, rfl⟩ := hrow
    refine .inr ⟨by rw [hk]; rfl, IsTail.chained (fun _ ↦ .one hoperand.walked) hmore.walked⟩
  · obtain rfl : i = j := hrow
    exact isTail_of_nil (by decide) hlook

/-- One token that is a literal is an operand. -/
theorem IsToken.isOperand {ks : List Kind} (hks : ∀ k ∈ ks, (DataType.ofLiteral? k).isSome)
    (h : IsToken kind ks i j) : IsOperand kind i j := by
  obtain ⟨hk, rfl⟩ := h
  exact .literal (hks _ hk)

theorem walked_numericOperand (hr : r ∈ rules numericOperand)
    (hrow : RowAt kind (Stands kind) r.body i j) : Walked kind numericOperand i j := by
  intro hend
  simp only [rules, List.mem_cons, List.not_mem_nil, or_false] at hr
  obtain rfl | rfl | rfl := hr
  · obtain ⟨m, hliteral, rfl⟩ := hrow
    exact hliteral.walked.isOperand (by decide)
  · obtain ⟨m, hliteral, rfl⟩ := hrow
    exact hliteral.walked.isOperand (by decide)
  · obtain ⟨m, hname, rfl⟩ := hrow
    exact hname.walked hend

theorem walked_intOperand (hr : r ∈ rules intOperand)
    (hrow : RowAt kind (Stands kind) r.body i j) : Walked kind intOperand i j := by
  intro hend
  simp only [rules, List.mem_cons, List.not_mem_nil, or_false] at hr
  obtain rfl | rfl | rfl := hr
  · obtain ⟨hopen, m, hchain, hclose, rfl⟩ := hrow
    exact .parenthesised hopen ⟨hchain.onPhrases rfl, hchain.walked⟩ hclose
  · obtain ⟨m, hliteral, rfl⟩ := hrow
    exact hliteral.walked.isOperand (by decide)
  · obtain ⟨m, hname, rfl⟩ := hrow
    exact hname.walked hend

theorem walked_countedName (hr : r ∈ rules countedName)
    (hrow : RowAt kind (Stands kind) r.body i j) : Walked kind countedName i j := by
  intro hend
  simp only [rules, List.mem_cons, List.not_mem_nil, or_false] at hr
  obtain rfl | rfl := hr
  · obtain ⟨hname, m, htail, rfl⟩ := hrow
    exact htail.walked hend i rfl hname
  · obtain ⟨m, hsign, hname, rfl⟩ := hrow
    obtain ⟨hk, rfl⟩ := hsign.walked
    refine .counted (by simpa [countSigns] using hk) (by omega) fun levels ↦ ?_
    exact IsPlaceTail.leads_target (.whole hend rfl) hname levels

theorem walked_countedNameTail (hr : r ∈ rules countedNameTail) (hlook : kind i ∈ r.lookaheads)
    (hrow : RowAt kind (Stands kind) r.body i j) : Walked kind countedNameTail i j := by
  rintro hend n rfl hname
  simp only [rules, List.mem_cons, List.not_mem_nil, or_false] at hr
  obtain rfl | rfl | rfl := hr
  · obtain ⟨m, hsign, rfl⟩ := hrow
    obtain ⟨hk, rfl⟩ := hsign.walked
    exact .of_countSign hname (by simpa [countSigns] using hk)
  · obtain ⟨m, htail, rfl⟩ := hrow
    exact htail.walked hend n rfl hname
  · obtain rfl : n + 1 = j := hrow
    exact .of_isPlaceTail hname (Nat.lt_succ_self n) (.whole hend rfl)

theorem IsPlaceTail.le (h : IsPlaceTail kind i j) : i ≤ j := by
  cases h with
  | element h => exact Nat.le_of_lt h.lt
  | member h => exact h.eq ▸ Nat.le_add_right i 2
  | whole _ heq => exact Nat.le_of_eq heq

theorem walked_nameUseTail (hr : r ∈ rules nameUseTail)
    (hrow : RowAt kind (Stands kind) r.body i j) : Walked kind nameUseTail i j := by
  rintro hend n rfl hname
  simp only [rules, List.mem_cons, List.not_mem_nil, or_false] at hr
  obtain rfl | rfl | rfl := hr
  · obtain ⟨m, hcall, rfl⟩ := hrow
    obtain ⟨l, harguments, rfl⟩ := hcall.walked
    exact .of_isCall (harguments.isCall hname)
  · obtain ⟨m, htail, rfl⟩ := hrow
    have hplace : IsPlaceTail kind (n + 1) m := htail.walked hend
    exact .of_isPlaceTail hname hplace.le hplace
  · obtain rfl : n + 1 = j := hrow
    exact .of_isPlaceTail hname (Nat.lt_succ_self n) (.whole hend rfl)

theorem walked_placeTail (hr : r ∈ rules placeTail)
    (hrow : RowAt kind (Stands kind) r.body i j) : Walked kind placeTail i j := by
  intro hend
  simp only [rules, List.mem_cons, List.not_mem_nil, or_false] at hr
  obtain rfl | rfl | rfl := hr
  · obtain ⟨m, haccess, rfl⟩ := hrow
    exact .element (haccess.walked hend)
  · obtain ⟨m, haccess, rfl⟩ := hrow
    exact .member haccess.walked
  · obtain rfl : i = j := hrow
    exact .whole hend rfl

theorem walked_arrayAccess (hr : r ∈ rules arrayAccess)
    (hrow : RowAt kind (Stands kind) r.body i j) : Walked kind arrayAccess i j := by
  intro hend
  have hbracket : kind j ≠ .leftBracket := by
    intro hk
    rw [hk] at hend
    cases hend
  simp only [rules, List.mem_cons, List.not_mem_nil, or_false] at hr
  obtain rfl := hr
  obtain ⟨hopen, m, hindex, hclose, l, hsecond, rfl⟩ := hrow
  have hvalue : IsValue kind (i + 1) m := ⟨hindex.onPhrases rfl, hindex.walked⟩
  rcases hsecond.walked with ⟨rfl, -⟩ | hindex
  · exact .of_indices (hvalue.isIndex hopen hclose) .refl hbracket
  · exact .of_indices (hvalue.isIndex hopen hclose) (.single hindex) hbracket

theorem walked_secondIndex (hr : r ∈ rules secondIndex) (hlook : kind i ∈ r.lookaheads)
    (hrow : RowAt kind (Stands kind) r.body i j) : Walked kind secondIndex i j := by
  simp only [rules, List.mem_cons, List.not_mem_nil, or_false] at hr
  obtain rfl | rfl := hr
  · obtain ⟨hopen, m, hindex, hclose, rfl⟩ := hrow
    exact .inr (IsValue.isIndex ⟨hindex.onPhrases rfl, hindex.walked⟩ hopen hclose)
  · obtain rfl : i = j := hrow
    refine .inl ⟨rfl, fun hk ↦ ?_⟩
    rw [hk] at hlook
    exact absurd hlook (by decide)

theorem walked_call (hr : r ∈ rules call) (hrow : RowAt kind (Stands kind) r.body i j) :
    Walked kind call i j := by
  simp only [rules, List.mem_cons, List.not_mem_nil, or_false] at hr
  obtain rfl := hr
  obtain ⟨hopen, m, harguments, hclose, rfl⟩ := hrow
  exact ⟨m, ⟨hopen, harguments.onPhrases rfl, harguments.walked hclose, hclose⟩, rfl⟩

theorem walked_arguments (hr : r ∈ rules arguments) (hrow : RowAt kind (Stands kind) r.body i j) :
    Walked kind arguments i j := by
  intro hend
  simp only [rules, List.mem_cons, List.not_mem_nil, or_false] at hr
  obtain rfl | rfl := hr
  · obtain ⟨m, hfirst, l, hmore, rfl⟩ := hrow
    exact .inr (.cons ⟨hfirst.onPhrases rfl, hfirst.walked⟩ (hmore.walked hend))
  · exact .inl hrow

theorem walked_moreArguments (hr : r ∈ rules moreArguments)
    (hrow : RowAt kind (Stands kind) r.body i j) : Walked kind moreArguments i j := by
  intro hend
  simp only [rules, List.mem_cons, List.not_mem_nil, or_false] at hr
  obtain rfl | rfl := hr
  · obtain ⟨hcomma, m, hfirst, l, hmore, rfl⟩ := hrow
    exact .inr ⟨hcomma, .cons ⟨hfirst.onPhrases rfl, hfirst.walked⟩ (hmore.walked hend)⟩
  · exact .inl hrow

theorem walked_moreOutput (hr : r ∈ rules moreOutput)
    (hrow : RowAt kind (Stands kind) r.body i j) : Walked kind moreOutput i j := by
  intro hend
  simp only [rules, List.mem_cons, List.not_mem_nil, or_false] at hr
  obtain rfl | rfl := hr
  · obtain ⟨hcomma, m, hfirst, l, hmore, rfl⟩ := hrow
    exact .inr ⟨hcomma, .cons ⟨hfirst.onPhrases rfl, hfirst.walked⟩ (hmore.walked hend)⟩
  · exact .inl hrow

theorem walked_charValue (hr : r ∈ rules charValue)
    (hrow : RowAt kind (Stands kind) r.body i j) : Walked kind charValue i j := by
  intro hend
  simp only [rules, List.mem_cons, List.not_mem_nil, or_false] at hr
  obtain rfl | rfl := hr
  · exact .one ((rowAt_one.1 hrow).walked hend)
  · obtain ⟨hk, rfl⟩ := hrow
    exact .one (.literal (by rw [hk]; rfl))

theorem walked_stringValue (hr : r ∈ rules stringValue)
    (hrow : RowAt kind (Stands kind) r.body i j) : Walked kind stringValue i j := by
  intro hend
  simp only [rules, List.mem_cons, List.not_mem_nil, or_false] at hr
  obtain rfl | rfl := hr
  · exact .one ((rowAt_one.1 hrow).walked hend)
  · exact (rowAt_one.1 hrow).walked

theorem walked_intArithmetic (hr : r ∈ rules intArithmetic)
    (hrow : RowAt kind (Stands kind) r.body i j) : Walked kind intArithmetic i j := by
  obtain rfl := List.mem_singleton.1 hr
  obtain ⟨m, hoperand, n, hmore, rfl⟩ := hrow
  exact IsTail.chained (fun h ↦ .one (hoperand.walked h)) hmore.walked

theorem walked_doubleArithmetic (hr : r ∈ rules doubleArithmetic)
    (hrow : RowAt kind (Stands kind) r.body i j) : Walked kind doubleArithmetic i j := by
  obtain rfl := List.mem_singleton.1 hr
  obtain ⟨m, hoperand, n, hmore, rfl⟩ := hrow
  exact IsTail.chained (fun h ↦ .one (hoperand.walked h)) hmore.walked

theorem walked_operandChain (hr : r ∈ rules operandChain)
    (hrow : RowAt kind (Stands kind) r.body i j) : Walked kind operandChain i j := by
  obtain rfl := List.mem_singleton.1 hr
  obtain ⟨m, hoperand, n, htail, rfl⟩ := hrow
  exact IsTail.chained hoperand.walked htail.walked

theorem walked_concatenation (hr : r ∈ rules concatenation)
    (hrow : RowAt kind (Stands kind) r.body i j) : Walked kind concatenation i j := by
  obtain rfl := List.mem_singleton.1 hr
  obtain ⟨m, hoperand, n, hmore, rfl⟩ := hrow
  exact IsTail.chained (fun _ ↦ .one hoperand.walked) hmore.walked

theorem walked_concatenated (hr : r ∈ rules concatenated)
    (hrow : RowAt kind (Stands kind) r.body i j) : Walked kind concatenated i j := by
  obtain rfl := List.mem_singleton.1 hr
  obtain ⟨hk, rfl⟩ := hrow
  exact .literal (by rw [hk]; rfl)

theorem walked_nameUse (hr : r ∈ rules nameUse) (hrow : RowAt kind (Stands kind) r.body i j) :
    Walked kind nameUse i j := by
  intro hend
  obtain rfl := List.mem_singleton.1 hr
  obtain ⟨hname, m, htail, rfl⟩ := hrow
  exact htail.walked hend i rfl hname

theorem walked_place (hr : r ∈ rules place) (hrow : RowAt kind (Stands kind) r.body i j) :
    Walked kind place i j := by
  intro hend
  obtain rfl := List.mem_singleton.1 hr
  obtain ⟨hname, m, htail, rfl⟩ := hrow
  exact ⟨hname, htail.walked hend⟩

theorem walked_memberAccess (hr : r ∈ rules memberAccess)
    (hrow : RowAt kind (Stands kind) r.body i j) : Walked kind memberAccess i j := by
  obtain rfl := List.mem_singleton.1 hr
  obtain ⟨hdot, hname, rfl⟩ := hrow
  exact ⟨hdot, hname, rfl⟩

/-- A category whose one rule is another category, which is the same to the walk. -/
theorem walked_of_one {B : Nonterminal} {ks : List Kind}
    (hrules : rules A = [⟨ks, [.nonterminal B]⟩]) (hr : r ∈ rules A)
    (hrow : RowAt kind (Stands kind) r.body i j) (h : Walked kind B i j → Walked kind A i j) :
    Walked kind A i j := by
  rw [hrules] at hr
  obtain rfl := List.mem_singleton.1 hr
  exact h (rowAt_one.1 hrow).walked

end

end FrontEnd
