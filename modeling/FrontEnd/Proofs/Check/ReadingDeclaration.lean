import FrontEnd.Proofs.Check.Reading

/-!
# The walk over the declarations that the grammar derives

The categories of arrays, variables, constants and instances.  A declaration ends in front of its
semicolon, and what an initializer ends with is seen from there.
-/

namespace FrontEnd

open Check Grammar Nonterminal

section

variable {kind : Nat → Kind} {r : Rule} {i j m : Nat} {t : Primitive}
  {α : List GrammarSymbol}

/-! ### Arrays -/

theorem isTypeWord_word (t : Primitive) : IsTypeWord t.word := by
  cases t <;> exact ⟨_, rfl, rfl⟩

/-- A row that a literal of a type begins. -/
theorem isLiteral_of_rowAt (h : RowAt kind (Stands kind) (literal t :: α) i j) :
    IsLiteral kind i (i + 1) ∧ RowAt kind (Stands kind) α (i + 1) j := by
  have hterminal {k : Kind} (hk : (DataType.ofLiteral? k).isSome)
      (h : RowAt kind (Stands kind) (.terminal k :: α) i j) :
      IsLiteral kind i (i + 1) ∧ RowAt kind (Stands kind) α (i + 1) j :=
    ⟨⟨h.1 ▸ hk, rfl⟩, h.2⟩
  have hcategory {ks : List Kind} (hks : ∀ k ∈ ks, (DataType.ofLiteral? k).isSome)
      (h : ∃ m, IsToken kind ks i m ∧ RowAt kind (Stands kind) α m j) :
      IsLiteral kind i (i + 1) ∧ RowAt kind (Stands kind) α (i + 1) j := by
    obtain ⟨m, ⟨hk, rfl⟩, hrow⟩ := h
    exact ⟨⟨hks _ hk, rfl⟩, hrow⟩
  cases t with
  | int => exact hcategory (by decide) (h.imp fun _ h ↦ ⟨h.1.walked, h.2⟩)
  | double => exact hcategory (by decide) (h.imp fun _ h ↦ ⟨h.1.walked, h.2⟩)
  | bool => exact hterminal rfl h
  | char => exact hterminal rfl h
  | string => exact hterminal rfl h

theorem walked_element (hr : r ∈ rules (element t)) (hrow : RowAt kind (Stands kind) r.body i j) :
    Walked kind (element t) i j := by
  obtain rfl := List.mem_singleton.1 hr
  obtain ⟨hliteral, rfl⟩ := isLiteral_of_rowAt hrow
  exact hliteral

theorem walked_elements (hr : r ∈ rules (elements t))
    (hrow : RowAt kind (Stands kind) r.body i j) : Walked kind (elements t) i j := by
  obtain rfl := List.mem_singleton.1 hr
  obtain ⟨m, hfirst, n, hmore, rfl⟩ := hrow
  exact .cons hfirst.walked hmore.walked

theorem walked_moreElements (hr : r ∈ rules (moreElements t))
    (hrow : RowAt kind (Stands kind) r.body i j) : Walked kind (moreElements t) i j := by
  simp only [rules, List.mem_cons, List.not_mem_nil, or_false] at hr
  obtain rfl | rfl := hr
  · obtain ⟨hcomma, m, hfirst, n, hmore, rfl⟩ := hrow
    exact .inr ⟨hcomma, .cons hfirst.walked hmore.walked⟩
  · exact .inl hrow

theorem walked_rows (hr : r ∈ rules (rows t)) (hrow : RowAt kind (Stands kind) r.body i j) :
    Walked kind (rows t) i j := by
  obtain rfl := List.mem_singleton.1 hr
  obtain ⟨hopen, m, helements, hclose, n, hmore, rfl⟩ := hrow
  exact .cons (isRow_of_literals hopen helements.walked hclose) hmore.walked

theorem walked_moreRows (hr : r ∈ rules (moreRows t))
    (hrow : RowAt kind (Stands kind) r.body i j) : Walked kind (moreRows t) i j := by
  simp only [rules, List.mem_cons, List.not_mem_nil, or_false] at hr
  obtain rfl | rfl := hr
  · obtain ⟨hcomma, m, hrows, rfl⟩ := hrow
    exact .inr ⟨hcomma, hrows.walked⟩
  · exact .inl hrow

theorem walked_rowsInitializer (hr : r ∈ rules (rowsInitializer t)) (hlook : kind i ∈ r.lookaheads)
    (hrow : RowAt kind (Stands kind) r.body i j) : Walked kind (rowsInitializer t) i j := by
  simp only [rules, List.mem_cons, List.not_mem_nil, or_false] at hr
  obtain rfl | rfl := hr
  · obtain ⟨hassign, hopen, m, hrows, hclose, rfl⟩ := hrow
    exact .inl ⟨m, hassign, hopen, hrows.walked, hclose, rfl⟩
  · refine .inr ⟨hrow, fun hk ↦ ?_⟩
    rw [hk] at hlook
    exact absurd hlook (by decide)

/-- A size between brackets. -/
theorem isDimension_of_size {ks : List Kind} (hopen : kind i = .leftBracket)
    (hsize : IsToken kind ks (i + 1) m) (hks : .eof ∉ ks) (hclose : kind m = .rightBracket) :
    IsDimension kind i (m + 1) := by
  obtain ⟨hk, rfl⟩ := hsize
  exact ⟨hopen, fun heof ↦ hks (heof ▸ hk), hclose, rfl⟩

theorem walked_arrayInitializer (hr : r ∈ rules (arrayInitializer t))
    (hlook : kind i ∈ r.lookaheads) (hrow : RowAt kind (Stands kind) r.body i j) :
    Walked kind (arrayInitializer t) i j := by
  simp only [rules, List.mem_cons, List.not_mem_nil, or_false] at hr
  obtain rfl | rfl | rfl := hr
  · obtain ⟨hassign, hopen, m, helements, hclose, rfl⟩ := hrow
    exact .inl ⟨hassign, isRow_of_literals hopen helements.walked hclose⟩
  · obtain ⟨hopen, m, hsize, hclose, n, hrest, rfl⟩ := hrow
    have hsecond := isDimension_of_size hopen hsize.walked (by decide) hclose
    exact .inr (.inr ⟨m + 1, hsecond, hrest.walked⟩)
  · refine .inr (.inl ⟨hrow, fun hk ↦ ?_, fun hk ↦ ?_⟩)
    · rw [hk] at hlook
      exact absurd hlook (by decide)
    · rw [hk] at hlook
      exact absurd hlook (by decide)

theorem walked_constantArrayInitializer (hr : r ∈ rules (constantArrayInitializer t))
    (hrow : RowAt kind (Stands kind) r.body i j) :
    Walked kind (constantArrayInitializer t) i j := by
  simp only [rules, List.mem_cons, List.not_mem_nil, or_false] at hr
  obtain rfl | rfl := hr
  · obtain ⟨hassign, hopen, m, helements, hclose, rfl⟩ := hrow
    exact .inl ⟨hassign, isRow_of_literals hopen helements.walked hclose⟩
  · obtain ⟨hopen, m, hsize, hclose, n, hrest, rfl⟩ := hrow
    have hsecond := isDimension_of_size hopen hsize.walked (by decide) hclose
    exact .inr (.inr ⟨m + 1, hsecond, hrest.walked⟩)

theorem IsDimension.isArray {isConstant : Bool} (h : IsDimension kind i m)
    (hrest : IsArrayRest kind m j) : IsArray kind isConstant i j := by
  rcases hrest with hrow | hnone | ⟨n, hsecond, hrest⟩
  · exact h.isArray_row (.inl hrow)
  · exact h.isArray_row (.inr hnone)
  · exact h.isArray_table hsecond hrest

theorem walked_arrayDeclaration (hr : r ∈ rules (arrayDeclaration t))
    (hrow : RowAt kind (Stands kind) r.body i j) : Walked kind (arrayDeclaration t) i j := by
  obtain rfl := List.mem_singleton.1 hr
  obtain ⟨hopen, m, hsize, hclose, n, hrest, rfl⟩ := hrow
  exact fun _ ↦ (isDimension_of_size hopen hsize.walked (by decide) hclose).isArray hrest.walked

theorem walked_constantArray (hr : r ∈ rules (constantArray t))
    (hrow : RowAt kind (Stands kind) r.body i j) : Walked kind (constantArray t) i j := by
  obtain rfl := List.mem_singleton.1 hr
  obtain ⟨hopen, m, hsize, hclose, n, hrest, rfl⟩ := hrow
  exact fun _ ↦ (isDimension_of_size hopen hsize.walked (by decide) hclose).isArray hrest.walked

/-! ### Variables -/

/-- The value a variable is declared with. -/
theorem Stands.isValue_of_initialValue (h : Stands kind (initialValue t) i j)
    (hend : (kind j).extendsName = false) : IsValue kind i j := by
  cases t with
  | int => exact ⟨h.onPhrases rfl, h.walked⟩
  | double => exact ⟨h.onPhrases rfl, h.walked⟩
  | bool => exact ⟨h.onPhrases rfl, h.walked⟩
  | char => exact ⟨h.onPhrases rfl, h.walked hend⟩
  | string => exact ⟨h.onPhrases rfl, h.walked hend⟩

theorem walked_value (hr : r ∈ rules (value t)) (hlook : kind i ∈ r.lookaheads)
    (hrow : RowAt kind (Stands kind) r.body i j) : Walked kind (value t) i j := by
  rintro hend n rfl hname
  simp only [rules, List.mem_cons, List.not_mem_nil, or_false] at hr
  obtain rfl | rfl | rfl := hr
  · obtain ⟨hassign, m, hvalue, rfl⟩ := hrow
    have hinput : kind (n + 2) ≠ .inputWord := hvalue.ne_of_not_mem (by cases t <;> decide)
    have hnext : (kind m).extendsName = false ∧ (kind m).endsExpression [.comma] := by
      rcases hend with hk | hk <;> rw [hk] <;> decide
    exact .of_isValue hname hassign (hvalue.isValue_of_initialValue hnext.1) hnext.2 hinput
  · obtain ⟨m, harray, rfl⟩ := hrow
    exact .of_isArray hname (harray.walked false)
  · obtain rfl : n + 1 = j := hrow
    refine .of_name hname (fun hk ↦ ?_) fun hk ↦ ?_
    · rw [hk] at hlook
      exact absurd hlook (by decide)
    · rw [hk] at hlook
      exact absurd hlook (by decide)

/-- A name with its value and those behind it. -/
theorem separated_of_value (hname : kind i = .identifier) (hvalue : Walked kind (value t) (i + 1) m)
    (hmore : More kind (IsDeclarator kind false) m j) (hend : kind j = .semicolon) :
    Separated kind (IsDeclarator kind false) i j := by
  have hnext : kind m = .comma ∨ kind m = .semicolon := by
    rcases hmore with rfl | ⟨hcomma, -⟩
    · exact .inr hend
    · exact .inl hcomma
  exact .cons (hvalue hnext i rfl hname) hmore

theorem walked_moreValues (hr : r ∈ rules (moreValues t))
    (hrow : RowAt kind (Stands kind) r.body i j) : Walked kind (moreValues t) i j := by
  intro hend
  simp only [rules, List.mem_cons, List.not_mem_nil, or_false] at hr
  obtain rfl | rfl := hr
  · obtain ⟨hcomma, hname, m, hvalue, n, hmore, rfl⟩ := hrow
    exact .inr ⟨hcomma, separated_of_value hname hvalue.walked (hmore.walked hend) hend⟩
  · exact .inl hrow

theorem isStatement_of_variables (hword : kind i = t.word)
    (h : Separated kind (IsDeclarator kind false) (i + 1) j) (hend : kind j = .semicolon) :
    IsStatement kind i (j + 1) := by
  have hleads := leads_variableDeclaration (hword ▸ isTypeWord_word t) h hend
  cases t <;>
    exact .of_kind hword rfl (by decide) (fun _ _ ht ↦ by simp only [ordinaryStatement, ht]; rfl)
      hleads

theorem walked_typedVariables (hr : r ∈ rules typedVariables)
    (hrow : RowAt kind (Stands kind) r.body i j) : Walked kind typedVariables i j := by
  intro hend
  obtain ⟨t, -, rfl⟩ := List.mem_map.1 hr
  obtain ⟨hword, hname, m, hvalue, n, hmore, rfl⟩ := hrow
  exact isStatement_of_variables hword
    (separated_of_value hname hvalue.walked (hmore.walked hend) hend) hend

/-! ### Constants and instances -/

theorem IsLiteral.isValue (h : IsLiteral kind i j) : IsValue kind i j := by
  obtain ⟨hliteral, rfl⟩ := h
  have hplain : (kind i).isPlain := by
    revert hliteral
    cases kind i <;> decide
  exact ⟨.one hplain, .one (.literal hliteral)⟩

theorem walked_constantValue (hr : r ∈ rules (constantValue t))
    (hrow : RowAt kind (Stands kind) r.body i j) : Walked kind (constantValue t) i j := by
  intro hend
  obtain rfl := List.mem_singleton.1 hr
  obtain ⟨hliteral, m, hmore, rfl⟩ := isLiteral_of_rowAt hrow
  exact ⟨i + 1, hliteral, hmore.walked hend⟩

theorem walked_constantInitializer (hr : r ∈ rules (constantInitializer t))
    (hrow : RowAt kind (Stands kind) r.body i j) : Walked kind (constantInitializer t) i j := by
  rintro hend n rfl hname
  simp only [rules, List.mem_cons, List.not_mem_nil, or_false] at hr
  obtain rfl | rfl := hr
  · obtain ⟨hassign, m, hvalue, rfl⟩ := hrow
    obtain ⟨l, hliteral, hmore⟩ := hvalue.walked hend
    have hinput : kind (n + 2) ≠ .inputWord := by
      intro hk
      have hsome := hliteral.isSome
      rw [hk] at hsome
      cases hsome
    have hnext : (kind l).endsExpression [.comma] := by
      rcases hmore with rfl | ⟨hcomma, -⟩
      · rw [hend]; rfl
      · rw [hcomma]; rfl
    exact .cons (.of_isValue hname hassign hliteral.isValue hnext hinput) hmore
  · obtain ⟨m, harray, rfl⟩ := hrow
    exact .one (.of_isArray hname (harray.walked true))

theorem walked_moreConstants (hr : r ∈ rules (moreConstants t))
    (hrow : RowAt kind (Stands kind) r.body i j) : Walked kind (moreConstants t) i j := by
  intro hend
  simp only [rules, List.mem_cons, List.not_mem_nil, or_false] at hr
  obtain rfl | rfl := hr
  · obtain ⟨hcomma, hname, m, hrest, rfl⟩ := hrow
    exact .inr ⟨hcomma, hrest.walked hend (i + 1) rfl hname⟩
  · exact .inl hrow

theorem walked_typedConstants (hr : r ∈ rules typedConstants)
    (hrow : RowAt kind (Stands kind) r.body i j) : Walked kind typedConstants i j := by
  intro hend
  obtain ⟨t, -, rfl⟩ := List.mem_map.1 hr
  obtain ⟨hword, hname, m, hrest, rfl⟩ := hrow
  exact ⟨hword ▸ isTypeWord_word t, hrest.walked hend (i + 1) rfl hname⟩

theorem walked_constants (hr : r ∈ rules constants)
    (hrow : RowAt kind (Stands kind) r.body i j) : Walked kind constants i j := by
  intro hend
  obtain rfl := List.mem_singleton.1 hr
  obtain ⟨hword, m, hrest, rfl⟩ := hrow
  obtain ⟨htype, hseparated⟩ := hrest.walked hend
  exact .of_kind hword rfl (by decide) (fun _ _ ht ↦ by simp only [ordinaryStatement, ht])
    (leads_constantDeclaration hword htype hseparated hend)

theorem walked_moreInstances (hr : r ∈ rules moreInstances)
    (hrow : RowAt kind (Stands kind) r.body i j) : Walked kind moreInstances i j := by
  simp only [rules, List.mem_cons, List.not_mem_nil, or_false] at hr
  obtain rfl | rfl := hr
  · obtain ⟨hcomma, hname, m, hmore, rfl⟩ := hrow
    exact .inr ⟨hcomma, .cons ⟨hname, rfl⟩ hmore.walked⟩
  · exact .inl hrow

theorem isStatement_of_instances (hword : kind i = .instanceWord)
    (hstruct : kind (i + 1) = .identifier) (hname : kind (i + 2) = .identifier)
    (hmore : More kind (IsName kind) (i + 3) j) (hend : kind j = .semicolon) :
    IsStatement kind i (j + 1) :=
  .of_kind hword rfl (by decide) (fun _ _ ht ↦ by simp only [ordinaryStatement, ht])
    fun _ ↦ leads_instanceDeclaration hword hstruct (.cons ⟨hname, rfl⟩ hmore) hend

theorem walked_declarations (hr : r ∈ rules declarations)
    (hrow : RowAt kind (Stands kind) r.body i j) : Walked kind declarations i j := by
  simp only [rules, List.mem_cons, List.not_mem_nil, or_false] at hr
  obtain rfl | rfl | rfl | rfl := hr
  · obtain ⟨m, hdeclaration, hend, n, hrest, rfl⟩ := hrow
    exact .head (hdeclaration.walked hend) hrest.walked
  · obtain ⟨hword, hstruct, hname, m, hmore, hend, n, hrest, rfl⟩ := hrow
    exact .head (isStatement_of_instances hword hstruct hname hmore.walked hend) hrest.walked
  · obtain ⟨m, hdeclaration, hend, n, hrest, rfl⟩ := hrow
    exact .head (hdeclaration.walked hend) hrest.walked
  · obtain rfl : i = j := hrow
    exact .refl

theorem walked_localVariables (hr : r ∈ rules localVariables)
    (hrow : RowAt kind (Stands kind) r.body i j) : Walked kind localVariables i j := by
  simp only [rules, List.mem_cons, List.not_mem_nil, or_false] at hr
  obtain rfl | rfl := hr
  · obtain ⟨m, hdeclaration, hend, n, hrest, rfl⟩ := hrow
    exact .head (hdeclaration.walked hend) hrest.walked
  · obtain rfl : i = j := hrow
    exact .refl

end

end FrontEnd
