import FrontEnd.Proofs.Check.LeadsExpression

/-!
# Where the walk over a declaration leads

Declarators and the shapes and initializers of arrays, as stretches the walk leads over.  A missing
initializer, a size that is no number or an element of another type are violations, but none that is
about the shape of the program, so they need not be ruled out here.
-/

namespace FrontEnd

open Check

/-- A declarator of a variable or of a constant. -/
def IsDeclarator (kind : Nat → Kind) (isConstant : Bool) (i j : Nat) : Prop :=
  ∀ levels type, Leads kind (declarator levels type isConstant) i j

/-- A size between brackets. -/
structure IsDimension (kind : Nat → Kind) (i j : Nat) : Prop where
  opens : kind i = .leftBracket
  size : kind (i + 1) ≠ .eof
  closes : kind (i + 2) = .rightBracket
  eq : j = i + 3

/-- A literal. -/
structure IsLiteral (kind : Nat → Kind) (i j : Nat) : Prop where
  isSome : (DataType.ofLiteral? (kind i)).isSome
  eq : j = i + 1

/-- A row of elements between braces. -/
structure IsRow (kind : Nat → Kind) (i j : Nat) : Prop where
  opens : kind i = .leftBrace
  leads : ∀ type, Leads kind (row type) i j

/-- What stands behind the name of an array that is declared. -/
structure IsArray (kind : Nat → Kind) (isConstant : Bool) (i j : Nat) : Prop where
  opens : kind i = .leftBracket
  leads : ∀ type name, Leads kind (arrayDeclarator type isConstant name) i j

/-- A name. -/
structure IsName (kind : Nat → Kind) (i j : Nat) : Prop where
  name : kind i = .identifier
  eq : j = i + 1

section

variable {kind : Nat → Kind} {i j m : Nat} {R R' : Nat → Nat → Prop} {isConstant : Bool}

namespace Separated

theorem mono (h : Separated kind R i j) (hR : ∀ i j, R i j → R' i j) : Separated kind R' i j := by
  induction h with
  | one h => exact .one (hR _ _ h)
  | more h hcomma _ ih => exact .more (hR _ _ h) hcomma ih

/-- A piece in front of pieces that a comma begins. -/
theorem cons (h : R i m) (hrest : m = j ∨ kind m = .comma ∧ Separated kind R (m + 1) j) :
    Separated kind R i j := by
  rcases hrest with rfl | ⟨hcomma, hrest⟩
  · exact .one h
  · exact .more h hcomma hrest

end Separated

/-! ### Arrays -/

theorem leads_typeWord (h : ∃ type, DataType.ofWord? (kind i) = some type ∧ type.isPrimitive)
    (wanted : Wanted) : Leads kind (typeWord wanted) i (i + 1) := by
  obtain ⟨type, htype, hprimitive⟩ := h
  have hk : kind i ≠ .eof := by
    intro heof
    rw [heof] at htype
    cases htype
  refine .advance hk fun t ht ↦ ?_
  have hword : primitiveType? t = some type := by
    rw [primitiveType?, ht, htype, Option.filter_some, if_pos hprimitive]
  rw [hword]
  exact .pure rfl

theorem IsDimension.leads (h : IsDimension kind i j) : Leads kind dimension i j := by
  obtain ⟨hopen, hsize, hclose, rfl⟩ := h
  have harraySize : Leads kind arraySize (i + 1) (i + 2) := by
    refine .advance hsize fun t _ ↦ ?_
    split
    · show Reaches kind (literalSize t) (i + 2) _
      unfold literalSize
      split
      · exact .violateAt rfl t
      · exact .guard (.violateAt rfl t) <| .pure rfl
    · exact .violateAt rfl t
    · refine (Reaches.resolve _).next fun found ↦ ?_
      split
      · exact .violateAt rfl t
      · exact .guard (.violateAt rfl t) <| .otherwise (.violateAt rfl t) <| .pure rfl
    · exact .violateAt rfl t
  exact (Reaches.skip (by simp [hopen])).next fun _ ↦ harraySize.next fun _ ↦
    (Reaches.expectMark hclose (by simp)).discard.next fun _ ↦ .pure rfl

/-- One dimension makes a row. -/
theorem IsDimension.reaches_row (h : IsDimension kind i j) (hend : kind j ≠ .leftBracket)
    (name : Token) : Reaches kind (arrayShape name) i fun shape m ↦
      m = j ∧ ∃ size, shape = .row size :=
  h.leads.next fun size ↦ .unlessNext hend <| .pure ⟨rfl, size, rfl⟩

/-- Two dimensions make a table. -/
theorem IsDimension.reaches_table (h : IsDimension kind i m) (h' : IsDimension kind m j)
    (name : Token) : Reaches kind (arrayShape name) i fun shape n ↦
      n = j ∧ ∃ rows columns, shape = .table rows columns :=
  h.leads.next fun rows ↦ .whenNext h'.opens <| h'.leads.next fun columns ↦
    .next? <| .guard (.violate rfl) <| .pure ⟨rfl, rows, columns, rfl⟩

theorem IsLiteral.leads_element (h : IsLiteral kind i j) (type : DataType) :
    Leads kind (element type) i j := by
  obtain ⟨hliteral, rfl⟩ := h
  refine .advance (fun heof ↦ by rw [heof] at hliteral; cases hliteral) fun t ht ↦ ?_
  rw [ht]
  split
  · exact .ite (fun _ ↦ .violateAt rfl t) fun _ ↦ .pure rfl
  next hnone => rw [hnone] at hliteral; cases hliteral

theorem leads_checkCount (size : Dimension) (count : Nat) (place : Token)
    {tooMany : Nat → Nat → Violation} (h : ∀ m n, (tooMany m n).isStructural = false) :
    Leads kind (checkCount size isConstant count place tooMany) i i := by
  unfold checkCount
  split
  · exact .pure rfl
  · exact .guard (.violateAt (h _ _) place) <|
      .ite (fun _ ↦ .violateAt rfl place) fun _ ↦ .pure rfl

/-- Behind a piece, a comma leads to another one. -/
theorem reaches_comma {σ : Type} {again done : σ} (hend : kind j ≠ .comma)
    (h : m = j ∨ kind m = .comma ∧ Separated kind R (m + 1) j) :
    Reaches kind (do
      if ← next? .comma then
        discard advance
        return .yield again
      else
        return .done done) m (Reaches.AfterStep (fun n ↦ Separated kind R n j) (· = j)) := by
  rcases h with rfl | ⟨hcomma, hrest⟩
  · exact .unlessNext hend <| .pure rfl
  · exact .whenNext hcomma <| (Reaches.skip (by simp [hcomma])).next fun _ ↦ .pure hrest

/-- Literals between braces are a row. -/
theorem isRow_of_literals (hopen : kind i = .leftBrace)
    (h : Separated kind (IsLiteral kind) (i + 1) j) (hclose : kind j = .rightBrace) :
    IsRow kind i (j + 1) := by
  refine ⟨hopen, fun type ↦ ?_⟩
  obtain ⟨m, hfirst, -⟩ := h.first
  have hsome : kind (i + 1) ≠ .rightBrace := by
    intro hbrace
    have hliteral := hfirst.isSome
    rw [hbrace] at hliteral
    cases hliteral
  have hround (count : Nat) (m : Nat) (hm : Separated kind (IsLiteral kind) m j) :
      Reaches kind (do
        element type
        if ← next? .comma then
          discard advance
          return ForInStep.yield (count + 1)
        else
          return ForInStep.done (count + 1)) m
        (Reaches.AfterStep (fun n ↦ Separated kind (IsLiteral kind) n j) (· = j)) := by
    obtain ⟨n, hliteral, hrest⟩ := hm.first
    exact (hliteral.leads_element type).next fun _ ↦ reaches_comma (by simp [hclose]) hrest
  have hlast (count : Nat) : Leads kind (do
      discard <| expectMark .rightBrace
      return count) j (j + 1) :=
    (Reaches.expectMark hclose (by simp)).discard.next fun _ ↦ .pure rfl
  exact (Reaches.expectMark hopen (by simp)).discard.next fun _ ↦ .unlessNext hsome <|
    Reaches.next (Reaches.rounds h hround) hlast

/-- Rows lead to the brace behind them. -/
theorem leads_rows (h : Separated kind (IsRow kind) i j) (hclose : kind j = .rightBrace)
    (type : DataType) (columns : Dimension) :
    Leads kind (rows type columns isConstant) i j := by
  refine .roundsWhile (I := fun m ↦ Separated kind (IsRow kind) m j) h fun count m hm ↦ ?_
  obtain ⟨n, hrow, hrest⟩ := hm.first
  have hmore : kind m ≠ .rightBrace := by simp [hrow.opens]
  refine .next? <| .pure ⟨rfl, fun _ ↦ ?_, fun hend ↦ ?_⟩
  · exact .peek fun first _ ↦ (hrow.leads type).next fun length ↦
      (leads_checkCount _ _ _ fun _ _ ↦ rfl).next fun _ ↦ reaches_comma (by simp [hclose]) hrest
  · simp [hmore] at hend

/-- A row of literals or nothing behind one dimension. -/
theorem IsDimension.isArray_row (h : IsDimension kind i m) (hrest : (kind m = .assign ∧
    IsRow kind (m + 1) j) ∨ (m = j ∧ kind m ≠ .assign ∧ kind m ≠ .leftBracket)) :
    IsArray kind isConstant i j := by
  have hend : kind m ≠ .leftBracket := by
    rcases hrest with ⟨hassign, -⟩ | ⟨-, -, hend⟩
    · simp [hassign]
    · exact hend
  refine ⟨h.opens, fun type name ↦ (h.reaches_row hend name).bind fun shape n hn ↦ ?_⟩
  obtain ⟨rfl, size, rfl⟩ := hn
  rcases hrest with ⟨hassign, hrow⟩ | ⟨rfl, hassign, -⟩
  · refine .whenNext hassign <| (Reaches.skip (by simp [hassign])).next fun _ ↦ ?_
    refine Reaches.next (m := j) (.peek fun first _ ↦ (hrow.leads type).next fun count ↦ ?_) fun _ ↦
      .pure rfl
    exact leads_checkCount _ _ _ fun _ _ ↦ rfl
  · exact .unlessNext hassign <| .guard (.violateAt rfl name) <| .pure rfl

/-- Rows between braces or nothing behind two dimensions. -/
theorem IsDimension.isArray_table (h : IsDimension kind i m) {n : Nat} (h' : IsDimension kind m n)
    (hrest : (∃ l, kind n = .assign ∧ kind (n + 1) = .leftBrace ∧
      Separated kind (IsRow kind) (n + 2) l ∧ kind l = .rightBrace ∧ j = l + 1) ∨
        (n = j ∧ kind n ≠ .assign)) : IsArray kind isConstant i j := by
  refine ⟨h.opens, fun type name ↦ (h.reaches_table h' name).bind fun shape p hp ↦ ?_⟩
  obtain ⟨rfl, rows, columns, rfl⟩ := hp
  rcases hrest with ⟨l, hassign, hopen, hrows, hclose, rfl⟩ | ⟨rfl, hassign⟩
  · refine .whenNext hassign <| (Reaches.skip (by simp [hassign])).next fun _ ↦ ?_
    refine Reaches.next (m := l + 1) ((Reaches.expectMark hopen (by simp)).next fun first ↦
      (leads_rows hrows hclose type columns).next fun count ↦
        (Reaches.expectMark hclose (by simp)).discard.next fun _ ↦ ?_) fun _ ↦ .pure rfl
    exact leads_checkCount _ _ _ fun _ _ ↦ rfl
  · exact .unlessNext hassign <| .guard (.violateAt rfl name) <| .pure rfl

/-! ### Declarators -/

namespace IsDeclarator

/-- What every declarator begins with. -/
theorem of_behind_name (hname : kind i = .identifier)
    (h : ∀ levels type name, Leads kind (do
      let bare := bareSymbol type isConstant name
      if ← next? .leftBracket then
        let (shape, initialized) ← arrayDeclarator type isConstant name
        declare { bare with array := some shape.dimensions, initialized := initialized } name
      else if ← next? .assign then
        let sign ← advance
        initializer levels type sign
        declare bare.withValue name
      else
        if isConstant then violateAt (.constantWithoutInitializer name.lexeme) name
        declare bare name) (i + 1) j) : IsDeclarator kind isConstant i j :=
  fun levels type ↦ (Reaches.expect hname (by simp) _).next fun name ↦
    (Reaches.declaredHere _).next fun _ ↦ .guard (.violateAt rfl name) (h levels type name)

theorem of_isArray (hname : kind i = .identifier) (h : IsArray kind isConstant (i + 1) j) :
    IsDeclarator kind isConstant i j :=
  of_behind_name hname fun _ type name ↦ .whenNext h.opens <|
    (h.leads type name).next fun _ ↦ .declare _ name

theorem of_isValue (hname : kind i = .identifier) (hassign : kind (i + 1) = .assign)
    (h : IsValue kind (i + 2) j) (hend : (kind j).endsExpression [.comma])
    (hinput : kind (i + 2) ≠ .inputWord) : IsDeclarator kind isConstant i j := by
  refine of_behind_name hname fun levels type name ↦ .unlessNext (by simp [hassign]) <|
    .whenNext hassign <| .advance (by simp [hassign]) fun sign _ ↦ ?_
  refine Reaches.next (m := j) (.unlessNext hinput ?_) fun _ ↦ .declare _ name
  exact (h.leads_valueType (by simp [Kind.isPlain]) hend levels).next fun value ↦
    .ite (fun _ ↦ .violateAt rfl sign) fun _ ↦ .pure rfl

theorem of_name (hname : kind i = .identifier) (hbracket : kind (i + 1) ≠ .leftBracket)
    (hassign : kind (i + 1) ≠ .assign) : IsDeclarator kind isConstant i (i + 1) :=
  of_behind_name hname fun _ _ name ↦ .unlessNext hbracket <| .unlessNext hassign <|
    .guard (.violateAt rfl name) (.declare _ name)

end IsDeclarator

/-- Declarators and the semicolon behind them. -/
theorem leads_declarators {one : Check Unit} (h : Separated kind (Leads kind one) i j)
    (hend : kind j = .semicolon) : Leads kind (declarators one) i (j + 1) := by
  refine .rounds (I := fun m ↦ Separated kind (Leads kind one) m j) h fun _ m hm ↦ ?_
  obtain ⟨n, hone, hrest⟩ := hm.first
  have hanother : Reaches kind another n fun more l ↦
      (more = true ∧ Separated kind (Leads kind one) l j) ∨ (more = false ∧ l = j + 1) := by
    rcases hrest with rfl | ⟨hcomma, hrest⟩
    · exact .unlessNext (by simp [hend]) <| (Reaches.expect hend (by simp) _).discard.next fun _ ↦
        .pure (.inr ⟨rfl, rfl⟩)
    · exact .whenNext hcomma <| (Reaches.skip (by simp [hcomma])).next fun _ ↦
        .pure (.inl ⟨rfl, hrest⟩)
  refine hone.next fun _ ↦ hanother.bind fun more l hl ↦ ?_
  rcases hl with ⟨rfl, hrest⟩ | ⟨rfl, rfl⟩
  · exact .pure hrest
  · exact .pure rfl

/-- A declaration of variables, from the word of their type. -/
theorem leads_variableDeclaration
    (htype : ∃ type, DataType.ofWord? (kind i) = some type ∧ type.isPrimitive)
    (h : Separated kind (IsDeclarator kind false) (i + 1) j) (hend : kind j = .semicolon)
    (levels : Nat) : Leads kind (variableDeclaration levels) i (j + 1) :=
  (leads_typeWord htype _).next fun type ↦
    leads_declarators (h.mono fun _ _ hone ↦ hone levels type) hend

/-- A declaration of constants, from the word that makes them constant. -/
theorem leads_constantDeclaration (hword : kind i = .constWord)
    (htype : ∃ type, DataType.ofWord? (kind (i + 1)) = some type ∧ type.isPrimitive)
    (h : Separated kind (IsDeclarator kind true) (i + 2) j) (hend : kind j = .semicolon)
    (levels : Nat) : Leads kind (constantDeclaration levels) i (j + 1) :=
  (Reaches.skip (by simp [hword])).next fun _ ↦ (leads_typeWord htype _).next fun type ↦
    leads_declarators (h.mono fun _ _ hone ↦ hone levels type) hend

/-- A declaration of instances of a struct. -/
theorem leads_instanceDeclaration (hword : kind i = .instanceWord)
    (hname : kind (i + 1) = .identifier) (h : Separated kind (IsName kind) (i + 2) j)
    (hend : kind j = .semicolon) : Leads kind instanceDeclaration i (j + 1) := by
  refine (Reaches.skip (by simp [hword])).next fun _ ↦ (Reaches.expect hname (by simp) _).next
    fun structName ↦ (Reaches.resolve _).next fun found ↦ ?_
  split
  · refine leads_declarators (h.mono fun i j hone ↦ ?_) hend
    exact hone.eq ▸ (Reaches.expect hone.name (by simp) _).next fun name ↦ .declare _ name
  · exact .violateAt rfl structName

end

end FrontEnd
