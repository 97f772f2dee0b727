import FrontEnd.Proofs.Check.Printed
import FrontEnd.Proofs.Limits.Loops
import FrontEnd.Proofs.Scope.WellFormed

/-!
# Filled arrays

The initializer of an array is a row of elements between braces, or a row of such rows.  It is checked
while it is read: each element where it stands, each row against the columns once it is read, the number
of rows at the end.  So the first thing that is wrong is the one that is reported, and an initializer is
accepted exactly if nothing is wrong with it: every element fits (`FitsCell`) and every size admits what
it counts (`Dimension.Admits`).

What stands between two commas of a row is a cell: any tokens but a comma, a closing
brace and the end of the input.  Only a
cell of one token can be an element; behind the first token of a longer one neither a comma nor a brace
follows, so the row ends there with a fault.
-/

namespace FrontEnd

open Check

/-! ### Declarations as they are written -/

/-- Items with commas between them. -/
def commaSeparated : List (List Piece) → List Piece
  | [] => []
  | [item] => item
  | item :: next :: items => item ++ (.comma, none) :: commaSeparated (next :: items)

/-- Items with commas between them and braces around them. -/
def braced (items : List (List Piece)) : List Piece :=
  (.leftBrace, none) :: (commaSeparated items ++ [(.rightBrace, none)])

/-- What can stand between two commas of a row. -/
structure IsCell (cell : List Piece) : Prop where
  nonempty : cell ≠ []
  inside : ∀ p ∈ cell, p.1 ≠ .comma ∧ p.1 ≠ .rightBrace ∧ p.1 ≠ .eof

/-- The cell is a literal of the type, or the name of a scalar of the type that was given a value. -/
inductive FitsCell (c : Context) (s : State) (type : DataType) : List Piece → Prop
  | literal {kind : Kind} {text : Option String} (h : DataType.ofLiteral? kind = some type) :
    FitsCell c s type [(kind, text)]
  | scalar {name : String} (h : c.scalar? s name = some type) :
    FitsCell c s type [(.identifier, some name)]

/-- A literal size is not exceeded, and a constant fills it; a size that a variable holds is not
counted against. -/
def Dimension.Admits (isConstant : Bool) (count : Nat) : Dimension → Prop
  | .named _ => True
  | .literal size => count ≤ size ∧ (isConstant → count = size)

/-- A row of an array: its cells fit, and so does their number. -/
structure FitsRow (c : Context) (s : State) (type : DataType) (isConstant : Bool) (size : Dimension)
    (cells : List (List Piece)) : Prop where
  fits : ∀ cell ∈ cells, FitsCell c s type cell
  admits : size.Admits isConstant cells.length

/-- What initializes an array, as it is written: cells, or rows of cells. -/
inductive Filling where
  | row (cells : List (List Piece))
  | table (rows : List (List (List Piece)))

/-- The rows of cells of an initializer. -/
def Filling.rows : Filling → List (List (List Piece))
  | row cells => [cells]
  | table rows => rows

def Filling.print : Filling → List Piece
  | row cells => braced cells
  | table rows => braced (rows.map braced)

/-- Whether an initializer has as many dimensions as the array. -/
def Filling.Suits : Filling → Shape → Prop
  | row _, .row _ => True
  | table _, .table _ _ => True
  | _, _ => False

/-- The rows of a table: each of them fits, and so does their number. -/
structure FitsTable (c : Context) (s : State) (type : DataType) (isConstant : Bool)
    (rowCount columns : Dimension) (rows : List (List (List Piece))) : Prop where
  fits : ∀ cells ∈ rows, FitsRow c s type isConstant columns cells
  admits : rowCount.Admits isConstant rows.length

/-- The initializer fits the array. -/
def Filling.Fits (c : Context) (s : State) (type : DataType) (isConstant : Bool) :
    Filling → Shape → Prop
  | row cells, .row size => FitsRow c s type isConstant size cells
  | table rows, .table rowCount columns => FitsTable c s type isConstant rowCount columns rows
  | _, _ => False

/-- How the size of a dimension is written: as a number that is not zero, or as the name of an integer
that was given a value. -/
inductive Dimension.WrittenAs (c : Context) (s : State) : Dimension → Piece → Prop
  | literal {lexeme : String} {size : Nat} (h : Text.natural? lexeme = some size) (hpos : size ≠ 0) :
    WrittenAs c s (.literal size) (.intLit, some lexeme)
  | named {name : String} (h : c.scalar? s name = some .int) :
    WrittenAs c s (.named name) (.identifier, some name)

/-- A size between brackets. -/
def bracketed (size : Piece) : List Piece :=
  [(.leftBracket, none), size, (.rightBracket, none)]

/-- How the dimensions of an array are written. -/
inductive Check.Shape.WrittenAs (c : Context) (s : State) : Shape → List Piece → Prop
  | row {size : Dimension} {p : Piece} (h : size.WrittenAs c s p) :
    WrittenAs c s (.row size) (bracketed p)
  | table {rows columns : Dimension} {p q : Piece} (h : rows.WrittenAs c s p)
    (h' : columns.WrittenAs c s q) :
    WrittenAs c s (.table rows columns) (bracketed p ++ bracketed q)

section

variable {c : Context} {s : State} {i j : Nat} {type : DataType} {isConstant : Bool}
variable {cell : List Piece} {cells : List (List Piece)}

/-! ### What is written -/

/-- Behind an item the others follow after a comma, if there are any. -/
theorem spells_commaSeparated_cons {item : List Piece} {items : List (List Piece)} :
    Spells c i (commaSeparated (item :: items)) j ↔ ∃ m, Spells c i item m ∧
      (items = [] ∧ m = j ∨ items ≠ [] ∧ c.kindAt m = .comma ∧
        Spells c (m + 1) (commaSeparated items) j) := by
  cases items with
  | nil => simp [commaSeparated]
  | cons next items =>
    simp [commaSeparated, spells_append, Spells, Context.pieceAt_eq_mark (k := .comma) rfl]

theorem spells_braced {items : List (List Piece)} :
    Spells c i (braced items) j ↔ c.kindAt i = .leftBrace ∧
      ∃ m, Spells c (i + 1) (commaSeparated items) m ∧ c.kindAt m = .rightBrace ∧ m + 1 = j := by
  simp [braced, spells_append, Spells, Context.pieceAt_eq_mark (k := .leftBrace) rfl,
    Context.pieceAt_eq_mark (k := .rightBrace) rfl]

/-! ### Elements -/

theorem FitsCell.length_eq_one (h : FitsCell c s type cell) : cell.length = 1 := by
  cases h <;> rfl

theorem fitsCell_pieceAt :
    FitsCell c s type [c.pieceAt i] ↔ DataType.ofLiteral? (c.kindAt i) = some type ∨
      c.kindAt i = .identifier ∧ c.scalar? s (c.tokenAt i).lexeme = some type := by
  constructor
  · generalize hcell : [c.pieceAt i] = cell
    rintro (⟨h⟩ | ⟨h⟩)
    · cases hcell
      exact .inl h
    · obtain ⟨hkind, hlexeme⟩ := (Context.pieceAt_eq_text rfl).1 (List.singleton_inj.1 hcell)
      exact .inr ⟨hkind, hlexeme ▸ h⟩
  · rintro (h | ⟨hkind, h⟩)
    · exact .literal h
    · rw [(Context.pieceAt_eq_text rfl).2 ⟨hkind, rfl⟩]
      exact .scalar h

/-- An element is read if the token fits. -/
theorem ensures_element (s : State) (hi : c.kindAt i ≠ .eof) :
    Ensures (element type) c (s.movedTo i)
      (fun e ↦ e.violation.isLimit = false ∧ ¬ FitsCell c s type [c.pieceAt i])
      fun _ after ↦ FitsCell c s type [c.pieceAt i] ∧ after = s.movedTo (i + 1) := by
  simp only [element, ensures_bind, ensures_advance, State.position_movedTo, State.movedTo_movedTo,
    Context.kind_tokenAt_of_ne_eof hi, Context.after_of_ne_eof hi, fitsCell_pieceAt]
  split
  next found hfound =>
    have hkind : c.kindAt i ≠ .identifier := fun hk ↦ by simp [hk, DataType.ofLiteral?] at hfound
    simp [hfound, hkind, Violation.isLimit]
  next hnone =>
    have hscalar : c.scalar? s (c.tokenAt i).lexeme = ((s.arena.lookup c.scope
      (c.tokenAt i).lexeme).filter fun symbol ↦ symbol.isScalar && symbol.initialized).map
        Symbol.type := rfl
    simp only [ensures_bind, ensures_ite, ensures_violateAt, ensures_resolve, hnone, reduceCtorEq,
      false_or]
    refine ⟨fun hname ↦ ⟨rfl, fun h ↦ hname h.1⟩, fun hname ↦ ?_⟩
    have hkind : c.kindAt i = .identifier := Decidable.not_not.1 hname
    dsimp only [State.movedTo]
    split
    next hlookup => simp [hlookup, hscalar, Violation.isLimit]
    next symbol hlookup =>
      cases hvalue : symbol.isScalar <;> cases hgiven : symbol.initialized <;>
        simp [hlookup, hscalar, hkind, hvalue, hgiven, Violation.isLimit, Option.filter]

/-! ### Rows -/

theorem IsCell.first (h : IsCell cell) (hspells : Spells c i cell j) :
    c.kindAt i ≠ .rightBrace ∧ c.kindAt i ≠ .eof := by
  obtain ⟨p, rest, rfl⟩ := List.exists_cons_of_ne_nil h.nonempty
  obtain ⟨rfl, -⟩ := hspells
  exact (h.inside (c.pieceAt i) (by simp)).2

/-- A cell is the token that is read as an element, or more than that. -/
theorem IsCell.cases (h : IsCell cell) (hspells : Spells c i cell j) :
    cell = [c.pieceAt i] ∧ j = i + 1 ∨ cell.length ≠ 1 ∧
      c.kindAt (i + 1) ≠ .comma ∧ c.kindAt (i + 1) ≠ .rightBrace := by
  obtain ⟨p, rest, rfl⟩ := List.exists_cons_of_ne_nil h.nonempty
  obtain ⟨rfl, hrest⟩ := hspells
  cases rest with
  | nil => exact .inl ⟨rfl, hrest.symm⟩
  | cons q rest =>
    obtain ⟨hcomma, hbrace, -⟩ := h.inside q (by simp)
    rw [← hrest.1] at hcomma hbrace
    exact .inr ⟨by simp, hcomma, hbrace⟩

/-- The rounds over the elements of a row go to its closing brace and count its cells, or stop at one
that does not fit. -/
theorem ensures_elements (hcells : ∀ cell ∈ cells, IsCell cell) (hne : cells ≠ [])
    (hspells : Spells c i (commaSeparated cells) j) (hclose : c.kindAt j = .rightBrace)
    (left count : Nat) :
    Ensures (roundsFrom (return true) (elementRound type) left count) c (s.movedTo i)
      (fun e ↦ e.violation.isLimit ∧ left < cells.length ∨
        e.violation.isLimit = false ∧ ¬ ∀ cell ∈ cells, FitsCell c s type cell)
      fun total after ↦
        (∀ cell ∈ cells, FitsCell c s type cell) ∧ total = count + cells.length ∧
            after = s.movedTo j ∨
          (¬ ∀ cell ∈ cells, FitsCell c s type cell) ∧ c.kindAt after.position ≠ .rightBrace := by
  -- An element of more than one token fits nothing, and leaves the walk in front of a token that ends no
  -- row.
  induction cells generalizing i left count with
  | nil => exact absurd rfl hne
  | cons cell cells ih =>
    cases left with
    | zero =>
      refine ensures_roundsFrom_zero.2 ?_
      simp [Violation.isLimit]
    | succ left =>
      obtain ⟨hcell, hrest⟩ := List.forall_mem_cons.1 hcells
      refine ensures_roundsFrom_succ.2 ?_
      simp only [ensures_pure, elementRound, ensures_bind, ensures_next?, ensures_ite, beq_iff_eq,
        ensures_discard, ensures_advance, afterRound_yield, afterRound_done, true_implies,
        reduceCtorEq, false_implies, and_true, List.forall_mem_cons]
      obtain ⟨m, hfirst, hbehind⟩ := spells_commaSeparated_cons.1 hspells
      have hone := hcell.cases hfirst
      have hlong : cell.length ≠ 1 → ¬ FitsCell c s type cell := fun h hfits ↦ h hfits.length_eq_one
      have hfirstFits : FitsCell c s type cell → FitsCell c s type [c.pieceAt i] := by
        rcases hone with ⟨hone, -⟩ | ⟨hlength, -⟩
        · rw [← hone]
          exact id
        · exact fun h ↦ absurd h (hlong hlength)
      refine (ensures_element s (hcell.first hfirst).2).imp
        (fun e he ↦ .inr ⟨he.1, fun h ↦ he.2 (hfirstFits h.1)⟩) ?_
      rintro _ _ ⟨hfits, rfl⟩
      rcases hone with ⟨hone, rfl⟩ | ⟨hlength, hcomma, hbrace⟩
      · rw [hone]
        rcases hbehind with ⟨rfl, rfl⟩ | ⟨hmore, hcomma, hnext⟩
        · refine ⟨fun hcomma ↦ ?_, fun _ ↦ .inl ⟨⟨hfits, by simp⟩, rfl, rfl⟩⟩
          rw [State.position_movedTo, hclose] at hcomma
          cases hcomma
        · refine ⟨fun _ ↦ ?_, fun h ↦ absurd hcomma h⟩
          rw [State.position_movedTo, State.movedTo_movedTo, Context.after_of_kindAt hcomma (by decide)]
          refine (ih hrest hmore hnext left (count + 1)).imp (fun e he ↦ ?_) fun total after h ↦ ?_
          · rcases he with ⟨hlimit, hleft⟩ | ⟨hlimit, hbad⟩
            · exact .inl ⟨hlimit, by simpa using hleft⟩
            · exact .inr ⟨hlimit, fun h ↦ hbad h.2⟩
          · rcases h with ⟨hall, htotal, hafter⟩ | ⟨hbad, hafter⟩
            · exact .inl ⟨⟨hfits, hall⟩, by simp only [List.length_cons]; omega, hafter⟩
            · exact .inr ⟨fun h ↦ hbad h.2, hafter⟩
      · exact ⟨fun h ↦ absurd h hcomma, fun _ ↦ .inr ⟨fun h ↦ hlong hlength h.1, hbrace⟩⟩

theorem ensures_row (hcells : ∀ cell ∈ cells, IsCell cell) (hspells : Spells c i (braced cells) j) :
    Ensures (row type) c (s.movedTo i)
      (fun e ↦ e.violation.isLimit ∧ c.limits.scan < cells.length ∨
        e.violation.isLimit = false ∧ ¬ ∀ cell ∈ cells, FitsCell c s type cell)
      fun count after ↦ (∀ cell ∈ cells, FitsCell c s type cell) ∧ count = cells.length ∧
        after = s.movedTo j := by
  obtain ⟨hopen, m, hinside, hclose, rfl⟩ := spells_braced.1 hspells
  simp only [row, ensures_bind, ensures_discard, ensures_next?, ensures_ite, ensures_pure,
    ensures_expectMark, beq_iff_eq, State.position_movedTo, State.movedTo_movedTo, hopen, true_implies,
    ne_eq, not_true_eq_false, false_implies, and_true, Context.after_of_kindAt hopen (by decide)]
  have hfault {i : Nat} : (c.expected i (.mark .rightBrace)).violation.isLimit = false := by
    unfold Context.expected
    dsimp only
    split <;> rfl
  by_cases hempty : cells = []
  · subst hempty
    obtain rfl : i + 1 = m := hinside
    simp [hclose, Context.after_of_kindAt hclose (by decide)]
  · have hfirst : c.kindAt (i + 1) ≠ .rightBrace := by
      obtain ⟨cell, rest, rfl⟩ := List.exists_cons_of_ne_nil hempty
      obtain ⟨n, hcell, -⟩ := spells_commaSeparated_cons.1 hinside
      exact ((hcells cell (by simp)).first hcell).1
    refine ⟨fun h ↦ absurd h hfirst, fun _ ↦ ?_⟩
    refine (ensures_elements hcells hempty hinside hclose c.limits.scan 0).mono ?_
    rintro count after (⟨hfits, hcount, rfl⟩ | ⟨hbad, hafter⟩)
    · simpa [hclose, Context.after_of_kindAt hclose (by decide), hcount] using hfits
    · exact ⟨fun h ↦ absurd h hafter, fun _ ↦ .inr ⟨hfault, hbad⟩⟩

/-! ### Counts -/

/-- What is said of a number that a size does not admit. -/
inductive Dimension.Refuses (isConstant : Bool) (count : Nat) (tooMany : Nat → Nat → Violation) :
    Dimension → Violation → Prop
  | exceeded {size : Nat} (h : size < count) :
    Refuses isConstant count tooMany (.literal size) (tooMany count size)
  | missed {size : Nat} (hconstant : isConstant) (h : count < size) :
    Refuses isConstant count tooMany (.literal size) (.incompleteConstantArray count size)

theorem Dimension.Refuses.not_admits {count : Nat} {tooMany : Nat → Nat → Violation}
    {size : Dimension} {v : Violation} (h : size.Refuses isConstant count tooMany v) :
    ¬ size.Admits isConstant count := by
  cases h with
  | exceeded h => exact fun hadmits ↦ absurd hadmits.1 (Nat.not_le.2 h)
  | missed hconstant h => exact fun hadmits ↦ Nat.ne_of_lt h (hadmits.2 hconstant)

theorem Dimension.Refuses.isLimit {count : Nat} {tooMany : Nat → Nat → Violation}
    {size : Dimension} {v : Violation} (h : size.Refuses isConstant count tooMany v)
    (htooMany : ∀ count size, (tooMany count size).isLimit = false) : v.isLimit = false := by
  cases h with
  | exceeded h => exact htooMany _ _
  | missed hconstant h => rfl

theorem ensures_checkCount_admits (size : Dimension) (isConstant : Bool) (count : Nat)
    (place : Token) (tooMany : Nat → Nat → Violation) :
    Ensures (checkCount size isConstant count place tooMany) c s
      (fun e ↦ size.Refuses isConstant count tooMany e.violation ∧ e.position = place.position)
      fun _ after ↦ size.Admits isConstant count ∧ after = s := by
  cases size with
  | named name => exact ⟨trivial, rfl⟩
  | literal size =>
    simp only [checkCount, ensures_bind, ensures_ite, ensures_violateAt, ensures_pure,
      Bool.and_eq_true, decide_eq_true_eq]
    refine ⟨fun h ↦ ⟨.exceeded h, trivial⟩,
      fun hle ↦ ⟨fun h ↦ ⟨.missed h.1 h.2, trivial⟩, fun hfull ↦ ⟨⟨Nat.not_lt.1 hle, ?_⟩, trivial⟩⟩⟩
    exact fun hconstant ↦
      Nat.le_antisymm (Nat.not_lt.1 hle) (Nat.not_lt.1 fun h ↦ hfull ⟨hconstant, h⟩)

/-! ### Rows of a table -/

/-- The error of the first row that does not fit: one of its cells does not, or their number does not
and the error says so at the opening brace. -/
def RowFault (c : Context) (s : State) (type : DataType) (isConstant : Bool) (columns : Dimension)
    (i count : Nat) (rows : List (List (List Piece))) (e : SemanticError) : Prop :=
  ∃ before cells after k, rows = before ++ cells :: after ∧
    (∀ cells ∈ before, FitsRow c s type isConstant columns cells) ∧
    Spells c i (before.flatMap fun cells ↦ braced cells ++ [(.comma, none)]) k ∧
    ((¬ ∀ cell ∈ cells, FitsCell c s type cell) ∨
      columns.Refuses isConstant cells.length (.rowTooLong (count + before.length + 1)) e.violation ∧
        e.position = (c.tokenAt k).position)

theorem ensures_rowRounds {columns : Dimension} {rows : List (List (List Piece))}
    (hcells : ∀ cells ∈ rows, ∀ cell ∈ cells, IsCell cell)
    (hspells : Spells c i (commaSeparated (rows.map braced)) j) (hclose : c.kindAt j = .rightBrace)
    (left count : Nat) :
    Ensures (roundsFrom (return !(← next? .rightBrace)) (rowRound type columns isConstant) left count)
      c (s.movedTo i)
      (fun e ↦
        e.violation.isLimit ∧
            (left < rows.length ∨ ∃ cells ∈ rows, c.limits.scan < cells.length) ∨
          e.violation.isLimit = false ∧ RowFault c s type isConstant columns i count rows e)
      fun total after ↦ (∀ cells ∈ rows, FitsRow c s type isConstant columns cells) ∧
        total = count + rows.length ∧ after = s.movedTo j := by
  -- The rows in front of the rest are counted by `count`, and `left` rounds are left for the others.
  induction rows generalizing i left count with
  | nil =>
    obtain rfl : i = j := hspells
    cases left with
    | zero => exact ensures_roundsFrom_zero.2 (by simp [hclose])
    | succ left => exact ensures_roundsFrom_succ.2 (by simp [hclose])
  | cons cells rows ih =>
    obtain ⟨hrow, hrest⟩ := List.forall_mem_cons.1 hcells
    obtain ⟨m, hfirst, hbehind⟩ := spells_commaSeparated_cons.1 hspells
    have hopen := (spells_braced.1 hfirst).1
    cases left with
    | zero => exact ensures_roundsFrom_zero.2 (by simp [hopen, Violation.isLimit])
    | succ left =>
      refine ensures_roundsFrom_succ.2 ?_
      simp only [ensures_pure, rowRound, ensures_bind, ensures_next?, ensures_ite, beq_iff_eq,
        ensures_discard, ensures_advance, ensures_peek, afterRound_yield, afterRound_done,
        State.position_movedTo, hopen, List.forall_mem_cons]
      refine ⟨fun _ ↦ ?_, fun h ↦ absurd h (by decide)⟩
      refine (ensures_row hrow hfirst).imp (fun e he ↦ ?_) ?_
      · rcases he with ⟨hlimit, hlong⟩ | ⟨hlimit, hbad⟩
        · exact .inl ⟨hlimit, .inr ⟨cells, by simp, hlong⟩⟩
        · exact .inr ⟨hlimit, [], cells, rows, i, rfl, by simp, rfl, .inl hbad⟩
      rintro _ _ ⟨hfits, rfl, rfl⟩
      refine (ensures_checkCount_admits ..).imp (fun e he ↦ ?_) ?_
      · exact .inr ⟨he.1.isLimit fun _ _ ↦ rfl, [], cells, rows, i, rfl, by simp, rfl, .inr he⟩
      rintro _ _ ⟨hadmits, rfl⟩
      have hgood : FitsRow c s type isConstant columns cells := ⟨hfits, hadmits⟩
      rcases hbehind with ⟨hnone, rfl⟩ | ⟨-, hcomma, hnext⟩
      · obtain rfl := List.map_eq_nil_iff.1 hnone
        refine ⟨fun hcomma ↦ ?_, fun _ ↦ ⟨⟨hgood, by simp⟩, rfl, rfl⟩⟩
        rw [State.position_movedTo, hclose] at hcomma
        cases hcomma
      · refine ⟨fun _ ↦ ?_, fun h ↦ absurd hcomma h⟩
        rw [State.position_movedTo, State.movedTo_movedTo, Context.after_of_kindAt hcomma (by decide)]
        refine (ih hrest hnext left (count + 1)).imp (fun e he ↦ ?_) fun total after h ↦ ?_
        · rcases he with ⟨hlimit, hleft | ⟨cells, hmem, hlong⟩⟩ | ⟨hlimit, hfault⟩
          · exact .inl ⟨hlimit, .inl (by simpa using hleft)⟩
          · exact .inl ⟨hlimit, .inr ⟨cells, List.mem_cons_of_mem _ hmem, hlong⟩⟩
          -- The fault of a later row is found with one more row in front of it.
          · obtain ⟨before, bad, later, k, rfl, hbefore, hk, hfault⟩ := hfault
            refine .inr ⟨hlimit, cells :: before, bad, later, k, rfl, ?_, ?_, ?_⟩
            · exact List.forall_mem_cons.2 ⟨hgood, hbefore⟩
            · rw [List.flatMap_cons]
              exact spells_append.2 ⟨m + 1, spells_append.2 ⟨m, hfirst, (Context.pieceAt_eq_mark rfl).2 hcomma, rfl⟩, hk⟩
            · rwa [List.length_cons, ← Nat.add_assoc, Nat.add_right_comm count]
        · obtain ⟨hall, htotal, hafter⟩ := h
          exact ⟨⟨hgood, hall⟩, by simp only [List.length_cons]; omega, hafter⟩

/-! ### Initializers -/

/-- The error of an initializer that does not fit. -/
def Filling.Fault (c : Context) (s : State) (type : DataType) (isConstant : Bool) (i : Nat)
    (e : SemanticError) : Filling → Shape → Prop
  | row cells, .row size => (¬ ∀ cell ∈ cells, FitsCell c s type cell) ∨
    size.Refuses isConstant cells.length .tooManyElements e.violation ∧
      e.position = (c.tokenAt i).position
  | table rows, .table rowCount columns => RowFault c s type isConstant columns (i + 1) 0 rows e ∨
    (∀ cells ∈ rows, FitsRow c s type isConstant columns cells) ∧
      rowCount.Refuses isConstant rows.length .tooManyRows e.violation ∧
        e.position = (c.tokenAt i).position
  | _, _ => False

theorem ensures_arrayInitializer {filling : Filling} {shape : Shape} (hsuits : filling.Suits shape)
    (hcells : ∀ cells ∈ filling.rows, ∀ cell ∈ cells, IsCell cell)
    (hspells : Spells c i filling.print j) :
    Ensures (arrayInitializer type isConstant shape) c (s.movedTo i)
      (fun e ↦
        e.violation.isLimit ∧ (c.limits.scan < filling.rows.length ∨
            ∃ cells ∈ filling.rows, c.limits.scan < cells.length) ∨
          e.violation.isLimit = false ∧ filling.Fault c s type isConstant i e shape)
      fun _ after ↦ filling.Fits c s type isConstant shape ∧ after = s.movedTo j := by
  cases shape with
  | row size =>
    cases filling with
    | table rows => exact hsuits.elim
    | row cells =>
      simp only [Filling.rows, List.forall_mem_singleton] at hcells
      simp only [arrayInitializer, ensures_bind, ensures_peek]
      refine (ensures_row hcells hspells).imp (fun e he ↦ ?_) ?_
      · exact he.imp (fun h ↦ ⟨h.1, .inr ⟨cells, List.mem_singleton_self _, h.2⟩⟩) fun h ↦ ⟨h.1, .inl h.2⟩
      rintro _ _ ⟨hfits, rfl, rfl⟩
      refine (ensures_checkCount_admits ..).imp (fun e he ↦ ?_) ?_
      · exact .inr ⟨he.1.isLimit fun _ _ ↦ rfl, .inr he⟩
      · rintro _ _ ⟨hadmits, rfl⟩
        exact ⟨⟨hfits, hadmits⟩, rfl⟩
  | table rowCount columns =>
    cases filling with
    | row cells => exact hsuits.elim
    | table rows =>
      obtain ⟨hopen, m, hinside, hclose, rfl⟩ := spells_braced.1 hspells
      simp only [arrayInitializer, ensures_bind, ensures_expectMark, ensures_discard,
        State.position_movedTo, State.movedTo_movedTo, hopen, true_implies, ne_eq, not_true_eq_false,
        false_implies, and_true, Context.after_of_kindAt hopen (by decide)]
      refine (ensures_rowRounds hcells hinside hclose c.limits.scan 0).imp (fun e he ↦ ?_) ?_
      · exact he.imp_right fun h ↦ ⟨h.1, .inl h.2⟩
      rintro _ _ ⟨hfits, rfl, rfl⟩
      simp only [State.position_movedTo, State.movedTo_movedTo, hclose, true_implies,
        not_true_eq_false, false_implies, and_true, Context.after_of_kindAt hclose (by decide),
        Nat.zero_add]
      refine (ensures_checkCount_admits ..).imp (fun e he ↦ ?_) ?_
      · exact .inr ⟨he.1.isLimit fun _ _ ↦ rfl, .inr ⟨hfits, he⟩⟩
      · rintro _ _ ⟨hadmits, rfl⟩
        exact ⟨⟨hfits, hadmits⟩, rfl⟩

theorem Filling.Fault.not_fits {filling : Filling} {shape : Shape} {e : SemanticError}
    (h : filling.Fault c s type isConstant i e shape) : ¬ filling.Fits c s type isConstant shape := by
  cases shape with
  | row size =>
    cases filling with
    | table rows => exact h.elim
    | row cells =>
      intro hfits
      rcases h with hbad | ⟨hrefuses, -⟩
      · exact hbad hfits.fits
      · exact hrefuses.not_admits hfits.admits
  | table rowCount columns =>
    cases filling with
    | row cells => exact h.elim
    | table rows =>
      intro hfits
      rcases h with ⟨before, cells, after, k, rfl, -, -, hfault⟩ | ⟨-, hrefuses, -⟩
      · have hcells := hfits.fits cells (by simp)
        rcases hfault with hbad | ⟨hrefuses, -⟩
        · exact hbad hcells.fits
        · exact hrefuses.not_admits hcells.admits
      · exact hrefuses.not_admits hfits.admits

/-! ### Shapes -/

theorem ensures_dimension_written {size : Dimension} {p : Piece} (h : size.WrittenAs c s p)
    (hspells : Spells c i (bracketed p) j) :
    Ensures dimension c (s.movedTo i) (fun _ ↦ False) fun found after ↦
      found = size ∧ after = s.movedTo j := by
  obtain ⟨hopen, hp, hclose, rfl⟩ := hspells
  rw [Context.pieceAt_eq_mark rfl] at hopen hclose
  simp only [dimension, arraySize, ensures_bind, ensures_discard, ensures_advance,
    State.position_movedTo, State.movedTo_movedTo, Context.after_of_kindAt hopen (by decide)]
  cases h with
  | @literal lexeme size h hpos =>
    obtain ⟨hkind, hlexeme⟩ := (Context.pieceAt_eq_text rfl).1 hp
    rw [Context.kind_tokenAt_of_kindAt hkind (by decide)]
    simp [literalSize, hlexeme, h, hpos, Context.after_of_kindAt hkind (by decide), hclose,
      Context.after_of_kindAt hclose (by decide)]
  | @named name h =>
    obtain ⟨hkind, hlexeme⟩ := (Context.pieceAt_eq_text rfl).1 hp
    obtain ⟨symbol, hlookup, hscalar, hinitialized, htype⟩ := exists_symbol_of_scalar? h
    obtain ⟨-, -, hname⟩ := Arena.holds_of_lookup hlookup
    rw [Context.kind_tokenAt_of_kindAt hkind (by decide)]
    have hthere : (s.movedTo (i + 1 + 1)).arena.lookup c.scope name = some symbol := hlookup
    simp [namedSize, hlexeme, hthere, hscalar, hinitialized, htype, hname,
      Context.after_of_kindAt hkind (by decide), hclose, Context.after_of_kindAt hclose (by decide)]

theorem ensures_arrayShape_written {shape : Shape} {sizes : List Piece} (h : shape.WrittenAs c s sizes)
    (hspells : Spells c i sizes j) (hend : c.kindAt j ≠ .leftBracket) (name : Token) :
    Ensures (arrayShape name) c (s.movedTo i) (fun _ ↦ False) fun found after ↦
      found = shape ∧ after = s.movedTo j := by
  simp only [arrayShape, ensures_bind, ensures_next?, ensures_ite, beq_iff_eq, ensures_violate,
    ensures_pure]
  cases h with
  | @row size p h =>
    refine (ensures_dimension_written h hspells).mono ?_
    rintro _ _ ⟨rfl, rfl⟩
    exact ⟨fun hmore ↦ absurd hmore hend, fun _ ↦ ⟨rfl, rfl⟩⟩
  | @table rows columns p q h h' =>
    obtain ⟨m, hfirst, hsecond⟩ := spells_append.1 hspells
    refine (ensures_dimension_written h hfirst).mono ?_
    rintro _ _ ⟨rfl, rfl⟩
    refine ⟨fun _ ↦ ?_, fun hnone ↦ absurd ((Context.pieceAt_eq_mark rfl).1 hsecond.1) hnone⟩
    refine (ensures_dimension_written h' hsecond).mono ?_
    rintro _ _ ⟨rfl, rfl⟩
    exact ⟨fun hmore ↦ absurd hmore hend, fun _ ↦ ⟨rfl, rfl⟩⟩

/-! ### Declarations -/

variable {filling : Filling} {shape : Shape} {sizes : List Piece} {name : String}

theorem ensures_arrayDeclarator_written (hsizes : shape.WrittenAs c s sizes) (hsuits : filling.Suits shape)
    (hcells : ∀ cells ∈ filling.rows, ∀ cell ∈ cells, IsCell cell)
    (hsizesAt : Spells c i sizes j) (hassign : c.kindAt j = .assign) {stop : Nat}
    (hfilling : Spells c (j + 1) filling.print stop) (name : Token) :
    Ensures (arrayDeclarator type isConstant name) c (s.movedTo i)
      (fun e ↦
        e.violation.isLimit ∧ (c.limits.scan < filling.rows.length ∨
            ∃ cells ∈ filling.rows, c.limits.scan < cells.length) ∨
          e.violation.isLimit = false ∧ filling.Fault c s type isConstant (j + 1) e shape)
      fun found after ↦ filling.Fits c s type isConstant shape ∧ found = (shape, true) ∧
        after = s.movedTo stop := by
  simp only [arrayDeclarator, ensures_bind, ensures_next?, ensures_ite, beq_iff_eq, ensures_discard,
    ensures_advance, ensures_pure]
  refine (ensures_arrayShape_written hsizes hsizesAt (by simp [hassign]) name).imp (fun _ h ↦ h.elim) ?_
  rintro _ _ ⟨rfl, rfl⟩
  refine ⟨fun _ ↦ ?_, fun h ↦ absurd hassign h⟩
  rw [State.position_movedTo, State.movedTo_movedTo, Context.after_of_kindAt hassign (by decide)]
  refine (ensures_arrayInitializer hsuits hcells hfilling).mono ?_
  rintro _ _ ⟨hfits, rfl⟩
  exact ⟨hfits, rfl, rfl⟩

/-- A name that is free in a scope can be declared there. -/
theorem exists_insert_of_free {a : Arena} {id : Nat} {symbol : Symbol}
    (hscope : (a.scope? id).isSome) (hfree : a.declaredHere id symbol.name = false) :
    ∃ after, a.insert id symbol = some after := by
  obtain ⟨scope, hscope⟩ := Option.isSome_iff_exists.1 hscope
  have hcontains : scope.contains symbol.name = false := by
    simpa [Arena.declaredHere, hscope] using hfree
  exact ⟨_, by rw [Arena.insert, hscope]; exact if_neg (by simp [hcontains])⟩

/-- The symbol that a declaration of an array with an initializer declares. -/
def filledArray (type : DataType) (isConstant : Bool) (name : Token) (shape : Shape) : Symbol :=
  { bareSymbol type isConstant name with array := some shape.dimensions, initialized := true }

theorem ensures_filledDeclarator (levels : Nat) (hscope : (s.arena.scope? c.scope).isSome)
    (hfree : s.arena.declaredHere c.scope name = false)
    (hsizes : shape.WrittenAs c s sizes) (hsuits : filling.Suits shape)
    (hcells : ∀ cells ∈ filling.rows, ∀ cell ∈ cells, IsCell cell)
    (hspells : Spells c s.position
      ((.identifier, some name) :: (sizes ++ (.assign, none) :: filling.print)) j) :
    Ensures (declarator levels type isConstant) c s
      (fun e ↦
        e.violation.isLimit ∧ (c.limits.scan < filling.rows.length ∨
            ∃ cells ∈ filling.rows, c.limits.scan < cells.length) ∨
          e.violation.isLimit = false ∧
            filling.Fault c s type isConstant (s.position + sizes.length + 2) e shape)
      fun _ after ↦ filling.Fits c s type isConstant shape ∧ after.position = j ∧
        s.arena.insert c.scope (filledArray type isConstant (c.tokenAt s.position) shape) =
          some after.arena := by
  obtain ⟨hname, hrest⟩ := hspells
  obtain ⟨m, hsizesAt, hassign, hfilling⟩ := spells_append.1 hrest
  obtain ⟨hkind, hlexeme⟩ := (Context.pieceAt_eq_text rfl).1 hname
  rw [Context.pieceAt_eq_mark rfl] at hassign
  have hopen : c.kindAt (s.position + 1) = .leftBracket := by
    cases hsizes with
    | row => exact (Context.pieceAt_eq_mark rfl).1 hsizesAt.1
    | table => exact (Context.pieceAt_eq_mark rfl).1 hsizesAt.1
  have hplace : m + 1 = s.position + sizes.length + 2 := by
    have := hsizesAt.add_length
    omega
  simp only [declarator, ensures_bind, ensures_expect, ensures_declaredHere, ensures_ite,
    ensures_next?, beq_iff_eq, State.position_movedTo, hkind, true_implies, ne_eq, not_true_eq_false,
    false_implies, and_true, Context.after_of_kindAt hkind (by decide), hlexeme, hopen]
  refine ⟨fun h ↦ absurd (hfree.symm.trans h) (by decide), fun _ ↦ ?_⟩
  refine (ensures_arrayDeclarator_written hsizes hsuits hcells hsizesAt hassign hfilling
    (c.tokenAt s.position)).imp (fun e he ↦ hplace ▸ he) ?_
  rintro _ _ ⟨hfits, rfl, rfl⟩
  have hsymbol : (filledArray type isConstant (c.tokenAt s.position) shape).name = name := by
    cases isConstant <;> exact hlexeme
  obtain ⟨arena, harena⟩ := exists_insert_of_free hscope (hsymbol ▸ hfree)
  show Ensures (declare (filledArray type isConstant (c.tokenAt s.position) shape) _) _ _ _ _
  simp only [declare, ensures_bind, ensures_read, ensures_insertSymbol, ensures_ite,
    ensures_violateAt, ensures_pure]
  refine ⟨fun after hafter ↦ ⟨fun _ ↦ ⟨hfits, rfl, hafter⟩, fun h ↦ absurd trivial h⟩, fun hnone ↦ ?_⟩
  exact absurd (harena.symm.trans hnone) (by simp)

/-- The first row that does not fit is told from the text. -/
theorem RowFault.of_first {columns : Dimension} {count k : Nat}
    {rows before after : List (List (List Piece))} {e : SemanticError}
    (h : RowFault c s type isConstant columns i count rows e) (hrows : rows = before ++ cells :: after)
    (hbefore : ∀ cells ∈ before, FitsRow c s type isConstant columns cells)
    (hcells : ¬ FitsRow c s type isConstant columns cells)
    (hk : Spells c i (before.flatMap fun cells ↦ braced cells ++ [(.comma, none)]) k) :
    (¬ ∀ cell ∈ cells, FitsCell c s type cell) ∨
      columns.Refuses isConstant cells.length (.rowTooLong (count + before.length + 1)) e.violation ∧
        e.position = (c.tokenAt k).position := by
  obtain ⟨before', cells', after', k', rfl, hbefore', hk', hfault⟩ := h
  have hcells' : ¬ FitsRow c s type isConstant columns cells' := fun h ↦
    hfault.elim (fun hbad ↦ hbad h.fits) fun hrefuses ↦ hrefuses.1.not_admits h.admits
  rcases List.append_eq_append_iff.1 hrows with ⟨more, rfl, hmore⟩ | ⟨more, rfl, hmore⟩
  · cases more with
    | nil =>
      obtain ⟨rfl, -⟩ := List.cons.inj (hmore : cells' :: after' = cells :: after)
      rw [List.append_nil] at hk ⊢
      obtain rfl : k' = k := hk'.add_length.symm.trans hk.add_length
      exact hfault
    | cons first more =>
      obtain ⟨rfl, -⟩ := List.cons.inj (hmore : cells' :: after' = first :: (more ++ cells :: after))
      exact absurd (hbefore cells' (by simp)) hcells'
  · cases more with
    | nil =>
      obtain ⟨rfl, -⟩ := List.cons.inj (hmore : cells :: after = cells' :: after')
      rw [List.append_nil] at hk' hfault
      obtain rfl : k' = k := hk'.add_length.symm.trans hk.add_length
      exact hfault
    | cons first more =>
      obtain ⟨rfl, -⟩ := List.cons.inj (hmore : cells :: after = first :: (more ++ cells' :: after'))
      exact absurd (hbefore' cells (by simp)) hcells

variable (type isConstant) in
/-- A declaration of an array with an initializer is accepted exactly if every element is a literal of
its type or the name of a scalar of its type that was given a value, and every number of elements or rows
is one that the size it counts against admits.  If a row is the first one that does not fit, and it is too
long and has no other fault, then the error names it, its length and the size of the columns. -/
theorem filled_arrays_are_counted (levels : Nat) (hscope : (s.arena.scope? c.scope).isSome)
    (hfree : s.arena.declaredHere c.scope name = false)
    (hsizes : shape.WrittenAs c s sizes) (hsuits : filling.Suits shape)
    (hcells : ∀ cells ∈ filling.rows, ∀ cell ∈ cells, IsCell cell)
    (hspells : Spells c s.position
      ((.identifier, some name) :: (sizes ++ (.assign, none) :: filling.print)) j) :
    let run := (declarator levels type isConstant).runFrom c s
    (AtLimit run.1 → c.limits.scan < filling.rows.length ∨
      ∃ cells ∈ filling.rows, c.limits.scan < cells.length) ∧
    (¬ AtLimit run.1 →
      (run.1 = .ok () ↔ filling.Fits c s type isConstant shape) ∧
      (run.1 = .ok () → run.2.position = j ∧
        s.arena.insert c.scope (filledArray type isConstant (c.tokenAt s.position) shape) =
          some run.2.arena) ∧
      ∀ rowCount size rows before cells after k, shape = .table rowCount (.literal size) →
        filling = .table rows → rows = before ++ cells :: after →
        (∀ cells ∈ before, FitsRow c s type isConstant (.literal size) cells) →
        (∀ cell ∈ cells, FitsCell c s type cell) → size < cells.length →
        Spells c s.position ((.identifier, some name) :: (sizes ++ (.assign, none) :: (.leftBrace, none) ::
          before.flatMap fun cells ↦ braced cells ++ [(.comma, none)])) k →
        run.1 = .error
          ⟨.rowTooLong (before.length + 1) cells.length size, (c.tokenAt k).position⟩) := by
  have hrun : Ensures (declarator levels type isConstant) c s _ _ :=
    ensures_filledDeclarator levels hscope hfree hsizes hsuits hcells hspells
  refine ⟨?_, fun hlimits ↦ ?_⟩
  · rintro ⟨e, he, hlimit⟩
    rcases hrun.of_error he with ⟨-, hsmall⟩ | ⟨hother, -⟩
    · exact hsmall
    · simp [hlimit] at hother
  -- Where no limit is reached, an error is a fault of the filling.
  · have hfault : ∀ e, ((declarator levels type isConstant).runFrom c s).1 = .error e →
        filling.Fault c s type isConstant (s.position + sizes.length + 2) e shape := by
      intro e he
      rcases hrun.of_error he with ⟨hlimit, -⟩ | ⟨-, hfault⟩
      · exact absurd ⟨e, he, hlimit⟩ hlimits
      · exact hfault
    refine ⟨⟨fun hok ↦ (hrun.of_ok hok).1, fun hfits ↦ ?_⟩, fun hok ↦ (hrun.of_ok hok).2, ?_⟩
    · cases hresult : ((declarator levels type isConstant).runFrom c s).1 with
      | ok => rfl
      | error e => exact absurd hfits (hfault e hresult).not_fits
    · rintro rowCount size rows before cells after k rfl rfl hrows hbefore hfits hlong hk
      -- The row is too long, so the run fails, and with the fault of the first row that has one.
      have hbad : ¬ FitsRow c s type isConstant (.literal size) cells :=
        fun h ↦ absurd h.admits.1 (Nat.not_le.2 hlong)
      cases hresult : ((declarator levels type isConstant).runFrom c s).1 with
      | ok =>
        have htable : FitsTable c s type isConstant rowCount (.literal size) rows :=
          (hrun.of_ok hresult).1
        exact absurd (htable.fits cells (by simp [hrows])) hbad
      | error e =>
        obtain ⟨m, hsizesAt, -, -, hrows'⟩ := spells_append.1 hk.2
        have hplace : m + 1 + 1 = s.position + sizes.length + 2 + 1 := by
          have := hsizesAt.add_length
          omega
        rcases hfault e hresult with hrow | ⟨hall, -⟩
        · rcases hrow.of_first hrows hbefore hbad (hplace ▸ hrows') with hmisfit | ⟨hrefuses, hposition⟩
          · exact absurd hfits hmisfit
          · rw [Nat.zero_add] at hrefuses
            obtain ⟨violation, position⟩ := e
            dsimp only at hrefuses hposition
            cases hrefuses with
            | exceeded => rw [hposition]
            | missed _ hshort => exact absurd hshort (Nat.not_lt.2 (Nat.le_of_lt hlong))
        · exact absurd (hall cells (by simp [hrows])) hbad

end

/-- The tokens of `a[2][2] = {{1, 2}, {3, 4, 5}}`. -/
def tableTokens : List Token :=
  [⟨.identifier, "a", ⟨1, 1⟩⟩, ⟨.leftBracket, "[", ⟨1, 2⟩⟩, ⟨.intLit, "2", ⟨1, 3⟩⟩,
    ⟨.rightBracket, "]", ⟨1, 4⟩⟩, ⟨.leftBracket, "[", ⟨1, 5⟩⟩, ⟨.intLit, "2", ⟨1, 6⟩⟩,
    ⟨.rightBracket, "]", ⟨1, 7⟩⟩, ⟨.assign, "=", ⟨1, 9⟩⟩, ⟨.leftBrace, "\x7b", ⟨1, 11⟩⟩,
    ⟨.leftBrace, "\x7b", ⟨1, 12⟩⟩, ⟨.intLit, "1", ⟨1, 13⟩⟩, ⟨.comma, ",", ⟨1, 14⟩⟩,
    ⟨.intLit, "2", ⟨1, 16⟩⟩, ⟨.rightBrace, "\x7d", ⟨1, 17⟩⟩, ⟨.comma, ",", ⟨1, 18⟩⟩,
    ⟨.leftBrace, "\x7b", ⟨1, 20⟩⟩, ⟨.intLit, "3", ⟨1, 21⟩⟩, ⟨.comma, ",", ⟨1, 22⟩⟩,
    ⟨.intLit, "4", ⟨1, 24⟩⟩, ⟨.comma, ",", ⟨1, 25⟩⟩, ⟨.intLit, "5", ⟨1, 27⟩⟩,
    ⟨.rightBrace, "\x7d", ⟨1, 28⟩⟩, ⟨.rightBrace, "\x7d", ⟨1, 29⟩⟩]

/-- The cell of an integer literal. -/
def intCell (lexeme : String) : List Piece :=
  [(.intLit, some lexeme)]

/-- The rows `{1, 2}` and `{3, 4, 5}`. -/
def tableRows : List (List (List Piece)) :=
  [[intCell "1", intCell "2"], [intCell "3", intCell "4", intCell "5"]]

/-- The second row has an element too many. -/
theorem filled_arrays_are_counted_tableTokens :
    ((declarator 1 .int false).runFrom (.top .default tableTokens) .initial).1 =
      .error ⟨.rowTooLong 2 3 2, ⟨1, 20⟩⟩ := by
  have hcell (lexeme : String) : IsCell (intCell lexeme) := ⟨by simp [intCell], by simp [intCell]⟩
  have hfits (lexeme : String) : FitsCell (.top .default tableTokens) .initial .int (intCell lexeme) :=
    .literal rfl
  have hsize : (Dimension.literal 2).WrittenAs (.top .default tableTokens) .initial
      (.intLit, some "2") := .literal rfl (by decide)
  have hsuits : (Filling.table tableRows).Suits (.table (.literal 2) (.literal 2)) := trivial
  have hspells : Spells (.top .default tableTokens) State.initial.position
      ((.identifier, some "a") :: (bracketed (.intLit, some "2") ++ bracketed (.intLit, some "2") ++
        (.assign, none) :: (Filling.table tableRows).print)) 23 := by
    repeat' constructor
  obtain ⟨hlimit, hcounted⟩ := filled_arrays_are_counted .int false 1 rfl rfl
    (.table hsize hsize) hsuits (by simp [Filling.rows, tableRows, hcell]) hspells
  refine (hcounted fun h ↦ absurd (hlimit h) (by decide)).2.2 (.literal 2) 2 tableRows
    [[intCell "1", intCell "2"]] [intCell "3", intCell "4", intCell "5"] [] 15 rfl rfl rfl
    ?_ ?_ (by decide) (by repeat' constructor)
  · rintro cells hmem
    rw [List.mem_singleton.1 hmem]
    exact ⟨by simp [hfits], by decide, by simp⟩
  · simp [hfits]

end FrontEnd
