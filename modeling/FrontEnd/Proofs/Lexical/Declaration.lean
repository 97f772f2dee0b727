import FrontEnd.Proofs.Check.Statements
import FrontEnd.Proofs.Lexical.Expression
import FrontEnd.Proofs.Scope.Later

/-!
# Declarations keep a walk abreast

In a declarator the reader keeps its name in mind, and how many brackets are open: the name is not
visible yet, and names in sizes and initializers are looked up as if it were not there.

The walk declares the symbol when it is through with the declarator, and the reader the name when the
mark behind it is read.  In between, the walk has the name in front of the reader (`Declared`), and at
the mark the two are abreast again (`resolves_another`).
-/

namespace FrontEnd

open Check

/-- A check that resolves names where states are of a sort, and leads to such a state again. -/
def ResolvesIn {α : Type} (P : Context → State → Prop) (c : Context) (x : Check α) : Prop :=
  ∀ ⦃s⦄, P c s → Resolves x c s fun _ after ↦ Arrives P c s after

/-- A walk is abreast of a reader who is in the declarator of a name, with some brackets open. -/
abbrev InDeclarator (name depth : Nat) (blocks : List (List Nat)) : Context → State → Prop :=
  Sees ⟨.declarator name depth, blocks⟩ false

/-- A walk has declared a name that the reader is about to declare. -/
structure Declared (name : Nat) (c : Context) (s : State) : Prop where
  mode : (c.view s.position).mode = .declarator name 0
  blocks : InBlocks c s (declareIn name (c.view s.position).blocks)

section

variable {α : Type} {x : Check α} {c : Context} {s after : State} {v : View} {mode other : Mode}
  {commas : Bool} {name depth : Nat} {blocks : List (List Nat)} {k closing : Kind} {symbol : Symbol}

/-! ### One token -/

theorem Context.view_after {i : Nat} (hk : c.kindAt i = k) (hne : k ≠ .eof) :
    c.view (c.after i) = (c.view i).next k i := by
  rw [Context.after_of_kindAt hk hne, Context.view_succ, hk]

/-- A token that changes the mode and nothing else. -/
theorem At.turned (h : At mode c s) (hk : c.kindAt s.position = k) (hne : k ≠ .eof)
    (hnext : ∀ blocks i, View.next ⟨mode, blocks⟩ k i = ⟨other, blocks⟩) :
    At other c (s.movedTo (c.after s.position)) := by
  have hview : c.view (c.after s.position) = ⟨other, (c.view s.position).blocks⟩ := by
    rw [Context.view_after hk hne, ← hnext _ s.position, ← h.mode]
  have hblocks := congrArg View.blocks hview
  exact ⟨congrArg View.mode hview, h.abreast.of_eq rfl hblocks⟩

/-- A declared name is no use. -/
theorem At.answered_name (h : At .name c s) : AnsweredTo c s.position (c.after s.position) :=
  .one fun huse ↦ by
    have huses := huse.mode
    rw [h.mode] at huses
    cases huses

/-- A bracket that opens in a declarator. -/
theorem InDeclarator.opened (h : InDeclarator name depth blocks c s)
    (hk : c.kindAt s.position = k) (hopener : k.isOpener) :
    Arrives (InDeclarator name (depth + 1) blocks) c s (s.movedTo (c.after s.position)) := by
  obtain ⟨closing, hcloser⟩ := Option.isSome_iff_exists.1 hopener
  have hname : k ≠ .identifier := fun heq ↦ by rw [heq] at hcloser; cases hcloser
  have hview : c.view (c.after s.position) = ⟨.declarator name (depth + 1), blocks⟩ := by
    rw [Context.view_after hk (Kind.closer?_ne_eof hcloser).1, h.view]
    exact View.next_opener rfl hcloser _
  exact .token hk hname ⟨hview, Mode.settled_declarator _ _, h.abreast.of_eq rfl (by rw [State.position_movedTo, hview, h.view])⟩

/-- A bracket that closes in a declarator. -/
theorem InDeclarator.closed (h : InDeclarator name (depth + 1) blocks c s)
    (hcloser : k.closer? = some closing) (hk : c.kindAt s.position = closing) :
    Arrives (InDeclarator name depth blocks) c s (s.movedTo (c.after s.position)) := by
  have hname : closing ≠ .identifier := by
    rcases Kind.closer?_eq_some hcloser with ⟨-, rfl⟩ | ⟨-, rfl⟩ | ⟨-, rfl⟩ <;> decide
  have hview : c.view (c.after s.position) = ⟨.declarator name depth, blocks⟩ := by
    rw [Context.view_after hk (Kind.closer?_ne_eof hcloser).2, h.view]
    exact View.next_closer rfl hcloser _
  exact .token hk hname ⟨hview, Mode.settled_declarator _ _, h.abreast.of_eq rfl (by rw [State.position_movedTo, hview, h.view])⟩

/-- A comma between brackets. -/
theorem InDeclarator.comma (h : InDeclarator name (depth + 1) blocks c s)
    (hk : c.kindAt s.position = .comma) :
    Arrives (InDeclarator name (depth + 1) blocks) c s (s.movedTo (c.after s.position)) := by
  have hsees : Sees ⟨.declarator name (depth + 1), blocks⟩ true c s :=
    ⟨h.view, fun _ ↦ Nat.succ_pos depth, h.abreast⟩
  have hpassed := Looked.comma hsees hk
  exact ⟨hpassed.answered, hpassed.there.withoutCommas⟩

/-! ### Assignments -/

/-- Changes of a symbol that keep what it is known by make no difference. -/
theorem resolves_modifySymbol {f : Symbol → Symbol} (hs : Sees v commas c s)
    (hf : ∀ symbol : Symbol, symbol.Marked (f symbol)) (name : String) :
    Resolves (modifySymbol name f) c s fun _ after ↦ Looked v commas c s after := by
  simp only [modifySymbol, upholds_bind, upholds_read, upholds_modify]
  exact ⟨.refl c _, hs.view, hs.settled,
    hs.abreast.modify (fun symbol ↦ ⟨(hf symbol).name, (hf symbol).position⟩) name⟩

theorem resolvesNames_markInitialized (t : Target) : ResolvesNames c (markInitialized t) := by
  intro v s hs
  unfold markInitialized
  split
  · exact resolves_modifySymbol hs (Symbol.marked_withMember _) t.name
  · exact resolves_modifySymbol hs Symbol.marked_withValue t.name

theorem calm_requireType (wanted value : DataType) (place : Token) :
    Calm (requireType wanted value place) :=
  .ite (.violateAt rfl _) (.pure _)

/-- What is input is no expression and has no names in it. -/
theorem resolves_inputValue (hs : Sees v false c s) (hinput : c.kindAt s.position = .inputWord)
    (type : DataType) :
    Resolves (inputValue type) c s fun _ after ↦ Looked v false c s after := by
  simp only [inputValue, upholds_bind, upholds_advance, upholds_ite, upholds_violateAt, upholds_discard,
    upholds_expectMark, upholds_expect]
  refine ⟨fun _ ↦ ⟨fun hopen ↦ ⟨fun hprompt ↦ ⟨fun hclose ↦ ?_, fun _ ↦ by simp⟩, fun _ ↦ by simp⟩,
    fun _ ↦ by simp⟩, fun _ ↦ by simp⟩
  have hword := Looked.step hs hinput rfl (by decide)
  have hcloser : (c.kindAt (s.movedTo (c.after s.position)).position).closer? = some .rightParen := by
    rw [hopen]
    rfl
  have hinside : Took true c _ _ := .step hprompt rfl
  exact hword.trans (Looked.brackets hword.there hcloser (.token hprompt (by decide)) hclose
    (.brackets hcloser (by rw [hopen]; decide) hinside hclose))

section

variable (hc : c.Closed) (levels : Nat) {terminators : List Kind}
  (hterminators : ∀ k ∈ terminators, k.isPlain = false)

include hc hterminators

/-- A value of a wanted type. -/
theorem resolves_valueOfType (hs : Sees v false c s) (wanted : DataType) (place : Token) :
    Resolves (valueType levels terminators) c s fun found after ↦
      Resolves (requireType wanted found place) c after fun _ last ↦ Looked v false c s last := by
  refine (resolvesNames_valueType hc levels hterminators hs).mono fun found after hvalue ↦ ?_
  refine ((calm_requireType wanted found place).resolves (ensures_requireType ..)).mono ?_
  rintro _ _ rfl
  exact hvalue

theorem resolvesNames_plainAssignment (t : Target) (sign : Token) :
    ResolvesNames c (plainAssignment levels terminators t sign) := by
  intro v s hs
  simp only [plainAssignment, upholds_bind, upholds_next?, upholds_ite, beq_iff_eq]
  have hmark : ∀ {after : State}, Looked v false c s after →
      Resolves (markInitialized t) c after fun _ later ↦ Looked v false c s later :=
    fun h ↦ (resolvesNames_markInitialized t h.there).mono fun _ _ ↦ h.trans
  refine ⟨fun hinput ↦ (resolves_inputValue hs hinput _).mono fun _ _ ↦ hmark, fun _ ↦ ?_⟩
  exact (resolves_valueOfType hc levels hterminators hs t.type sign).mono fun found after hvalue ↦
    hvalue.mono fun _ _ ↦ hmark

theorem resolvesNames_compoundAssignment (op : Operator) (t : Target) (sign : Token) :
    ResolvesNames c (compoundAssignment levels terminators op t sign) := by
  intro v s hs
  simp only [compoundAssignment, upholds_bind, upholds_ite, upholds_violateAt, upholds_violate,
    upholds_peek]
  refine ⟨fun _ ↦ ⟨fun _ ↦ by simp, fun _ ↦ ⟨fun _ ↦ ?_, fun _ ↦ ?_⟩⟩, fun _ ↦ by simp⟩
  · exact resolves_valueOfType hc levels hterminators hs t.type sign
  · refine (resolves_warn hs _ _).mono fun _ _ hwarn ↦ ?_
    exact (resolves_valueOfType hc levels hterminators hwarn.there t.type sign).mono
      fun found after hvalue ↦ hvalue.mono fun _ _ ↦ hwarn.trans

theorem resolvesNames_assignmentTail (t : Target) :
    ResolvesNames c (assignmentTail levels terminators t) := by
  intro v s hs
  have hcount : ∀ {k : Kind}, c.kindAt s.position = k → k.isPlain → k ≠ .identifier →
      Resolves (discard advance >>= fun _ ↦ requireInt t) c s fun _ after ↦ Looked v false c s after := by
    intro k hk hplain hname
    simp only [upholds_bind, upholds_discard, upholds_advance]
    refine ((calm_requireInt t).resolves (ensures_requireInt t)).mono ?_
    rintro _ _ rfl
    exact Looked.step hs hk hplain hname
  simp only [assignmentTail, upholds_bind, upholds_peek, hc.kind_tokenAt]
  split
  next hk =>
    have hsign := Looked.step hs hk rfl (by decide)
    simp only [upholds_bind, upholds_discard, upholds_advance]
    exact (resolvesNames_plainAssignment hc levels hterminators t _ hsign.there).mono
      fun _ _ ↦ hsign.trans
  next hk => exact hcount hk rfl (by decide)
  next hk => exact hcount hk rfl (by decide)
  next =>
    split
    next op hop =>
      have hkind : (c.kindAt s.position).isPlain ∧ c.kindAt s.position ≠ .identifier := by
        cases hkind : c.kindAt s.position <;> rw [hkind] at hop <;>
          first | exact ⟨rfl, by decide⟩ | cases hop
      have hsign := Looked.step hs rfl hkind.1 hkind.2
      simp only [upholds_bind, upholds_discard, upholds_advance]
      exact (resolvesNames_compoundAssignment hc levels hterminators op t _ hsign.there).mono
        fun _ _ ↦ hsign.trans
    next => simp

end

/-! ### Sizes and elements of arrays -/

theorem calm_literalSize (t : Token) : Calm (literalSize t) := by
  unfold literalSize
  split
  · exact .violateAt rfl _
  · exact .guard (.violateAt rfl _) (.pure _)

/-- The name of a variable that holds a size or an element, behind it. -/
theorem Sees.looksBehind (hname : c.kindAt s.position = .identifier) :
    LooksAt c (s.movedTo (c.after s.position)) s.position :=
  ⟨hname, .inr (Context.after_of_kindAt hname (by decide))⟩

theorem resolvesNames_arraySize (hc : c.Closed) : ResolvesNames c arraySize := by
  intro v s hs
  simp only [arraySize, upholds_bind, upholds_advance, hc.kind_tokenAt]
  split
  next hk =>
    refine ((calm_literalSize _).resolves (ensures_literalSize _)).mono ?_
    rintro _ _ rfl
    exact Looked.step hs hk rfl (by decide)
  next => simp
  next hname =>
    have hat : LooksAt c (s.movedTo (c.after s.position)) s.position := Sees.looksBehind hname
    have hbehind := hs.took (.step hname rfl)
    simp only [namedSize, upholds_bind, upholds_resolve]
    refine ⟨hbehind.abreast.lexical hat, ?_⟩
    split
    next hmissed => exact (upholds_violateAt _ _).2 (hbehind.abreast.blames_variable hat hmissed)
    next symbol hfound =>
      have hthere := Looked.name hs hname (hbehind.abreast.answered hat hfound)
      simp [hthere]
  next => simp

/-- One dimension, at its opening bracket. -/
theorem resolves_dimension (hc : c.Closed) (hs : InDeclarator name depth blocks c s)
    (hopen : c.kindAt s.position = .leftBracket) :
    Resolves dimension c s fun _ after ↦ Arrives (InDeclarator name depth blocks) c s after := by
  have hopened := hs.opened hopen rfl
  simp only [dimension, upholds_bind, upholds_discard, upholds_advance, upholds_expectMark, upholds_pure]
  refine (resolvesNames_arraySize hc hopened.there).mono fun size after hsize ↦ ⟨fun hclose ↦ ?_,
    fun _ ↦ by simp⟩
  exact (hopened.trans hsize).trans (InDeclarator.closed (k := .leftBracket) hsize.there rfl hclose)

theorem resolves_arrayShape (hc : c.Closed) (hs : InDeclarator name depth blocks c s)
    (hopen : c.kindAt s.position = .leftBracket) (t : Token) :
    Resolves (arrayShape t) c s fun _ after ↦ Arrives (InDeclarator name depth blocks) c s after := by
  simp only [arrayShape, upholds_bind, upholds_next?, upholds_ite, beq_iff_eq, upholds_violate,
    upholds_pure]
  refine (resolves_dimension hc hs hopen).mono fun first later hfirst ↦ ⟨fun hsecond ↦ ?_, fun _ ↦ hfirst⟩
  exact (resolves_dimension hc hfirst.there hsecond).mono fun _ _ hboth ↦
    ⟨fun _ ↦ by simp, fun _ ↦ hfirst.trans hboth⟩

theorem resolvesNames_element (hc : c.Closed) (type : DataType) : ResolvesNames c (element type) := by
  intro v s hs
  simp only [element, upholds_bind, upholds_advance, hc.kind_tokenAt]
  split
  next found hfound =>
    have hname : c.kindAt s.position ≠ .identifier := fun hk ↦ by rw [hk] at hfound; cases hfound
    have hstep := Looked.step hs rfl (isPlain_of_literal hfound) hname
    simp [hstep]
  next =>
    simp only [upholds_bind, upholds_ite, upholds_violateAt, upholds_resolve, ne_eq, not_not]
    refine ⟨fun _ ↦ by simp, fun hname ↦ ?_⟩
    have hat : LooksAt c (s.movedTo (c.after s.position)) s.position := Sees.looksBehind hname
    have hbehind := hs.took (.step hname rfl)
    refine ⟨hbehind.abreast.lexical hat, ?_⟩
    split
    next hmissed => exact (upholds_violateAt _ _).2 (hbehind.abreast.blames_variable hat hmissed)
    next symbol hfound =>
      have hthere := Looked.name hs hname (hbehind.abreast.answered hat hfound)
      simp [hthere]

/-! ### Initializers of arrays -/

/-- A row of elements is between braces, so that a comma in it does not end a declarator. -/
theorem resolvesIn_row (hc : c.Closed) (type : DataType) :
    ResolvesIn (InDeclarator name depth blocks) c (row type) := by
  intro s hs
  simp only [row, upholds_bind, upholds_discard, upholds_expectMark, upholds_next?, upholds_ite,
    upholds_pure]
  refine ⟨fun hopen ↦ ?_, fun _ ↦ by simp⟩
  have hopened := hs.opened hopen rfl
  have hend : ∀ {after : State}, Arrives (InDeclarator name (depth + 1) blocks) c s after →
      (c.kindAt after.position = .rightBrace →
        Arrives (InDeclarator name depth blocks) c s (after.movedTo (c.after after.position))) ∧
      (c.kindAt after.position ≠ .rightBrace → c.Blames (c.expected after.position (.mark .rightBrace))) :=
    fun h ↦ ⟨fun hclose ↦ h.trans (InDeclarator.closed (k := .leftBrace) h.there rfl hclose), fun _ ↦ by simp⟩
  refine ⟨fun _ ↦ hend hopened, fun _ ↦ ?_⟩
  refine (upholds_rounds (by simp) (I := fun _ after ↦
    Arrives (InDeclarator name (depth + 1) blocks) c s after) hopened ?_).mono fun _ _ ↦ hend
  intro count after hafter
  simp only [upholds_bind, upholds_next?, upholds_ite, beq_iff_eq, upholds_discard, upholds_advance,
    upholds_pure, afterRound_yield, afterRound_done]
  refine (resolvesNames_element hc type hafter.there).mono fun _ _ helement ↦ ?_
  have hthere := hafter.trans helement
  exact ⟨fun hcomma ↦ hthere.trans (InDeclarator.comma hthere.there hcomma), fun _ ↦ hthere⟩

theorem calm_checkCount (size : Dimension) (isConstant : Bool) (count : Nat) (place : Token)
    {tooMany : Nat → Nat → Violation} (h : ∀ m n, (tooMany m n).undefined? = none) :
    Calm (checkCount size isConstant count place tooMany) := by
  unfold checkCount
  split
  · exact .pure _
  · exact .guard (.violateAt (h _ _) _) (.ite (.violateAt rfl _) (.pure _))

theorem resolvesIn_rows (hc : c.Closed) (type : DataType) (columns : Dimension) (isConstant : Bool) :
    ResolvesIn (InDeclarator name (depth + 1) blocks) c (rows type columns isConstant) := by
  intro s hs
  refine upholds_roundsWhile (by simp) (I := fun _ after ↦
    Arrives (InDeclarator name (depth + 1) blocks) c s after) (.refl hs) ?_
  intro count after hafter
  simp only [upholds_bind, upholds_peek, upholds_next?, upholds_ite, beq_iff_eq, upholds_discard,
    upholds_advance, upholds_pure, afterRound_yield, afterRound_done]
  refine ⟨fun _ ↦ ?_, fun _ ↦ hafter⟩
  refine (resolvesIn_row hc type hafter.there).mono fun _ _ hrow ↦ ?_
  refine ((calm_checkCount columns isConstant _ _ fun _ _ ↦ rfl).resolves
    (ensures_checkCount _ _ _ _ (by simp))).mono ?_
  rintro _ _ rfl
  have hthere := hafter.trans hrow
  exact ⟨fun hcomma ↦ hthere.trans (InDeclarator.comma hthere.there hcomma), fun _ ↦ hthere⟩

theorem resolvesIn_arrayInitializer (hc : c.Closed) (type : DataType) (isConstant : Bool)
    (shape : Shape) :
    ResolvesIn (InDeclarator name depth blocks) c (arrayInitializer type isConstant shape) := by
  intro s hs
  cases shape with
  | row size =>
    simp only [arrayInitializer, upholds_bind, upholds_peek]
    refine (resolvesIn_row hc type hs).mono fun _ _ hrow ↦ ?_
    refine ((calm_checkCount size isConstant _ _ fun _ _ ↦ rfl).resolves
      (ensures_checkCount _ _ _ _ (by simp))).mono ?_
    rintro _ _ rfl
    exact hrow
  | table rowCount columns =>
    simp only [arrayInitializer, upholds_bind, upholds_discard, upholds_expectMark]
    refine ⟨fun hopen ↦ ?_, fun _ ↦ by simp⟩
    have hopened := hs.opened hopen rfl
    refine (resolvesIn_rows hc type columns isConstant hopened.there).mono
      fun _ _ hrows ↦ ⟨fun hclose ↦ ?_, fun _ ↦ by simp⟩
    refine ((calm_checkCount rowCount isConstant _ _ fun _ _ ↦ rfl).resolves
      (ensures_checkCount _ _ _ _ (by simp))).mono ?_
    rintro _ _ rfl
    exact (hopened.trans hrows).trans (InDeclarator.closed (k := .leftBrace) hrows.there rfl hclose)

/-! ### Declarators -/

theorem resolvesNames_initializer (hc : c.Closed) (levels : Nat) (type : DataType) (sign : Token) :
    ResolvesNames c (initializer levels type sign) := by
  intro v s hs
  simp only [initializer, upholds_bind, upholds_next?, upholds_ite, beq_iff_eq]
  exact ⟨fun hinput ↦ resolves_inputValue hs hinput type,
    fun _ ↦ resolves_valueOfType hc levels (by simp [Kind.isPlain]) hs type sign⟩

/-- The rest of the declarator of an array, at its first bracket. -/
theorem resolves_arrayDeclarator (hc : c.Closed) (hs : InDeclarator name depth blocks c s)
    (hopen : c.kindAt s.position = .leftBracket) (type : DataType) (isConstant : Bool) (t : Token) :
    Resolves (arrayDeclarator type isConstant t) c s fun _ after ↦
      Arrives (InDeclarator name depth blocks) c s after := by
  simp only [arrayDeclarator, upholds_bind, upholds_next?, upholds_ite, beq_iff_eq, upholds_discard,
    upholds_advance, upholds_violateAt, upholds_pure]
  refine (resolves_arrayShape hc hs hopen t).mono fun shape _ hshape ↦ ?_
  refine ⟨fun hassign ↦ ?_, fun _ ↦ ⟨fun _ ↦ by simp, fun _ ↦ hshape⟩⟩
  have hsign := Looked.step hshape.there hassign rfl (by decide)
  exact (resolvesIn_arrayInitializer hc type isConstant shape hsign.there).mono fun _ _ hvalue ↦
    (hshape.trans hsign).trans hvalue

/-- A declared symbol is one more name of the innermost block. -/
theorem InBlocks.insert (h : InBlocks c s blocks) (hnamed : symbol.NamedAt c name) {arena : Arena}
    (hinsert : s.arena.insert c.scope symbol = some arena) :
    InBlocks c { s with arena := arena } (declareIn name blocks) := by
  obtain ⟨scope, outside, hbefore, -, hafter⟩ := Arena.around_insert hinsert
  refine ⟨(Arena.size_insert hinsert).symm ▸ h.live, ?_⟩
  rw [hafter]
  have hrows := h.rows
  rw [hbefore] at hrows
  cases hrows with
  | cons hfirst hrest => exact .cons (List.rel_append hfirst (.cons hnamed .nil)) hrest

theorem calm_declare (symbol : Symbol) (place : Token) : Calm (declare symbol place) :=
  .bind .read fun _ ↦ .bind (.insertSymbol _ _) fun _ ↦ .ite (.pure _) (.violateAt rfl _)

theorem resolves_declare (hs : InDeclarator name 0 blocks c s) (hnamed : symbol.NamedAt c name)
    (place : Token) :
    Resolves (declare symbol place) c s fun _ after ↦ Arrives (Declared name) c s after := by
  refine (calm_declare symbol place).resolves (E := fun _ ↦ True) ?_
  simp only [declare, ensures_bind, ensures_read, ensures_insertSymbol, ensures_ite, ensures_violateAt,
    ensures_pure]
  refine ⟨fun arena harena ↦ ⟨fun _ ↦ ⟨.refl c _, ?_⟩, fun _ ↦ trivial⟩, fun _ ↦ by simp⟩
  exact ⟨congrArg View.mode hs.view, hs.abreast.insert hnamed harena⟩

/-- The name of a declarator and what comes behind it. -/
theorem At.declarator (hs : At .name c s) (hname : c.kindAt s.position = .identifier) :
    Arrives (InDeclarator s.position 0 (c.view s.position).blocks) c s
      (s.movedTo (c.after s.position)) := by
  have hview : c.view (c.after s.position) =
      ⟨.declarator s.position 0, (c.view s.position).blocks⟩ := by
    rw [Context.view_after hname (by decide)]
    simp [View.next, View.turn, hs.mode]
  have hblocks := congrArg View.blocks hview
  exact ⟨hs.answered_name, hview, Mode.settled_declarator _ _, hs.abreast.of_eq rfl hblocks⟩

theorem resolves_declarator (hc : c.Closed) (hs : At .name c s) (levels : Nat) (type : DataType)
    (isConstant : Bool) :
    Resolves (declarator levels type isConstant) c s fun _ after ↦
      Arrives (Declared s.position) c s after := by
  have hbare : (bareSymbol type isConstant (c.tokenAt s.position)).NamedAt c s.position := by
    unfold bareSymbol
    split <;> exact ⟨rfl, rfl⟩
  simp only [declarator, upholds_bind, upholds_expect, upholds_declaredHere, upholds_ite,
    upholds_violateAt, upholds_next?, beq_iff_eq, upholds_advance]
  refine ⟨fun hname ↦ ⟨fun _ ↦ by simp, fun _ ↦ ?_⟩, fun _ ↦ by simp⟩
  -- The name is in mind, but not declared before its initializer has ended.
  have hthere := hs.declarator hname
  refine ⟨fun hopen ↦ ?_, fun _ ↦ ⟨fun hassign ↦ ?_, fun _ ↦ ⟨fun _ ↦ by simp, fun _ ↦ ?_⟩⟩⟩
  · refine (resolves_arrayDeclarator hc hthere.there hopen type isConstant _).mono
      fun result after harray ↦ ?_
    have hnamed : Symbol.NamedAt c { bareSymbol type isConstant _ with
      array := some result.1.dimensions, initialized := result.2 } s.position := ⟨hbare.name, hbare.position⟩
    exact (resolves_declare harray.there hnamed _).mono fun _ _ ↦ (hthere.trans harray).trans
  · have hsign := Looked.step hthere.there hassign rfl (by decide)
    refine (resolvesNames_initializer hc levels type _ hsign.there).mono fun _ after hvalue ↦ ?_
    have hnamed : (bareSymbol type isConstant _).withValue.NamedAt c s.position :=
      ⟨hbare.name, hbare.position⟩
    exact (resolves_declare hvalue.there hnamed _).mono fun _ _ ↦
      ((hthere.trans hsign).trans hvalue).trans
  · exact (resolves_declare hthere.there hbare _).mono fun _ _ ↦ hthere.trans

/-! ### Declarations -/

/-- At the mark behind a declarator the reader declares the name as well. -/
theorem Declared.marked (h : Declared name c s) (hk : c.kindAt s.position = k)
    (hmark : k = .comma ∧ mode = .name ∨ k = .semicolon ∧ mode = .start) :
    Arrives (At mode) c s (s.movedTo (c.after s.position)) := by
  have hview : c.view (c.after s.position) = ⟨mode, declareIn name (c.view s.position).blocks⟩ := by
    rcases hmark with ⟨rfl, rfl⟩ | ⟨rfl, rfl⟩ <;> rw [Context.view_after hk (by decide)] <;>
      simp [View.next, h.mode, Kind.isOpener, Kind.closer?, Kind.isCloser]
  have hname : k ≠ .identifier := by rcases hmark with ⟨rfl, -⟩ | ⟨rfl, -⟩ <;> decide
  have hblocks := congrArg View.blocks hview
  exact .token hk hname ⟨congrArg View.mode hview, h.blocks.live, hblocks ▸ h.blocks.rows⟩

theorem resolves_another (hs : Declared name c s) :
    Resolves another c s fun more after ↦ Arrives (At (if more then .name else .start)) c s after := by
  simp only [another, upholds_bind, upholds_next?, upholds_ite, beq_iff_eq, upholds_discard,
    upholds_advance, upholds_pure, upholds_expect]
  exact ⟨fun hcomma ↦ hs.marked hcomma (.inl ⟨rfl, rfl⟩),
    fun _ ↦ ⟨fun hsemicolon ↦ hs.marked hsemicolon (.inr ⟨rfl, rfl⟩), fun _ ↦ by simp⟩⟩

theorem resolves_declarators {one : Check Unit}
    (h : ∀ s, At .name c s → Resolves one c s fun _ after ↦ Arrives (Declared s.position) c s after)
    (hs : At .name c s) :
    Resolves (declarators one) c s fun _ after ↦ Arrives (At .start) c s after := by
  refine upholds_rounds (by simp) (I := fun _ after ↦ Arrives (At .name) c s after) (.refl hs) ?_
  intro _ t ht
  simp only [upholds_bind]
  refine (h t ht.there).mono fun _ _ hone ↦ ?_
  refine (resolves_another hone.there).mono fun more _ hmore ↦ ?_
  cases more with
  | true => exact upholds_pure.2 ((ht.trans hone).trans hmore)
  | false => exact upholds_pure.2 ((ht.trans hone).trans hmore)

/-- Behind the word of a primitive type stands a name that is declared. -/
theorem resolves_typeWord (hc : c.Closed) (hs : At .start c s) (wanted : Wanted) :
    Resolves (typeWord wanted) c s fun _ after ↦ Arrives (At .name) c s after := by
  simp only [typeWord, upholds_bind, upholds_advance]
  split
  next type htype =>
    rw [primitiveType?, hc.kind_tokenAt] at htype
    obtain ⟨hname, hne, -⟩ := DataType.word_ne (Option.filter_eq_some_iff.1 htype).1
    exact upholds_pure.2 (.token rfl hname (hs.turned rfl hne (View.next_typeWord htype)))
  next => simp

theorem resolves_variableDeclaration (hc : c.Closed) (hs : At .start c s) (levels : Nat) :
    Resolves (variableDeclaration levels) c s fun _ after ↦ Arrives (At .start) c s after := by
  simp only [variableDeclaration, upholds_bind]
  refine (resolves_typeWord hc hs _).mono fun type _ htype ↦ ?_
  exact (resolves_declarators (fun _ ht ↦ resolves_declarator hc ht levels type false) htype.there).mono
    fun _ _ ↦ htype.trans

theorem resolves_constantDeclaration (hc : c.Closed) (hs : At .start c s)
    (hword : c.kindAt s.position = .constWord) (levels : Nat) :
    Resolves (constantDeclaration levels) c s fun _ after ↦ Arrives (At .start) c s after := by
  have hthere : Arrives (At .start) c s (s.movedTo (c.after s.position)) :=
    .token hword (by decide) (hs.turned hword (by decide) fun _ _ ↦ rfl)
  simp only [constantDeclaration, upholds_bind, upholds_discard, upholds_advance]
  refine (resolves_typeWord hc hthere.there _).mono fun type _ htype ↦ ?_
  exact (resolves_declarators (fun _ ht ↦ resolves_declarator hc ht levels type true) htype.there).mono
    fun _ _ ↦ (hthere.trans htype).trans

/-- The struct of an instance is looked up behind its name, and the names of the instances are declared. -/
theorem resolves_instanceDeclaration (hs : At .start c s)
    (hword : c.kindAt s.position = .instanceWord) :
    Resolves instanceDeclaration c s fun _ after ↦ Arrives (At .start) c s after := by
  have hthere : Arrives (At .instanceOf) c s (s.movedTo (c.after s.position)) :=
    .token hword (by decide) (hs.turned hword (by decide) fun _ _ ↦ rfl)
  simp only [instanceDeclaration, upholds_bind, upholds_discard, upholds_advance, upholds_expect,
    upholds_resolve]
  refine ⟨fun hname ↦ ?_, fun _ ↦ by simp⟩
  have hbehind : At .name c _ := hthere.there.turned hname (by decide) fun _ _ ↦ rfl
  have hat := Sees.looksBehind hname
  refine ⟨hbehind.abreast.lexical hat, ?_⟩
  split
  next hstruct =>
    obtain ⟨symbol, hfound, -⟩ := Option.map_eq_some_iff.1 hstruct
    have hpassed := hthere.trans ⟨.one fun _ ↦ hbehind.abreast.answered hat hfound, hbehind⟩
    refine (resolves_declarators (fun t ht ↦ ?_) hbehind).mono fun _ _ ↦ hpassed.trans
    simp only [upholds_bind, upholds_expect]
    refine ⟨fun hone ↦ ?_, fun _ ↦ by simp⟩
    have hinstance := ht.declarator hone
    exact (resolves_declare hinstance.there ⟨rfl, rfl⟩ _).mono fun _ _ ↦ hinstance.trans
  next => simp

end

end FrontEnd
