import FrontEnd.Check.Statement
import FrontEnd.Proofs.Check.Balanced
import FrontEnd.Proofs.Check.Operands
import FrontEnd.Proofs.Scope.Global

/-!
# What the walk over a statement takes in

A statement that is checked successfully has taken in a balanced stretch of tokens, and what was
recorded of functions is as it was: `Walks`.  Again this holds on any tokens, and for the statements
of a block one level down as a parameter it is an induction on levels (`walks_statementsBelow`).
-/

namespace FrontEnd

open Check

/-- The functions recorded in the state are those of the other one, with their bodies. -/
structure Keeps (s after : State) : Prop where
  functions : after.functions = s.functions
  headers : after.headers = s.headers
  bodies : ∀ name body, s.arena.body? name = some body → after.arena.body? name = some body

/-- A walk from one state to the other took in a balanced stretch and kept the functions. -/
structure Passed (c : Context) (s after : State) : Prop where
  balanced : Balanced c.kindAt s.position after.position
  keeps : Keeps s after

/-- A check that takes in a balanced stretch and keeps the functions wherever it succeeds. -/
def Walks {α : Type} (x : Check α) : Prop :=
  ∀ c s, c.Closed → Ensures x c s Unlost fun _ after ↦ Passed c s after

section

variable {α : Type} {x : Check α} {c : Context} {s after later : State} {i : Nat}

theorem Keeps.refl (s : State) : Keeps s s :=
  ⟨rfl, rfl, fun _ _ h ↦ h⟩

theorem Keeps.trans (h : Keeps s after) (h' : Keeps after later) : Keeps s later :=
  ⟨h'.functions.trans h.functions, h'.headers.trans h.headers,
    fun name body hbody ↦ h'.bodies name body (h.bodies name body hbody)⟩

theorem SameTables.keeps (h : SameTables s after) : Keeps s after :=
  ⟨h.functions, h.headers, fun _ _ hbody ↦ by rwa [h.arena]⟩

namespace Passed

theorem refl (c : Context) (s : State) : Passed c s s :=
  ⟨.nil, .refl s⟩

theorem trans (h : Passed c s after) (h' : Passed c after later) : Passed c s later :=
  ⟨h.balanced.trans h'.balanced, h.keeps.trans h'.keeps⟩

/-- What a walk took in is a matter of the tokens alone. -/
theorem of_tokens {d : Context} (h : Passed d s after) (htokens : d.tokens = c.tokens) :
    Passed c s after := by
  have hkind : d.kindAt = c.kindAt := by
    unfold Context.kindAt
    rw [htokens]
  exact ⟨hkind ▸ h.balanced, h.keeps⟩

/-- A check that keeps its place and the functions. -/
theorem stay (h : Passed c s after) (hkeeps : Keeps after later)
    (hposition : later.position = after.position) : Passed c s later :=
  h.trans ⟨hposition ▸ .nil, hkeeps⟩

/-- An ordinary token more. -/
theorem advance (h : Passed c s after) {k : Kind} (hk : c.kindAt after.position = k)
    (hordinary : k.isOrdinary) : Passed c s (after.movedTo (c.after after.position)) := by
  have hafter := Context.after_of_kindAt hk (Kind.isOrdinary_iff.1 hordinary).2.2.1
  refine ⟨h.balanced.trans (hafter ▸ .one (hk ▸ hordinary)), ?_⟩
  exact h.keeps.trans (SameTables.movedTo.2 (.refl after)).keeps

/-- The first step of a walk. -/
theorem step {k : Kind} (hk : c.kindAt s.position = k) (hordinary : k.isOrdinary) :
    Passed c s (s.movedTo (c.after s.position)) :=
  (refl c s).advance hk hordinary

/-- Braces with what stands inside. -/
theorem braces (hopen : c.kindAt s.position = .leftBrace)
    (h : Passed c (s.movedTo (c.after s.position)) after)
    (hclose : c.kindAt after.position = .rightBrace) :
    Passed c s (after.movedTo (c.after after.position)) := by
  have hfirst := Context.after_of_kindAt hopen (by simp)
  have hlast := Context.after_of_kindAt hclose (by simp)
  obtain ⟨hbalanced, hkeeps⟩ := h
  rw [State.position_movedTo, hfirst] at hbalanced
  refine ⟨?_, (SameTables.movedTo.2 (.refl s)).keeps.trans
    (hkeeps.trans (SameTables.movedTo.2 (.refl after)).keeps)⟩
  rw [State.position_movedTo, hlast]
  exact .braces hopen hbalanced hclose .nil

end Passed

theorem Took.passed {commas : Bool} (h : Took commas c s after) : Passed c s after :=
  ⟨h.phrase.balanced, h.tables.keeps⟩

/-- A walk goes on from where another one came to. -/
theorem Walks.next (hx : Walks x) (hc : c.Closed) (h : Passed c s after) :
    Ensures x c after Unlost fun _ later ↦ Passed c s later :=
  (hx c after hc).mono fun _ _ ↦ h.trans

theorem TakesPhrase.walks (hx : ∀ c, TakesPhrase c x) : Walks x :=
  fun c s _ ↦ (hx c s).mono fun _ _ ↦ Took.passed

theorem walks_expect {k : Kind} (hk : k.isOrdinary) (wanted : Wanted) :
    Walks (expect k wanted) := by
  intro c s hc
  rw [ensures_expect]
  exact ⟨fun h ↦ .step h hk, fun _ ↦ unlost_expected _ _⟩

theorem walks_expectMark {k : Kind} (hk : k.isOrdinary) : Walks (expectMark k) :=
  walks_expect hk (.mark k)

/-! ### Assignments -/

theorem ensures_inputValue (hc : c.Closed) (h : Passed c s after)
    (hinput : c.kindAt after.position = .inputWord) (type : DataType) :
    Ensures (inputValue type) c after Unlost fun _ later ↦ Passed c s later := by
  simp only [inputValue, ensures_bind, ensures_advance, ensures_ite, ensures_violateAt,
    ensures_discard]
  refine ⟨fun _ ↦ ?_, fun _ ↦ by simp⟩
  have hword := h.advance hinput rfl
  refine ((walks_expectMark rfl).next hc hword).mono fun _ _ hopen ↦ ?_
  refine ((walks_expect rfl _).next hc hopen).mono fun _ _ hprompt ↦ ?_
  exact (walks_expectMark rfl).next hc hprompt

theorem ensures_requireType (wanted value : DataType) (place : Token) :
    Ensures (requireType wanted value place) c s Unlost fun _ after ↦ after = s := by
  simp [requireType]

/-- Changes of a symbol that keep names and bodies keep the functions. -/
theorem keeps_modifySymbol {f : Symbol → Symbol} (hf : KeepsBodies f) (name : String) :
    Ensures (modifySymbol name f) c s Unlost fun _ after ↦
      after.position = s.position ∧ Keeps s after :=
  ⟨rfl, rfl, rfl, fun _ _ h ↦ (Arena.body?_modify hf name).trans h⟩

theorem walks_markInitialized (t : Target) : Walks (markInitialized t) := by
  intro c s _
  unfold markInitialized
  have hpassed : ∀ f, KeepsBodies f →
      Ensures (modifySymbol t.name f) c s Unlost fun _ after ↦ Passed c s after :=
    fun f hf ↦ (keeps_modifySymbol hf t.name).mono fun _ _ h ↦ (Passed.refl c s).stay h.2 h.1
  split
  · exact hpassed _ (keepsBodies_withMember _)
  · exact hpassed _ keepsBodies_withValue

theorem walks_valueType (levels : Nat) {terminators : List Kind}
    (hterminators : ∀ k ∈ terminators, k.isPlain = false) :
    Walks (valueType levels terminators) :=
  TakesPhrase.walks fun _ ↦ takesPhrase_valueType levels hterminators

section

variable (levels : Nat) {terminators : List Kind}
  (hterminators : ∀ k ∈ terminators, k.isPlain = false)

include hterminators

theorem walks_plainAssignment (t : Target) (sign : Token) :
    Walks (plainAssignment levels terminators t sign) := by
  intro c s hc
  simp only [plainAssignment, ensures_bind, ensures_next?, ensures_ite, beq_iff_eq]
  refine ⟨fun hinput ↦ ?_, fun _ ↦ ?_⟩
  · refine (ensures_inputValue hc (.refl c s) hinput _).mono fun _ _ h ↦ ?_
    exact (walks_markInitialized t).next hc h
  · refine ((walks_valueType levels hterminators) c s hc).mono fun _ _ h ↦ ?_
    refine (ensures_requireType ..).mono ?_
    rintro _ _ rfl
    exact (walks_markInitialized t).next hc h

/-- A value of a wanted type. -/
theorem ensures_valueOfType (hc : c.Closed) (h : Passed c s after) (wanted : DataType)
    (place : Token) :
    Ensures (valueType levels terminators) c after Unlost fun found later ↦
      Ensures (requireType wanted found place) c later Unlost fun _ last ↦ Passed c s last := by
  refine ((walks_valueType levels hterminators).next hc h).mono fun _ _ hvalue ↦ ?_
  refine (ensures_requireType ..).mono ?_
  rintro _ _ rfl
  exact hvalue

theorem walks_compoundAssignment (op : Operator) (t : Target) (sign : Token) :
    Walks (compoundAssignment levels terminators op t sign) := by
  intro c s hc
  simp only [compoundAssignment, ensures_bind, ensures_ite, ensures_violateAt, ensures_violate,
    ensures_peek]
  refine ⟨fun _ ↦ ⟨fun _ ↦ by simp, fun _ ↦ ⟨fun _ ↦ ?_, fun _ ↦ ?_⟩⟩, fun _ ↦ by simp⟩
  · exact ensures_valueOfType levels hterminators hc (.refl c s) t.type sign
  · refine (ensures_warn _ _).mono fun _ _ hwarn ↦ ?_
    exact ensures_valueOfType levels hterminators hc hwarn.passed t.type sign

theorem walks_assignmentTail (t : Target) : Walks (assignmentTail levels terminators t) := by
  intro c s hc
  have hcount : ∀ {k : Kind}, c.kindAt s.position = k → k.isOrdinary →
      Ensures (discard advance >>= fun _ ↦ requireInt t) c s Unlost fun _ after ↦
        Passed c s after := by
    intro k hk hordinary
    simp only [ensures_bind, ensures_discard, ensures_advance]
    refine (ensures_requireInt t).mono ?_
    rintro _ _ rfl
    exact .step hk hordinary
  simp only [assignmentTail, ensures_bind, ensures_peek, hc.kind_tokenAt]
  split
  next hk =>
    simp only [ensures_bind, ensures_discard, ensures_advance]
    exact (walks_plainAssignment levels hterminators t _).next hc (.step hk rfl)
  next hk => exact hcount hk rfl
  next hk => exact hcount hk rfl
  next =>
    split
    next op hop =>
      have hordinary : (c.kindAt s.position).isOrdinary := by
        cases hkind : c.kindAt s.position <;> rw [hkind] at hop <;> first | rfl | cases hop
      simp only [ensures_bind, ensures_discard, ensures_advance]
      exact (walks_compoundAssignment levels hterminators op t _).next hc (.step rfl hordinary)
    next => simp

end

/-! ### Declarations -/

theorem isOrdinary_of_typeWord {k : Kind} {type : DataType} (h : DataType.ofWord? k = some type) :
    k.isOrdinary := by
  cases k <;> first | rfl | cases h

theorem walks_typeWord (wanted : Wanted) : Walks (typeWord wanted) := by
  intro c s hc
  simp only [typeWord, ensures_bind, ensures_advance]
  split
  next type htype =>
    have hordinary : (c.kindAt s.position).isOrdinary := by
      obtain ⟨hword, -⟩ := Option.filter_eq_some_iff.1 htype
      rw [hc.kind_tokenAt] at hword
      exact isOrdinary_of_typeWord hword
    exact .step rfl hordinary
  next => simp

theorem walks_another : Walks another := by
  intro c s hc
  simp only [another, ensures_bind, ensures_next?, ensures_ite, beq_iff_eq, ensures_discard,
    ensures_advance, ensures_pure, ensures_expect]
  exact ⟨fun hcomma ↦ .step hcomma rfl,
    fun _ ↦ ⟨fun hsemicolon ↦ .step hsemicolon rfl, fun _ ↦ unlost_expected _ _⟩⟩

theorem walks_declarators {one : Check Unit} (h : Walks one) : Walks (declarators one) := by
  intro c s hc
  refine ensures_roundsWhile_of_rel (Passed.refl c) Passed.trans (by simp) (by simp) ?_
  intro _ t
  simp only [ensures_bind]
  refine (h c t hc).mono fun _ _ hone ↦ ?_
  refine (walks_another.next hc hone).mono fun more _ hmore ↦ ?_
  split <;> exact hmore

/-! ### Arrays -/

theorem ensures_literalSize (t : Token) :
    Ensures (literalSize t) c s Unlost fun _ after ↦ after = s := by
  unfold literalSize
  split <;> simp

theorem ensures_namedSize (t : Token) :
    Ensures (namedSize t) c s Unlost fun _ after ↦ after = s := by
  simp only [namedSize, ensures_bind, ensures_resolve]
  split <;> simp

theorem walks_arraySize : Walks arraySize := by
  intro c s hc
  simp only [arraySize, ensures_bind, ensures_advance, hc.kind_tokenAt]
  split
  next hk =>
    refine (ensures_literalSize _).mono ?_
    rintro _ _ rfl
    exact .step hk rfl
  next => simp
  next hk =>
    refine (ensures_namedSize _).mono ?_
    rintro _ _ rfl
    exact .step hk rfl
  next => simp

/-- One dimension, at its opening bracket. -/
theorem ensures_dimension (hc : c.Closed) (h : Passed c s after)
    (hopen : c.kindAt after.position = .leftBracket) :
    Ensures dimension c after Unlost fun _ later ↦ Passed c s later := by
  simp only [dimension, ensures_bind, ensures_discard, ensures_advance, ensures_pure]
  refine (walks_arraySize.next hc (h.advance hopen rfl)).mono fun _ _ hsize ↦ ?_
  exact (walks_expectMark rfl).next hc hsize

theorem ensures_arrayShape (hc : c.Closed) (h : Passed c s after)
    (hopen : c.kindAt after.position = .leftBracket) (name : Token) :
    Ensures (arrayShape name) c after Unlost fun _ later ↦ Passed c s later := by
  simp only [arrayShape, ensures_bind, ensures_next?, ensures_ite, beq_iff_eq, ensures_violate,
    ensures_pure]
  refine (ensures_dimension hc h hopen).mono fun first later hfirst ↦ ?_
  refine ⟨fun hsecond ↦ ?_, fun _ ↦ hfirst⟩
  exact (ensures_dimension hc hfirst hsecond).mono fun _ _ hboth ↦ ⟨fun _ ↦ by simp, fun _ ↦ hboth⟩

/-! ### Initializers of arrays -/

theorem walks_element (type : DataType) : Walks (element type) := by
  intro c s hc
  simp only [element, ensures_bind, ensures_advance, hc.kind_tokenAt]
  split
  next found hfound =>
    have hstep : Passed c s (s.movedTo (c.after s.position)) :=
      .step rfl (Kind.isOrdinary_of_isPlain (isPlain_of_literal hfound))
    simp [hstep]
  next =>
    simp only [ensures_bind, ensures_ite, ensures_violateAt, ensures_resolve]
    refine ⟨fun _ ↦ by simp, fun hname ↦ ?_⟩
    have hstep : Passed c s (s.movedTo (c.after s.position)) := .step (by simpa using hname) rfl
    split
    · simp
    · simp [hstep]

/-- Braces around a check that walks. -/
theorem ensures_braces {α : Type} {x : Check α} (hx : Walks x) (hc : c.Closed)
    (h : Passed c s after) (hopen : c.kindAt after.position = .leftBrace) :
    Ensures x c (after.movedTo (c.after after.position)) Unlost fun _ later ↦
      c.kindAt later.position = .rightBrace →
        Passed c s (later.movedTo (c.after later.position)) :=
  (hx c _ hc).mono fun _ _ hinside hclose ↦ h.trans (.braces hopen hinside hclose)

/-- The elements of a row. -/
theorem walks_elements (type : DataType) :
    Walks (rounds (fun count ↦ do
      element type
      if ← next? .comma then
        discard advance
        return .yield (count + 1)
      else
        return .done (count + 1)) 0) := by
  intro c s hc
  refine ensures_roundsWhile_of_rel (Passed.refl c) Passed.trans (by simp) (by simp) ?_
  intro count t
  simp only [ensures_bind, ensures_next?, ensures_ite, beq_iff_eq, ensures_discard,
    ensures_advance, ensures_pure]
  refine (walks_element type c t hc).mono fun _ _ helement ↦ ?_
  exact ⟨fun hcomma ↦ helement.advance hcomma rfl, fun _ ↦ helement⟩

theorem walks_row (type : DataType) : Walks (row type) := by
  intro c s hc
  simp only [row, ensures_bind, ensures_discard, ensures_expectMark, ensures_next?, ensures_ite,
    ensures_pure]
  refine ⟨fun hopen ↦ ⟨fun _ ↦ ⟨fun hclose ↦ ?_, fun _ ↦ unlost_expected _ _⟩, fun _ ↦ ?_⟩,
    fun _ ↦ unlost_expected _ _⟩
  · exact .braces hopen (.refl c _) hclose
  · refine (ensures_braces (walks_elements type) hc (.refl c s) hopen).mono fun _ _ hinside ↦ ?_
    exact ⟨hinside, fun _ ↦ unlost_expected _ _⟩

theorem ensures_checkCount (size : Dimension) (isConstant : Bool) (count : Nat) (place : Token)
    {tooMany : Nat → Nat → Violation} (h : ∀ m n how, tooMany m n ≠ .lost how) :
    Ensures (checkCount size isConstant count place tooMany) c s Unlost fun _ after ↦
      after = s := by
  unfold checkCount
  split
  · simp
  · simp [h]

theorem walks_rows (type : DataType) (columns : Dimension) (isConstant : Bool) :
    Walks (rows type columns isConstant) := by
  intro c s hc
  refine ensures_roundsWhile_of_rel (Passed.refl c) Passed.trans (by simp) (by simp) ?_
  intro count t
  simp only [ensures_bind, ensures_peek, ensures_next?, ensures_ite, beq_iff_eq, ensures_discard,
    ensures_advance, ensures_pure]
  refine (walks_row type c t hc).mono fun _ _ hrow ↦ ?_
  refine (ensures_checkCount _ _ _ _ (by simp)).mono ?_
  rintro _ _ rfl
  exact ⟨fun hcomma ↦ hrow.advance hcomma rfl, fun _ ↦ hrow⟩

theorem walks_arrayInitializer (type : DataType) (isConstant : Bool) (shape : Shape) :
    Walks (arrayInitializer type isConstant shape) := by
  intro c s hc
  cases shape with
  | row size =>
    simp only [arrayInitializer, ensures_bind, ensures_peek]
    refine (walks_row type c s hc).mono fun _ _ hrow ↦ ?_
    refine (ensures_checkCount _ _ _ _ (by simp)).mono ?_
    rintro _ _ rfl
    exact hrow
  | table rowCount columns =>
    simp only [arrayInitializer, ensures_bind, ensures_discard, ensures_expectMark]
    refine ⟨fun hopen ↦ ?_, fun _ ↦ unlost_expected _ _⟩
    refine (ensures_braces (walks_rows type columns isConstant) hc (.refl c s) hopen).mono
      fun _ _ hinside ↦ ⟨fun hclose ↦ ?_, fun _ ↦ unlost_expected _ _⟩
    refine (ensures_checkCount _ _ _ _ (by simp)).mono ?_
    rintro _ _ rfl
    exact hinside hclose

/-! ### Declarators -/

theorem walks_initializer (levels : Nat) (type : DataType) (sign : Token) :
    Walks (initializer levels type sign) := by
  intro c s hc
  simp only [initializer, ensures_bind, ensures_next?, ensures_ite, beq_iff_eq]
  refine ⟨fun hinput ↦ ensures_inputValue hc (.refl c s) hinput type, fun _ ↦ ?_⟩
  exact ensures_valueOfType levels (by simp [Kind.isPlain]) hc (.refl c s) type sign

/-- The rest of the declarator of an array, at its first bracket. -/
theorem ensures_arrayDeclarator (hc : c.Closed) (h : Passed c s after)
    (hopen : c.kindAt after.position = .leftBracket) (type : DataType) (isConstant : Bool)
    (name : Token) :
    Ensures (arrayDeclarator type isConstant name) c after Unlost fun _ later ↦
      Passed c s later := by
  simp only [arrayDeclarator, ensures_bind, ensures_next?, ensures_ite, beq_iff_eq,
    ensures_discard, ensures_advance, ensures_violateAt, ensures_pure]
  refine (ensures_arrayShape hc h hopen name).mono fun shape _ hshape ↦ ?_
  refine ⟨fun hassign ↦ ?_, fun _ ↦ ⟨fun _ ↦ by simp, fun _ ↦ hshape⟩⟩
  exact (walks_arrayInitializer type isConstant shape).next hc (hshape.advance hassign rfl)

theorem keeps_insert {scope : Nat} {symbol : Symbol} {arena : Arena}
    (h : s.arena.insert scope symbol = some arena) : Keeps s { s with arena := arena } :=
  ⟨rfl, rfl, fun _ _ hbody ↦ Arena.body?_insert h hbody⟩

theorem walks_declare (symbol : Symbol) (place : Token) : Walks (declare symbol place) := by
  intro c s hc
  simp only [declare, ensures_bind, ensures_read, ensures_insertSymbol, ensures_ite,
    ensures_violateAt, ensures_pure]
  exact ⟨fun arena harena ↦ ⟨fun _ ↦ (Passed.refl c s).stay (keeps_insert harena) rfl, by simp⟩,
    by simp⟩

theorem walks_declarator (levels : Nat) (type : DataType) (isConstant : Bool) :
    Walks (declarator levels type isConstant) := by
  intro c s hc
  simp only [declarator, ensures_bind, ensures_expect, ensures_declaredHere, ensures_ite,
    ensures_violateAt, ensures_next?, beq_iff_eq, ensures_advance]
  refine ⟨fun hname ↦ ⟨fun _ ↦ by simp, fun _ ↦ ?_⟩, fun _ ↦ unlost_expected _ _⟩
  have hstep : Passed c s (s.movedTo (c.after s.position)) := .step hname rfl
  refine ⟨fun hopen ↦ ?_, fun _ ↦ ⟨fun hassign ↦ ?_, fun _ ↦ ⟨fun _ ↦ by simp, fun _ ↦ ?_⟩⟩⟩
  · refine (ensures_arrayDeclarator hc hstep hopen type isConstant _).mono fun result _ harray ↦ ?_
    exact (walks_declare _ _).next hc harray
  · refine ((walks_initializer levels type _).next hc (hstep.advance hassign rfl)).mono
      fun _ _ hvalue ↦ ?_
    exact (walks_declare _ _).next hc hvalue
  · exact (walks_declare _ _).next hc hstep

theorem walks_variableDeclaration (levels : Nat) : Walks (variableDeclaration levels) := by
  intro c s hc
  simp only [variableDeclaration, ensures_bind]
  refine (walks_typeWord _ c s hc).mono fun type _ htype ↦ ?_
  exact (walks_declarators (walks_declarator levels type false)).next hc htype

theorem ensures_constantDeclaration (hc : c.Closed) (hword : c.kindAt s.position = .constWord)
    (levels : Nat) :
    Ensures (constantDeclaration levels) c s Unlost fun _ after ↦ Passed c s after := by
  simp only [constantDeclaration, ensures_bind, ensures_discard, ensures_advance]
  refine ((walks_typeWord _).next hc (.step hword rfl)).mono fun type _ htype ↦ ?_
  exact (walks_declarators (walks_declarator levels type true)).next hc htype

theorem ensures_instanceDeclaration (hc : c.Closed)
    (hword : c.kindAt s.position = .instanceWord) :
    Ensures instanceDeclaration c s Unlost fun _ after ↦ Passed c s after := by
  simp only [instanceDeclaration, ensures_bind, ensures_discard, ensures_advance, ensures_resolve]
  refine ((walks_expect rfl _).next hc (.step hword rfl)).mono fun structName _ hname ↦ ?_
  split
  · refine (walks_declarators ?_).next hc hname
    intro c s hc
    rw [ensures_bind]
    refine (walks_expect rfl _ c s hc).mono fun name _ hone ↦ ?_
    exact (walks_declare _ _).next hc hone
  · simp

/-! ### Blocks -/

theorem walks_inScope {x : Check α} (hx : Walks x) (label : String) : Walks (inScope label x) := by
  intro c s hc
  rw [ensures_inScope]
  refine (hx { c with scope := s.arena.size, blockDepth := c.blockDepth + 1 } _ hc).mono ?_
  intro _ after hafter
  obtain ⟨hbalanced, hkeeps⟩ := hafter.of_tokens (c := c) rfl
  refine ⟨hbalanced, hkeeps.functions, hkeeps.headers, fun name body hbody ↦ ?_⟩
  -- Where a body is recorded there is a global scope, so the one released is another.
  have hsize : s.arena.size ≠ 0 := Nat.pos_iff_ne_zero.1 (Arena.size_pos_of_body? hbody)
  exact (Arena.body?_release hsize).trans (hkeeps.bodies name body (Arena.body?_push _ _ hbody))

theorem walks_inBlock {x : Check α} (hx : Walks x) (kind : BlockKind) : Walks (inBlock kind x) := by
  intro c s hc
  rw [ensures_inBlock]
  exact (hx { c with blocks := kind :: c.blocks } s hc).mono fun _ _ h ↦ h.of_tokens rfl

/-- The check of the statements of a block walks and ends at a terminator. -/
def WalksInside (inner : Inner) : Prop :=
  ∀ terminators c s, c.Closed → Ensures (inner terminators) c s Unlost fun _ after ↦
    Passed c s after ∧ terminators.contains (c.kindAt after.position)

theorem walks_inner {inner : Inner} (h : WalksInside inner) (terminators : List Kind) :
    Walks (inner terminators) :=
  fun c s hc ↦ (h terminators c s hc).mono fun _ _ hafter ↦ hafter.1

theorem walks_statementsUntil {statement : Check Ending} (h : Walks statement) :
    WalksInside (statementsUntil statement) := by
  intro terminators c s hc
  refine ensures_rounds (by simp) (I := fun _ after ↦ Passed c s after) (.refl c s) ?_
  intro last after hafter
  simp only [ensures_bind, ensures_peekKind, ensures_ite, ensures_pure, ensures_violate,
    afterRound_done, afterRound_yield]
  refine ⟨fun hend ↦ ⟨hafter, hend⟩, fun _ ↦ ⟨fun _ ↦ by simp, fun _ ↦ ?_⟩⟩
  exact h.next hc hafter

section

variable {inner : Inner} (hinner : WalksInside inner)

include hinner

theorem walks_block (label : String) : Walks (block inner label) := by
  intro c s hc
  simp only [block, ensures_bind, ensures_discard, ensures_expectMark]
  refine ⟨fun hopen ↦ ?_, fun _ ↦ unlost_expected _ _⟩
  refine (ensures_braces (walks_inScope (walks_inner hinner _) label) hc (.refl c s) hopen).mono ?_
  exact fun _ _ hinside ↦ ⟨hinside, fun _ ↦ unlost_expected _ _⟩

end

/-! ### Simple statements -/

theorem walks_call {levels : Nat} (h : Passed c s after)
    (hparen : c.kindAt (after.position + 1) = .leftParen) :
    Ensures (call (operand levels)) c after Unlost fun _ later ↦ Passed c s later :=
  (ensures_call (takePhrases_operand levels) hparen).mono fun _ _ hcall ↦ h.trans hcall.passed

theorem walks_target (levels : Nat) : Walks (target (operand levels)) :=
  TakesPhrase.walks fun _ ↦ takesPhrase_target (takePhrases_operand levels)

theorem walks_nameStatement (levels : Nat) : Walks (nameStatement levels) := by
  intro c s hc
  simp only [nameStatement, ensures_bind, ensures_secondKind, ensures_ite, ensures_discard]
  refine ⟨fun hparen ↦ ?_, fun _ ↦ ?_⟩
  · refine (walks_call (.refl c s) hparen).mono fun _ _ hcall ↦ ?_
    exact (walks_expectMark rfl).next hc hcall
  · refine (walks_target levels c s hc).mono fun t _ htarget ↦ ?_
    refine ((walks_assignmentTail levels (by simp) t).next hc htarget).mono fun _ _ htail ↦ ?_
    exact (walks_expectMark rfl).next hc htail

theorem ensures_countStatement (hc : c.Closed) {k : Kind} (hk : c.kindAt s.position = k)
    (hordinary : k.isOrdinary) (levels : Nat) :
    Ensures (countStatement levels) c s Unlost fun _ after ↦ Passed c s after := by
  simp only [countStatement, ensures_bind, ensures_discard, ensures_advance]
  refine ((walks_target levels).next hc (.step hk hordinary)).mono fun t _ htarget ↦ ?_
  refine (ensures_requireInt t).mono ?_
  rintro _ _ rfl
  exact (walks_expectMark rfl).next hc htarget

theorem ensures_printStatement (hc : c.Closed) (hword : c.kindAt s.position = .printWord)
    (levels : Nat) :
    Ensures (printStatement levels) c s Unlost fun _ after ↦ Passed c s after := by
  simp only [printStatement, ensures_bind, ensures_discard, ensures_advance, ensures_here,
    ensures_expectMark]
  refine ⟨fun hopen ↦ ?_, fun _ ↦ unlost_expected _ _⟩
  have hword := Passed.step hword rfl
  have hcloser : (c.kindAt (s.movedTo (c.after s.position)).position).closer? =
      some .rightParen := by rw [hopen]; rfl
  refine (ensures_matchingClose hcloser).mono ?_
  rintro close _ ⟨rfl, hclose, hbound⟩
  have hfirst := Context.after_of_kindAt hopen (by simp)
  refine (ensures_arguments (takePhrases_operand levels) (hc.seesTo close) ?_).mono ?_
  · rwa [State.position_movedTo, hfirst]
  rintro arguments last ⟨hlast, rfl⟩
  refine ⟨fun _ ↦ ?_, fun _ ↦ unlost_expected _ _⟩
  have hbrackets : Took false c (s.movedTo (c.after s.position))
      (last.movedTo (c.after last.position)) :=
    .brackets hcloser (by rw [hopen]; simp) hlast hclose
  have hthere := hword.trans hbrackets.passed
  exact ⟨fun hend ↦ hthere.advance hend rfl, fun _ ↦ unlost_expected _ _⟩

/-! ### Conditionals -/

theorem walks_inParentheses (levels : Nat) : Walks (inParentheses levels) := by
  intro c s hc
  simp only [inParentheses, ensures_bind, ensures_here, ensures_discard, ensures_expectMark,
    ensures_pure]
  refine ⟨fun hopen ↦ ?_, fun _ ↦ unlost_expected _ _⟩
  have hcloser : (c.kindAt s.position).closer? = some .rightParen := by rw [hopen]; rfl
  refine (ensures_matchingClose hcloser).mono ?_
  rintro close _ ⟨rfl, hclose, hbound⟩
  refine (ensures_inside (takePhrases_operand levels) hcloser (by simp [hopen]) hclose
    hbound).mono fun _ _ hinside ↦ ?_
  exact ⟨fun _ ↦ hinside.passed, fun _ ↦ unlost_expected _ _⟩

theorem walks_condition (levels : Nat) (construct : Guarded) :
    Walks (condition levels construct) := by
  intro c s hc
  simp only [condition, ensures_bind, ensures_ite, ensures_violateAt]
  exact (walks_inParentheses levels c s hc).mono fun _ _ h ↦ ⟨by simp, fun _ ↦ h⟩

section

variable {inner : Inner} (hinner : WalksInside inner)

include hinner

theorem ensures_ifStatement (hc : c.Closed) (hword : c.kindAt s.position = .ifWord)
    (levels : Nat) :
    Ensures (ifStatement levels inner) c s Unlost fun _ after ↦ Passed c s after := by
  simp only [ifStatement, ensures_bind, ensures_discard, ensures_advance]
  refine ((walks_condition levels _).next hc (.step hword rfl)).mono fun _ _ hcondition ↦ ?_
  refine ((walks_block hinner _).next hc hcondition).mono fun _ after hblock ↦ ?_
  have hbranches : Ensures (roundsWhile (next? .elseIfWord) (fun _ ↦ do
      discard advance
      condition levels .elseIfBlock
      block inner "else-if block"
      return .yield ()) ()) c after Unlost fun _ later ↦ Passed c s later := by
    refine ensures_roundsWhile (by simp) (I := fun _ later ↦ Passed c s later) hblock ?_
    intro _ later hlater
    simp only [ensures_next?, beq_iff_eq, beq_eq_false_iff_ne, ensures_bind, ensures_discard,
      ensures_advance, ensures_pure, afterRound_yield]
    refine ⟨fun helse ↦ ?_, fun _ ↦ hlater⟩
    refine ((walks_condition levels _).next hc (hlater.advance helse rfl)).mono fun _ _ h ↦ ?_
    exact (walks_block hinner _).next hc h
  refine hbranches.mono fun _ later hlater ↦ ?_
  simp only [ensures_bind, ensures_next?, ensures_ite, beq_iff_eq, ensures_discard, ensures_advance,
    ensures_pure]
  exact ⟨fun helse ↦ (walks_block hinner _).next hc (hlater.advance helse rfl), fun _ ↦ hlater⟩

/-! ### Switches -/

theorem walks_caseBlock (keyword : Token) (which : CaseBlock) :
    Walks (caseBlock inner keyword which) := by
  intro c s hc
  simp only [caseBlock, ensures_bind, ensures_discard, ensures_ite, ensures_violateAt, ensures_pure]
  refine (walks_expectMark rfl c s hc).mono fun _ _ hcolon ↦ ?_
  refine ((walks_inScope (walks_inBlock (walks_inner hinner _) .case) _).next hc hcolon).mono
    fun _ _ hstatements ↦ ?_
  exact ⟨fun _ ↦ by simp, fun _ ↦ hstatements⟩

omit hinner in
theorem isOrdinary_of_label {selector : DataType} {k : Kind}
    (h : (labelKinds selector).contains k) : k.isOrdinary := by
  unfold labelKinds at h
  split at h <;> cases k <;> first | rfl | cases h

omit hinner in
theorem walks_caseLabel (selector : DataType) (labels : List String) :
    Walks (caseLabel selector labels) := by
  intro c s hc
  simp only [caseLabel, ensures_bind, ensures_advance, ensures_ite, ensures_violateAt, ensures_pure,
    hc.kind_tokenAt]
  exact ⟨fun hlabel ↦ ⟨fun _ ↦ by simp, fun _ ↦ .step rfl (isOrdinary_of_label hlabel)⟩,
    fun _ ↦ by simp⟩

theorem walks_switchRound (selector : DataType) (soFar : SwitchSoFar) :
    Walks (switchRound inner selector soFar) := by
  intro c s hc
  simp only [switchRound, ensures_bind, ensures_peek, hc.kind_tokenAt]
  split
  next => exact .refl c s
  next hk =>
    simp only [ensures_bind, ensures_discard, ensures_advance, ensures_pure]
    refine ((walks_caseLabel _ _).next hc (.step hk rfl)).mono fun label _ hlabel ↦ ?_
    exact (walks_caseBlock hinner _ _).next hc hlabel
  next hk =>
    simp only [ensures_bind, ensures_ite, ensures_violateAt, ensures_discard, ensures_advance,
      ensures_pure]
    refine ⟨fun _ ↦ by simp, fun _ ↦ ?_⟩
    exact (walks_caseBlock hinner _ _).next hc (.step hk rfl)
  next => simp
  next => simp

theorem ensures_switchStatement (hc : c.Closed) (hword : c.kindAt s.position = .switchWord)
    (levels : Nat) :
    Ensures (switchStatement levels inner) c s Unlost fun _ after ↦ Passed c s after := by
  have hrounds : ∀ selector, Walks (inBlock .switch <|
      rounds (switchRound inner selector) ⟨[], false⟩) := by
    refine fun selector ↦ walks_inBlock ?_ _
    intro c s hc
    exact ensures_roundsWhile_of_rel (Passed.refl c) Passed.trans (by simp) (by simp)
      fun soFar t ↦ walks_switchRound hinner selector soFar c t hc
  simp only [switchStatement, ensures_bind, ensures_advance, ensures_read, ensures_ite,
    ensures_violateAt, ensures_discard, ensures_expectMark]
  refine ⟨fun _ ↦ by simp, fun _ ↦ ?_⟩
  refine ((walks_inParentheses levels).next hc (.step hword rfl)).mono fun found _ hfound ↦ ?_
  refine ⟨fun _ ↦ by simp, fun _ ↦ ⟨fun hopen ↦ ?_, fun _ ↦ unlost_expected _ _⟩⟩
  refine (ensures_braces (hrounds _) hc hfound hopen).mono fun _ _ hinside ↦ ?_
  exact ⟨hinside, fun _ ↦ unlost_expected _ _⟩

/-! ### Loops -/

theorem ensures_whileStatement (hc : c.Closed) (hword : c.kindAt s.position = .whileWord)
    (levels : Nat) :
    Ensures (whileStatement levels inner) c s Unlost fun _ after ↦ Passed c s after := by
  simp only [whileStatement, ensures_bind, ensures_discard, ensures_advance]
  refine ((walks_condition levels _).next hc (.step hword rfl)).mono fun _ _ hcondition ↦ ?_
  exact (walks_inBlock (walks_block hinner _) .loop).next hc hcondition

theorem ensures_doStatement (hc : c.Closed) (hword : c.kindAt s.position = .doWord)
    (levels : Nat) :
    Ensures (doStatement levels inner) c s Unlost fun _ after ↦ Passed c s after := by
  simp only [doStatement, ensures_bind, ensures_discard, ensures_advance]
  refine ((walks_inBlock (walks_block hinner _) .loop).next hc (.step hword rfl)).mono
    fun _ _ hblock ↦ ?_
  refine ((walks_expectMark rfl).next hc hblock).mono fun _ _ hwhile ↦ ?_
  refine ((walks_condition levels _).next hc hwhile).mono fun _ _ hcondition ↦ ?_
  exact (walks_expectMark rfl).next hc hcondition

omit hinner in
theorem walks_forStart (levels : Nat) : Walks (forStart levels) := by
  intro c s hc
  simp only [forStart, requireForVariable, ensures_bind, ensures_ite, ensures_violateAt,
    ensures_discard]
  refine (walks_target levels c s hc).mono fun t _ htarget ↦ ⟨fun _ ↦ by simp, fun _ ↦ ?_⟩
  refine ((walks_expectMark rfl).next hc htarget).mono fun sign _ hsign ↦ ?_
  refine ((walks_valueType levels (by simp)).next hc hsign).mono fun found _ hfound ↦ ?_
  refine (ensures_requireType ..).mono ?_
  rintro _ _ rfl
  refine ((walks_markInitialized t).next hc hfound).mono fun _ _ hmarked ↦ ?_
  exact (walks_expectMark rfl).next hc hmarked

omit hinner in
theorem walks_forCondition (levels : Nat) : Walks (forCondition levels) := by
  intro c s hc
  simp only [forCondition, ensures_bind, ensures_ite, ensures_violate, ensures_discard]
  refine (walks_valueType levels (by simp) c s hc).mono fun found _ hfound ↦ ?_
  exact ⟨fun _ ↦ by simp, fun _ ↦ (walks_expectMark rfl).next hc hfound⟩

omit hinner in
theorem walks_forUpdate (levels : Nat) : Walks (forUpdate levels) := by
  intro c s hc
  have hcount : ∀ {k : Kind}, c.kindAt s.position = k → k.isOrdinary →
      Ensures (do discard advance; requireForVariable .update (← target (operand levels))) c s
        Unlost fun _ after ↦ Passed c s after := by
    intro k hk hordinary
    simp only [ensures_bind, ensures_discard, ensures_advance, requireForVariable, ensures_ite,
      ensures_violateAt, ensures_pure]
    exact ((walks_target levels).next hc (.step hk hordinary)).mono fun _ _ h ↦
      ⟨fun _ ↦ by simp, fun _ ↦ h⟩
  simp only [forUpdate, ensures_bind, ensures_peekKind]
  split
  next hk => exact hcount hk rfl
  next hk => exact hcount hk rfl
  next =>
    simp only [ensures_bind, requireForVariable, ensures_ite, ensures_violateAt, ensures_peekKind,
      ensures_violate]
    refine (walks_target levels c s hc).mono fun t _ htarget ↦ ⟨fun _ ↦ by simp, fun _ ↦ ?_⟩
    refine ⟨fun _ ↦ ?_, fun _ ↦ by simp⟩
    exact (walks_assignmentTail levels (by simp [Kind.isPlain, Kind.isCloser]) t).next hc htarget
  next => simp

theorem ensures_forStatement (hc : c.Closed) (hword : c.kindAt s.position = .forWord)
    (levels : Nat) :
    Ensures (forStatement levels inner) c s Unlost fun _ after ↦ Passed c s after := by
  simp only [forStatement, ensures_bind, ensures_discard, ensures_advance, ensures_here,
    ensures_expectMark, ensures_ite, ensures_violate, ensures_peek]
  refine ⟨fun hopen ↦ ?_, fun _ ↦ unlost_expected _ _⟩
  have hparen := (Passed.step hword rfl).advance hopen rfl
  refine (ensures_matchingClose (by rw [hopen]; rfl)).mono ?_
  rintro close _ ⟨rfl, -, -⟩
  refine ((walks_forStart levels).next hc hparen).mono fun _ _ hstart ↦ ?_
  refine ((walks_forCondition levels).next hc hstart).mono fun _ _ hcondition ↦ ?_
  refine ((walks_forUpdate levels).next hc hcondition).mono fun _ _ hupdate ↦ ?_
  refine ⟨fun _ ↦ by simp, fun _ ↦ ⟨fun hclose ↦ ?_, fun _ ↦ unlost_expected _ _⟩⟩
  exact (walks_inBlock (walks_block hinner _) .loop).next hc (hupdate.advance hclose rfl)

end

/-! ### Jumps -/

theorem ensures_breakStatement (hc : c.Closed) (hword : c.kindAt s.position = .breakWord) :
    Ensures breakStatement c s Unlost fun _ after ↦ Passed c s after := by
  simp only [breakStatement, ensures_bind, ensures_advance, ensures_read, ensures_ite,
    ensures_violateAt, ensures_discard]
  exact ⟨fun _ ↦ by simp, fun _ ↦ (walks_expectMark rfl).next hc (.step hword rfl)⟩

theorem ensures_continueStatement (hc : c.Closed)
    (hword : c.kindAt s.position = .continueWord) :
    Ensures continueStatement c s Unlost fun _ after ↦ Passed c s after := by
  simp only [continueStatement, ensures_bind, ensures_advance, ensures_read]
  split
  · simp only [ensures_discard]
    exact (walks_expectMark rfl).next hc (.step hword rfl)
  · simp
  · simp

theorem walks_entryPointReturn (keyword : Token) : Walks (entryPointReturn keyword) := by
  intro c s hc
  simp only [entryPointReturn, ensures_bind, ensures_next?, ensures_ite, ensures_peek,
    ensures_secondKind, ensures_discard, ensures_advance, ensures_violateAt, ensures_pure,
    hc.kind_tokenAt, Bool.and_eq_true, decide_eq_true_eq]
  exact ⟨fun _ ↦ .refl c s, fun _ ↦ ⟨fun hzero ↦ .step hzero.1.1 rfl, fun _ ↦ by simp⟩⟩

theorem walks_voidReturn (f : FunctionContext) (keyword : Token) :
    Walks (voidReturn f keyword) := by
  intro c s hc
  simp only [voidReturn, ensures_bind, ensures_next?, ensures_ite, ensures_violateAt, ensures_pure]
  exact ⟨fun _ ↦ .refl c s, fun _ ↦ by simp⟩

theorem walks_valueReturn (levels : Nat) (f : FunctionContext) (keyword : Token) :
    Walks (valueReturn levels f keyword) := by
  intro c s hc
  simp only [valueReturn, ensures_bind, ensures_next?, ensures_ite, ensures_violateAt]
  refine ⟨fun _ ↦ by simp, fun _ ↦ ?_⟩
  exact (walks_valueType levels (by simp) c s hc).mono fun _ _ h ↦ ⟨fun _ ↦ by simp, fun _ ↦ h⟩

theorem ensures_returnStatement (hc : c.Closed) (hword : c.kindAt s.position = .returnWord)
    (levels : Nat) :
    Ensures (returnStatement levels) c s Unlost fun _ after ↦ Passed c s after := by
  have hend : ∀ {after : State}, Passed c s after →
      Ensures (expectMark .semicolon) c { after with sawReturn := true } Unlost fun _ later ↦
        Passed c s later := by
    intro after h
    exact (walks_expectMark rfl).next hc (h.stay ⟨rfl, rfl, fun _ _ hbody ↦ hbody⟩ rfl)
  have hstep : Passed c s (s.movedTo (c.after s.position)) := .step hword rfl
  simp only [returnStatement, ensures_bind, ensures_advance, ensures_read]
  split
  · simp
  next f _ =>
    simp only [ensures_bind, ensures_ite, ensures_modify, ensures_discard]
    refine ⟨fun _ ↦ ?_, fun _ ↦ ⟨fun _ ↦ ?_, fun _ ↦ ?_⟩⟩
    · exact ((walks_entryPointReturn _).next hc hstep).mono fun _ _ ↦ hend
    · exact ((walks_voidReturn f _).next hc hstep).mono fun _ _ ↦ hend
    · exact ((walks_valueReturn levels f _).next hc hstep).mono fun _ _ ↦ hend

theorem ensures_endStatement (hc : c.Closed) (hword : c.kindAt s.position = .endWord) :
    Ensures endStatement c s Unlost fun _ after ↦ Passed c s after := by
  have hstep : Passed c s (s.movedTo (c.after s.position)) := .step hword rfl
  simp only [endStatement, ensures_bind, ensures_advance, ensures_read, ensures_ite,
    ensures_violateAt, ensures_discard, ensures_next?, ensures_pure]
  refine ⟨fun _ ↦ ?_, fun _ ↦ by simp⟩
  refine ((walks_expectMark rfl).next hc hstep).mono fun _ _ hend ↦ ?_
  exact ⟨fun _ ↦ hend, fun _ ↦ by simp⟩

/-! ### All statements -/

section

variable {inner : Inner} (hinner : WalksInside inner)

include hinner

theorem ensures_ordinaryStatement (hc : c.Closed) (levels : Nat) {t : Token}
    (ht : t.kind = c.kindAt s.position) :
    Ensures (ordinaryStatement levels inner t) c s Unlost fun _ after ↦ Passed c s after := by
  unfold ordinaryStatement
  split
  next => exact walks_variableDeclaration levels c s hc
  next => exact walks_variableDeclaration levels c s hc
  next => exact walks_variableDeclaration levels c s hc
  next => exact walks_variableDeclaration levels c s hc
  next => exact walks_variableDeclaration levels c s hc
  next hk => exact ensures_constantDeclaration hc (ht.symm.trans hk) levels
  next hk => exact ensures_instanceDeclaration hc (ht.symm.trans hk)
  next => exact walks_nameStatement levels c s hc
  next hk => exact ensures_countStatement hc (ht.symm.trans hk) rfl levels
  next hk => exact ensures_countStatement hc (ht.symm.trans hk) rfl levels
  next hk => exact ensures_printStatement hc (ht.symm.trans hk) levels
  next hk => exact ensures_ifStatement hinner hc (ht.symm.trans hk) levels
  next hk => exact ensures_switchStatement hinner hc (ht.symm.trans hk) levels
  next hk => exact ensures_forStatement hinner hc (ht.symm.trans hk) levels
  next hk => exact ensures_whileStatement hinner hc (ht.symm.trans hk) levels
  next hk => exact ensures_doStatement hinner hc (ht.symm.trans hk) levels
  next hk => exact ensures_returnStatement hc (ht.symm.trans hk) levels
  next hk => exact ensures_continueStatement hc (ht.symm.trans hk)
  next hk => exact ensures_endStatement hc (ht.symm.trans hk)
  all_goals simp

theorem walks_statementWith (levels : Nat) : Walks (statementWith levels inner) := by
  intro c s hc
  simp only [statementWith, ensures_bind, ensures_peek, ensures_ite, ensures_pure]
  refine ⟨fun hword ↦ ?_, fun _ ↦ ?_⟩
  · rw [hc.kind_tokenAt] at hword
    exact ensures_breakStatement hc hword
  · exact ensures_ordinaryStatement hinner hc levels (hc.kind_tokenAt _)

end

/-- The statements of blocks walk on every level. -/
theorem walks_statementsBelow (levels : Nat) : WalksInside (statementsBelow levels) := by
  induction levels with
  | zero =>
    intro terminators c s _
    simp [statementsBelow, tooDeep]
  | succ levels ih => exact walks_statementsUntil (walks_statementWith ih levels)

theorem walks_statement (levels : Nat) : Walks (statement levels) :=
  walks_statementWith (walks_statementsBelow levels) levels

end

end FrontEnd
