import FrontEnd.Check.Program
import FrontEnd.Proofs.Check.InStep
import FrontEnd.Proofs.Check.LeadsStatement

/-!
# Where the walks over a program lead

A program is a row of declarations, structs, functions and the entry point: `TopRow`.  The first
walk goes over it token by token outside of functions and structs, so it keeps to the balanced rest
of the piece it is in (`Ahead`).  What it records is what the second walk needs to go over the row
piece by piece (`RecordedRow`).

One form is wider than the walk: the grammar lets a comma stand before the parenthesis that closes
the parameters of a function, and the walk wants a type there.  That is the one structural violation
that remains, and `TrailingComma` says what it is.
-/

namespace FrontEnd

open Check

/-- The violation at a parenthesis that closes parameters right behind a comma. -/
def TrailingComma (c : Context) (e : SemanticError) : Prop :=
  ∃ i, c.kindAt i = .comma ∧ c.kindAt (i + 1) = .rightParen ∧
    e = ⟨.expectedToken .parameterType (c.tokenAt (i + 1)).lexeme, (c.tokenAt (i + 1)).position⟩

/-- Of the structural violations, only a comma behind the last parameter. -/
def Tolerable (c : Context) (e : SemanticError) : Prop :=
  e.violation.isStructural → TrailingComma c e

/-- The word of a primitive type. -/
def IsTypeWord (k : Kind) : Prop :=
  ∃ type, DataType.ofWord? k = some type ∧ type.isPrimitive

/-- A type and a name. -/
structure IsTypedName (kind : Nat → Kind) (i j : Nat) : Prop where
  type : IsTypeWord (kind i)
  name : kind (i + 1) = .identifier
  eq : j = i + 2

/-- A member of a struct with its semicolon. -/
structure IsStructMember (kind : Nat → Kind) (i j : Nat) : Prop where
  member : IsTypedName kind i (i + 2)
  ends : kind (i + 2) = .semicolon
  eq : j = i + 3

/-- One parameter or more.  A comma may stand behind the last one. -/
inductive IsParameters (kind : Nat → Kind) : Nat → Nat → Prop
  | one {i j : Nat} : IsTypedName kind i j → IsParameters kind i j
  | trailing {i m : Nat} : IsTypedName kind i m → kind m = .comma → IsParameters kind i (m + 1)
  | more {i m j : Nat} : IsTypedName kind i m → kind m = .comma → IsParameters kind (m + 1) j →
    IsParameters kind i j

/-- A struct with its semicolon. -/
structure IsStruct (kind : Nat → Kind) (i j : Nat) : Prop where
  word : kind i = .structWord
  name : kind (i + 1) = .identifier
  opens : kind (i + 2) = .leftBrace
  parts : ∃ m, Relation.ReflTransGen (IsStructMember kind) (i + 3) m ∧ kind m = .rightBrace ∧
    kind (m + 1) = .semicolon ∧ j = m + 2

/-- A body between two braces. -/
structure IsFunctionBody (kind : Nat → Kind) (opening stop : Nat) : Prop where
  opens : kind opening = .leftBrace
  statements : Statements kind (opening + 1) stop
  balanced : Balanced kind (opening + 1) stop
  closes : kind stop = .rightBrace

/-- The header of a function up to the brace that opens its body. -/
structure IsFunctionHeader (kind : Nat → Kind) (i j : Nat) : Prop where
  word : kind i = .functionWord
  returns : (DataType.ofWord? (kind (i + 1))).isSome
  name : kind (i + 2) = .identifier
  opens : kind (i + 3) = .leftParen
  parts : ∃ m, (i + 4 = m ∨ IsParameters kind (i + 4) m) ∧ kind m = .rightParen ∧ j = m + 1

/-- The header of the entry point up to the brace that opens its body. -/
structure IsEntryPointHeader (kind : Nat → Kind) (i j : Nat) : Prop where
  word : kind i = .mainWord
  opens : kind (i + 1) = .leftParen
  closes : kind (i + 2) = .rightParen
  eq : j = i + 3

/-- From an index on, a program is a row of pieces. -/
inductive TopRow (kind : Nat → Kind) : Nat → Prop
  | ended {i : Nat} : kind i = .eof → TopRow kind i
  | statement {i j : Nat} :
    IsStatement kind i j → Balanced kind i j → i < j → TopRow kind j → TopRow kind i
  | struct {i j : Nat} : IsStruct kind i j → TopRow kind j → TopRow kind i
  | function {i opening stop : Nat} :
    IsFunctionHeader kind i opening → IsFunctionBody kind opening stop →
      TopRow kind (stop + 1) → TopRow kind i
  | entryPoint {i opening stop : Nat} :
    IsEntryPointHeader kind i opening → IsFunctionBody kind opening stop →
      TopRow kind (stop + 1) → TopRow kind i

/-- From an index on, a program is a row of pieces, and a state has recorded the functions. -/
inductive RecordedRow (kind : Nat → Kind) (f : State) : Nat → Prop
  | ended {i : Nat} : kind i = .eof → RecordedRow kind f i
  | statement {i j : Nat} : IsStatement kind i j → RecordedRow kind f j → RecordedRow kind f i
  | struct {i j : Nat} : IsStruct kind i j → RecordedRow kind f j → RecordedRow kind f i
  | function {i opening stop : Nat} {name : String} :
    kind i = .functionWord ∨ kind i = .mainWord → f.headers.lookup i = some name →
      f.arena.body? name = some ⟨opening + 1, stop⟩ → IsFunctionBody kind opening stop →
        RecordedRow kind f (stop + 1) → RecordedRow kind f i

section

variable {α : Type} {x : Check α} {kind : Nat → Kind} {c : Context} {s after f : State}
  {E : SemanticError → Prop} {Q Q' : α → State → Prop} {i j m opening stop : Nat}

/-! ### From what is reached to what is ensured -/

theorem Nonstructural.tolerable {e : SemanticError} (h : Nonstructural e) : Tolerable c e := by
  intro hstructural
  rw [h] at hstructural
  cases hstructural

theorem Reaches.ensures {Q : α → Nat → Prop} (h : Reaches c.kindAt x s.position Q) :
    Ensures x c s (Tolerable c) fun a after ↦ Q a after.position :=
  (h c s rfl rfl).imp (fun _ he ↦ he.tolerable) fun _ _ hQ ↦ hQ

/-! ### Structs -/

theorem IsTypedName.leads (h : IsTypedName kind i j) (wantedType wantedName : Wanted) :
    Leads kind (typedName wantedType wantedName) i j := by
  obtain ⟨htype, hname, rfl⟩ := h
  exact (leads_typeWord htype _).next fun type ↦ (Reaches.expect hname (by simp) _).next fun name ↦
    .pure rfl

theorem IsStruct.lt (h : IsStruct kind i j) : i < j := by
  obtain ⟨-, -, -, m, hmembers, -, -, rfl⟩ := h
  have hle : i + 3 ≤ m := by
    induction hmembers with
    | refl => exact Nat.le_refl _
    | tail _ hmember ih => exact Nat.le_trans ih (hmember.eq ▸ Nat.le_add_right _ 3)
  omega

/-- Members lead to the brace behind them. -/
theorem leads_members (h : Relation.ReflTransGen (IsStructMember kind) i j)
    (hclose : kind j = .rightBrace) (structName : String) (before : List TypedName) :
    Leads kind (roundsWhile (return !(← next? .rightBrace)) (memberRound structName) before)
      i j := by
  refine .roundsWhile (I := fun m ↦ Relation.ReflTransGen (IsStructMember kind) m j) h
    fun before m hm ↦ .next? <| .pure ⟨rfl, fun hmore ↦ ?_, fun hend ↦ ?_⟩
  · obtain rfl | ⟨n, hmember, hrest⟩ := hm.cases_head
    · simp [hclose] at hmore
    · obtain ⟨htyped, hsemicolon, rfl⟩ := hmember
      refine (htyped.leads _ _).next fun t ↦ ?_
      exact .guard (.refuse rfl) <| (Reaches.expectMark hsemicolon (by simp)).discard.next fun _ ↦
        .pure hrest
  · obtain rfl | ⟨n, hmember, -⟩ := hm.cases_head
    · rfl
    · obtain ⟨⟨type, htype, -⟩, -, -⟩ := hmember.member
      rw [show kind m = .rightBrace by simpa using hend] at htype
      cases htype

/-! ### Parameters -/

theorem IsParameters.isTypeWord (h : IsParameters kind i j) : IsTypeWord (kind i) := by
  cases h with
  | one h => exact h.type
  | trailing h => exact h.type
  | more h => exact h.type

theorem IsParameters.lt (h : IsParameters kind i j) : i < j := by
  induction h with
  | one h => exact h.eq ▸ Nat.lt_add_of_pos_right Nat.two_pos
  | trailing h => exact h.eq ▸ Nat.lt_add_of_pos_right (Nat.succ_pos 2)
  | more h _ _ ih =>
    have := h.eq
    omega

/-- Where a round over parameters may begin: at a parameter or right behind the last comma. -/
def AtParameter (kind : Nat → Kind) (j m : Nat) : Prop :=
  IsParameters kind m j ∨ ∃ n, kind n = .comma ∧ m = n + 1 ∧ m = j

theorem IsParameters.reaches_parameterRound (h : IsParameters kind i j)
    (hclose : kind j = .rightParen) (scope : Nat) (before : List TypedName) :
    Reaches kind (parameterRound scope before) i
      (Reaches.AfterStep (AtParameter kind j) (· = j)) := by
  obtain ⟨m, hname, hrest⟩ : ∃ m, IsTypedName kind i m ∧
      (m = j ∨ kind m = .comma ∧ AtParameter kind j (m + 1)) := by
    cases h with
    | one hname => exact ⟨j, hname, .inl rfl⟩
    | @trailing _ m hname hcomma => exact ⟨m, hname, .inr ⟨hcomma, .inr ⟨m, hcomma, rfl, rfl⟩⟩⟩
    | @more _ m _ hname hcomma hrest => exact ⟨m, hname, .inr ⟨hcomma, .inl hrest⟩⟩
  refine (hname.leads _ _).next fun p ↦ (Reaches.insertSymbol scope _).next fun fresh ↦
    .otherwise (.refuse rfl) ?_
  rcases hrest with rfl | ⟨hcomma, hrest⟩
  · exact .unlessNext (by simp [hclose]) <| .pure rfl
  · exact .whenNext hcomma <| (Reaches.skip (by simp [hcomma])).next fun _ ↦ .pure hrest

/-- A round right behind the last comma stops at the parenthesis. -/
theorem ensures_parameterRound_of_comma (hcomma : c.kindAt i = .comma)
    (hclose : c.kindAt (i + 1) = .rightParen) (hs : s.position = i + 1) (scope : Nat)
    (before : List TypedName) {Q : ForInStep (List TypedName) → State → Prop} :
    Ensures (parameterRound scope before) c s (Tolerable c) Q := by
  have hword : primitiveType? (c.tokenAt (i + 1)) = none := by
    rw [primitiveType?, Context.kind_tokenAt_of_kindAt hclose (by simp)]
    rfl
  simp only [parameterRound, typedName, typeWord, ensures_bind, ensures_advance, hs, hword,
    ensures_violateAt]
  exact fun _ ↦ ⟨i, hcomma, hclose, rfl⟩

/-- Parameters lead to the parenthesis behind them, or stop there behind a comma. -/
theorem ensures_parameters_of_row (h : s.position = j ∨ IsParameters c.kindAt s.position j)
    (hclose : c.kindAt j = .rightParen) (scope : Nat) :
    Ensures (parameters scope) c s (Tolerable c) fun _ after ↦ after.position = j := by
  simp only [parameters, ensures_bind, ensures_next?, ensures_ite, ensures_pure, beq_iff_eq]
  rcases h with rfl | h
  · exact ⟨fun _ ↦ rfl, fun hne ↦ absurd hclose hne⟩
  refine ⟨fun hnext ↦ ?_, fun _ ↦ ?_⟩
  · obtain ⟨type, htype, -⟩ := h.isTypeWord
    rw [hnext] at htype
    cases htype
  · refine ensures_rounds (fun _ h ↦ by cases h)
      (I := fun _ after ↦ AtParameter c.kindAt j after.position) (.inl h) fun before t ht ↦ ?_
    rcases ht with hrow | ⟨n, hcomma, heq, rfl⟩
    · refine (hrow.reaches_parameterRound hclose scope before).ensures.mono
        fun step later hstep ↦ ?_
      cases step <;> exact hstep
    · rw [heq] at hclose
      exact ensures_parameterRound_of_comma hcomma hclose heq scope before

/-! ### Recording a function -/

/-- What the walk over a header leaves behind. -/
structure Records (s : State) (keyword : Nat) (name : String) (body : BodyRange) (after : State) :
    Prop where
  position : after.position = body.stop + 1
  headers : after.headers = (keyword, name) :: s.headers
  body : after.arena.body? name = some body
  bodies : ∀ other body, s.arena.body? other = some body → after.arena.body? other = some body

theorem Records.of_movedTo {keyword : Nat} {name : String} {body : BodyRange}
    (h : Records (s.movedTo i) keyword name body after) : Records s keyword name body after :=
  ⟨h.position, h.headers, h.body, h.bodies⟩

theorem IsFunctionBody.reaches_bodyRange (h : IsFunctionBody kind opening stop) :
    Reaches kind bodyRange opening fun body m ↦ body = ⟨opening + 1, stop⟩ ∧ m = stop + 1 :=
  .whenNext h.opens <| .here <| .matchingClose (h.balanced.pairs h.opens h.closes) <|
    (Reaches.moveTo (stop + 1)).next fun _ ↦ .pure ⟨rfl, rfl⟩

/-- A declaration in the global scope fails where its name is taken. -/
theorem ensures_declareGlobal_of_any {symbol : Symbol} {name : Token} :
    Ensures (declareGlobal symbol name) c s Nonstructural fun _ after ↦
      Declares symbol s after := by
  simp only [declareGlobal, ensures_bind, ensures_insertSymbol, ensures_ite, ensures_violateAt,
    ensures_pure]
  refine ⟨fun arena harena ↦ ⟨fun _ ↦ ?_, by simp⟩, fun _ ↦ ⟨by simp, fun _ ↦ rfl⟩⟩
  exact .of_insert harena

theorem ensures_recordFunction_of_any {keyword : Nat} {name : Token} {info : FunctionInfo}
    (hs : s.position = info.body.stop + 1) :
    Ensures (recordFunction keyword name info) c s Nonstructural fun _ after ↦
      Records s keyword name.lexeme info.body after := by
  refine ensures_recordFunction_iff.2 <| ensures_declareGlobal_of_any.mono fun _ after hafter ↦ ?_
  exact ⟨hafter.position.trans hs, hafter.headers, hafter.body?, hafter.bodies⟩

/-- The rest of a header, from the opening of a scope on, with parameters that lead to the
parenthesis behind them. -/
theorem ensures_headerRest (hpos : 0 < s.arena.size) (hopen : c.kindAt s.position = .leftParen)
    (hclose : c.kindAt m = .rightParen) (hbody : IsFunctionBody c.kindAt (m + 1) stop)
    (parameters : Nat → Check (List TypedName)) (hparameters : ∀ scope t, scope ≠ 0 →
      t.position = s.position + 1 → Ensures (parameters scope) c t (Tolerable c) fun _ after ↦
        after.position = m ∧ SameGlobal t after) (label : String) (keyword : Nat) (name : Token)
    (info : Nat → List TypedName → BodyRange → FunctionInfo)
    (hinfo : ∀ scope parameters body, (info scope parameters body).body = body) :
    Ensures (do
      let scope ← openFunctionScope label
      discard <| expectMark .leftParen
      let parameters ← parameters scope
      discard <| expectMark .rightParen
      let body ← bodyRange
      recordFunction keyword name (info scope parameters body)) c s (Tolerable c) fun _ after ↦
        Records s keyword name.lexeme ⟨m + 2, stop⟩ after := by
  simp only [ensures_bind, ensures_openFunctionScope, ensures_discard, ensures_expectMark]
  refine ⟨fun _ ↦ ?_, fun hne ↦ absurd hopen hne⟩
  have hnext := Context.after_of_kindAt hopen (by simp)
  refine (hparameters _ _ (Nat.pos_iff_ne_zero.1 hpos) hnext).mono fun parameters t ht ↦ ?_
  obtain ⟨rfl, hsame⟩ := ht
  refine ⟨fun _ ↦ ?_, fun hne ↦ absurd hclose hne⟩
  have hlast := Context.after_of_kindAt hclose (by simp)
  have hrange := hbody.reaches_bodyRange
  rw [← hlast] at hrange
  refine ((Reaches.ensures (s := t.movedTo (c.after t.position)) hrange).and ensures_bodyRange).mono
    fun body later hlater ↦ ?_
  obtain ⟨⟨rfl, -⟩, -, -, -, rfl⟩ := hlater
  refine (ensures_recordFunction_of_any ?_).imp (fun _ he ↦ he.tolerable) fun _ after hafter ↦ ?_
  · rw [hinfo]
    rfl
  · rw [hinfo, hlast] at hafter
    refine ⟨hafter.position, ?_, hafter.body, fun other body hother ↦ hafter.bodies other body ?_⟩
    · exact hafter.headers.trans (congrArg _ hsame.headers)
    · exact (hsame.body? other).trans (Arena.body?_push 0 label hother)

/-- A name that is taken is no matter of shape. -/
theorem ensures_requireFree_of_any (what : Redeclared) (name : Token) :
    Ensures (requireFree what name) c s Nonstructural fun _ after ↦ after = s := by
  simp only [requireFree, ensures_bind, ensures_get, ensures_ite, ensures_violateAt, ensures_pure]
  exact ⟨fun _ ↦ rfl, fun _ ↦ trivial⟩

theorem ensures_functionHeader_of_row (hc : c.Closed) (hpos : 0 < s.arena.size)
    (h : IsFunctionHeader c.kindAt s.position opening)
    (hbody : IsFunctionBody c.kindAt opening stop) :
    Ensures functionHeader c s (Tolerable c) fun _ after ↦
      ∃ name, Records s s.position name ⟨opening + 1, stop⟩ after := by
  obtain ⟨hword, hreturns, hname, hopen, m, hparameters, hclose, rfl⟩ := h
  have hfirst := Context.after_of_kindAt hword (by simp)
  have htype : c.kindAt (s.position + 1) ≠ .eof := by
    intro heof
    rw [heof] at hreturns
    cases hreturns
  have hsecond := Context.after_of_ne_eof htype
  have hthird := Context.after_of_kindAt hname (by simp)
  simp only [functionHeader, ensures_bind, ensures_here, ensures_discard, ensures_advance,
    State.position_movedTo, State.movedTo_movedTo, hfirst, hsecond,
    Context.kind_tokenAt_of_ne_eof htype]
  split
  next hnone => rw [hnone] at hreturns; cases hreturns
  next returns _ =>
    simp only [ensures_bind, ensures_expect, State.position_movedTo, State.movedTo_movedTo, hthird]
    refine ⟨fun _ ↦ ?_, fun hne ↦ absurd hname hne⟩
    refine (ensures_requireFree_of_any _ _).imp (fun _ he ↦ he.tolerable) ?_
    rintro _ _ rfl
    have hparameters : ∀ scope t, scope ≠ 0 → t.position = s.position + 3 + 1 →
        Ensures (parameters scope) c t (Tolerable c) fun _ after ↦
          after.position = m ∧ SameGlobal t after := by
      intro scope t hscope ht
      have hrow : t.position = m ∨ IsParameters c.kindAt t.position m := by
        rw [ht]
        exact hparameters
      exact ((ensures_parameters_of_row hrow hclose scope).and (ensures_parameters hc scope)).mono
        fun _ later hlater ↦ ⟨hlater.1, hlater.2.outside.sameGlobal hscope⟩
    have hrest := ensures_headerRest (s := s.movedTo (s.position + 3)) hpos hopen hclose hbody
      parameters hparameters ("function " ++ (c.tokenAt (s.position + 2)).lexeme) s.position
      (c.tokenAt (s.position + 2))
      (fun scope parameters body ↦ ⟨returns, parameters, scope, body, false, false⟩)
      fun _ _ _ ↦ rfl
    have hrecords := hrest.mono fun _ later h ↦
      show ∃ name, Records s s.position name ⟨m + 1 + 1, stop⟩ later from ⟨_, h.of_movedTo⟩
    simp only [ensures_bind] at hrecords
    exact hrecords

theorem ensures_entryPointHeader_of_row (hpos : 0 < s.arena.size)
    (h : IsEntryPointHeader c.kindAt s.position opening)
    (hbody : IsFunctionBody c.kindAt opening stop) :
    Ensures entryPointHeader c s (Tolerable c) fun _ after ↦
      ∃ name, Records s s.position name ⟨opening + 1, stop⟩ after := by
  obtain ⟨hword, hopen, hclose, rfl⟩ := h
  have hfirst := Context.after_of_kindAt hword (by simp)
  simp only [entryPointHeader, ensures_bind, ensures_here, ensures_advance, ensures_isRecorded,
    ensures_ite, ensures_violateAt, hfirst]
  refine ⟨fun _ ↦ Nonstructural.tolerable rfl, fun _ ↦ ?_⟩
  have hrest := ensures_headerRest (s := s.movedTo (s.position + 1)) hpos hopen hclose hbody
    (fun _ ↦ pure []) (fun _ _ _ ht ↦ ⟨ht, .refl _⟩) "entry point mn" s.position
    (c.tokenAt s.position)
    (fun scope parameters body ↦ ⟨.void, parameters, scope, body, false, true⟩)
    fun _ _ _ ↦ rfl
  have hrecords := hrest.mono fun _ later h ↦
    show ∃ name, Records s s.position name ⟨s.position + 3 + 1, stop⟩ later from ⟨_, h.of_movedTo⟩
  simp only [ensures_bind, ensures_pure] at hrecords
  exact hrecords

/-! ### The first walk -/

/-- The walk over the headers is inside a piece or between two, and has recorded what is before. -/
structure Ahead (kind : Nat → Kind) (s : State) : Prop where
  size_pos : 0 < s.arena.size
  row : ∃ m, Balanced kind s.position m ∧ TopRow kind m ∧
    ∀ f, Grows s f → RecordedRow kind f m → RecordedRow kind f 0

/-- A balanced stretch that is not empty begins with an ordinary token or with braces. -/
theorem Balanced.cases_of_lt (h : Balanced kind i j) (hlt : i < j) :
    ((kind i).isOrdinary ∧ Balanced kind (i + 1) j) ∨ ∃ m, kind i = .leftBrace ∧
      Balanced kind (i + 1) m ∧ kind m = .rightBrace ∧ Balanced kind (m + 1) j := by
  cases h with
  | nil => exact absurd hlt (Nat.lt_irrefl i)
  | ordinary hi h => exact .inl ⟨hi, h⟩
  | @braces _ m _ hi hinner hm h => exact .inr ⟨m, hi, hinner, hm, h⟩

/-- Inside a piece, the walk passes over a token or over braces. -/
theorem Balanced.reaches_headerRound (h : Balanced kind i j) (hlt : i < j) :
    Reaches kind headerRound i fun _ m ↦ i ≤ m ∧ Balanced kind m j := by
  refine .peekKind ?_
  rcases h.cases_of_lt hlt with ⟨hordinary, hrest⟩ | ⟨m, hopen, hinner, hclose, hrest⟩
  · obtain ⟨hopen, -, -, hfunction, hmain, hstruct⟩ := Kind.isOrdinary_iff.1 hordinary
    split
    next hk => exact absurd hk hfunction
    next hk => exact absurd hk hmain
    next hk => exact absurd hk hstruct
    next hk => exact absurd hk hopen
    next => exact .here <| (Reaches.moveTo (i + 1)).mono fun _ _ h ↦ h ▸ ⟨Nat.le_succ i, hrest⟩
  · rw [hopen]
    have hle : i ≤ m + 1 := Nat.le_succ_of_le (Nat.le_of_succ_le hinner.le)
    exact .here <| .matchingClose (hinner.pairs hopen hclose) <|
      (Reaches.moveTo (m + 1)).mono fun _ _ h ↦ h ▸ ⟨hle, hrest⟩

/-- The walk only moves where no header begins. -/
theorem ensures_headerRound_moved (hfunction : c.kindAt s.position ≠ .functionWord)
    (hmain : c.kindAt s.position ≠ .mainWord) (hstruct : c.kindAt s.position ≠ .structWord) :
    Ensures headerRound c s (fun _ ↦ True) fun _ after ↦ ∃ i, after = s.movedTo i := by
  simp only [headerRound, ensures_bind, ensures_peekKind]
  split
  next hk => exact absurd hk hfunction
  next hk => exact absurd hk hmain
  next hk => exact absurd hk hstruct
  next hk =>
    simp only [ensures_bind, ensures_here, ensures_moveTo]
    refine (ensures_matchingBrace hk).imp (fun _ _ ↦ trivial) ?_
    rintro stop _ ⟨rfl, -⟩
    exact ⟨stop + 1, rfl⟩
  next => exact ⟨s.position + 1, rfl⟩

/-- A struct changes nothing that was recorded of functions. -/
theorem ensures_structHeader_keeps (hc : c.Closed) :
    Ensures structHeader c s (fun _ ↦ True) fun _ after ↦
      0 < after.arena.size ∧ after.headers = s.headers ∧
        ∀ name body, s.arena.body? name = some body → after.arena.body? name = some body := by
  simp only [structHeader, ensures_bind, ensures_discard, ensures_advance, ensures_expect,
    ensures_expectMark]
  refine ⟨fun _ ↦ ?_, fun _ ↦ trivial⟩
  refine (ensures_requireFree_of_any _ _).imp (fun _ _ ↦ trivial) ?_
  rintro _ _ rfl
  refine ⟨fun _ ↦ (ensures_members hc _).imp (fun _ _ ↦ trivial) fun members t ht ↦ ?_,
    fun _ ↦ trivial⟩
  have hsame : SameGlobal s t := by
    rw [ht.2]
    exact ((SameGlobal.refl s).movedTo _).movedTo _
  refine ⟨fun _ ↦ ⟨fun _ ↦ ?_, fun _ ↦ trivial⟩, fun _ ↦ trivial⟩
  refine ensures_declareGlobal_of_any.imp (fun _ _ ↦ trivial) fun _ after hafter ↦ ?_
  obtain ⟨_, -, -, hadded⟩ := hafter.added
  refine ⟨(Array.getElem?_eq_some_iff.1 hadded).1, hafter.headers.trans hsame.headers,
    fun name body hbody ↦ hafter.bodies name body ?_⟩
  exact (hsame.body? name).trans hbody

theorem IsStruct.leads_structHeader (h : IsStruct kind i j) : Leads kind structHeader i j := by
  obtain ⟨hword, hname, hopen, m, hmembers, hclose, hend, rfl⟩ := h
  refine (Reaches.skip (by simp [hword])).next fun _ ↦ (Reaches.expect hname (by simp) _).next
    fun name ↦ Reaches.next (m := i + 2) (.get fun _ ↦ .ite (fun _ ↦ .violateAt rfl name)
      fun _ ↦ .pure rfl) fun _ ↦ (Reaches.expectMark hopen (by simp)).discard.next fun _ ↦ ?_
  refine (leads_members hmembers hclose name.lexeme []).next fun members ↦
    (Reaches.expectMark hclose (by simp)).discard.next fun _ ↦
      (Reaches.expectMark hend (by simp)).discard.next fun _ ↦ ?_
  exact (Reaches.insertSymbol _ _).next fun fresh ↦ .ite (fun _ ↦ .pure rfl) fun _ ↦
    .violateAt rfl name

namespace Ahead

/-- Inside a piece. -/
theorem headerRound_inside (hpos : 0 < s.arena.size) (h : Balanced c.kindAt s.position m)
    (hlt : s.position < m) (htop : TopRow c.kindAt m)
    (hrow : ∀ f, Grows s f → RecordedRow c.kindAt f m → RecordedRow c.kindAt f 0) :
    Ensures headerRound c s (Tolerable c) fun _ after ↦ Ahead c.kindAt after := by
  have hmoved : Ensures headerRound c s (fun _ ↦ True) fun _ after ↦ ∃ i, after = s.movedTo i := by
    rcases h.cases_of_lt hlt with ⟨hordinary, -⟩ | ⟨_, hopen, -⟩
    · obtain ⟨-, -, -, hfunction, hmain, hstruct⟩ := Kind.isOrdinary_iff.1 hordinary
      exact ensures_headerRound_moved hfunction hmain hstruct
    · exact ensures_headerRound_moved (by simp [hopen]) (by simp [hopen]) (by simp [hopen])
  refine ((h.reaches_headerRound hlt).ensures.and hmoved).mono ?_
  rintro _ _ ⟨⟨hle, hrest⟩, i, rfl⟩
  have hgrows : Grows s (s.movedTo i) := .of_sameGlobal ((SameGlobal.refl s).movedTo i) hle
  exact ⟨hpos, m, hrest, htop, fun f hf ↦ hrow f (hgrows.trans hf)⟩

/-- Behind a recorded function. -/
theorem of_records {name : String} (h : Records s s.position name ⟨opening + 1, stop⟩ after)
    (hword : kind s.position = .functionWord ∨ kind s.position = .mainWord)
    (hlt : s.position < opening) (hbody : IsFunctionBody kind opening stop)
    (htop : TopRow kind (stop + 1))
    (hrow : ∀ f, Grows s f → RecordedRow kind f s.position → RecordedRow kind f 0) :
    Ahead kind after := by
  have hstop : opening < stop := hbody.balanced.le
  have hposition : after.position = stop + 1 := h.position
  have hgrows : Grows s after := by
    refine ⟨fun i hi ↦ ?_, h.bodies, by omega⟩
    have hne : (i == s.position) = false := by simpa using Nat.ne_of_lt hi
    rw [h.headers, List.lookup_cons, hne]
  refine ⟨Arena.size_pos_of_body? h.body, stop + 1, hposition ▸ .nil, htop, fun f hf hrest ↦ ?_⟩
  refine hrow f (hgrows.trans hf) (.function hword ?_ (hf.bodies _ _ h.body) hbody hrest)
  rw [hf.headers _ (by omega), h.headers, List.lookup_cons, beq_self_eq_true]

/-- A round of the walk over the headers leads on. -/
theorem ensures_headerRound (hc : c.Closed) (h : Ahead c.kindAt s)
    (hmore : c.kindAt s.position ≠ .eof) :
    Ensures headerRound c s (Tolerable c) fun _ after ↦ Ahead c.kindAt after := by
  obtain ⟨hpos, m, hbalanced, htop, hrow⟩ := h
  rcases Nat.eq_or_lt_of_le hbalanced.le with rfl | hlt
  swap
  · exact headerRound_inside hpos hbalanced hlt htop hrow
  cases htop with
  | ended hend => exact absurd hend hmore
  | statement hstatement hstretch hlt htop =>
    exact headerRound_inside hpos hstretch hlt htop fun f hf hrest ↦
      hrow f hf (.statement hstatement hrest)
  | @struct _ j hstruct htop =>
    have hround : Ensures structHeader c s (Tolerable c) fun _ after ↦ Ahead c.kindAt after := by
      refine (hstruct.leads_structHeader.ensures.and (ensures_structHeader_keeps hc)).mono ?_
      rintro _ after ⟨rfl, hsize, hheaders, hbodies⟩
      have hgrows : Grows s after :=
        ⟨fun i _ ↦ by rw [hheaders], hbodies, Nat.le_of_lt hstruct.lt⟩
      exact ⟨hsize, after.position, .nil, htop, fun f hf hrest ↦
        hrow f (hgrows.trans hf) (.struct hstruct hrest)⟩
    simpa only [headerRound, ensures_bind, ensures_peekKind, hstruct.word] using hround
  | function hheader hbody htop =>
    have hround : Ensures functionHeader c s (Tolerable c) fun _ after ↦ Ahead c.kindAt after := by
      refine (ensures_functionHeader_of_row hc hpos hheader hbody).mono ?_
      rintro _ after ⟨name, hrecords⟩
      obtain ⟨hword, -, -, -, n, hparameters, -, rfl⟩ := hheader
      have hlt : s.position < n + 1 := by
        rcases hparameters with rfl | hparameters
        · omega
        · have := hparameters.lt
          omega
      exact of_records hrecords (.inl hword) hlt hbody htop hrow
    simpa only [headerRound, ensures_bind, ensures_peekKind, hheader.word] using hround
  | entryPoint hheader hbody htop =>
    have hround : Ensures entryPointHeader c s (Tolerable c) fun _ after ↦
        Ahead c.kindAt after := by
      refine (ensures_entryPointHeader_of_row hpos hheader hbody).mono ?_
      rintro _ after ⟨name, hrecords⟩
      obtain ⟨hword, -, -, rfl⟩ := hheader
      exact of_records hrecords (.inr hword) (by omega) hbody htop hrow
    simpa only [headerRound, ensures_bind, ensures_peekKind, hheader.word] using hround

end Ahead

/-- The walk over the headers records every function of the row. -/
theorem ensures_headers_of_row (hc : c.Closed) (hpos : 0 < s.arena.size) (hs : s.position = 0)
    (htop : TopRow c.kindAt 0) :
    Ensures headers c s (Tolerable c) fun _ after ↦ RecordedRow c.kindAt after 0 := by
  have hrounds : Ensures (roundsWhile (return !(← atEnd))
      (fun _ ↦ do headerRound; return .yield ()) ()) c s (Tolerable c) fun _ after ↦
        RecordedRow c.kindAt after 0 := by
    refine ensures_roundsWhile (fun _ h ↦ by cases h) (I := fun _ after ↦ Ahead c.kindAt after)
      ⟨hpos, 0, hs ▸ .nil, htop, fun _ _ h ↦ h⟩ fun _ t ht ↦ ?_
    simp only [ensures_bind, ensures_atEnd, ensures_pure, afterRound_yield]
    refine ⟨fun hmore ↦ ht.ensures_headerRound hc (by simpa using hmore), fun hend ↦ ?_⟩
    -- At the end of the input the walk is between two pieces.
    obtain ⟨-, m, hbalanced, -, hrow⟩ := ht
    have heof : c.kindAt t.position = .eof := by simpa using hend
    refine hrow t (.of_sameGlobal (.refl t) (Nat.le_refl _)) ?_
    rcases Nat.eq_or_lt_of_le hbalanced.le with rfl | hlt
    · exact .ended heof
    · rcases hbalanced.cases_of_lt hlt with ⟨hordinary, -⟩ | ⟨_, hopen, -⟩
      · exact absurd heof (Kind.isOrdinary_iff.1 hordinary).2.2.1
      · simp [heof] at hopen
  simp only [headers, ensures_bind, ensures_isRecorded, ensures_ite, ensures_violate, ensures_pure]
  exact hrounds.mono fun _ after hafter ↦ ⟨fun _ ↦ hafter, fun _ ↦ Nonstructural.tolerable rfl⟩

/-! ### The second walk -/

/-- The statements of a body stop at the brace the body was recorded with. -/
theorem ensures_bodyStatements_of_row {name : String} {info : FunctionInfo} (hc : c.Closed)
    (h : IsFunctionBody c.kindAt opening stop) (hinfo : info.body = ⟨opening + 1, stop⟩) :
    Ensures (bodyStatements name info) c s (Tolerable c) fun _ after ↦ Keeps s after := by
  simp only [bodyStatements, ensures_bind, ensures_read, ensures_withReader, ensures_modify,
    ensures_discard, ensures_here, ensures_ite, ensures_violate, ensures_pure, hinfo]
  have hleads : Leads c.kindAt (statementsUntil (statement c.limits.nesting) [.rightBrace])
      (opening + 1) stop :=
    h.statements.leads_statementsUntil (by decide) (by simp [h.closes]) c.limits.nesting
  have hwalks := walks_statementsUntil (walks_statement c.limits.nesting) [.rightBrace]
    (inFunction name info c) { s with position := opening + 1, sawReturn := false } hc
  refine ((hleads (inFunction name info c) { s with position := opening + 1, sawReturn := false }
    rfl rfl).and hwalks).imp (fun _ he ↦ he.tolerable) ?_
  rintro _ after ⟨hstop, hpassed, -⟩
  obtain ⟨-, hkeeps⟩ := hpassed
  exact ⟨fun hne ↦ absurd hstop hne, fun _ ↦ ⟨hkeeps.functions, hkeeps.headers, hkeeps.bodies⟩⟩

theorem ensures_functionBody_of_row {name : String} (hc : c.Closed)
    (h : IsFunctionBody c.kindAt opening stop)
    (hrecorded : s.arena.body? name = some ⟨opening + 1, stop⟩) :
    Ensures (functionBody name) c s (Tolerable c) fun _ after ↦
      after.position = stop + 1 ∧ Keeps s after := by
  simp only [functionBody, ensures_bind]
  refine (ensures_signature hrecorded).mono ?_
  rintro ⟨info, position⟩ _ ⟨rfl, hinfo⟩
  refine (ensures_bodyStatements_of_row hc h hinfo).mono fun _ after hafter ↦ ?_
  simp only [ensures_moveTo, ensures_get, recordReturn, ensures_modify, ensures_ite,
    ensures_refuse, ensures_pure]
  refine ⟨fun _ ↦ Nonstructural.tolerable rfl, fun _ ↦ ⟨?_, hafter.functions, hafter.headers,
    fun other body hbody ↦ ?_⟩⟩
  · show info.body.stop + 1 = stop + 1
    rw [show info.body = ⟨opening + 1, stop⟩ from hinfo]
  · exact (Arena.body?_modify (keepsBodies_withReturn _) name).trans
      (hafter.bodies other body hbody)

/-- The members of a struct hold no braces. -/
theorem balanced_of_members (h : Relation.ReflTransGen (IsStructMember kind) i j) :
    Balanced kind i j := by
  induction h with
  | refl => exact .nil
  | tail _ hmember ih =>
    obtain ⟨⟨⟨type, htype, -⟩, hname, -⟩, hend, rfl⟩ := hmember
    refine ih.trans <| .ordinary (isOrdinary_of_typeWord htype) <| .ordinary ?_ <| .ordinary ?_ .nil
    · rw [hname]; rfl
    · rw [hend]; rfl

theorem IsStruct.leads_skipStruct (h : IsStruct kind i j) : Leads kind skipStruct i j := by
  obtain ⟨hword, hname, hopen, m, hmembers, hclose, hend, rfl⟩ := h
  refine Reaches.next (m := i + 2) (.roundsWhile (I := fun n ↦ n = i ∨ n = i + 1 ∨ n = i + 2)
    (.inl rfl) fun _ n hn ↦ .next? <| .pure ⟨rfl, fun hmore ↦ ?_, fun hstop ↦ ?_⟩) fun _ ↦ ?_
  · -- Word and name are passed over one by one.
    have hpass : kind n ≠ .eof ∧ (n + 1 = i + 1 ∨ n + 1 = i + 2) := by
      rcases hn with rfl | rfl | rfl
      · exact ⟨by simp [hword], .inl rfl⟩
      · exact ⟨by simp [hname], .inr rfl⟩
      · simp [hopen] at hmore
    exact .next? <| .ifNot (by simpa using hpass.1) <| (Reaches.skip hpass.1).next fun _ ↦
      .pure (.inr hpass.2)
  · rcases hn with rfl | rfl | rfl
    · simp [hword] at hstop
    · simp [hname] at hstop
    · rfl
  · exact .here <| .matchingClose ((balanced_of_members hmembers).pairs hopen hclose) <|
      (Reaches.moveTo (m + 1)).next fun _ ↦ (Reaches.expectMark hend (by simp)).discard

/-- The walk is between two pieces of the row and has kept what the headers recorded. -/
structure Between (c : Context) (f s : State) : Prop where
  row : RecordedRow c.kindAt f s.position
  keeps : Keeps f s

/-- A round of the walk over a program leads over one piece. -/
theorem Between.ensures_programRound (hc : c.Closed) (h : Between c f s)
    (hmore : c.kindAt s.position ≠ .eof) :
    Ensures programRound c s (Tolerable c) fun _ after ↦ Between c f after := by
  obtain ⟨hrow, hkeeps⟩ := h
  simp only [programRound, ensures_bind, ensures_peekKind]
  -- What stands in the row next decides which of the rounds is made.
  cases hrow with
  | ended hend => exact absurd hend hmore
  | @statement _ j hstatement hrest =>
    have hround : Ensures (do discard <| statement (← read).limits.nesting) c s (Tolerable c)
        fun _ after ↦ Between c f after := by
      simp only [ensures_bind, ensures_read, ensures_discard]
      refine ((hstatement.leads _).ensures.and (walks_statement _ c s hc)).mono ?_
      rintro _ after ⟨rfl, hpassed⟩
      exact ⟨hrest, hkeeps.trans hpassed.keeps⟩
    have hbegins := hstatement.begins
    split
    next hk => rw [hk] at hbegins; cases hbegins
    next hk => rw [hk] at hbegins; cases hbegins
    next hk => rw [hk] at hbegins; cases hbegins
    next => exact hround
  | @struct _ j hstruct hrest =>
    rw [hstruct.word]
    have hskip := hstruct.leads_skipStruct
    obtain ⟨hword, hname, hopen, m, hmembers, hclose, hend, rfl⟩ := hstruct
    have hmoves := ensures_skipStruct hword hname hopen (balanced_of_members hmembers) hclose hend
    refine (hskip.ensures.and hmoves).mono ?_
    rintro _ _ ⟨-, rfl⟩
    exact ⟨hrest, hkeeps.trans (SameTables.movedTo.2 (.refl s)).keeps⟩
  | @function _ _ _ name hword hlookup hrecorded hbody hrest =>
    have hround : Ensures (functionBody name) c s (Tolerable c) fun _ after ↦
        Between c f after := by
      refine (ensures_functionBody_of_row hc hbody (hkeeps.bodies _ _ hrecorded)).mono ?_
      rintro _ after ⟨hposition, hafter⟩
      exact ⟨hposition ▸ hrest, hkeeps.trans hafter⟩
    rw [← hkeeps.headers] at hlookup
    rcases hword with hk | hk
    · rw [hk]
      simpa only [ensures_bind, ensures_get, ensures_here, hlookup] using hround
    · rw [hk]
      simpa only [ensures_bind, ensures_get, ensures_here, hlookup] using hround

/-- A check of a row of pieces stops at no structural violation other than a comma behind the last
parameter of a function. -/
theorem ensures_program_of_row (hc : c.Closed) (hpos : 0 < s.arena.size) (hs : s.position = 0)
    (hnonempty : c.tokens.isEmpty = false) (htop : TopRow c.kindAt 0) :
    Ensures program c s (Tolerable c) fun _ _ ↦ True := by
  simp only [program, ensures_bind, ensures_read, ensures_ite, ensures_violate, ensures_moveTo,
    hnonempty]
  refine ⟨fun hempty ↦ absurd hempty (by decide), fun _ ↦ ?_⟩
  refine (ensures_headers_of_row hc hpos hs htop).mono fun _ f hf ↦ ?_
  refine ensures_roundsWhile (fun _ h ↦ by cases h) (I := fun _ after ↦ Between c f after)
    ⟨hf, (SameTables.movedTo.2 (.refl f)).keeps⟩ fun _ after hafter ↦ ?_
  simp only [ensures_bind, ensures_atEnd, ensures_pure, afterRound_yield]
  exact ⟨fun hmore ↦ hafter.ensures_programRound hc (by simpa using hmore), fun _ ↦ trivial⟩

end

end FrontEnd
