import FrontEnd.Check.Header
import FrontEnd.Proofs.Check.Statements

/-!
# Headers in the text

What a header says is read off the tokens: `HeaderAt` gives the name and the signature of a function
or of the entry point whose header starts at an index, `StructAt` the members of a struct.  The parts
of a header are passed here by the checks that read them, and each of them ensures that it returns
what stands there.

Reading parameters declares them in the scope of their function and nowhere else: `SameOutside`.
-/

namespace FrontEnd

open Check

/-- A brace and the one that closes it, with nothing balanced that ends earlier or later. -/
structure Braced (c : Context) (opening stop : Nat) : Prop where
  opens : c.kindAt opening = .leftBrace
  lt : opening < stop
  eq_of_balanced : ∀ m, Balanced c.kindAt (opening + 1) m → c.kindAt m = .rightBrace → m = stop

/-- The body of a function, between the braces it was found by. -/
def IsBody (c : Context) (body : BodyRange) : Prop :=
  ∃ opening, body.start = opening + 1 ∧ Braced c opening body.stop

/-- A type and a name stand at an index. -/
structure TypedNameAt (c : Context) (i : Nat) (n : TypedName) : Prop where
  type : (DataType.ofWord? (c.kindAt i)).filter DataType.isPrimitive = some n.type
  kind : c.kindAt (i + 1) = .identifier
  name : (c.tokenAt (i + 1)).lexeme = n.name
  position : (c.tokenAt (i + 1)).position = n.position

/-- Types and names, each with a mark behind it, stand between two indices. -/
inductive TypedNamesAt (c : Context) (mark : Kind) (i : Nat) : List TypedName → Nat → Prop
  | nil : TypedNamesAt c mark i [] i
  | snoc {ns : List TypedName} {n : TypedName} {j : Nat} (h : TypedNamesAt c mark i ns j)
    (hname : TypedNameAt c j n) (hmark : c.kindAt (j + 2) = mark) :
    TypedNamesAt c mark i (ns ++ [n]) (j + 3)

/-- The parameters of a function stand between two indices, with commas between them. -/
inductive ParametersAt (c : Context) (i : Nat) : List TypedName → Nat → Prop
  | none : ParametersAt c i [] i
  | some {ns : List TypedName} {n : TypedName} {j : Nat} (h : TypedNamesAt c .comma i ns j)
    (hname : TypedNameAt c j n) : ParametersAt c i (ns ++ [n]) (j + 2)

/-- The header of a function or of the entry point starts at an index and says what the name and the
signature are. -/
inductive HeaderAt (c : Context) (i : Nat) (name : Token) (info : FunctionInfo) : Prop
  | function {j : Nat} (word : c.kindAt i = .functionWord)
    (returns : DataType.ofWord? (c.kindAt (i + 1)) = some info.returns)
    (kind : c.kindAt (i + 2) = .identifier) (name : c.tokenAt (i + 2) = name)
    (opens : c.kindAt (i + 3) = .leftParen) (parameters : ParametersAt c (i + 4) info.parameters j)
    (closes : c.kindAt j = .rightParen) (start : info.body.start = j + 2)
    (isEntryPoint : info.isEntryPoint = false)
  | entryPoint (word : c.kindAt i = .mainWord) (name : c.tokenAt i = name)
    (opens : c.kindAt (i + 1) = .leftParen) (closes : c.kindAt (i + 2) = .rightParen)
    (returns : info.returns = .void) (parameters : info.parameters = [])
    (start : info.body.start = i + 4) (isEntryPoint : info.isEntryPoint = true)

/-- A struct starts at an index and says what the name and the members are; its last brace is at
another index. -/
structure StructAt (c : Context) (i : Nat) (name : Token) (members : List TypedName) (stop : Nat) :
    Prop where
  word : c.kindAt i = .structWord
  kind : c.kindAt (i + 1) = .identifier
  name : c.tokenAt (i + 1) = name
  opens : c.kindAt (i + 2) = .leftBrace
  members : TypedNamesAt c .semicolon (i + 3) members stop
  closes : c.kindAt stop = .rightBrace
  ends : c.kindAt (stop + 1) = .semicolon

/-- The symbol of a parameter. -/
def TypedName.parameter (n : TypedName) : Symbol :=
  (Symbol.ofVariable n.name n.type n.position).withValue

/-- The two states differ in one scope at most, and in their places and warnings. -/
structure SameOutside (scope : Nat) (s after : State) : Prop where
  scopes : ∀ id, id ≠ scope → after.arena.scope? id = s.arena.scope? id
  functions : after.functions = s.functions
  headers : after.headers = s.headers

/-- What reading parameters does. -/
structure ParametersRead (c : Context) (scope : Nat) (s : State) (ns : List TypedName)
    (after : State) : Prop where
  text : ParametersAt c s.position ns after.position
  outside : SameOutside scope s after
  declared : ∀ before, s.arena.scope? scope = some before → after.arena.scope? scope =
    some { before with symbols := before.symbols ++ ns.map TypedName.parameter }

section

variable {c : Context} {s after later : State} {i j scope : Nat} {mark : Kind}

/-! ### The text is balanced -/

theorem TypedNameAt.balanced {n : TypedName} (h : TypedNameAt c i n) :
    Balanced c.kindAt i (i + 2) := by
  obtain ⟨hword, -⟩ := Option.filter_eq_some_iff.1 h.type
  have hname : (c.kindAt (i + 1)).isOrdinary := by
    rw [h.kind]
    rfl
  exact .ordinary (isOrdinary_of_typeWord hword) (.one hname)

theorem TypedNamesAt.balanced {ns : List TypedName} (h : TypedNamesAt c mark i ns j)
    (hmark : mark.isOrdinary) : Balanced c.kindAt i j := by
  induction h with
  | nil => exact .nil
  | snoc _ hname hafter ih => exact (ih.trans hname.balanced).trans (.one (hafter ▸ hmark))

theorem ParametersAt.balanced {ns : List TypedName} (h : ParametersAt c i ns j) :
    Balanced c.kindAt i j := by
  cases h with
  | none => exact .nil
  | some h hname => exact (h.balanced rfl).trans hname.balanced

/-- A function is declared by a header that stands before its body. -/
theorem HeaderAt.lt_start {name : Token} {info : FunctionInfo} (h : HeaderAt c i name info) :
    i < info.body.start := by
  cases h with
  | function _ _ _ _ _ parameters _ start =>
    have hle := parameters.balanced.le
    omega
  | entryPoint _ _ _ _ _ _ start =>
    omega

/-! ### Braces passed over -/

theorem ensures_matchingBrace (hopen : c.kindAt i = .leftBrace) :
    Ensures (matchingClose i) c s Unlost fun stop after ↦ after = s ∧ Braced c i stop := by
  have hcloser : (c.kindAt i).closer? = some .rightBrace := by rw [hopen]; rfl
  refine (ensures_matchingClose_iff hcloser).2 ⟨fun stop hfound ↦ ?_, by simp, by simp⟩
  refine ⟨rfl, hopen, Phrase.le_of_searchClose hcloser .nil hfound, fun m hbalanced hm ↦ ?_⟩
  rw [hopen] at hfound
  exact (hbalanced.eq_of_searchClose hopen hm hfound).symm

/-- A body starts behind the brace at hand. -/
theorem ensures_bodyRange :
    Ensures bodyRange c s Unlost fun body after ↦
      body.start = s.position + 1 ∧ IsBody c body ∧ s.position < body.stop ∧
        after = s.movedTo (body.stop + 1) := by
  simp only [bodyRange, ensures_bind, ensures_next?, ensures_ite, ensures_here, ensures_moveTo,
    ensures_pure, beq_iff_eq, ensures_discard, ensures_expectMark]
  refine ⟨fun hopen ↦ ?_, fun hother ↦ ⟨fun hopen ↦ absurd hopen hother, fun _ ↦ ?_⟩⟩
  · refine (ensures_matchingBrace hopen).mono ?_
    rintro stop _ ⟨rfl, hbraced⟩
    exact ⟨trivial, ⟨_, rfl, hbraced⟩, hbraced.lt, rfl⟩
  · exact unlost_expected _ _

/-! ### States that differ in one scope -/

namespace SameOutside

theorem refl (scope : Nat) (s : State) : SameOutside scope s s :=
  ⟨fun _ _ ↦ rfl, rfl, rfl⟩

theorem trans (h : SameOutside scope s after) (h' : SameOutside scope after later) :
    SameOutside scope s later :=
  ⟨fun id hid ↦ (h'.scopes id hid).trans (h.scopes id hid), h'.functions.trans h.functions,
    h'.headers.trans h.headers⟩

theorem movedTo (h : SameOutside scope s after) (i : Nat) : SameOutside scope s (after.movedTo i) :=
  ⟨h.scopes, h.functions, h.headers⟩

theorem push (s : State) (label : String) :
    SameOutside s.arena.size s { s with arena := s.arena.push 0 label } := by
  refine ⟨fun id hid ↦ ?_, rfl, rfl⟩
  show (s.arena.scopes.push _)[id]? = s.arena.scopes[id]?
  rw [Array.getElem?_push]
  exact if_neg hid

theorem insert {symbol : Symbol} {arena : Arena} (h : s.arena.insert scope symbol = some arena) :
    SameOutside scope s { s with arena := arena } := by
  obtain ⟨-, -, -, -, hothers⟩ := Arena.insert_eq_some h
  exact ⟨hothers, rfl, rfl⟩

end SameOutside

/-! ### Parameters and members -/

theorem ensures_typedName (hc : c.Closed) (wantedType wantedName : Wanted) :
    Ensures (typedName wantedType wantedName) c s Unlost fun n after ↦
      TypedNameAt c s.position n ∧ after = s.movedTo (s.position + 2) := by
  simp only [typedName, typeWord, primitiveType?, ensures_bind, ensures_advance, hc.kind_tokenAt]
  split
  next type htype =>
    obtain ⟨hword, -⟩ := Option.filter_eq_some_iff.1 htype
    have hne := (Kind.isOrdinary_iff.1 (isOrdinary_of_typeWord hword)).2.2.1
    simp only [ensures_pure, ensures_expect, State.position_movedTo, State.movedTo_movedTo,
      Context.after_of_ne_eof hne]
    refine ⟨fun hname ↦ ⟨⟨htype, hname, rfl, rfl⟩, ?_⟩, fun _ ↦ unlost_expected _ _⟩
    rw [Context.after_of_kindAt hname (by simp)]
  next => simp

theorem ParametersRead.none (c : Context) (scope : Nat) (s : State) :
    ParametersRead c scope s [] s :=
  ⟨.none, .refl scope s, fun before hbefore ↦ by simpa using hbefore⟩

/-- The parameters read so far, each with a comma behind it. -/
structure ParametersSoFar (c : Context) (scope : Nat) (s : State) (ns : List TypedName)
    (after : State) : Prop where
  text : TypedNamesAt c .comma s.position ns after.position
  outside : SameOutside scope s after
  declared : ∀ before, s.arena.scope? scope = some before → after.arena.scope? scope =
    some { before with symbols := before.symbols ++ ns.map TypedName.parameter }

theorem ensures_parameterRound (hc : c.Closed) {ns : List TypedName}
    (h : ParametersSoFar c scope s ns after) :
    Ensures (parameterRound scope ns) c after Unlost
      (AfterRound (ParametersSoFar c scope s) (ParametersRead c scope s)) := by
  simp only [parameterRound, ensures_bind, ensures_insertSymbol, ensures_ite, ensures_refuse,
    ensures_next?, beq_iff_eq, ensures_discard, ensures_advance, ensures_pure]
  refine (ensures_typedName hc _ _).mono ?_
  rintro n _ ⟨hname, rfl⟩
  refine ⟨fun arena harena ↦ ⟨fun _ ↦ ?_, by simp⟩, by simp⟩
  have hinsert := SameOutside.insert (s := after.movedTo (after.position + 2)) harena
  have houtside := (h.outside.movedTo (after.position + 2)).trans hinsert
  have hdeclared : ∀ before, s.arena.scope? scope = some before → arena.scope? scope =
      some { before with symbols := before.symbols ++ (ns ++ [n]).map TypedName.parameter } := by
    intro before hbefore
    obtain ⟨there, hthere, -, hadded, -⟩ := Arena.insert_eq_some harena
    have hso : there = { before with symbols := before.symbols ++ ns.map TypedName.parameter } :=
      Option.some.inj (hthere.symm.trans (h.declared before hbefore))
    rw [hadded, hso]
    simp [Scope.add, TypedName.parameter]
  refine ⟨fun hcomma ↦ ?_, fun _ ↦ ⟨.some h.text hname, houtside, hdeclared⟩⟩
  have hcomma' : c.kindAt (after.position + 2) = .comma := hcomma
  refine ⟨?_, houtside.movedTo _, hdeclared⟩
  show TypedNamesAt c .comma s.position (ns ++ [n]) (c.after (after.position + 2))
  rw [Context.after_of_kindAt hcomma' (by simp)]
  exact .snoc h.text hname hcomma'

theorem ensures_parameters (hc : c.Closed) (scope : Nat) :
    Ensures (parameters scope) c s Unlost (ParametersRead c scope s) := by
  simp only [parameters, ensures_bind, ensures_next?, ensures_ite, ensures_pure]
  refine ⟨fun _ ↦ .none c scope s, fun _ ↦ ?_⟩
  refine ensures_rounds (by simp) (I := ParametersSoFar c scope s)
    ⟨.nil, .refl scope s, fun before hbefore ↦ by simpa using hbefore⟩ ?_
  exact fun ns t ht ↦ ensures_parameterRound hc ht

theorem ensures_members (hc : c.Closed) (structName : String) :
    Ensures (roundsWhile (return !(← next? .rightBrace)) (memberRound structName) []) c s Unlost
      fun ns after ↦ TypedNamesAt c .semicolon s.position ns after.position ∧
        after = s.movedTo after.position := by
  refine ensures_roundsWhile (by simp) (I := fun ns after ↦
    TypedNamesAt c .semicolon s.position ns after.position ∧ after = s.movedTo after.position)
    ⟨.nil, rfl⟩ ?_
  intro ns after h
  simp only [ensures_bind, ensures_next?, ensures_pure]
  refine ⟨fun _ ↦ ?_, fun _ ↦ h⟩
  simp only [memberRound, ensures_bind, ensures_ite, ensures_refuse, ensures_discard,
    ensures_expectMark, ensures_pure]
  refine (ensures_typedName hc _ _).mono ?_
  rintro n _ ⟨hname, rfl⟩
  refine ⟨fun _ ↦ by simp, fun _ ↦ ⟨fun hend ↦ ?_, fun _ ↦ unlost_expected _ _⟩⟩
  have hend' : c.kindAt (after.position + 2) = .semicolon := hend
  rw [State.position_movedTo, Context.after_of_kindAt hend' (by simp)]
  refine ⟨.snoc h.1 hname hend', ?_⟩
  rw [h.2]
  rfl

theorem ensures_openFunctionScope {label : String} {E : SemanticError → Prop}
    {Q : Nat → State → Prop} :
    Ensures (openFunctionScope label) c s E Q ↔
      Q s.arena.size { s with arena := s.arena.push 0 label } :=
  Iff.rfl

end

end FrontEnd
