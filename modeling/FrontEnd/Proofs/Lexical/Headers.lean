import FrontEnd.Proofs.Check.NeverLost
import FrontEnd.Proofs.Lexical.Abreast

/-!
# The names that are known in advance

A reader has the names of the functions and structs in mind before the first token: those whose words
stand outside of all braces.  The walk over the headers finds the same names, since it passes over braces
as a whole, and a header has no other word of that kind in it (`Headlines`).  It looks up no name, and
declares the symbols in the order in which the words stand (`ensures_headers_seen`).
-/

namespace FrontEnd

open Check

/-- Between two indices all braces are closed, and the words of functions and structs that stand there
outside of all braces add some names. -/
structure Headlines (c : Context) (i : Nat) (names : List Nat) (j : Nat) : Prop where
  depth : braceDepth c.kindAt j = braceDepth c.kindAt i
  names : globalNames c.kindAt j = globalNames c.kindAt i ++ names

/-- Up to where the walk over the headers is, the global scope has the names of functions and structs. -/
structure HeadersSeen (c : Context) (s : State) : Prop where
  outside : braceDepth c.kindAt s.position = 0
  named : List.Forall₂ (Symbol.NamedAt c) s.globals (globalNames c.kindAt s.position)

section

variable {c : Context} {s after : State} {i j k : Nat} {names names' : List Nat}

/-! ### Depths of braces -/

theorem globalNames_succ (kind : Nat → Kind) (i : Nat) :
    globalNames kind (i + 1) = globalNames kind i ++ (globalName? kind i).toList := by
  unfold globalNames
  rw [List.range_succ, List.filterMap_append]
  cases hname : globalName? kind i <;> simp [hname]

/-- Only the words of functions and structs give names. -/
theorem globalName?_eq_none {kind : Nat → Kind} {k : Kind} (hi : kind i = k)
    (hk : k ∉ [.functionWord, .mainWord, .structWord]) : globalName? kind i = none := by
  unfold globalName?
  rw [hi]
  cases k <;> first | exact ite_self _ | exact absurd (by decide) hk

/-- A brace that is found for one behind which a number of braces is open. -/
theorem braceDepth_of_searchClose {left depth outside stop : Nat}
    (hdepth : braceDepth c.kindAt i = outside + depth) (hpos : 0 < depth)
    (hfound : c.searchClose .leftBrace .rightBrace left i depth = .found stop) :
    braceDepth c.kindAt (stop + 1) = outside ∧
      ∀ k, i ≤ k → k ≤ stop → outside < braceDepth c.kindAt k := by
  -- One token more in front of a stretch inside of braces.
  have hstep {i j : Nat} (hi : outside < braceDepth c.kindAt i)
      (h : ∀ k, i + 1 ≤ k → k ≤ j → outside < braceDepth c.kindAt k) :
      ∀ k, i ≤ k → k ≤ j → outside < braceDepth c.kindAt k := by
    intro k hle
    obtain rfl | hlt := Nat.eq_or_lt_of_le hle
    · exact fun _ ↦ hi
    · exact h k hlt
  have hnext : ∀ i, braceDepth c.kindAt (i + 1) = if c.kindAt i = .leftBrace then
      braceDepth c.kindAt i + 1 else if c.kindAt i = .rightBrace then braceDepth c.kindAt i - 1
        else braceDepth c.kindAt i := fun _ ↦ rfl
  fun_induction Context.searchClose c .leftBrace .rightBrace left i depth with
  | case1 => cases hfound
  | case2 => cases hfound
  | case3 _ i depth _ _ hk ih =>
    have hdeeper : braceDepth c.kindAt (i + 1) = outside + (depth + 1) := by
      rw [hnext, if_pos hk, hdepth]
      rfl
    have hrest := ih hdeeper (Nat.succ_pos _) hfound
    exact ⟨hrest.1, hstep (by omega) hrest.2⟩
  | case4 _ i _ _ hopen hk =>
    cases hfound
    refine ⟨?_, fun k hle hle' ↦ ?_⟩
    · rw [hnext, if_neg hopen, if_pos hk]
      omega
    · obtain rfl : k = stop := Nat.le_antisymm hle' hle
      omega
  | case5 _ i depth _ _ hopen hk hdeep ih =>
    have hless : braceDepth c.kindAt (i + 1) = outside + (depth - 1) := by
      rw [hnext, if_neg hopen, if_pos hk]
      omega
    have hrest := ih hless (by omega) hfound
    exact ⟨hrest.1, hstep (by omega) hrest.2⟩
  | case6 _ i depth _ _ hopen hk ih =>
    have hsame : braceDepth c.kindAt (i + 1) = outside + depth := by
      rw [hnext, if_neg hopen, if_neg hk, hdepth]
    have hrest := ih hsame hpos hfound
    exact ⟨hrest.1, hstep (by omega) hrest.2⟩

/-- Inside of braces there are no global names. -/
theorem globalNames_inside (hinside : ∀ k, i ≤ k → k < j → 0 < braceDepth c.kindAt k) (hle : i ≤ j) :
    globalNames c.kindAt j = globalNames c.kindAt i := by
  obtain ⟨n, rfl⟩ := Nat.exists_eq_add_of_le hle
  induction n with
  | zero => rfl
  | succ n ih =>
    have hnone : globalName? c.kindAt (i + n) = none :=
      if_pos (Nat.ne_of_gt (hinside (i + n) (Nat.le_add_right i n) (Nat.lt_succ_self _)))
    rw [← Nat.add_assoc, globalNames_succ, hnone,
      ih (fun k hk hlt ↦ hinside k hk (Nat.lt_succ_of_lt hlt)) (Nat.le_add_right i n)]
    exact List.append_nil _

/-! ### Stretches -/

namespace Headlines

theorem nil (c : Context) (i : Nat) : Headlines c i [] i :=
  ⟨rfl, (List.append_nil _).symm⟩

theorem trans (h : Headlines c i names j) (h' : Headlines c j names' k) :
    Headlines c i (names ++ names') k :=
  ⟨h'.depth.trans h.depth, by rw [h'.names, h.names, List.append_assoc]⟩

theorem andThen (h : Headlines c i names j) (h' : Headlines c j [] k) : Headlines c i names k :=
  List.append_nil names ▸ h.trans h'

/-- A token that is no brace. -/
theorem one (hopen : c.kindAt i ≠ .leftBrace) (hclose : c.kindAt i ≠ .rightBrace) :
    Headlines c i (globalName? c.kindAt i).toList (i + 1) :=
  ⟨(if_neg hopen).trans (if_neg hclose), globalNames_succ _ i⟩

/-- A token that is neither a brace nor the word of a function or struct. -/
theorem other {k : Kind} (hi : c.kindAt i = k)
    (hk : k ∉ [.leftBrace, .rightBrace, .functionWord, .mainWord, .structWord]) :
    Headlines c i [] (i + 1) := by
  have hnone : globalName? c.kindAt i = none := globalName?_eq_none hi fun hmem ↦ hk <| by
    revert hmem
    cases k <;> decide
  have hone : Headlines c i (globalName? c.kindAt i).toList (i + 1) := by
    refine one ?_ ?_ <;> rw [hi] <;> rintro rfl <;> exact hk (by decide)
  rwa [hnone] at hone

/-- A word outside of all braces that gives a name. -/
theorem word {name : Nat} (hname : globalName? c.kindAt i = some name) :
    Headlines c i [name] (i + 1) := by
  have hkind : c.kindAt i ≠ .leftBrace ∧ c.kindAt i ≠ .rightBrace := by
    unfold globalName? at hname
    refine ⟨fun hk ↦ ?_, fun hk ↦ ?_⟩ <;> rw [hk] at hname <;> simp at hname
  have hone := one hkind.1 hkind.2
  rwa [hname] at hone

/-- Braces with all that is inside. -/
theorem braces {left stop : Nat} (hopen : c.kindAt i = .leftBrace)
    (hfound : c.searchClose .leftBrace .rightBrace left i 0 = .found stop) :
    Headlines c i [] (stop + 1) := by
  cases left with
  | zero => cases hfound
  | succ left =>
    rw [Context.searchClose, hopen] at hfound
    have hfound : c.searchClose .leftBrace .rightBrace left (i + 1) 1 = .found stop := hfound
    have hle := (le_of_searchClose hfound).1
    have hdeeper : braceDepth c.kindAt (i + 1) = braceDepth c.kindAt i + 1 := if_pos hopen
    obtain ⟨hdepth, hinside⟩ := braceDepth_of_searchClose hdeeper Nat.one_pos hfound
    refine ⟨hdepth, ?_⟩
    have hsecond : globalNames c.kindAt (stop + 1) = globalNames c.kindAt (i + 1) :=
      globalNames_inside (fun k hk hlt ↦ Nat.zero_lt_of_lt (hinside k hk (Nat.le_of_lt_succ hlt)))
        (Nat.le_succ_of_le hle)
    rw [hsecond, globalNames_succ, globalName?_eq_none hopen (by decide)]
    rfl

/-- Braces with nothing inside that gives a name. -/
theorem enclosed (hopen : c.kindAt i = .leftBrace) (h : Headlines c (i + 1) [] j)
    (hclose : c.kindAt j = .rightBrace) : Headlines c i [] (j + 1) := by
  have hnone : ∀ {i : Nat} {k : Kind}, c.kindAt i = k → k = .leftBrace ∨ k = .rightBrace →
      globalNames c.kindAt (i + 1) = globalNames c.kindAt i := by
    intro i k hi hk
    rw [globalNames_succ, globalName?_eq_none hi (by rcases hk with rfl | rfl <;> decide)]
    exact List.append_nil _
  refine ⟨?_, ?_⟩
  · have hfirst : braceDepth c.kindAt (i + 1) = braceDepth c.kindAt i + 1 := if_pos hopen
    have hlast : braceDepth c.kindAt (j + 1) = braceDepth c.kindAt j - 1 := by
      rw [braceDepth, hclose]
      rfl
    rw [hlast, h.depth, hfirst, Nat.add_sub_cancel]
  · rw [hnone hclose (.inr rfl), h.names, hnone hopen (.inl rfl)]

end Headlines

/-! ### Headers -/

theorem DataType.word_not_mem {k : Kind} {type : DataType} (h : DataType.ofWord? k = some type) :
    k ∉ [.leftBrace, .rightBrace, .functionWord, .mainWord, .structWord] := by
  cases k <;> first | decide | cases h

theorem TypedNameAt.headlines {n : TypedName} (h : TypedNameAt c i n) : Headlines c i [] (i + 2) := by
  obtain ⟨hword, -⟩ := Option.filter_eq_some_iff.1 h.type
  exact (Headlines.other rfl (DataType.word_not_mem hword)).andThen (.other h.kind (by decide))

theorem TypedNamesAt.headlines {mark : Kind} {ns : List TypedName} (h : TypedNamesAt c mark i ns j)
    (hmark : mark = .comma ∨ mark = .semicolon) : Headlines c i [] j := by
  induction h with
  | nil => exact .nil c i
  | snoc _ hname hafter ih =>
    refine (ih.andThen hname.headlines).andThen (.other hafter ?_)
    rcases hmark with rfl | rfl <;> decide

theorem ParametersAt.headlines {ns : List TypedName} (h : ParametersAt c i ns j) :
    Headlines c i [] j := by
  cases h with
  | none => exact .nil c i
  | some h hname => exact (h.headlines (.inl rfl)).andThen hname.headlines

theorem ensures_bodyRange_headlines :
    Ensures bodyRange c s (fun _ ↦ True) fun _ after ↦ Headlines c s.position [] after.position := by
  simp only [bodyRange, ensures_bind, ensures_next?, ensures_ite, ensures_here, ensures_moveTo,
    ensures_pure, beq_iff_eq, ensures_discard, ensures_expectMark]
  refine ⟨fun hopen ↦ ?_, fun hother ↦ ⟨fun hopen ↦ absurd hopen hother, fun _ ↦ trivial⟩⟩
  have hcloser : (c.kindAt s.position).closer? = some .rightBrace := by
    rw [hopen]
    rfl
  refine (ensures_matchingClose_iff hcloser).2
    ⟨fun stop hfound ↦ ?_, fun _ ↦ trivial, fun _ ↦ trivial⟩
  rw [hopen] at hfound
  exact .braces hopen hfound

theorem ensures_recordFunction_position (keyword : Nat) (name : Token) (info : FunctionInfo) :
    Ensures (recordFunction keyword name info) c s (fun _ ↦ True) fun _ after ↦
      after.position = s.position := by
  simp only [ensures_recordFunction_iff, declareGlobal, ensures_bind, ensures_insertSymbol, ensures_ite,
    ensures_violateAt, ensures_pure]
  exact ⟨fun _ _ ↦ ⟨fun _ ↦ trivial, fun _ ↦ trivial⟩, fun _ ↦ by simp⟩

/-- A function from the opening of its scope on. -/
theorem ensures_functionRest_headlines (label : String) (parameters : Nat → Check (List TypedName))
    (hparameters : ∀ scope t, Ensures (parameters scope) c t (fun _ ↦ True) fun _ after ↦
      Headlines c t.position [] after.position) (keyword : Nat) (name : Token)
    (info : Nat → List TypedName → BodyRange → FunctionInfo) :
    Ensures (do
      let scope ← openFunctionScope label
      discard <| expectMark .leftParen
      let parameters ← parameters scope
      discard <| expectMark .rightParen
      let body ← bodyRange
      recordFunction keyword name (info scope parameters body)) c s (fun _ ↦ True) fun _ after ↦
        Headlines c s.position [] after.position := by
  simp only [ensures_bind, ensures_openFunctionScope, ensures_discard, ensures_expectMark]
  refine ⟨fun hopen ↦ ?_, fun _ ↦ trivial⟩
  have hfirst : Headlines c s.position [] (c.after s.position) := by
    rw [Context.after_of_kindAt hopen (by decide)]
    exact .other hopen (by decide)
  refine (hparameters _ _).mono fun ns t ht ↦ ⟨fun hclose ↦ ?_, fun _ ↦ trivial⟩
  have hsecond : Headlines c t.position [] (c.after t.position) := by
    rw [Context.after_of_kindAt hclose (by decide)]
    exact .other hclose (by decide)
  refine ensures_bodyRange_headlines.mono fun body u hu ↦ ?_
  refine (ensures_recordFunction_position _ _ _).mono fun _ later hlater ↦ ?_
  rw [hlater]
  exact ((hfirst.andThen ht).andThen hsecond).andThen hu

theorem ensures_functionHeader_headlines (hc : c.Closed) (hword : c.kindAt s.position = .functionWord)
    (hdepth : braceDepth c.kindAt s.position = 0) :
    Ensures functionHeader c s (fun _ ↦ True) fun _ after ↦
      Headlines c s.position [s.position + 2] after.position := by
  have hname : globalName? c.kindAt s.position = some (s.position + 2) := by
    simp [globalName?, hdepth, hword]
  have hfirst := Headlines.word hname
  simp only [functionHeader, ensures_bind, ensures_here, ensures_discard, ensures_advance,
    State.position_movedTo, State.movedTo_movedTo, Context.after_of_kindAt hword (by decide),
    hc.kind_tokenAt]
  split
  · trivial
  next returns hreturns =>
    have htype := (Kind.isOrdinary_iff.1 (isOrdinary_of_typeWord hreturns)).2.2.1
    rw [Context.after_of_ne_eof htype, ensures_bind, ensures_expect]
    refine ⟨fun hidentifier ↦ ?_, fun _ ↦ trivial⟩
    have hidentifier : c.kindAt (s.position + 1 + 1) = .identifier := hidentifier
    simp only [State.position_movedTo, State.movedTo_movedTo]
    rw [Context.after_of_kindAt hidentifier (by decide), ensures_bind]
    refine (ensures_requireFree _ _).imp (fun _ _ ↦ trivial) ?_
    rintro _ _ ⟨rfl, -⟩
    have hthird : Headlines c (s.position + 1) [] (s.position + 1 + 1 + 1) :=
      (Headlines.other rfl (DataType.word_not_mem hreturns)).andThen (.other hidentifier (by decide))
    refine (ensures_functionRest_headlines _ parameters (fun scope t ↦ ?_) _ _
      fun scope ns body ↦ ⟨returns, ns, scope, body, false, false⟩).mono fun _ _ hrest ↦
        (hfirst.andThen hthird).andThen hrest
    exact (ensures_parameters hc scope).imp (fun _ _ ↦ trivial) fun _ _ h ↦ h.text.headlines

theorem ensures_entryPointHeader_headlines (hword : c.kindAt s.position = .mainWord)
    (hdepth : braceDepth c.kindAt s.position = 0) :
    Ensures entryPointHeader c s (fun _ ↦ True) fun _ after ↦
      Headlines c s.position [s.position] after.position := by
  have hname : globalName? c.kindAt s.position = some s.position := by
    simp [globalName?, hdepth, hword]
  have hfirst := Headlines.word hname
  have hrest := ensures_functionRest_headlines (c := c) (s := s.movedTo (s.position + 1))
    "entry point mn" (fun _ ↦ pure []) (fun _ t ↦ .nil c t.position) s.position
    (c.tokenAt s.position) fun scope ns body ↦ ⟨.void, ns, scope, body, false, true⟩
  simp only [entryPointHeader, ensures_bind, ensures_here, ensures_advance, ensures_isRecorded,
    ensures_ite, ensures_violateAt, Context.after_of_kindAt hword (by decide)]
  refine ⟨fun _ ↦ trivial, fun _ ↦ ?_⟩
  have hheader := hrest.mono fun _ _ h ↦ hfirst.andThen h
  simpa only [ensures_bind, ensures_pure] using hheader

/-! ### Rounds -/

namespace HeadersSeen

/-- A piece of the text and what is declared for it. -/
theorem next (h : HeadersSeen c s) (hnames : Headlines c s.position names after.position)
    {symbols : List Symbol} (hglobals : after.globals = s.globals ++ symbols)
    (hnamed : List.Forall₂ (Symbol.NamedAt c) symbols names) : HeadersSeen c after := by
  refine ⟨hnames.depth.trans h.outside, ?_⟩
  rw [hglobals, hnames.names]
  exact List.rel_append h.named hnamed

theorem skip (h : HeadersSeen c s) (hnames : Headlines c s.position [] i) :
    HeadersSeen c (s.movedTo i) :=
  h.next hnames (List.append_nil _).symm .nil

end HeadersSeen

theorem ensures_structHeader_seen (hc : c.Closed) (hs : Orderly s) (hseen : HeadersSeen c s)
    (hword : c.kindAt s.position = .structWord) :
    Ensures structHeader c s Unlost fun _ after ↦ HeadersSeen c after := by
  have hname : globalName? c.kindAt s.position = some (s.position + 1) := by
    simp [globalName?, hseen.outside, hword]
  have hfirst := Headlines.word hname
  simp only [structHeader, ensures_bind, ensures_discard, ensures_advance, ensures_expect,
    ensures_expectMark, State.position_movedTo, State.movedTo_movedTo,
    Context.after_of_kindAt hword (by decide)]
  refine ⟨fun hidentifier ↦ ?_, fun _ ↦ unlost_expected _ _⟩
  rw [Context.after_of_kindAt hidentifier (by decide)]
  refine (ensures_requireFree _ _).mono ?_
  rintro _ _ ⟨rfl, hfree⟩
  refine ⟨fun hopen ↦ ?_, fun _ ↦ unlost_expected _ _⟩
  rw [State.position_movedTo] at hopen
  rw [State.movedTo_movedTo, State.position_movedTo, Context.after_of_kindAt hopen (by decide)]
  refine (ensures_members hc _).mono ?_
  rintro members after ⟨hmembers, hmoved⟩
  rw [hmoved]
  refine ⟨fun hclose ↦ ⟨fun hend ↦ ?_, fun _ ↦ unlost_expected _ _⟩, fun _ ↦ unlost_expected _ _⟩
  rw [Context.after_of_kindAt hclose (by decide)] at hend ⊢
  rw [Context.after_of_kindAt hend (by decide)]
  rw [State.position_movedTo] at hmembers
  have hstill : FreeGlobally (s.movedTo (after.position + 1 + 1))
      (Symbol.ofStruct (c.tokenAt (s.position + 1)).lexeme members
        (c.tokenAt (s.position + 1)).position).name := hfree
  have horderly : Orderly (s.movedTo (after.position + 1 + 1)) := hs
  refine (ensures_declareGlobal horderly hstill).mono fun _ later hlater ↦ ?_
  have hinside := Headlines.enclosed hopen (hmembers.headlines (.inr rfl)) hclose
  have hall : Headlines c s.position [s.position + 1] later.position := by
    rw [hlater.position]
    exact ((hfirst.andThen (.other hidentifier (by decide))).andThen hinside).andThen
      (.other hend (by decide))
  exact hseen.next hall hlater.globals (.cons ⟨rfl, rfl⟩ .nil)

/-- A function has the name behind its type, and the entry point its word. -/
theorem HeaderAt.namedAt {name : Token} {info : FunctionInfo} (h : HeaderAt c i name info) :
    (Symbol.ofFunction name.lexeme info name.position).NamedAt c
      (if c.kindAt i = .mainWord then i else i + 2) := by
  cases h with
  | function word _ _ hname => rw [word, if_neg (by decide), ← hname]; exact ⟨rfl, rfl⟩
  | entryPoint word hname => rw [word, if_pos rfl, ← hname]; exact ⟨rfl, rfl⟩

theorem ensures_headerRound_seen (hc : c.Closed) (hw : c.Worded) (hs : Orderly s)
    (hseen : HeadersSeen c s) : Ensures headerRound c s Unlost fun _ after ↦
      HeadersSeen c after := by
  simp only [headerRound, ensures_bind, ensures_peekKind]
  split
  next hk =>
    refine ((ensures_functionHeader hc hs hk).and
      (ensures_functionHeader_headlines hc hk hseen.outside)).mono ?_
    rintro _ after ⟨⟨name, info, h⟩, hnames⟩
    have hnamed := h.header.namedAt
    rw [hk, if_neg (by decide)] at hnamed
    exact hseen.next hnames h.advances.globals (.cons hnamed .nil)
  next hk =>
    refine ((ensures_entryPointHeader hw hs hk).and
      (ensures_entryPointHeader_headlines hk hseen.outside)).mono ?_
    rintro _ after ⟨⟨name, info, h⟩, hnames⟩
    have hnamed := h.header.namedAt
    rw [hk, if_pos rfl] at hnamed
    exact hseen.next hnames h.advances.globals (.cons hnamed .nil)
  next hk => exact ensures_structHeader_seen hc hs hseen hk
  next hk =>
    simp only [ensures_bind, ensures_here, ensures_moveTo]
    have hcloser : (c.kindAt s.position).closer? = some .rightBrace := by
      rw [hk]
      rfl
    refine (ensures_matchingClose_iff hcloser).2
      ⟨fun stop hfound ↦ ?_, by simp, by simp⟩
    rw [hk] at hfound
    exact hseen.skip (.braces hk hfound)
  next hfunction hmain hstruct hbrace =>
    simp only [ensures_bind, ensures_here, ensures_moveTo]
    by_cases hclose : c.kindAt s.position = .rightBrace
    · -- A brace that closes nothing leaves the text outside of all braces.
      have hdepth : braceDepth c.kindAt (s.position + 1) = braceDepth c.kindAt s.position := by
        rw [braceDepth, hclose, hseen.outside]
        rfl
      refine hseen.skip ⟨hdepth, ?_⟩
      rw [globalNames_succ, globalName?_eq_none hclose (by decide)]
      rfl
    · exact hseen.skip (.other rfl (by simpa using ⟨hbrace, hclose, hfunction, hmain, hstruct⟩))

theorem headersSeen_initial (c : Context) : HeadersSeen c .initial :=
  ⟨rfl, .nil⟩

/-- The walk over the headers goes up to the end of the input. -/
theorem ensures_headers_seen (hc : c.Closed) (hw : c.Worded) :
    Ensures headers c .initial Unlost fun _ after ↦
      HeadersSeen c after ∧ c.kindAt after.position = .eof := by
  simp only [headers, ensures_bind, ensures_isRecorded, ensures_ite, ensures_violate, ensures_pure]
  refine (ensures_roundsWhile (by simp) (I := fun _ s ↦ Orderly s ∧ HeadersSeen c s)
    (D := fun _ s ↦ HeadersSeen c s ∧ c.kindAt s.position = .eof)
    ⟨orderly_initial, headersSeen_initial c⟩ ?_).mono fun _ _ h ↦ ⟨fun _ ↦ h, fun _ ↦ by simp⟩
  intro _ s hs
  simp only [ensures_bind, ensures_atEnd, ensures_pure, afterRound_yield, Bool.not_eq_true',
    Bool.not_eq_false', beq_eq_false_iff_ne, beq_iff_eq]
  refine ⟨fun hmore ↦ ?_, fun hend ↦ ⟨hs.2, hend⟩⟩
  refine ((ensures_headerRound hc hw hs.1 hmore).and (ensures_headerRound_seen hc hw hs.1 hs.2)).mono ?_
  rintro _ after ⟨⟨new, hadvances⟩, hseen⟩
  exact ⟨hadvances.orderly, hseen⟩

/-- Behind the end of the input there is nothing else. -/
theorem kindAt_of_eof_le (hends : ∀ i, c.kindAt i = .eof → c.tokens.size ≤ i + 1)
    (hend : c.kindAt i = .eof) (hle : i ≤ j) : c.kindAt j = .eof := by
  by_contra hother
  have hlt := Context.lt_size_of_ne_eof hother
  obtain rfl : j = i := by
    have hlast := hends i hend
    omega
  exact hother hend

/-- There are no names behind the end of the input. -/
theorem globalNames_of_eof (hends : ∀ i, c.kindAt i = .eof → c.tokens.size ≤ i + 1)
    (hend : c.kindAt i = .eof) : globalNames c.kindAt i = globalNames c.kindAt c.tokens.size := by
  have hskip {j k : Nat} (hle : j ≤ k) (h : ∀ m, j ≤ m → c.kindAt m = .eof) :
      globalNames c.kindAt k = globalNames c.kindAt j := by
    obtain ⟨n, rfl⟩ := Nat.exists_eq_add_of_le hle
    induction n with
    | zero => rfl
    | succ n ih =>
      have hkind : c.kindAt (j + n) = .eof := h _ (Nat.le_add_right j n)
      rw [← Nat.add_assoc, globalNames_succ, globalName?_eq_none hkind (by decide),
        ih (Nat.le_add_right j n)]
      exact List.append_nil _
  rcases Nat.le_total i c.tokens.size with hle | hle
  · exact (hskip hle fun m ↦ kindAt_of_eof_le hends hend).symm
  · refine hskip hle fun m hm ↦ ?_
    by_contra hother
    exact absurd (Context.lt_size_of_ne_eof hother) (Nat.not_lt.2 hm)

/-! ### No lookups -/

namespace Calm

theorem isRecorded (name : String) : Calm (Check.isRecorded name) :=
  get.bind fun _ ↦ pure _

theorem requireFree (what : Redeclared) (name : Token) : Calm (Check.requireFree what name) :=
  get.bind fun _ ↦ ite (violateAt rfl _) (pure _)

theorem declareGlobal (symbol : Symbol) (name : Token) : Calm (Check.declareGlobal symbol name) :=
  (insertSymbol _ _).bind fun _ ↦ ite (pure _) (violateAt rfl _)

theorem typeWord (wanted : Wanted) : Calm (Check.typeWord wanted) := by
  refine advance.bind fun t ↦ ?_
  split
  · exact pure _
  · exact violateAt rfl _

theorem typedName (wantedType wantedName : Wanted) : Calm (Check.typedName wantedType wantedName) :=
  (typeWord _).bind fun _ ↦ (expect _ _).bind fun _ ↦ pure _

theorem parameters (scope : Nat) : Calm (Check.parameters scope) := by
  have hround (before : List TypedName) : Calm (Check.parameterRound scope before) :=
    (typedName _ _).bind fun _ ↦ (insertSymbol _ _).bind fun _ ↦ otherwise (refuse rfl) <|
      (next? _).bind fun _ ↦ ite (advance.discard.bind fun _ ↦ pure _) (pure _)
  exact (next? _).bind fun _ ↦ ite (pure _) (rounds hround)

theorem bodyRange : Calm Check.bodyRange :=
  (next? _).bind fun _ ↦ otherwise (expectMark _).discard <| here.bind fun _ ↦
    (matchingClose _).bind fun _ ↦ (moveTo _).bind fun _ ↦ pure _

theorem recordFunction (keyword : Nat) (name : Token) (info : FunctionInfo) :
    Calm (Check.recordFunction keyword name info) :=
  (modifyGet _).bind fun _ ↦ ite (pure _) (violateAt rfl _)

theorem functionHeader : Calm Check.functionHeader := by
  refine here.bind fun keyword ↦ advance.discard.bind fun _ ↦ advance.bind fun typeToken ↦ ?_
  split
  · exact violateAt rfl _
  · exact (expect _ _).bind fun name ↦ (requireFree _ name).bind fun _ ↦ (modifyGet _).bind fun scope ↦
      (expectMark _).discard.bind fun _ ↦ (parameters scope).bind fun _ ↦
        (expectMark _).discard.bind fun _ ↦ bodyRange.bind fun _ ↦ recordFunction keyword name _

theorem entryPointHeader : Calm Check.entryPointHeader :=
  here.bind fun keyword ↦ advance.bind fun name ↦ (isRecorded _).bind fun _ ↦
    guard (violateAt rfl _) <| (modifyGet _).bind fun _ ↦ (expectMark _).discard.bind fun _ ↦
      (expectMark _).discard.bind fun _ ↦ bodyRange.bind fun _ ↦ recordFunction keyword name _

theorem structHeader : Calm Check.structHeader := by
  have hround (structName : String) (before : List TypedName) :
      Calm (Check.memberRound structName before) :=
    (typedName _ _).bind fun _ ↦ guard (refuse rfl) <| (expectMark _).discard.bind fun _ ↦ pure _
  exact advance.discard.bind fun _ ↦ (expect _ _).bind fun name ↦ (requireFree _ name).bind fun _ ↦
    (expectMark _).discard.bind fun _ ↦
      (roundsWhile ((next? _).bind fun _ ↦ pure _) (hround _)).bind fun _ ↦
        (expectMark _).discard.bind fun _ ↦ (expectMark _).discard.bind fun _ ↦ declareGlobal _ _

theorem headerRound : Calm Check.headerRound := by
  refine peekKind.bind fun k ↦ ?_
  split
  · exact functionHeader
  · exact entryPointHeader
  · exact structHeader
  · exact here.bind fun _ ↦ (matchingClose _).bind fun _ ↦ moveTo _
  · exact here.bind fun _ ↦ moveTo _

/-- The walk over the headers looks up no name. -/
theorem headers : Calm Check.headers :=
  (roundsWhile (atEnd.bind fun _ ↦ pure _) fun _ ↦ headerRound.bind fun _ ↦ pure _).bind fun _ ↦
    (isRecorded _).bind fun _ ↦ ite (pure _) (violate rfl)

end Calm

end

end FrontEnd
