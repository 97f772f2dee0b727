import FrontEnd.Proofs.Check.BodyWalk
import FrontEnd.Proofs.Check.TypedProgram

/-!
# The two walks cover the program

The walk over the headers records a function for each word that starts one, and the walk over the
bodies goes into each of them once.  `SecondWalk` describes a walk over the bodies that succeeds: the
row of functions, structs and other stretches it passed, and the places inside functions it visited
(`Unchecked.secondWalk_rounds`).  No stretch but a function has a word that starts one, so the
functions of the row are those of the words in the text (`SecondWalk.functionWords`), and what is
visited inside each is every token of its body, once and in order (`SecondWalk.destutter`).

The table at the end has the functions as they were recorded, but for the mark that they return
(`functions_cover_program`).
-/

namespace FrontEnd

open Check

/-- Whether a word that starts a function or the entry point stands at an index. -/
def Context.startsFunction (c : Context) (i : Nat) : Bool :=
  c.kindAt i == .functionWord || c.kindAt i == .mainWord

/-- The words from an index on that start a function or the entry point. -/
def Context.functionWordsFrom (c : Context) (i : Nat) : List Nat :=
  (List.range' i (c.tokens.size - i)).filter c.startsFunction

/-- All words that start a function or the entry point. -/
def Context.functionWords (c : Context) : List Nat :=
  (List.range c.tokens.size).filter c.startsFunction

/-- A symbol that is a function, with what is known of it. -/
def Symbol.function? (symbol : Symbol) : Option (Symbol × FunctionInfo) :=
  symbol.functionInfo?.map fun info ↦ (symbol, info)

/-- The functions in the global scope of a table, in the order they were declared in. -/
def SymbolTable.globalFunctions (t : SymbolTable) : List (Symbol × FunctionInfo) :=
  (t.global?.elim [] Scope.symbols).filterMap Symbol.function?

/-- The tokens of a body with its closing brace. -/
def BodyRange.tokens (body : BodyRange) : List Nat :=
  List.range' body.start (body.stop - body.start + 1)

/-- A word starts the header of a function that has a symbol, and the body recorded for it stands
between a brace and the one that closes it. -/
structure FunctionText (c : Context) (word : Nat) (symbol : Symbol) (info : FunctionInfo) :
    Prop where
  header : ∃ name, HeaderAt c word name info ∧ symbol.name = name.lexeme ∧
    symbol.position = name.position
  opens : ∃ opening, info.body.start = opening + 1 ∧ c.kindAt opening = .leftBrace
  balanced : Balanced c.kindAt info.body.start info.body.stop
  closes : c.kindAt info.body.stop = .rightBrace

/-- What the walk over the bodies passes from an index on, and the places inside functions it visits
on its way. -/
inductive SecondWalk (c : Context) : Nat → List Symbol → List (String × Nat) → Prop
  | ended {i : Nat} : c.kindAt i = .eof → SecondWalk c i [] []
  | function {i : Nat} {name : Token} {info : FunctionInfo} {past : List Moment}
    {symbols : List Symbol} {visited : List (String × Nat)} (header : HeaderAt c i name info)
    (opens : ∃ opening, info.body.start = opening + 1 ∧ c.kindAt opening = .leftBrace)
    (balanced : Balanced c.kindAt info.body.start info.body.stop)
    (closes : c.kindAt info.body.stop = .rightBrace)
    (passes : Passes name.lexeme info.body.start past info.body.stop)
    (rest : SecondWalk c (info.body.stop + 1) symbols visited) :
    SecondWalk c i (.ofFunction name.lexeme info name.position :: symbols)
      ((name.lexeme, info.body.start) :: (places past ++ visited))
  | struct {i stop : Nat} {name : Token} {members : List TypedName} {symbols : List Symbol}
    {visited : List (String × Nat)} (struct : StructAt c i name members stop)
    (rest : SecondWalk c (stop + 2) symbols visited) :
    SecondWalk c i (.ofStruct name.lexeme members name.position :: symbols) visited
  | other {i j : Nat} {symbols : List Symbol} {visited : List (String × Nat)}
    (balanced : Balanced c.kindAt i j) (rest : SecondWalk c j symbols visited) :
    SecondWalk c i symbols visited

section

variable {c : Context} {f s t : State} {i j : Nat} {symbols kept : List Symbol}
  {visited : List (String × Nat)}

/-! ### Words in the text -/

/-- No token from one index up to another ends the input or starts a function. -/
structure Wordless (c : Context) (i j : Nat) : Prop where
  le : i ≤ j
  kinds : ∀ k, i ≤ k → k < j → c.kindAt k ≠ .eof ∧ c.startsFunction k = false

namespace Wordless

theorem refl (c : Context) (i : Nat) : Wordless c i i :=
  ⟨Nat.le_refl i, fun k hi hj ↦ by omega⟩

theorem one {k : Kind} (hi : c.kindAt i = k)
    (hk : [.eof, .functionWord, .mainWord].contains k = false) : Wordless c i (i + 1) := by
  refine ⟨Nat.le_succ i, fun m hm hlt ↦ ?_⟩
  obtain rfl : m = i := by omega
  rw [Context.startsFunction, hi]
  cases k <;> first | exact absurd hk (by decide) | exact ⟨by decide, by decide⟩

theorem trans (h : Wordless c i j) {k : Nat} (h' : Wordless c j k) : Wordless c i k := by
  refine ⟨Nat.le_trans h.le h'.le, fun m hm hlt ↦ ?_⟩
  by_cases hmiddle : m < j
  · exact h.kinds m hm hmiddle
  · exact h'.kinds m (Nat.le_of_not_lt hmiddle) hlt

/-- No stretch of statements has a word that starts a function. -/
theorem of_balanced (h : Balanced c.kindAt i j) : Wordless c i j := by
  induction h with
  | nil => exact .refl c _
  | @ordinary i j hi _ ih =>
    obtain ⟨-, -, heof, hfunction, hmain, -⟩ := Kind.isOrdinary_iff.1 hi
    exact (one rfl (by simp [heof, hfunction, hmain])).trans ih
  | braces hi _ hm _ ihinner ih => exact (((one hi rfl).trans ihinner).trans (one hm rfl)).trans ih

/-- A token that starts a function stands outside. -/
theorem outside (h : Wordless c i j) {k : Nat} (hk : c.startsFunction k) : k < i ∨ j ≤ k := by
  by_contra hinside
  have hinside : i ≤ k ∧ k < j := by omega
  exact absurd hk (by simp [(h.kinds k hinside.1 hinside.2).2])

end Wordless

/-- Between the word of a function and its body no other function starts. -/
theorem HeaderAt.wordless {name : Token} {info : FunctionInfo} (h : HeaderAt c i name info)
    (hopens : ∃ opening, info.body.start = opening + 1 ∧ c.kindAt opening = .leftBrace) :
    Wordless c (i + 1) info.body.start := by
  obtain ⟨opening, hopening, hbrace⟩ := hopens
  cases h with
  | @function j _ returns kind _ opens parameters closes start =>
    obtain rfl : opening = j + 1 := by omega
    have htype : Wordless c (i + 1) (i + 2) := .of_balanced (.one (isOrdinary_of_typeWord returns))
    have hname := ((htype.trans (.one kind rfl)).trans (.one opens rfl)).trans
      (.of_balanced parameters.balanced)
    exact hopening ▸ (hname.trans (.one closes rfl)).trans (.one hbrace rfl)
  | entryPoint _ _ opens closes _ _ start =>
    obtain rfl : opening = i + 3 := by omega
    exact hopening ▸ ((Wordless.one opens rfl).trans (.one closes rfl)).trans (.one hbrace rfl)

theorem StructAt.wordless {name : Token} {members : List TypedName} {stop : Nat}
    (h : StructAt c i name members stop) : Wordless c i (stop + 2) := by
  have hmembers := Wordless.of_balanced (h.members.balanced rfl)
  exact ((((Wordless.one h.word rfl).trans (.one h.kind rfl)).trans (.one h.opens rfl)).trans
    hmembers).trans ((Wordless.one h.closes rfl).trans (.one h.ends rfl))

theorem FunctionText.wordless {word : Nat} {symbol : Symbol} {info : FunctionInfo}
    (h : FunctionText c word symbol info) : Wordless c (word + 1) (info.body.stop + 1) := by
  obtain ⟨name, hheader, -⟩ := h.header
  exact ((hheader.wordless h.opens).trans (.of_balanced h.balanced)).trans (.one h.closes rfl)

theorem Context.lt_size_of_startsFunction (h : c.startsFunction i) : i < c.tokens.size := by
  refine Context.lt_size_of_ne_eof fun heof ↦ ?_
  rw [Context.startsFunction, heof] at h
  cases h

theorem Context.mem_functionWords : i ∈ c.functionWords ↔ c.startsFunction i := by
  simp only [Context.functionWords, List.mem_filter, List.mem_range, and_iff_right_iff_imp]
  exact Context.lt_size_of_startsFunction

/-- The words in the text are those from a place on if none stands before. -/
theorem Wordless.functionWordsFrom_eq (h : Wordless c i j) :
    c.functionWordsFrom i = c.functionWordsFrom j := by
  obtain hsame | hlt := Nat.eq_or_lt_of_le h.le
  · rw [hsame]
  · have hsize := Context.lt_size_of_ne_eof (h.kinds (j - 1) (by omega) (by omega)).1
    have hlength : c.tokens.size - i = (j - i) + (c.tokens.size - j) := by omega
    have hmiddle : i + (j - i) = j := by omega
    have hnone : (List.range' i (j - i)).filter c.startsFunction = [] := by
      refine List.filter_eq_nil_iff.2 fun k hk ↦ ?_
      have hk := List.mem_range'_1.1 hk
      simp [(h.kinds k (by omega) (by omega)).2]
    rw [Context.functionWordsFrom, hlength, ← List.range'_append_1, hmiddle, List.filter_append,
      hnone, List.nil_append, Context.functionWordsFrom]

theorem Context.functionWordsFrom_of_starts (h : c.startsFunction i) :
    c.functionWordsFrom i = i :: c.functionWordsFrom (i + 1) := by
  have hsize := Context.lt_size_of_startsFunction h
  have hlength : c.tokens.size - i = (c.tokens.size - (i + 1)) + 1 := by omega
  rw [Context.functionWordsFrom, hlength, List.range'_succ, List.filter_cons_of_pos h,
    Context.functionWordsFrom]

theorem Context.functionWordsFrom_zero (c : Context) : c.functionWordsFrom 0 = c.functionWords := by
  rw [Context.functionWordsFrom, Nat.sub_zero, ← List.range_eq_range', Context.functionWords]

/-- Where the input ends no word is left. -/
theorem Context.functionWordsFrom_of_eof (h : c.kindAt i = .eof) (hlast : c.tokens.size ≤ i + 1) :
    c.functionWordsFrom i = [] := by
  refine List.filter_eq_nil_iff.2 fun k hk ↦ ?_
  have hk := List.mem_range'_1.1 hk
  obtain rfl : k = i := by omega
  simp [Context.startsFunction, h]

theorem HeaderAt.startsFunction {name : Token} {info : FunctionInfo} (h : HeaderAt c i name info) :
    c.startsFunction i := by
  cases h with
  | function word => simp [Context.startsFunction, word]
  | entryPoint word => simp [Context.startsFunction, word]

/-! ### The rounds of the walk over the bodies -/

/-- What a round that succeeds passes is a piece of the row, in front of what later rounds pass. -/
structure RoundWalked (c : Context) (f s t : State) (symbols : List Symbol)
    (visited : List (String × Nat)) : Prop where
  gains : s.arena.Gains t.arena
  inside : ∀ k, s.position < k → k < t.position → c.startsFunction k = false
  row : ∃ rest, Laid c f t.position rest ∧ ∀ later, SecondWalk c t.position rest later →
    SecondWalk c s.position symbols (visited ++ later)

theorem Unchecked.roundWalked (hc : c.Closed) (hfunction : c.function = none)
    (h : Unchecked c f s) (hlaid : Laid c f s.position symbols)
    (hrun : programRound.runFrom c s = (.ok (), t)) :
    RoundWalked c f s t symbols (places (programRound.momentsFrom c s)) := by
  -- A round checks the function whose word it starts at; all others stay outside of functions.
  by_cases hword : c.kindAt s.position = .functionWord ∨ c.kindAt s.position = .mainWord
  · obtain ⟨name, info, rest, rfl, hheader, hlookup, hrecorded, ⟨opening, hstart, hbraced⟩, hstop,
      hrest⟩ := hlaid.of_function hword
    have hsame := run_programRound_function hword (h.inStep.keeps.headers ▸ hlookup) []
    have hbody := h.bodyWalked hc hfunction hrecorded (Nat.le_of_lt hstop)
      ((congrArg Prod.fst hsame).symm.trans hrun)
    obtain ⟨past, hpasses, hvisited⟩ := hbody.passes
    have hmoments : programRound.momentsFrom c s = (functionBody name.lexeme).momentsFrom c s :=
      congrArg Prod.snd hsame
    rw [hmoments, hvisited]
    have htext : FunctionText c s.position (.ofFunction name.lexeme info name.position) info :=
      ⟨⟨name, hheader, rfl, rfl⟩, ⟨opening, hstart, hbraced.opens⟩, hbody.balanced, hbody.closes⟩
    refine ⟨hbody.gains, fun k hk hlt ↦ (htext.wordless.kinds k hk (hbody.position ▸ hlt)).2, rest,
      hbody.position ▸ hrest, fun later hlater ↦ ?_⟩
    exact .function hheader ⟨opening, hstart, hbraced.opens⟩ hbody.balanced hbody.closes hpasses
      (hbody.position ▸ hlater)
  · rw [(Trace.programRound (R := .staying) hword).places_eq_nil hfunction]
    suffices hround : Ensures programRound c s (fun _ ↦ True) fun _ after ↦
        RoundWalked c f s after symbols [] from hround.of_run hrun
    simp only [programRound, ensures_bind, ensures_peekKind]
    split
    next hk => exact absurd (.inl hk) hword
    next hk => exact absurd (.inr hk) hword
    next hk =>
      obtain ⟨name, members, m, rest, rfl, hstruct, hrest⟩ := hlaid.of_struct hk
      refine (ensures_skipStruct hk hstruct.kind hstruct.opens (hstruct.members.balanced rfl)
        hstruct.closes hstruct.ends).imp (fun _ _ ↦ trivial) ?_
      rintro _ _ rfl
      exact ⟨.refl _, fun k hk hlt ↦ (hstruct.wordless.kinds k (Nat.le_of_lt hk) hlt).2, rest, hrest,
        fun later hlater ↦ .struct hstruct hlater⟩
    next =>
      simp only [ensures_bind, ensures_read, ensures_discard]
      refine (((walks_statement c.limits.nesting c s hc).imp (fun _ _ ↦ trivial) fun _ _ h ↦ h).and
        (ensures_leaves _ c s)).mono ?_
      rintro _ after ⟨hpassed, hleaves⟩
      have hgains := (Traced.statement (R := .gaining) c.limits.nesting c s).gains h.distinct.1
      exact ⟨hleaves ▸ hgains,
        fun k hk hlt ↦ ((Wordless.of_balanced hpassed.balanced).kinds k (Nat.le_of_lt hk) hlt).2,
        symbols, hlaid.of_balanced hpassed.balanced, fun later hlater ↦ .other hpassed.balanced hlater⟩

/-- The rounds of the walk over the bodies. -/
abbrev bodyRounds (left : Nat) : Check Unit :=
  roundsFrom (return !(← atEnd)) (fun _ ↦ do programRound; return .yield ()) left ()

/-- Rounds that succeed walk over the whole row. -/
theorem Unchecked.secondWalk_rounds (hc : c.Closed) (hfunction : c.function = none) :
    ∀ left {s : State} {symbols : List Symbol}, Unchecked c f s → Laid c f s.position symbols →
      (bodyRounds left).runFrom c s = (.ok (), t) → Unchecked c f t ∧ s.arena.Gains t.arena ∧
        SecondWalk c s.position symbols (places ((bodyRounds left).momentsFrom c s)) := by
  have hdue (s : State) : (do return !(← atEnd) : Check Bool).runFrom c s =
      (.ok (!(c.kindAt s.position == .eof)), s) := rfl
  have hended {s : State} {symbols : List Symbol} (hlaid : Laid c f s.position symbols)
      (hend : c.kindAt s.position = .eof) : SecondWalk c s.position symbols [] := by
    obtain rfl := hlaid.of_ended hend
    exact .ended hend
  have hnone (s : State) : (do return !(← atEnd) : Check Bool).momentsFrom c s = [] := rfl
  intro left
  induction left with
  | zero =>
    intro s symbols h hlaid hrun
    rw [bodyRounds, roundsFrom] at hrun ⊢
    rw [Check.momentsFrom_bind, hdue, hnone]
    rw [Check.runFrom_bind, hdue] at hrun
    by_cases hend : c.kindAt s.position = .eof
    · rw [hend] at hrun ⊢
      cases hrun
      exact ⟨h, .refl _, hended hlaid hend⟩
    · rw [beq_eq_false_iff_ne.2 hend] at hrun
      cases hrun
  | succ left ih =>
    intro s symbols h hlaid hrun
    rw [bodyRounds, roundsFrom] at hrun ⊢
    rw [Check.momentsFrom_bind, hdue, hnone]
    rw [Check.runFrom_bind, hdue] at hrun
    by_cases hend : c.kindAt s.position = .eof
    · rw [hend] at hrun ⊢
      cases hrun
      exact ⟨h, .refl _, hended hlaid hend⟩
    · rw [beq_eq_false_iff_ne.2 hend] at hrun ⊢
      simp only [Bool.not_false, if_true, bind_assoc, pure_bind, List.append_nil] at hrun ⊢
      rw [Check.runFrom_bind] at hrun
      rw [Check.momentsFrom_bind]
      cases hround : programRound.runFrom c s with
      | mk result after =>
        rw [hround] at hrun
        cases result with
        | error e => cases hrun
        | ok _ =>
          -- One round, and from where it ends the others.
          obtain ⟨hgains, -, rest, hrest, hpiece⟩ := h.roundWalked hc hfunction hlaid hround
          obtain ⟨hlast, hlater, hwalk⟩ := ih (h.next hc hround) hrest hrun
          exact ⟨hlast, hgains.trans hlater, places_append _ _ ▸ hpiece _ hwalk⟩

namespace SecondWalk

/-- The functions passed are those of the words in the text. -/
theorem functionWords (h : SecondWalk c i symbols visited)
    (hlast : ∀ k, c.kindAt k = .eof → c.tokens.size ≤ k + 1) :
    List.Forall₂ (fun word f ↦ FunctionText c word f.1 f.2) (c.functionWordsFrom i)
      (symbols.filterMap Symbol.function?) := by
  induction h with
  | ended hend =>
    rw [Context.functionWordsFrom_of_eof hend (hlast _ hend)]
    exact .nil
  | @function i name info past symbols visited header opens balanced closes _ _ ih =>
    have htext : FunctionText c i (.ofFunction name.lexeme info name.position) info :=
      ⟨⟨name, header, rfl, rfl⟩, opens, balanced, closes⟩
    rw [Context.functionWordsFrom_of_starts header.startsFunction, htext.wordless.functionWordsFrom_eq]
    exact .cons htext ih
  | struct struct _ ih =>
    rw [struct.wordless.functionWordsFrom_eq]
    exact ih
  | other balanced _ ih =>
    rw [(Wordless.of_balanced balanced).functionWordsFrom_eq]
    exact ih

/-- The first place visited is not before the start of the walk. -/
theorem le_of_mem_head? (h : SecondWalk c i symbols visited) :
    ∀ place ∈ visited.head?, i ≤ place.2 := by
  induction h with
  | ended => nofun
  | function header =>
    intro place hplace
    obtain rfl := Option.some.inj hplace
    exact Nat.le_of_lt header.lt_start
  | struct struct _ ih =>
    exact fun place hplace ↦ Nat.le_trans struct.wordless.le (ih place hplace)
  | other balanced _ ih => exact fun place hplace ↦ Nat.le_trans balanced.le (ih place hplace)

/-- Without repetitions, the places visited are the tokens of the bodies, in order. -/
theorem destutter (h : SecondWalk c i symbols visited) :
    visited.destutter (· ≠ ·) = (symbols.filterMap Symbol.function?).flatMap fun f ↦
      f.2.body.tokens.map (f.1.name, ·) := by
  induction h with
  | ended => rfl
  | @function i name info past symbols visited _ _ balanced _ passes rest ih =>
    have hlater : visited.destutter' (· ≠ ·) (name.lexeme, info.body.stop) =
        (name.lexeme, info.body.stop) :: visited.destutter (· ≠ ·) := by
      cases visited with
      | nil => rfl
      | cons place visited =>
        have hle := rest.le_of_mem_head? place rfl
        refine List.destutter'_cons_pos _ fun hsame ↦ ?_
        rw [← hsame] at hle
        exact absurd hle (by simp)
    have htokens : info.body.tokens.map (name.lexeme, ·) =
        (List.range' info.body.start (info.body.stop - info.body.start)).map (name.lexeme, ·) ++
          [(name.lexeme, info.body.stop)] := by
      have hstop : info.body.start + (info.body.stop - info.body.start) = info.body.stop := by
        have hle := balanced.le
        omega
      rw [BodyRange.tokens, List.range'_1_concat, List.map_append, hstop]
      rfl
    have hfunctions : (Symbol.ofFunction name.lexeme info name.position :: symbols).filterMap
        Symbol.function? = (.ofFunction name.lexeme info name.position, info) ::
          symbols.filterMap Symbol.function? := rfl
    show (places past ++ visited).destutter' (· ≠ ·) (name.lexeme, info.body.start) = _
    rw [passes.places, hlater, ih, hfunctions, List.flatMap_cons]
    show _ = info.body.tokens.map (name.lexeme, ·) ++ _
    rw [htokens, List.append_assoc]
    rfl
  | struct _ _ ih => exact ih
  | other _ _ ih => exact ih

end SecondWalk

/-! ### What the table has -/

/-- What is known of a function from its header alone. -/
def headerOf (f : Symbol × FunctionInfo) : String × Position × FunctionInfo :=
  (f.1.name, f.1.position, { f.2 with hasReturn := false })

theorem HeaderAt.of_hasReturn {name : Token} {info : FunctionInfo} {hasReturn : Bool}
    (h : HeaderAt c i name info) : HeaderAt c i name { info with hasReturn := hasReturn } := by
  cases h with
  | function word returns kind hname opens parameters closes start isEntryPoint =>
    exact .function word returns kind hname opens parameters closes start isEntryPoint
  | entryPoint word hname opens closes returns parameters start isEntryPoint =>
    exact .entryPoint word hname opens closes returns parameters start isEntryPoint

/-- The text of a function is that of every function with the same header. -/
theorem FunctionText.of_headerOf {word : Nat} {f g : Symbol × FunctionInfo}
    (h : FunctionText c word f.1 f.2) (hsame : headerOf g = headerOf f) :
    FunctionText c word g.1 g.2 := by
  obtain ⟨symbol, returns, parameters, scope, body, hasReturn, isEntryPoint⟩ := f
  obtain ⟨symbol', returns', parameters', scope', body', hasReturn', isEntryPoint'⟩ := g
  simp only [headerOf, Prod.mk.injEq, FunctionInfo.mk.injEq] at hsame
  obtain ⟨hname, hposition, rfl, rfl, rfl, rfl, -, rfl⟩ := hsame
  obtain ⟨⟨name, hheader, hlexeme, hplace⟩, opens, balanced, closes⟩ := h
  exact ⟨⟨name, hheader.of_hasReturn, hname.trans hlexeme, hposition.trans hplace⟩, opens, balanced,
    closes⟩

/-- A function keeps its header. -/
theorem Symbol.Later.headerOf_eq {symbol after : Symbol} (h : symbol.Later after) :
    after.function?.map headerOf = symbol.function?.map headerOf := by
  obtain ⟨hname, hkind, -, -, -, hposition⟩ := h
  obtain ⟨name, kind, type, initialized, array, position⟩ := symbol
  obtain ⟨name', kind', type', initialized', array', position'⟩ := after
  obtain rfl : name' = name := hname
  obtain rfl : position' = position := hposition
  cases hkind <;> rfl

/-- Symbols that were kept have the functions there were. -/
theorem headerOf_of_later (h : List.Forall₂ Symbol.Later symbols kept) :
    (kept.filterMap Symbol.function?).map headerOf =
      (symbols.filterMap Symbol.function?).map headerOf := by
  rw [List.map_filterMap, List.map_filterMap]
  induction h with
  | nil => rfl
  | cons hlater _ ih => rw [List.filterMap_cons, List.filterMap_cons, hlater.headerOf_eq, ih]

/-- What holds values is no function. -/
theorem filterMap_function?_of_isValue {gained : List Symbol}
    (h : ∀ symbol ∈ gained, symbol.isValue) : gained.filterMap Symbol.function? = [] := by
  refine List.filterMap_eq_nil_iff.2 fun symbol hsymbol ↦ ?_
  have hvalue := h symbol hsymbol
  obtain ⟨name, kind, type, initialized, array, position⟩ := symbol
  cases kind <;> first | rfl | cases hvalue

/-! ### The two walks of a program -/

/-- A program is checked successfully by a walk over the headers and one over the bodies. -/
structure TwoWalks (c : Context) (s f t : State) : Prop where
  headers : headers.runFrom c s = (.ok (), f)
  bodies : (bodyRounds c.limits.scan).runFrom c (f.movedTo 0) = (.ok (), t)
  moments : program.momentsFrom c s = (bodyRounds c.limits.scan).momentsFrom c (f.movedTo 0) ++
    ⟨c, f.movedTo 0, none⟩ :: Check.headers.momentsFrom c s

theorem twoWalks_of_run (hrun : program.runFrom c s = (.ok (), t)) : ∃ f, TwoWalks c s f t := by
  cases hempty : c.tokens.isEmpty with
  | true =>
    have hrefused : program.runFrom c s = (violate .unexpectedEnd).runFrom c s := by
      show (if c.tokens.isEmpty then _ else _ : Check Unit).runFrom c s = _
      rw [hempty]
      rfl
    cases hrefused.symm.trans hrun
  | false =>
    let walks : Check Unit := Check.headers >>= fun _ ↦ moveTo 0 >>= fun _ ↦
      bodyRounds c.limits.scan
    have hsame : program.run c s [] = walks.run c s [] := by
      show (if c.tokens.isEmpty then _ else _ : Check Unit).run c s [] = _
      rw [hempty]
      rfl
    have hwalks : walks.runFrom c s = (.ok (), t) := (congrArg Prod.fst hsame).symm.trans hrun
    have hmoments : program.momentsFrom c s = walks.momentsFrom c s := congrArg Prod.snd hsame
    rw [Check.runFrom_bind] at hwalks
    rw [Check.momentsFrom_bind] at hmoments
    cases hheaders : Check.headers.runFrom c s with
    | mk result f =>
      rw [hheaders] at hwalks hmoments
      cases result with
      | error e => cases hwalks
      | ok _ =>
        have hmove : (moveTo 0 >>= fun _ ↦ bodyRounds c.limits.scan : Check Unit).momentsFrom c f =
            (bodyRounds c.limits.scan).momentsFrom c (f.movedTo 0) ++ [⟨c, f.movedTo 0, none⟩] :=
          Check.momentsFrom_bind _ _ c f
        refine ⟨f, hheaders, (Check.runFrom_bind _ _ c f).symm.trans hwalks, hmoments.trans ?_⟩
        dsimp only
        rw [hmove, List.append_assoc]
        rfl

/-- The walk over the headers ends with the entry point recorded. -/
theorem TwoWalks.entryPoint (h : TwoWalks c s f t) :
    (f.functions.lookup entryPointName).isSome := by
  have hheaders : Ensures Check.headers c s (fun _ ↦ True) fun _ after ↦
      (after.functions.lookup entryPointName).isSome := by
    simp only [Check.headers, ensures_bind]
    refine (ensures_runs _ c s).mono fun _ after _ ↦ ?_
    simp only [ensures_isRecorded, ensures_ite, ensures_violate, ensures_pure]
    exact ⟨id, fun _ ↦ trivial⟩
  exact hheaders.of_run h.headers

/-- What the two walks over a program leave. -/
structure Covered (c : Context) (f t : State) (symbols : List Symbol) : Prop where
  surveyed : Surveyed c .initial symbols f
  distinct : f.arena.Distinct
  functions : t.functions = f.functions
  gains : f.arena.Gains t.arena
  walk : SecondWalk c 0 symbols (places (program.momentsFrom c .initial))

theorem TwoWalks.covered (hc : c.Closed) (hw : c.Worded) (hfunction : c.function = none)
    (h : TwoWalks c .initial f t) : ∃ symbols, Covered c f t symbols := by
  obtain ⟨symbols, hsurveyed⟩ := (ensures_headers hc hw orderly_initial).of_run h.headers
  have hdistinct := (TracedFrom.headers hc hw orderly_initial).distinct ⟨orderly_initial.size_pos, .initial⟩
  rw [show Check.headers.leaves c .initial = f from congrArg Prod.snd h.headers] at hdistinct
  have hunchecked : Unchecked c f (f.movedTo 0) :=
    ⟨⟨⟨symbols, hsurveyed.laid⟩, (SameTables.movedTo.2 (.refl f)).keeps⟩, hdistinct,
      fun _ _ hinfo _ ↦ hinfo⟩
  obtain ⟨hlast, hgains, hwalk⟩ :=
    hunchecked.secondWalk_rounds hc hfunction c.limits.scan hsurveyed.laid h.bodies
  have hbefore : places (⟨c, f.movedTo 0, none⟩ :: Check.headers.momentsFrom c .initial) = [] := by
    refine Trace.places_eq_nil (c := c) (s := .initial) (t := f.movedTo 0) ?_ hfunction
    have htrace := TracedFrom.headers (R := .staying) hc hw orderly_initial
    unfold TracedFrom at htrace
    rw [show Check.headers.leaves c .initial = f from congrArg Prod.snd h.headers] at htrace
    exact htrace.change trivial
  refine ⟨symbols, hsurveyed, hdistinct.2, hlast.inStep.keeps.functions, hgains, ?_⟩
  rw [h.moments, places_append, hbefore, List.nil_append]
  exact hwalk

namespace Covered

/-- The functions of the table are those that were recorded, as far as their headers say. -/
theorem globalFunctions (h : Covered c f t symbols) :
    (SymbolTable.globalFunctions ⟨t.arena, t.functions⟩).map headerOf =
      (symbols.filterMap Symbol.function?).map headerOf := by
  obtain ⟨global, hglobal, rfl⟩ := h.surveyed.global rfl
  obtain ⟨last, hlast, hgains⟩ := h.gains.exists_scope hglobal
  obtain ⟨kept, gained, hsymbols, hkept, hgained⟩ := hgains.exists_append
  unfold SymbolTable.globalFunctions SymbolTable.global?
  rw [hlast, Option.elim_some, hsymbols, List.filterMap_append,
    filterMap_function?_of_isValue hgained, List.append_nil]
  exact headerOf_of_later hkept

end Covered

/-- The functions on a row were recorded. -/
theorem Laid.recorded (h : Laid c f i symbols) : ∀ g ∈ symbols.filterMap Symbol.function?,
    ∃ name : Token, g.1 = .ofFunction name.lexeme g.2 name.position ∧ Recorded f name g.2 := by
  induction h with
  | ended => exact fun g hg ↦ absurd hg List.not_mem_nil
  | @function i name info symbols _ _ hrecorded _ _ _ ih =>
    intro g hg
    obtain rfl | hg := List.mem_cons.1 hg
    · exact ⟨name, rfl, hrecorded⟩
    · exact ih g hg
  | struct _ _ ih | braces _ _ ih | other _ _ ih => exact ih

/-- A function of a table is recorded under its name and has a scope inside the global one that
starts with its parameters. -/
structure SymbolTable.Records (table : SymbolTable) (name : String) (info : FunctionInfo) : Prop where
  functions : table.functions.lookup name = some info.scope
  scope : ∃ scope, table.arena.scope? info.scope = some scope ∧ scope.parent = some 0 ∧
    info.parameters.map TypedName.parameter <+: scope.symbols

theorem SymbolTable.Records.of_headerOf {table : SymbolTable} {f g : Symbol × FunctionInfo}
    (h : table.Records f.1.name f.2) (hsame : headerOf f = headerOf g) : table.Records g.1.name g.2 := by
  obtain ⟨symbol, returns, parameters, scope, body, hasReturn, isEntryPoint⟩ := f
  obtain ⟨symbol', returns', parameters', scope', body', hasReturn', isEntryPoint'⟩ := g
  simp only [headerOf, Prod.mk.injEq, FunctionInfo.mk.injEq] at hsame
  obtain ⟨hname, -, -, rfl, rfl, -, -, -⟩ := hsame
  exact ⟨hname ▸ h.functions, h.scope⟩

/-- A parameter stays as it is, since it has its value from the start. -/
theorem Symbol.Later.eq_of_parameter {n : TypedName} {after : Symbol} (h : n.parameter.Later after) :
    after = n.parameter := by
  obtain ⟨hname, hkind, htype, hinitialized, harray, hposition⟩ := h
  obtain ⟨name, kind, type, initialized, array, position⟩ := after
  obtain rfl : name = n.name := hname
  obtain rfl : type = n.type := htype
  obtain rfl : initialized = true := hinitialized rfl
  obtain rfl : array = none := harray
  obtain rfl : position = n.position := hposition
  have hvar : SymbolKind.var.Later kind := hkind
  cases hvar
  rfl

theorem eq_of_later_parameters {ns : List TypedName}
    (h : List.Forall₂ Symbol.Later (ns.map TypedName.parameter) kept) :
    kept = ns.map TypedName.parameter := by
  rw [List.forall₂_map_left_iff] at h
  induction h with
  | nil => rfl
  | cons hlater _ ih => rw [List.map_cons, hlater.eq_of_parameter, ih]

/-- What the name stands for in a list where no other entry has it. -/
theorem lookup_of_nodup {entries : List (String × Nat)} (h : (entries.map Prod.fst).Nodup)
    {name : String} {id : Nat} (hmem : (name, id) ∈ entries) : entries.lookup name = some id := by
  obtain ⟨before, after, rfl⟩ := List.append_of_mem hmem
  refine List.lookup_eq_some_iff.2 ⟨before, after, rfl, fun entry hentry ↦ ?_⟩
  rw [List.map_append, List.map_cons, List.nodup_append] at h
  have hne := h.2.2 entry.1 (List.mem_map_of_mem hentry) name List.mem_cons_self
  simpa using hne.symm

namespace Covered

/-- No two functions have the same name. -/
theorem names_nodup (h : Covered c f t symbols) :
    ((symbols.filterMap Symbol.function?).map fun g ↦ g.1.name).Nodup := by
  obtain ⟨global, hglobal, rfl⟩ := h.surveyed.global rfl
  have hnodup := h.distinct 0 global hglobal
  rw [List.Nodup, List.pairwise_map] at hnodup
  rw [List.Nodup, List.pairwise_map, List.pairwise_filterMap]
  refine hnodup.imp fun {a b} hne g hg g' hg' ↦ ?_
  obtain ⟨_, -, rfl⟩ := Option.map_eq_some_iff.1 hg
  obtain ⟨_, -, rfl⟩ := Option.map_eq_some_iff.1 hg'
  exact hne

/-- The record of functions has them in the order of their declarations, the newest first. -/
theorem functions_eq (h : Covered c f t symbols) : t.functions =
    ((symbols.filterMap Symbol.function?).map fun g ↦ (g.1.name, g.2.scope)).reverse := by
  have hentries : symbols.filterMap Symbol.entry? =
      (symbols.filterMap Symbol.function?).map fun g ↦ (g.1.name, g.2.scope) := by
    rw [List.map_filterMap]
    refine List.filterMap_congr fun symbol _ ↦ ?_
    unfold Symbol.entry? Symbol.innerScope? Symbol.function?
    cases symbol.functionInfo? <;> rfl
  rw [h.functions, h.surveyed.functions, hentries]
  exact List.append_nil _

/-- The scopes of the functions are counted from one, in the order of their declarations. -/
theorem scopes_eq (h : Covered c f t symbols) :
    (symbols.filterMap Symbol.function?).map (fun g ↦ g.2.scope) =
      List.range' 1 (symbols.filterMap Symbol.function?).length := by
  have hscopes : (symbols.filterMap Symbol.function?).map (fun g ↦ g.2.scope) =
      symbols.filterMap Symbol.innerScope? := by
    rw [List.map_filterMap]
    refine List.filterMap_congr fun symbol _ ↦ ?_
    unfold Symbol.innerScope? Symbol.function?
    cases symbol.functionInfo? <;> rfl
  have hlength := congrArg List.length (hscopes.trans h.surveyed.scopes.range)
  rw [List.length_map, List.length_range'] at hlength
  rw [hscopes, h.surveyed.scopes.range, hlength]
  rfl

theorem records (h : Covered c f t symbols) :
    ∀ g ∈ symbols.filterMap Symbol.function?,
      SymbolTable.Records ⟨t.arena, t.functions⟩ g.1.name g.2 := by
  intro g hg
  obtain ⟨name, -, hrecorded⟩ := h.surveyed.laid.recorded g hg
  obtain ⟨label, hscope⟩ := hrecorded.scope
  obtain ⟨last, hlast, hgains⟩ := h.gains.exists_scope hscope
  obtain ⟨kept, gained, hsymbols, hkept, -⟩ := hgains.exists_append
  obtain rfl := eq_of_later_parameters hkept
  refine ⟨?_, last, hlast, hgains.follows.parent, gained, hsymbols.symm⟩
  show t.functions.lookup g.1.name = some g.2.scope
  rw [h.functions_eq]
  refine lookup_of_nodup ?_ (List.mem_reverse.2 (List.mem_map_of_mem hg))
  rw [List.map_reverse, List.nodup_reverse, List.map_map]
  exact h.names_nodup

end Covered

/-! ### Words and functions -/

/-- Of all functions, the one of the entry point has the name of the word it starts with. -/
theorem FunctionText.name_eq_iff (hw : c.Worded) {word : Nat} {symbol : Symbol} {info : FunctionInfo}
    (h : FunctionText c word symbol info) :
    symbol.name = entryPointName ↔ c.kindAt word = .mainWord := by
  obtain ⟨name, hheader, hname, -⟩ := h.header
  rw [hname]
  cases hheader with
  | function hword _ kind htoken =>
    refine ⟨fun hentry ↦ absurd hentry ?_, fun hmain ↦ absurd (hword.symm.trans hmain) (by decide)⟩
    exact htoken ▸ (hw _).2 kind
  | entryPoint hword htoken => exact ⟨fun _ ↦ hword, fun _ ↦ htoken ▸ (hw _).1 hword⟩

section Words

variable {words : List Nat} {functions : List (Symbol × FunctionInfo)}

theorem exists_word (h : List.Forall₂ (fun word g ↦ FunctionText c word g.1 g.2) words functions) :
    ∀ g ∈ functions, ∃ word ∈ words, FunctionText c word g.1 g.2 := by
  intro g hg
  obtain ⟨n, hn, rfl⟩ := List.getElem_of_mem hg
  have hlength := h.length_eq
  exact ⟨words[n], List.getElem_mem _, h.get (hlength ▸ hn) hn⟩

/-- Bodies stand in the order of the words that start their functions, one behind the other. -/
theorem bodies_increasing
    (h : List.Forall₂ (fun word g ↦ FunctionText c word g.1 g.2) words functions)
    (hwords : words.Pairwise (· < ·)) (hstarts : ∀ word ∈ words, c.startsFunction word) :
    functions.Pairwise fun g g' ↦ g.2.body.stop < g'.2.body.start := by
  induction h with
  | nil => exact .nil
  | @cons word g words functions htext hrest ih =>
    obtain ⟨hfirst, hwords⟩ := List.pairwise_cons.1 hwords
    refine .cons (fun g' hg' ↦ ?_)
      (ih hwords fun word hword ↦ hstarts word (List.mem_cons_of_mem _ hword))
    obtain ⟨word', hword', htext'⟩ := exists_word hrest g' hg'
    obtain ⟨name, hheader, -⟩ := htext'.header
    have hlt := hfirst word' hword'
    have hstart := hheader.lt_start
    have houtside := htext.wordless.outside (hstarts word' (List.mem_cons_of_mem _ hword'))
    omega

/-- Exactly one word is the one of the entry point. -/
theorem existsUnique_mainWord (hw : c.Worded)
    (h : List.Forall₂ (fun word g ↦ FunctionText c word g.1 g.2) c.functionWords functions)
    (hnodup : (functions.map fun g ↦ g.1.name).Nodup)
    (hentry : ∃ g ∈ functions, g.1.name = entryPointName) : ∃! i, c.kindAt i = .mainWord := by
  have hlength := h.length_eq
  -- a word of the entry point has a place in the row, and so has the function it starts
  have hplace : ∀ i, c.kindAt i = .mainWord → ∃ (n : Nat) (hn : n < functions.length),
      c.functionWords.get ⟨n, hlength ▸ hn⟩ = i ∧ functions[n].1.name = entryPointName := by
    intro i hi
    have hstarts : c.startsFunction i := by simp [Context.startsFunction, hi]
    obtain ⟨n, hn, rfl⟩ := List.getElem_of_mem (Context.mem_functionWords.2 hstarts)
    have htext := h.get hn (hlength ▸ hn)
    exact ⟨n, hlength ▸ hn, rfl, (htext.name_eq_iff hw).2 hi⟩
  obtain ⟨g, hg, hname⟩ := hentry
  obtain ⟨word, -, htext⟩ := exists_word h g hg
  refine ⟨word, (htext.name_eq_iff hw).1 hname, fun i hi ↦ ?_⟩
  obtain ⟨n, hn, rfl, hname⟩ := hplace i hi
  obtain ⟨n', hn', rfl, hname'⟩ := hplace word ((htext.name_eq_iff hw).1 ‹_›)
  have hsame : (functions.map fun g ↦ g.1.name).get ⟨n, by simpa using hn⟩ =
      (functions.map fun g ↦ g.1.name).get ⟨n', by simpa using hn'⟩ := by
    simp only [List.get_eq_getElem, List.getElem_map, hname, hname']
  obtain rfl : n = n' := congrArg Fin.val (hnodup.get_inj_iff.1 hsame)
  rfl

end Words

end

/-- In a scan, the input ends with the last token. -/
theorem size_le_of_eof (limits : Limits) (wordLimit : Nat) (source : String) {i : Nat}
    (h : (Context.top limits (scan wordLimit source).tokens).kindAt i = .eof) :
    (Context.top limits (scan wordLimit source).tokens).tokens.size ≤ i + 1 := by
  set tokens := (scan wordLimit source).tokens with htokens
  have hsize : (Context.top limits tokens).tokens.size = tokens.length := List.size_toArray
  by_contra hlt
  have hi : i < tokens.dropLast.length := by
    rw [List.length_dropLast]
    omega
  have hkind : (Context.top limits tokens).kindAt i = tokens.dropLast[i].kind := by
    have hthere : (Context.top limits tokens).tokens[i]? = some tokens.dropLast[i] := by
      show tokens.toArray[i]? = _
      rw [List.getElem?_toArray, List.getElem_dropLast]
      exact List.getElem?_eq_getElem _
    rw [Context.kindAt, hthere]
    rfl
  exact kind_ne_eof_of_mem_scan (List.getElem_mem hi) (hkind.symm.trans h)

/-- The check of an accepted program succeeds. -/
theorem runFrom_of_accepted {limits : Limits} {tokens : List Token}
    (haccepted : (analyze limits tokens).accepted) :
    ∃ t, program.runFrom (.top limits tokens) .initial = (.ok (), t) := by
  unfold Analysis.accepted analyze at haccepted
  cases hrun : program.runFrom (.top limits tokens) .initial with
  | mk result t =>
    rw [hrun] at haccepted
    cases result with
    | ok _ => exact ⟨t, rfl⟩
    | error e => cases haccepted

/-- The two walks cover the program.

The functions of an accepted program correspond, one to one and in textual order, to the words of the
text that start a function or the entry point: the header behind the word declares the function, and
its body stands between a brace and the one that closes it.  There is one entry point.  The scopes of
the functions are counted from one; each is inside the global one, starts with the parameters of the
function and is the one recorded under its name.  Bodies do not overlap, stand in textual order and
have no such word inside.  Inside functions the run of the check visits exactly the tokens of the
bodies, from the first up to the closing brace, each once and in order. -/
theorem functions_cover_program (limits : Limits) (wordLimit : Nat) (source : String)
    (haccepted : (analyze limits (scan wordLimit source).tokens).accepted) :
    let c := Context.top limits (scan wordLimit source).tokens
    let table := (analyze limits (scan wordLimit source).tokens).symbols
    let functions := table.globalFunctions
    List.Forall₂ (fun word g ↦ FunctionText c word g.1 g.2) c.functionWords functions ∧
      (∃! i, c.kindAt i = .mainWord) ∧
      functions.map (fun g ↦ g.2.scope) = List.range' 1 functions.length ∧
      (∀ g ∈ functions, table.Records g.1.name g.2) ∧
      table.functions = (functions.map fun g ↦ (g.1.name, g.2.scope)).reverse ∧
      functions.Pairwise (fun g g' ↦ g.2.body.stop < g'.2.body.start) ∧
      (∀ word, c.startsFunction word → ∀ g ∈ functions, word ∉ g.2.body.tokens) ∧
      program.visits c .initial =
        functions.flatMap fun g ↦ g.2.body.tokens.map (g.1.name, ·) := by
  intro c table functions
  have hw : c.Worded := worded_scan limits wordLimit source
  obtain ⟨t, hrun⟩ : ∃ t, program.runFrom c .initial = (.ok (), t) := runFrom_of_accepted haccepted
  have htable : table = ⟨t.arena, t.functions⟩ := by
    show (analyze limits (scan wordLimit source).tokens).symbols = _
    unfold analyze
    rw [hrun]
  obtain ⟨f, hwalks⟩ := twoWalks_of_run hrun
  obtain ⟨symbols, h⟩ := hwalks.covered (closed_scan limits wordLimit source) hw rfl
  -- what the headers alone say of the functions is the same in the table as it was when recorded
  set recorded := symbols.filterMap Symbol.function? with hrecorded
  have hsame : functions.map headerOf = recorded.map headerOf := by
    show table.globalFunctions.map headerOf = _
    rw [htable]
    exact h.globalFunctions
  have hmap {β : Type} (φ : String × Position × FunctionInfo → β) :
      functions.map (fun g ↦ φ (headerOf g)) = recorded.map fun g ↦ φ (headerOf g) := by
    have hboth := congrArg (List.map φ) hsame
    rwa [List.map_map, List.map_map] at hboth
  have hnames : functions.map (fun g ↦ g.1.name) = recorded.map fun g ↦ g.1.name := hmap (·.1)
  have hentries : functions.map (fun g ↦ (g.1.name, g.2.scope)) =
      recorded.map fun g ↦ (g.1.name, g.2.scope) := hmap fun k ↦ (k.1, k.2.2.scope)
  have hscopes : functions.map (fun g ↦ g.2.scope) = recorded.map fun g ↦ g.2.scope :=
    hmap (·.2.2.scope)
  have hplaces : functions.map (fun g ↦ g.2.body.tokens.map (g.1.name, ·)) =
      recorded.map fun g ↦ g.2.body.tokens.map (g.1.name, ·) :=
    hmap fun k ↦ k.2.2.body.tokens.map (k.1, ·)
  have hlength : functions.length = recorded.length := by
    simpa only [List.length_map] using congrArg List.length hsame
  have hfunctions : table.functions = (functions.map fun g ↦ (g.1.name, g.2.scope)).reverse := by
    rw [hentries, htable]
    exact h.functions_eq
  have hnodup : (functions.map fun g ↦ g.1.name).Nodup := hnames ▸ h.names_nodup
  have htexts : List.Forall₂ (fun word g ↦ FunctionText c word g.1 g.2) c.functionWords functions := by
    have htexts := h.walk.functionWords (fun _ ↦ size_le_of_eof limits wordLimit source)
    rw [Context.functionWordsFrom_zero] at htexts
    have hheaders : List.Forall₂ (fun word k ↦ ∀ g, headerOf g = k → FunctionText c word g.1 g.2)
        c.functionWords (functions.map headerOf) := by
      rw [hsame, List.forall₂_map_right_iff]
      exact List.Forall₂.imp (fun _ g htext other hheader ↦
        FunctionText.of_headerOf (f := g) (g := other) htext hheader) htexts
    exact List.Forall₂.imp (fun _ g htext ↦ htext g rfl) (List.forall₂_map_right_iff.1 hheaders)
  have hstarts : ∀ word ∈ c.functionWords, c.startsFunction word :=
    fun word ↦ Context.mem_functionWords.1
  refine ⟨htexts, existsUnique_mainWord hw htexts hnodup ?_, ?_, fun g hg ↦ ?_, hfunctions,
    bodies_increasing htexts (List.pairwise_lt_range.filter _) hstarts, fun word hword g hg hinside ↦ ?_,
    ?_⟩
  · obtain ⟨id, hid⟩ := Option.isSome_iff_exists.1 hwalks.entryPoint
    obtain ⟨before, after, hentry, -⟩ := List.lookup_eq_some_iff.1 hid
    have hmem : (entryPointName, id) ∈ functions.map fun g ↦ (g.1.name, g.2.scope) := by
      have hmem : (entryPointName, id) ∈ table.functions := by
        rw [htable]
        show _ ∈ t.functions
        rw [h.functions, hentry]
        exact List.mem_append_right _ List.mem_cons_self
      exact List.mem_reverse.1 (hfunctions ▸ hmem)
    obtain ⟨g, hg, hentry⟩ := List.mem_map.1 hmem
    exact ⟨g, hg, congrArg Prod.fst hentry⟩
  · rw [hscopes, hlength]
    exact h.scopes_eq
  · obtain ⟨g', hg', hheader⟩ := List.mem_map.1 (hsame ▸ List.mem_map_of_mem hg)
    rw [htable]
    exact (h.records g' hg').of_headerOf hheader
  · obtain ⟨word', -, htext⟩ := exists_word htexts g hg
    obtain ⟨name, hheader, -⟩ := htext.header
    have hstart := hheader.lt_start
    have houtside := htext.wordless.outside hword
    have hinside := List.mem_range'_1.1 hinside
    have hle := htext.balanced.le
    omega
  · show (places (program.momentsFrom c .initial)).destutter (· ≠ ·) = _
    rw [h.walk.destutter, List.flatMap_def, List.flatMap_def, hplaces]

/-- A program with a function, a struct and a block in front of its entry point. -/
def coveredProgram : String :=
  "fnctn nt g(nt a) \x7b f (a > 0) \x7b a = 0; \x7d rtrn a; \x7d strct p \x7b nt x; \x7d; " ++
    "mn() \x7b nt b = g(1); end; \x7d"

/-- The functions of a program are the two that its words start, and its run visits their bodies. -/
theorem functions_cover_program_coveredProgram :
    let tokens := (scan 64 coveredProgram).tokens
    let c := Context.top .default tokens
    let functions := (analyze .default tokens).symbols.globalFunctions
    (analyze .default tokens).accepted ∧ c.functionWords.length = 2 ∧ functions.length = 2 ∧
      (∃! i, c.kindAt i = .mainWord) ∧
      program.visits c .initial = functions.flatMap fun g ↦ g.2.body.tokens.map (g.1.name, ·) := by
  intro tokens c functions
  obtain ⟨haccepted, hwords⟩ : (analyze .default tokens).accepted = true ∧ c.functionWords.length = 2 := by
    decide +kernel
  obtain ⟨htexts, hentry, -, -, -, -, -, hvisits⟩ :=
    functions_cover_program .default 64 coveredProgram haccepted
  exact ⟨haccepted, hwords, htexts.length_eq ▸ hwords, hentry, hvisits⟩

end FrontEnd
