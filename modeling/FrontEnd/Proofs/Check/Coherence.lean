import FrontEnd.Proofs.Check.SymbolLife

/-!
# Symbol tables are well formed at every moment

A check starts with a table that has nothing in it, and whatever it does next keeps the table coherent
(`SymbolTable.Coherent`): each step of a walk over statements (`Step.coherent`), what the headers
declare and record, the opening and the release of a scope.  So every state a run goes through has a
well-formed table, whether the run comes to an end or stops at a violation.
-/

namespace FrontEnd

open Check

/-- The symbol table of a state. -/
def State.table (s : State) : SymbolTable :=
  ⟨s.arena, s.functions⟩

/-- The rules of a walk that keeps the symbol table coherent. -/
def Rules.coherent : Rules :=
  .keeping fun s ↦ 0 < s.arena.size ∧ s.table.Coherent

section

variable {c : Context} {s t : State} {past : List Moment}

/-! ### Changes -/

theorem Step.coherent (h : Step c s t) (hs : s.table.Coherent) : t.table.Coherent := by
  cases h with
  | passed | warned | refused | returned => exact hs
  | marked name part hpart => exact hs.mark hpart
  | declared hvalue hformed hinsert => exact hs.insert_of_isValue hinsert hvalue hformed

instance : Rules.coherent.Stepping where
  step h hs := ⟨h.change.size_eq ▸ hs.1, h.coherent hs.2⟩
  within _ _ := trivial

instance : Rules.coherent.Moving :=
  ⟨fun _ hs ↦ hs⟩

instance : Rules.coherent.Surveying where
  declared hentry h hs := by
    refine ⟨(Arena.size_insert h).symm ▸ hs.1, ?_⟩
    cases hentry with
    | parameter scope p htype =>
      exact hs.2.insert_of_isValue h rfl (Symbol.wellFormed_of_isPrimitive (.inl rfl) htype nofun)
    | struct name members place =>
      exact hs.2.insert_of_innerScope? h (Symbol.wellFormed_ofStruct name members place)
        (fun _ ↦ rfl) rfl
  opened label hs := ⟨by simp [Arena.push, Arena.size], hs.2.push 0 label⟩
  recorded _ h hs := ⟨(Arena.size_insert h).symm ▸ hs.1, hs.2.record h⟩

instance : Rules.coherent.Entering :=
  ⟨fun _ hs ↦ hs, fun _ _ _ ↦ trivial⟩

/-- The table stays coherent where it is recorded whether a body returns. -/
theorem Rules.coherent_recordReturn (c : Context) (s : State) (name : String) (sawReturn : Bool) :
    Rules.coherent.change c s
      { s with arena := s.arena.modify 0 name (Symbol.withReturn sawReturn) } :=
  fun hs ↦ ⟨(Arena.size_modify _).symm ▸ hs.1, hs.2.recordReturn name sawReturn⟩

/-! ### Runs -/

/-- The table is coherent in all states of a trace. -/
theorem Trace.coherent (h : Trace .coherent c s past t) (hs : 0 < s.arena.size ∧ s.table.Coherent) :
    t.table.Coherent ∧ ∀ u ∈ s.through past, u.table.Coherent := by
  obtain ⟨hlast, hpast⟩ := h.keeps_all (fun _ c label _ hs ↦ hs.push c.scope label)
    (fun _ _ hscope hs ↦ hs.release hscope) hs
  refine ⟨hlast.2, fun u hu ↦ ?_⟩
  obtain rfl | hu := List.mem_cons.1 hu
  · exact hs.2
  · obtain ⟨m, hm, rfl⟩ := List.mem_map.1 hu
    exact (hpast m (List.mem_reverse.1 hm)).2

/-- The run of a program leaves a trace under any rules that admit both of its walks. -/
theorem TracedFrom.program {R : Rules} [R.Stepping] [R.Moving] [R.Surveying] [R.Entering]
    (hrecord : ∀ (c : Context) (s : State) (name : String) (sawReturn : Bool),
      R.change c s { s with arena := s.arena.modify 0 name (Symbol.withReturn sawReturn) })
    (hc : c.Closed) (hw : c.Worded) (hs : Orderly s) : TracedFrom R program c s := by
  refine .bind (Traced.read c s) fun _ _ hread ↦ ?_
  cases hread
  refine .ite (fun _ ↦ .bind (Traced.violate _ c s) fun _ _ hrun ↦ by cases hrun) fun _ ↦ ?_
  refine .bind (.headers hc hw hs) fun _ f _ ↦ ?_
  exact ((Traced.moveTo 0).bind fun _ ↦ .roundsWhile (Traced.atEnd.bind fun _ ↦ .pure _)
    fun _ ↦ (Traced.programRound hrecord).bind fun _ ↦ .pure _) c f

end

/-- Symbol tables are well formed.

In the check of a scanned text, every state that is gone through has a well-formed symbol table,
whatever stops the check, and so has the table it returns, which is that of the last state. -/
theorem symbol_tables_are_well_formed (limits : Limits) (wordLimit : Nat) (source : String) :
    let tokens := (scan wordLimit source).tokens
    let states := program.states (.top limits tokens) .initial
    (∀ s ∈ states, s.table.WellFormed) ∧
      states.getLast?.map State.table = some (analyze limits tokens).symbols ∧
      (analyze limits tokens).symbols.WellFormed := by
  intro tokens states
  have htrace : TracedFrom .coherent program (.top limits tokens) .initial :=
    .program Rules.coherent_recordReturn (closed_scan limits wordLimit source)
      (worded_scan limits wordLimit source) orderly_initial
  obtain ⟨hlast, hall⟩ := htrace.coherent ⟨orderly_initial.size_pos, .initial⟩
  refine ⟨fun s hs ↦ (hall s hs).wellFormed, ?_, hlast.wellFormed⟩
  obtain ⟨before, hbefore⟩ := ((trace_program (closed_scan limits wordLimit source)
    (worded_scan limits wordLimit source) orderly_initial .initial rfl).linked Symbol.Later.refl).last
  have hstates : states = before ++ [program.leaves (.top limits tokens) .initial] := hbefore
  rw [hstates, List.getLast?_append, List.getLast?_singleton]
  rfl

/-- A program with a struct and a function that gives a member of an instance a value. -/
def structProgram : String :=
  "strct P \x7b nt x; \x7d; dfstrct P p; fnctn vd set() \x7b p.x = 1; \x7d mn() \x7b end; \x7d"

/-- The instance of that program is well formed when its member has been given a value, and so is the
table of the program, in which the function is on record with its scope. -/
theorem symbol_tables_are_well_formed_structProgram :
    let tokens := (scan 64 structProgram).tokens
    let states := program.states (.top .default tokens) .initial
    (∃ s ∈ states, ∃ symbol, s.arena.lookup 0 "p" = some symbol ∧
      symbol.kind = .structInstance "P" ["x"] ∧ symbol.WellFormed s.table.HasStruct) ∧
      (analyze .default tokens).accepted ∧ (analyze .default tokens).symbols.WellFormed ∧
      (analyze .default tokens).symbols.functions.lookup "set" = some 1 := by
  intro tokens states
  obtain ⟨hstates, -, hlast⟩ := symbol_tables_are_well_formed .default 64 structProgram
  have hruns : (∃ s ∈ states, (s.arena.lookup 0 "p").map Symbol.kind =
      some (.structInstance "P" ["x"])) ∧ (analyze .default tokens).accepted ∧
        (analyze .default tokens).symbols.functions.lookup "set" = some 1 := by decide +kernel
  obtain ⟨⟨s, hs, hmarked⟩, haccepted, hrecord⟩ := hruns
  obtain ⟨symbol, hlookup, hkind⟩ := Option.map_eq_some_iff.1 hmarked
  obtain ⟨owner, hholds, -⟩ := Arena.holds_of_lookup hlookup
  exact ⟨⟨s, hs, symbol, hlookup, hkind, (hstates s hs).symbols owner symbol hholds⟩,
    haccepted, hlast, hrecord⟩

end FrontEnd
