import FrontEnd.Proofs.Check.Headers
import FrontEnd.Proofs.Check.Traced

/-!
# The walk over the headers leaves a trace

A function is recorded and declared at one go, since its name is free then: this was checked before
its scope was opened, and what is read in between is declared in that scope.  For the entry point it
follows from what is on record so far (`Orderly`), for no other name is spelled like its word.
-/

namespace FrontEnd

open Check

section

variable {R : Rules} [R.Reading] [R.Moving] [R.Surveying] {c : Context} {s t : State}

namespace TracedFrom

omit [R.Reading] [R.Moving] in
/-- A function whose name is free is declared where it is recorded. -/
theorem recordFunction (keyword : Nat) {name : Token} (info : FunctionInfo) (hs : 0 < s.arena.size)
    (hfree : FreeGlobally s name.lexeme) :
    TracedFrom R (Check.recordFunction keyword name info) c s := by
  obtain ⟨scope, hscope⟩ := Option.isSome_iff_exists.1 (Arena.scope?_isSome_iff.2 hs)
  have hcontains : scope.contains name.lexeme = false := by
    simpa [FreeGlobally, Arena.declaredHere, hscope] using hfree
  have hsome : s.arena.insert 0 (.ofFunction name.lexeme info name.position) ≠ none :=
    Arena.insert_isSome hscope hcontains
  obtain ⟨arena, hinsert⟩ := Option.ne_none_iff_exists'.1 hsome
  have hrecord : TracedFrom R (modifyGet (recording keyword name info) : Check Bool) c s := by
    refine (Trace.nil c s).change ?_
    show R.change c s (recording keyword name info s).2
    unfold recording
    dsimp only
    rw [hinsert]
    exact Rules.Surveying.recorded keyword hinsert
  exact TracedFrom.bind hrecord fun _ after _ ↦ Traced.ite (.pure _) (.violateAt _ _) c after

/-- What is declared in the scope of a function leaves the names that are free globally. -/
theorem functionRest (hs : 0 < s.arena.size) {name : Token} (hfree : FreeGlobally s name.lexeme)
    (label : String) {parameters : Nat → Check (List TypedName)}
    (htraced : ∀ scope, Traced R (parameters scope))
    (houtside : ∀ scope t, Ensures (parameters scope) c t Unlost fun _ after ↦
      SameOutside scope t after) (keyword : Nat)
    (info : Nat → List TypedName → BodyRange → FunctionInfo) :
    TracedFrom R (do
      let scope ← openFunctionScope label
      discard <| expectMark .leftParen
      let parameters ← parameters scope
      discard <| expectMark .rightParen
      let body ← bodyRange
      Check.recordFunction keyword name (info scope parameters body)) c s := by
  have hmark {k : Kind} {t : State} (ht : SameGlobal s t) : Ensures (discard (expectMark k)) c t
      (fun _ ↦ True) fun _ after ↦ SameGlobal s after := by
    rw [ensures_discard, ensures_expectMark]
    exact ⟨fun _ ↦ ht.movedTo _, fun _ ↦ trivial⟩
  have hopened : SameGlobal s { s with arena := s.arena.push 0 label } :=
    (SameOutside.push s label).sameGlobal (Nat.ne_of_gt hs)
  refine .next (Traced.openFunctionScope label c s) (E := fun _ ↦ True)
    (Q := fun scope after ↦ scope = s.arena.size ∧ SameGlobal s after)
    (ensures_openFunctionScope.2 ⟨rfl, hopened⟩) ?_
  rintro _ t ⟨rfl, ht⟩
  refine .next ((Traced.expectMark .leftParen).discard c t) (hmark ht) fun _ t ht ↦ ?_
  refine .next (htraced _ c t) (houtside _ t) fun ns u hu ↦ ?_
  have hu : SameGlobal s u := ht.trans (hu.sameGlobal (Nat.ne_of_gt hs))
  refine .next ((Traced.expectMark .rightParen).discard c u) (hmark hu) fun _ u hu ↦ ?_
  refine .next (Traced.bodyRange c u) (Q := fun _ after ↦ SameGlobal s after)
    (ensures_bodyRange.mono fun _ _ hbody ↦ hbody.2.2.2 ▸ hu.movedTo _) fun body v hv ↦ ?_
  have hsize : 0 < v.arena.size := by
    obtain ⟨global, hglobal⟩ := Option.isSome_iff_exists.1 (Arena.scope?_isSome_iff.2 hs)
    exact (Array.getElem?_eq_some_iff.1 (hv.global.trans hglobal)).1
  exact recordFunction keyword _ hsize (hv.freeGlobally_iff.2 hfree)

theorem functionHeader (hc : c.Closed) (hs : 0 < s.arena.size) :
    TracedFrom R Check.functionHeader c s := by
  refine TracedFrom.bind (Traced.here c s) fun keyword t hhere ↦ ?_
  cases hhere
  refine .next (Traced.advance.discard c s) (E := fun _ ↦ True)
    (Q := fun _ after ↦ 0 < after.arena.size) (ensures_discard.2 (ensures_advance.2 hs)) fun _ t ht ↦ ?_
  refine .next (Traced.advance c t) (E := fun _ ↦ True) (Q := fun _ after ↦ 0 < after.arena.size)
    (ensures_advance.2 ht) fun typeToken t ht ↦ ?_
  split
  · exact Traced.violateAt _ _ c t
  · refine .next (Traced.expect .identifier .functionName c t) (E := fun _ ↦ True)
      (Q := fun _ after ↦ 0 < after.arena.size) (ensures_expect.2 ⟨fun _ ↦ ht, fun _ ↦ trivial⟩)
      fun name t ht ↦ ?_
    refine .next (Traced.requireFree .function name c t) (ensures_requireFree _ _) ?_
    rintro _ _ ⟨rfl, hfree⟩
    exact functionRest ht hfree _ Traced.parameters
      (fun scope t ↦ (ensures_parameters hc scope).mono fun _ _ h ↦ h.outside) _ _

theorem entryPointHeader (hw : c.Worded) (hs : Orderly s) (hword : c.kindAt s.position = .mainWord) :
    TracedFrom R Check.entryPointHeader c s := by
  refine TracedFrom.bind (Traced.here c s) fun keyword t hhere ↦ ?_
  cases hhere
  refine .next (Traced.advance c s) (E := fun _ ↦ True)
    (Q := fun name after ↦ name = c.tokenAt s.position ∧ after = s.movedTo (c.after s.position))
    (ensures_advance.2 ⟨rfl, rfl⟩) ?_
  rintro _ _ ⟨rfl, rfl⟩
  refine .next (Traced.isRecorded _ c _) (E := fun _ ↦ True)
    (Q := fun found after ↦ found = (s.functions.lookup entryPointName).isSome ∧
      after = s.movedTo (c.after s.position)) (ensures_isRecorded.2 ⟨rfl, rfl⟩) ?_
  rintro _ _ ⟨rfl, rfl⟩
  refine .ite (fun _ ↦ TracedFrom.bind (Traced.violateAt _ _ c _) fun _ _ hrun ↦ by cases hrun)
    fun hentry ↦ ?_
  have hfree : FreeGlobally (s.movedTo (c.after s.position)) (c.tokenAt s.position).lexeme := by
    rw [(hw _).1 hword]
    exact hs.free (Bool.eq_false_iff.2 hentry)
  have hpure (scope : Nat) : Traced R (pure [] : Check (List TypedName)) := .pure []
  have hrest := functionRest (c := c) (s := s.movedTo (c.after s.position)) hs.size_pos hfree
    "entry point mn" hpure (fun scope t ↦ (ensures_pure _).2 (.refl scope t)) s.position
    fun scope ns body ↦ ⟨.void, ns, scope, body, false, true⟩
  simpa only [pure_bind] using hrest

theorem headerRound (hc : c.Closed) (hw : c.Worded) (hs : Orderly s) :
    TracedFrom R Check.headerRound c s := by
  refine TracedFrom.bind (Traced.peekKind c s) fun k after hrun ↦ ?_
  cases hrun
  split
  next => exact functionHeader hc hs.size_pos
  next hword => exact entryPointHeader hw hs hword
  · exact Traced.structHeader c s
  · exact (Traced.here.bind fun _ ↦ (Traced.matchingClose _).bind fun _ ↦ Traced.moveTo _) c s
  · exact (Traced.here.bind fun _ ↦ Traced.moveTo _) c s

theorem headers (hc : c.Closed) (hw : c.Worded) (hs : Orderly s) :
    TracedFrom R Check.headers c s := by
  refine TracedFrom.bind (TracedFrom.roundsWhile (I := fun _ u ↦ Orderly u) hs
    (Traced.atEnd.bind fun _ ↦ .pure _) fun _ u hu ↦ ?_) fun _ after _ ↦
    ((Traced.isRecorded _).bind fun _ ↦ .ite (.pure _) (.violate _)) c after
  simp only [ensures_bind, ensures_atEnd, ensures_pure]
  intro hmore
  refine ⟨TracedFrom.bind (headerRound hc hw hu) fun _ after _ ↦ Traced.pure _ c after, ?_⟩
  refine (ensures_headerRound hc hw hu (by simpa using hmore)).imp (fun _ _ ↦ trivial) ?_
  rintro _ later ⟨new, hround⟩ _ -
  exact hround.orderly

end TracedFrom

end

end FrontEnd
