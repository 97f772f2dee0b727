import FrontEnd.Proofs.Check.Visits

/-!
# The walk over a body

The check of a body that succeeds runs from the start of the body up to the brace it was recorded with
(`runFrom_bodyStatements`).  On its way it visits every token of the body, once and in order, and the
scopes gain only what holds values; what it records behind the body is whether the function returns
(`Unchecked.bodyWalked`).
-/

namespace FrontEnd

open Check

/-! ### Runs of a body -/

section

variable {α : Type} {c : Context} {f s t : State} {name : String} {info : FunctionInfo}

theorem Check.runFrom_discard (x : Check α) (c : Context) (s : State) :
    (discard x).runFrom c s = match x.runFrom c s with
      | (.ok _, after) => (.ok (), after)
      | (.error e, after) => (.error e, after) := by
  rw [discard, LawfulFunctor.map_const, Function.comp_apply, map_eq_pure_bind, Check.runFrom_bind]
  obtain ⟨_ | _, _⟩ := x.runFrom c s <;> rfl

theorem Check.momentsFrom_discard (x : Check α) (c : Context) (s : State) :
    (discard x).momentsFrom c s = x.momentsFrom c s := by
  rw [discard, LawfulFunctor.map_const, Function.comp_apply, map_eq_pure_bind,
    Check.momentsFrom_bind]
  obtain ⟨_ | _, _⟩ := x.runFrom c s <;> rfl

theorem Check.run_read_bind (x : Context → Check α) (c : Context) (s : State) (past : List Moment) :
    (read >>= x).run c s past = (x c).run c s past :=
  rfl

theorem Check.run_withReader (f : Context → Context) (x : Check α) (c : Context) (s : State)
    (past : List Moment) : (withReader f x).run c s past = x.run (f c) s past :=
  rfl

/-- The statements of a body. -/
abbrev statementsOf (c : Context) : Check (Option Ending) :=
  statementsUntil (statement c.limits.nesting) [.rightBrace]

/-- A body that is checked successfully is checked from its start up to its closing brace. -/
theorem runFrom_bodyStatements (hrun : (bodyStatements name info).runFrom c s = (.ok (), t)) :
    let d := inFunction name info c
    let started : State := { s with position := info.body.start, sawReturn := false }
    (∃ last, (statementsOf c).runFrom d started = (.ok last, t)) ∧ t.position = info.body.stop ∧
      (bodyStatements name info).momentsFrom c s =
        (statementsOf c).momentsFrom d started ++ [⟨d, started, none⟩] := by
  intro d started
  -- A body is a start, its statements and an end; only the middle part looks at the text.
  let ending : Unit → Check Unit := fun _ ↦ do
    if (← here) ≠ info.body.stop then violate (.lost (.bodyEndedEarly name))
  let rest : Unit → Check Unit := fun _ ↦ discard (statementsOf c) >>= ending
  let start : Check Unit :=
    modify fun s : State ↦ { s with position := info.body.start, sawReturn := false }
  have hmodify : start.runFrom d s = (.ok (), started) := rfl
  have hwhole : (bodyStatements name info).run c s [] = (start >>= rest).run d s [] := by
    unfold bodyStatements
    rw [Check.run_read_bind, Check.run_withReader]
  have hstart : (rest ()).runFrom d started = (.ok (), t) := by
    have hbody : (start >>= rest).runFrom d s = (.ok (), t) :=
      (congrArg Prod.fst hwhole).symm.trans hrun
    rwa [Check.runFrom_bind, hmodify] at hbody
  have hmoments : (bodyStatements name info).momentsFrom c s =
      (rest ()).momentsFrom d started ++ [⟨d, started, none⟩] := by
    have hbody : (bodyStatements name info).momentsFrom c s = (start >>= rest).momentsFrom d s :=
      congrArg Prod.snd hwhole
    rw [hbody, Check.momentsFrom_bind, hmodify]
    rfl
  rw [hmoments]
  simp only [rest] at hstart ⊢
  rw [Check.momentsFrom_bind, Check.momentsFrom_discard]
  rw [Check.runFrom_bind] at hstart
  rw [Check.runFrom_discard] at hstart ⊢
  cases hstatements : (statementsOf c).runFrom d started with
  | mk result after =>
    rw [hstatements] at hstart
    cases result with
    | error e => cases hstart
    | ok last =>
      have hending : Ensures (ending ()) d after (fun _ ↦ True) fun _ later ↦
          later = after ∧ after.position = info.body.stop := by
        simp only [ending, ensures_bind, ensures_here, ensures_ite, ensures_violate, ensures_pure]
        exact ⟨fun _ ↦ trivial, fun hstop ↦ ⟨trivial, Decidable.not_not.1 hstop⟩⟩
      obtain ⟨rfl, hstop⟩ := hending.of_run hstart
      have hnone : (ending ()).momentsFrom d t = [] := by
        have hhere : (ending ()).momentsFrom d t =
            (if t.position ≠ info.body.stop then violate (.lost (.bodyEndedEarly name))
              else pure () : Check Unit).momentsFrom d t := rfl
        rw [hhere, if_neg (by simpa using hstop)]
        rfl
      refine ⟨⟨last, rfl⟩, hstop, ?_⟩
      show (ending ()).momentsFrom d t ++ _ ++ _ = _
      rw [hnone, List.nil_append]

/-- What the successful check of a body leaves and visits. -/
structure BodyWalked (c : Context) (name : String) (info : FunctionInfo) (s t : State)
    (visited : List (String × Nat)) : Prop where
  position : t.position = info.body.stop + 1
  gains : s.arena.Gains t.arena
  balanced : Balanced c.kindAt info.body.start info.body.stop
  closes : c.kindAt info.body.stop = .rightBrace
  passes : ∃ past, Passes name info.body.start past info.body.stop ∧
    visited = (name, info.body.start) :: places past

theorem Unchecked.bodyWalked (hc : c.Closed) (hfunction : c.function = none) (h : Unchecked c f s)
    {token : Token} (hrecorded : Recorded f token info) (hstop : s.position ≤ info.body.stop)
    (hrun : (functionBody token.lexeme).runFrom c s = (.ok (), t)) :
    BodyWalked c token.lexeme info s t (places ((functionBody token.lexeme).momentsFrom c s)) := by
  obtain ⟨p, hsignature⟩ := h.runFrom_signature hrecorded hstop
  obtain ⟨hkept, hdistinct⟩ := h.info?_bodyStatements hrecorded hstop
  let rest : Unit → Check Unit := fun _ ↦ do
    moveTo (info.body.stop + 1)
    let sawReturn := (← get).sawReturn
    recordReturn token.lexeme sawReturn
    if !info.isEntryPoint && info.returns ≠ .void && !sawReturn then
      refuse ⟨.missingReturn token.lexeme info.returns, p⟩
  have hbody : (bodyStatements token.lexeme info >>= rest).runFrom c s = (.ok (), t) := by
    rw [functionBody, Check.runFrom_bind, hsignature] at hrun
    exact hrun
  have hmoments : (functionBody token.lexeme).momentsFrom c s =
      (bodyStatements token.lexeme info >>= rest).momentsFrom c s ++
        (signature token.lexeme).momentsFrom c s := by
    rw [functionBody, Check.momentsFrom_bind, hsignature]
  have hbefore : places ((signature token.lexeme).momentsFrom c s) = [] :=
    (Traced.signature (R := .staying) _ c s).places_eq_nil hfunction
  rw [hmoments, places_append, hbefore, List.nil_append, Check.momentsFrom_bind]
  rw [Check.runFrom_bind] at hbody
  cases hinside : (bodyStatements token.lexeme info).runFrom c s with
  | mk result u =>
    rw [hinside] at hbody
    cases result with
    | error e => cases hbody
    | ok _ =>
      have hleaves : (bodyStatements token.lexeme info).leaves c s = u := congrArg Prod.snd hinside
      rw [hleaves] at hkept hdistinct
      -- What follows the statements visits no place and changes no more than the mark of the function.
      have hafter : places ((rest ()).momentsFrom c u) = [] := by
        refine Trace.places_eq_nil (s := u) (t := (rest ()).leaves c u) ?_ hfunction
        exact ((Traced.moveTo _).bind fun _ ↦ Traced.get.bind fun s ↦
          .bind (.modify fun _ _ ↦ trivial) fun _ ↦ .ite (.refuse _) (.pure _)) c u
      have hlast : Ensures (rest ()) c u (fun _ ↦ True) fun _ after ↦
          after.position = info.body.stop + 1 ∧
            after.arena = u.arena.modify 0 token.lexeme (Symbol.withReturn u.sawReturn) := by
        simp only [rest, ensures_bind, ensures_moveTo, ensures_get, recordReturn, ensures_modify,
          ensures_ite, ensures_refuse, ensures_pure]
        exact ⟨fun _ ↦ trivial, fun _ ↦ ⟨rfl, rfl⟩⟩
      obtain ⟨hposition, harena⟩ := hlast.of_run hbody
      obtain ⟨⟨last, hstatements⟩, hend, hpast⟩ := runFrom_bodyStatements hinside
      have hu : (statementsOf c).leaves (inFunction token.lexeme info c)
          { s with position := info.body.start, sawReturn := false } = u :=
        congrArg Prod.snd hstatements
      -- One trace of the statements gives both the places they pass and what they declare.
      have hstatement (R : Rules) [R.Stepping] := Traced.statementsUntil
        (Traced.statement (R := R) c.limits.nesting) [.rightBrace] (inFunction token.lexeme info c)
          { s with position := info.body.start, sawReturn := false }
      have hpasses := (hstatement .passing).passes rfl
      have hgains := (hstatement .gaining).gains h.distinct.1
      obtain ⟨hwalks, hclose⟩ := (walks_statementsUntil (walks_statement c.limits.nesting)
        [.rightBrace] (inFunction token.lexeme info c) _ hc).of_run hstatements
      rw [hu] at hpasses hgains
      rw [hend] at hpasses
      refine ⟨hposition, ?_, ?_, ?_, _, hpasses, ?_⟩
      · rw [harena]
        exact hgains.trans (.modify (Arena.follows_recordReturn hdistinct hkept hrecorded.unchecked _))
      · exact hend ▸ hwalks.balanced
      · have hclose : (inFunction token.lexeme info c).kindAt u.position = .rightBrace := by
          simpa using hclose
        exact hend ▸ hclose
      · rw [places_append, hafter, List.append_nil, hpast, places_append]
        rfl

end

end FrontEnd
