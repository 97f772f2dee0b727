import FrontEnd.Check.Program
import FrontEnd.Proofs.Check.Headers

/-!
# The second walk stays in step with the first

The walk over a program meets, at its top, exactly the pieces the headers recorded: `InStep` is the
invariant of its rounds (`ensures_programRound`).  A statement takes in a balanced stretch and so
leads from one place of the row to another; the body of a function ends at the brace it was recorded
with, since the statements in it are balanced and stop at a closing brace.

So no check of a closed sequence of tokens, in which names differ from the word for the entry point,
loses its way (`ensures_program`).
-/

namespace FrontEnd

open Check

/-- The walk is at a piece of the row that the headers of a state account for, and has kept what
they recorded. -/
structure InStep (c : Context) (f s : State) : Prop where
  laid : ∃ symbols, Laid c f s.position symbols
  keeps : Keeps f s

section

variable {c : Context} {s after f : State} {name : String} {body : BodyRange}

/-- A function with a recorded body has a signature. -/
theorem ensures_signature {E : SemanticError → Prop} (h : s.arena.body? name = some body) :
    Ensures (signature name) c s E fun found after ↦ after = s ∧ found.1.body = body := by
  obtain ⟨symbol, hsymbol, hbody⟩ := Option.bind_eq_some_iff.1 h
  obtain ⟨info, hinfo, rfl⟩ := Option.map_eq_some_iff.1 hbody
  simp only [signature, ensures_bind, ensures_get, hsymbol, hinfo, ensures_pure]
  exact ⟨trivial, trivial⟩

/-- The statements of a body stop at the brace the body was recorded with. -/
theorem ensures_bodyStatements (hc : c.Closed) {info : FunctionInfo} (hbody : IsBody c info.body) :
    Ensures (bodyStatements name info) c s Unlost fun _ after ↦ Keeps s after := by
  obtain ⟨opening, hstart, hbraced⟩ := hbody
  simp only [bodyStatements, ensures_bind, ensures_read, ensures_withReader, ensures_modify,
    ensures_discard, ensures_here, ensures_ite, ensures_violate, ensures_pure]
  refine (walks_statementsUntil (walks_statement c.limits.nesting) [.rightBrace]
    (inFunction name info c) _ hc).mono ?_
  rintro _ after ⟨hafter, hclose⟩
  obtain ⟨hbalanced, hkeeps⟩ := hafter.of_tokens (c := c) rfl
  have hclose : (inFunction name info c).kindAt after.position = .rightBrace := by
    simpa using hclose
  have hstop : after.position = info.body.stop :=
    hbraced.eq_of_balanced after.position (by rwa [← hstart]) hclose
  exact ⟨fun hne ↦ absurd hstop hne, fun _ ↦ ⟨hkeeps.functions, hkeeps.headers, hkeeps.bodies⟩⟩

theorem ensures_functionBody (hc : c.Closed) (hbody : IsBody c body)
    (h : s.arena.body? name = some body) :
    Ensures (functionBody name) c s Unlost fun _ after ↦
      after.position = body.stop + 1 ∧ Keeps s after := by
  simp only [functionBody, ensures_bind]
  refine (ensures_signature h).mono ?_
  rintro ⟨info, position⟩ _ ⟨rfl, rfl⟩
  refine (ensures_bodyStatements hc hbody).mono fun _ after hafter ↦ ?_
  simp only [ensures_moveTo, ensures_get, recordReturn, ensures_modify, ensures_ite,
    ensures_refuse, ensures_pure]
  refine ⟨fun _ ↦ by simp, fun _ ↦ ⟨rfl, hafter.functions, hafter.headers, fun other body h ↦ ?_⟩⟩
  exact (Arena.body?_modify (keepsBodies_withReturn _) name).trans (hafter.bodies other body h)

/-- A struct is passed over up to the piece after it. -/
theorem ensures_skipStruct {m : Nat} (hword : c.kindAt s.position = .structWord)
    (hname : c.kindAt (s.position + 1) = .identifier)
    (hopen : c.kindAt (s.position + 2) = .leftBrace)
    (hmembers : Balanced c.kindAt (s.position + 3) m) (hclose : c.kindAt m = .rightBrace)
    (hend : c.kindAt (m + 1) = .semicolon) :
    Ensures skipStruct c s Unlost fun _ after ↦ after = s.movedTo (m + 2) := by
  -- Two rounds lead to the brace, and there is no brace before.
  have hrounds : Ensures (roundsWhile (return !(← next? .leftBrace)) (fun _ ↦ do
      if ← atEnd then violate .unexpectedEnd
      discard advance
      return .yield ()) ()) c s Unlost fun _ after ↦ after = s.movedTo (s.position + 2) := by
    refine ensures_roundsWhile (by simp) (I := fun _ after ↦ after = s ∨
      after = s.movedTo (s.position + 1) ∨ after = s.movedTo (s.position + 2)) (.inl rfl) ?_
    have hfirst := Context.after_of_kindAt hword (by simp)
    have hsecond := Context.after_of_kindAt hname (by simp)
    rintro _ _ (rfl | rfl | rfl)
    · simp [hword, hfirst]
    · simp [hname, hsecond]
    · simp [hopen]
  simp only [skipStruct, ensures_bind, ensures_here, ensures_moveTo, ensures_discard,
    ensures_expectMark]
  refine hrounds.mono ?_
  rintro _ _ rfl
  refine (ensures_matchingBrace hopen).mono ?_
  rintro stop _ ⟨rfl, hbraced⟩
  obtain rfl := hbraced.eq_of_balanced m hmembers hclose
  refine ⟨fun _ ↦ ?_, fun _ ↦ unlost_expected _ _⟩
  simp [Context.after_of_kindAt hend]

namespace Laid

variable {i : Nat} {symbols : List Symbol}

/-- Where a function starts, the row goes on with it: it was recorded with the body it has. -/
theorem of_function (h : Laid c f i symbols)
    (hword : c.kindAt i = .functionWord ∨ c.kindAt i = .mainWord) :
    ∃ name info rest, symbols = .ofFunction name.lexeme info name.position :: rest ∧
      HeaderAt c i name info ∧ f.headers.lookup i = some name.lexeme ∧ Recorded f name info ∧
        IsBody c info.body ∧ i < info.body.stop ∧ Laid c f (info.body.stop + 1) rest := by
  cases h with
  | function hheader hlookup hrecorded hbody hstop hnext =>
    exact ⟨_, _, _, rfl, hheader, hlookup, hrecorded, hbody, hstop, hnext⟩
  | ended h => rcases hword with hk | hk <;> simp [hk] at h
  | struct h => simp [h.word] at hword
  | braces h => simp [h.opens] at hword
  | other h => rcases hword with hk | hk <;> simp [hk] at h

/-- Where a struct starts, the row goes on with it. -/
theorem of_struct (h : Laid c f i symbols) (hword : c.kindAt i = .structWord) :
    ∃ name members m rest, symbols = .ofStruct name.lexeme members name.position :: rest ∧
      StructAt c i name members m ∧ Laid c f (m + 2) rest := by
  cases h with
  | struct h hnext => exact ⟨_, _, _, _, rfl, h, hnext⟩
  | ended h => simp [hword] at h
  | function h =>
    cases h with
    | function word => simp [hword] at word
    | entryPoint word => simp [hword] at word
  | braces h => exact absurd (h.opens.symm.trans hword) (by simp)
  | other h => simp [hword] at h

end Laid

/-- Where a function starts, it was recorded with the body it has, behind which the row goes on. -/
theorem InStep.function (h : InStep c f s)
    (hword : c.kindAt s.position = .functionWord ∨ c.kindAt s.position = .mainWord) :
    ∃ name info symbols, s.headers.lookup s.position = some name.lexeme ∧ Recorded f name info ∧
      IsBody c info.body ∧ s.position < info.body.stop ∧ Laid c f (info.body.stop + 1) symbols := by
  obtain ⟨⟨symbols, hlaid⟩, hkeeps⟩ := h
  obtain ⟨name, info, rest, -, -, hlookup, hrecorded, hbody, hstop, hnext⟩ := hlaid.of_function hword
  exact ⟨name, info, rest, hkeeps.headers ▸ hlookup, hrecorded, hbody, hstop, hnext⟩

/-- A round that comes to a function checks its body. -/
theorem run_programRound_function
    (hword : c.kindAt s.position = .functionWord ∨ c.kindAt s.position = .mainWord)
    (hname : s.headers.lookup s.position = some name) (past : List Moment) :
    programRound.run c s past = (functionBody name).run c s past := by
  have hkind : peekKind.run c s past = ((.ok (c.kindAt s.position), s), past) := rfl
  have hget : (get : Check State).run c s past = ((.ok s, s), past) := rfl
  have hhere : here.run c s past = ((.ok s.position, s), past) := rfl
  rw [programRound, Check.run_bind, hkind]
  rcases hword with hk | hk
  · simp only [hk, Check.run_bind, hget, hhere, hname]
  · simp only [hk, Check.run_bind, hget, hhere, hname]

/-- A round leads from a piece of the row to a later piece of the row. -/
theorem ensures_programRound (hc : c.Closed) (h : InStep c f s) :
    Ensures programRound c s Unlost fun _ after ↦
      InStep c f after ∧ s.position ≤ after.position := by
  by_cases hword : c.kindAt s.position = .functionWord ∨ c.kindAt s.position = .mainWord
  · obtain ⟨name, info, symbols, hlookup, hrecorded, hbody, hstop, hnext⟩ := h.function hword
    unfold Ensures Check.runFrom
    rw [run_programRound_function hword hlookup]
    refine (ensures_functionBody hc hbody (h.keeps.bodies _ _ hrecorded.body?)).mono
      fun _ after hafter ↦ ?_
    exact ⟨⟨⟨_, hafter.1 ▸ hnext⟩, h.keeps.trans hafter.2⟩, by omega⟩
  -- Other rounds stay between the headers, since what they pass is balanced.
  obtain ⟨⟨symbols, hlaid⟩, hkeeps⟩ := h
  simp only [programRound, ensures_bind, ensures_peekKind]
  split
  next hk => exact absurd (.inl hk) hword
  next hk => exact absurd (.inr hk) hword
  next hk =>
    obtain ⟨name, members, m, rest, -, h, hnext⟩ := hlaid.of_struct hk
    refine (ensures_skipStruct hk h.kind h.opens (h.members.balanced rfl) h.closes h.ends).mono ?_
    rintro _ _ rfl
    have hle := (h.members.balanced rfl).le
    exact ⟨⟨⟨rest, hnext⟩, hkeeps.trans (SameTables.movedTo.2 (.refl s)).keeps⟩,
      by rw [State.position_movedTo]; omega⟩
  next =>
    simp only [ensures_bind, ensures_read, ensures_discard]
    refine (walks_statement _ c s hc).mono fun _ after hafter ↦ ?_
    exact ⟨⟨⟨symbols, hlaid.of_balanced hafter.balanced⟩, hkeeps.trans hafter.keeps⟩,
      hafter.balanced.le⟩

/-- No check of a program loses its way. -/
theorem ensures_program (hc : c.Closed) (hw : c.Worded) (hs : Orderly s) (hstart : s.position = 0) :
    Ensures program c s Unlost fun _ _ ↦ True := by
  simp only [program, ensures_bind, ensures_read, ensures_ite, ensures_violate, ensures_moveTo]
  have hrun : Ensures headers c s Unlost fun _ f ↦
      Ensures (roundsWhile (return !(← atEnd)) (fun _ ↦ do programRound; return .yield ()) ()) c
        (f.movedTo 0) Unlost fun _ _ ↦ True := by
    refine (ensures_headers hc hw hs).mono ?_
    rintro _ f ⟨symbols, hf⟩
    have hlaid := hf.laid
    rw [hstart] at hlaid
    refine ensures_roundsWhile (by simp) (I := fun _ after ↦ InStep c f after)
      ⟨⟨symbols, hlaid⟩, (SameTables.movedTo.2 (.refl f)).keeps⟩ ?_
    intro _ after hafter
    simp only [ensures_bind, ensures_atEnd, ensures_pure, afterRound_yield]
    refine ⟨fun hmore ↦ ?_, fun _ ↦ trivial⟩
    exact (ensures_programRound hc hafter).mono fun _ _ h ↦ h.1
  exact ⟨fun _ ↦ by simp, fun _ ↦ hrun⟩

end

end FrontEnd
