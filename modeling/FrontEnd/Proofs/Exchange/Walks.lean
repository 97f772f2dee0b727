import FrontEnd.Proofs.Check.Underway

/-!
# Walks in rounds

Both walks over a program are loops that go on until the input has ended: `walk round`.  `Goes` has the
rounds of such a walk that succeed, with an invariant that holds before each of them.  The rounds can be
split at every index that none of them jumps over (`Goes.split`), and a second walk can go along with a
part of them, round by round (`Goes.along`).

A program is checked by the walk over its headers and then by the one over its bodies
(`ensures_program_iff`).
-/

namespace FrontEnd

open Check

/-- Rounds until the input has ended, at most so many. -/
abbrev walk (round : Check Unit) (left : Nat) : Check Unit :=
  roundsFrom (return !(← atEnd)) (fun _ ↦ do round; return .yield ()) left ()

/-- So many rounds lead from one state to another.  None of them starts at the end of the input or goes
back, and the invariant holds before and behind each. -/
inductive Goes (c : Context) (round : Check Unit) (Inv : State → Prop) : Nat → State → State → Prop
  | stays {s : State} (hs : Inv s) : Goes c round Inv 0 s s
  | round {n : Nat} {s t u : State} (hs : Inv s) (hmore : c.kindAt s.position ≠ .eof)
    (hrun : round.runFrom c s = (.ok (), t)) (hle : s.position ≤ t.position)
    (hrest : Goes c round Inv n t u) : Goes c round Inv (n + 1) s u

section

variable {round : Check Unit} {Inv : State → Prop} {c d : Context} {s t u : State} {n left m : Nat}
  {E : SemanticError → Prop} {Q : Unit → State → Prop}

/-! ### One round -/

theorem ensures_walk_of_eof (hend : c.kindAt s.position = .eof) :
    Ensures (walk round left) c s E Q ↔ Q () s := by
  cases left <;> rw [walk, roundsFrom] <;> simp [hend]

theorem ensures_walk_zero (hmore : c.kindAt s.position ≠ .eof) :
    Ensures (walk round 0) c s E Q ↔
      E ⟨.scanLimit c.limits.scan, (c.tokenAt s.position).position⟩ := by
  rw [walk, roundsFrom]
  simp [hmore]

theorem ensures_walk_succ (hmore : c.kindAt s.position ≠ .eof) :
    Ensures (walk round (left + 1)) c s E Q ↔
      Ensures round c s E fun _ after ↦ Ensures (walk round left) c after E Q := by
  rw [walk, roundsFrom]
  simp only [ensures_bind, ensures_atEnd, ensures_pure, ensures_ite, beq_eq_false_iff_ne.2 hmore]
  exact ⟨fun h ↦ h.1 rfl, fun h ↦ ⟨fun _ ↦ h, fun hnot ↦ absurd rfl hnot⟩⟩

/-! ### Rounds that succeed -/

/-- The rounds of a walk that succeeds. -/
theorem exists_goes (hround : ∀ {s t}, Inv s → c.kindAt s.position ≠ .eof →
      round.runFrom c s = (.ok (), t) → Inv t ∧ s.position ≤ t.position) :
    ∀ left {s}, Inv s → Ensures (walk round left) c s (fun _ ↦ True) fun _ t ↦
      (∃ n ≤ left, Goes c round Inv n s t) ∧ c.kindAt t.position = .eof := by
  intro left
  induction left with
  | zero =>
    intro s hs
    by_cases hend : c.kindAt s.position = .eof
    · exact (ensures_walk_of_eof hend).2 ⟨⟨0, Nat.le_refl 0, .stays hs⟩, hend⟩
    · exact (ensures_walk_zero hend).2 trivial
  | succ left ih =>
    intro s hs
    by_cases hend : c.kindAt s.position = .eof
    · exact (ensures_walk_of_eof hend).2 ⟨⟨0, Nat.zero_le _, .stays hs⟩, hend⟩
    · refine (ensures_walk_succ hend).2 ((ensures_runs round c s).mono fun _ after hrun ↦ ?_)
      obtain ⟨hafter, hle⟩ := hround hs hend hrun
      refine (ih hafter).mono ?_
      rintro _ t ⟨⟨n, hn, hgoes⟩, hlast⟩
      exact ⟨⟨n + 1, Nat.succ_le_succ hn, .round hs hend hrun hle hgoes⟩, hlast⟩

namespace Goes

theorem holds (h : Goes c round Inv n s t) : Inv s := by
  cases h <;> assumption

theorem last (h : Goes c round Inv n s t) : Inv t := by
  induction h with
  | stays hs => exact hs
  | round _ _ _ _ _ ih => exact ih

theorem le (h : Goes c round Inv n s t) : s.position ≤ t.position := by
  induction h with
  | stays => exact Nat.le_refl _
  | round _ _ _ hle _ ih => exact Nat.le_trans hle ih

/-- A walk that gets further has a first round. -/
theorem exists_round (h : Goes c round Inv n s t) (hlt : s.position < t.position) :
    ∃ k after, n = k + 1 ∧ c.kindAt s.position ≠ .eof ∧ round.runFrom c s = (.ok (), after) ∧
      Goes c round Inv k after t := by
  cases h with
  | stays => exact absurd hlt (Nat.lt_irrefl _)
  | round _ hmore hrun _ hrest => exact ⟨_, _, rfl, hmore, hrun, hrest⟩

/-- A walk comes to every index that it does not jump over. -/
theorem split (h : Goes c round Inv n s u) (hs : s.position ≤ m) (hu : m ≤ u.position)
    (hjump : ∀ {s t k}, Inv s → c.kindAt s.position ≠ .eof → round.runFrom c s = (.ok (), t) →
      Goes c round Inv k t u → s.position < m → t.position ≤ m) :
    ∃ k l middle, Goes c round Inv k s middle ∧ middle.position = m ∧
      Goes c round Inv l middle u ∧ n = k + l := by
  induction h with
  | @stays s hinv => exact ⟨0, 0, s, .stays hinv, Nat.le_antisymm hs hu, .stays hinv, rfl⟩
  | @round n s t u hinv hmore hrun hle hrest ih =>
    by_cases hhere : s.position = m
    · exact ⟨0, n + 1, s, .stays hinv, hhere, .round hinv hmore hrun hle hrest, (Nat.zero_add _).symm⟩
    · have ht := hjump hinv hmore hrun hrest (Nat.lt_of_le_of_ne hs hhere)
      obtain ⟨k, l, middle, hfirst, hmiddle, hsecond, rfl⟩ := ih ht hu hjump
      exact ⟨k + 1, l, middle, .round hinv hmore hrun hle hfirst, hmiddle, hsecond, by omega⟩

/-- A second walk goes along round by round, and ends well if it does so from there on. -/
theorem along {Rel : State → State → Prop} (h : Goes c round Inv n s t) (ht : t.position ≤ m)
    (hround : ∀ {s t u}, Inv s → Rel s u → c.kindAt s.position ≠ .eof →
      round.runFrom c s = (.ok (), t) → s.position ≤ t.position → t.position ≤ m →
        d.kindAt u.position ≠ .eof ∧ Ensures round d u E fun _ v ↦ Rel t v)
    (hrel : Rel s u) (hend : ∀ v, Rel t v → Ensures (walk round left) d v E Q) :
    Ensures (walk round (left + n)) d u E Q := by
  induction h generalizing u with
  | stays => exact hend u hrel
  | round hinv hmore hrun hle hrest ih =>
    obtain ⟨hmore', hensures⟩ := hround hinv hrel hmore hrun hle (Nat.le_trans hrest.le ht)
    exact (ensures_walk_succ hmore').2 (hensures.mono fun _ _ hv ↦ ih ht hv hend)

end Goes

/-! ### The two walks -/

theorem ensures_headers_iff : Ensures headers c s E Q ↔
    Ensures (walk headerRound c.limits.scan) c s E fun _ f ↦
      ((f.functions.lookup entryPointName).isSome → Q () f) ∧
        (¬ (f.functions.lookup entryPointName).isSome →
          E ⟨.missingEntryPoint, (c.tokenAt f.position).position⟩) := by
  simp only [headers, roundsWhile, ensures_bind, ensures_read, ensures_isRecorded, ensures_ite,
    ensures_violate, ensures_pure]

theorem ensures_program_iff : Ensures program c s E Q ↔
    (c.tokens.isEmpty → E ⟨.unexpectedEnd, (c.tokenAt s.position).position⟩) ∧
      (¬ c.tokens.isEmpty → Ensures headers c s E fun _ f ↦
        Ensures (walk programRound c.limits.scan) c (f.movedTo 0) E Q) := by
  simp only [program, roundsWhile, ensures_bind, ensures_read, ensures_ite, ensures_violate,
    ensures_moveTo]

end

end FrontEnd
