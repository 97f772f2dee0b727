import FrontEnd.Proofs.Check.Underway
import FrontEnd.Proofs.Exchange.Headers
import FrontEnd.Proofs.Exchange.Statements

/-!
# Bodies over a shared stretch

In the walk over the bodies two runs stay related if the global scopes do.  A statement or a struct at the
top is followed as everywhere.  Where a function comes next, both runs enter its body in the scope that
the headers gave it.  These scopes have indices of their own in each run, but both declare the parameters
and nothing else, so the statements of the body are followed in them; behind the body only the global
scopes matter again (`Passage.FollowsUpTo.function`).
-/

namespace FrontEnd

open Check

variable {S : Stretch} {late : String → Prop} {c d : Context} {f f' s t u : State} {name : Token}
  {info info' : FunctionInfo}

/-! ### Functions in both runs -/

/-- Functions that both runs recorded under a name have the same signature. -/
theorem HeadersAlike.sameSignature (h : HeadersAlike (fun _ ↦ False) f f')
    (hrecorded : Recorded f name info) (hrecorded' : Recorded f' name info') :
    SameSignature info info' := by
  obtain ⟨a, b, ha, hb, hmirrors⟩ := h.global
  have hfound := hrecorded.symbol
  have hfound' := hrecorded'.symbol
  rw [Arena.lookup_zero, ha, Option.bind_some] at hfound
  rw [Arena.lookup_zero, hb, Option.bind_some] at hfound'
  have hrel := hmirrors name.lexeme id
  rw [hfound, hfound'] at hrel
  cases hrel with
  | some hsymbol =>
    have hkind := hsymbol.kind
    cases hkind with
    | function hreturns hparameters hisEntryPoint => exact ⟨hreturns, hparameters, hisEntryPoint⟩

theorem SameSignature.headerLength_eq (h : SameSignature info info') :
    info'.headerLength = info.headerLength := by
  unfold FunctionInfo.headerLength
  rw [h.isEntryPoint, h.parameters]

theorem SameSignature.lacksReturn_eq (h : SameSignature info info') (sawReturn : Bool) :
    info'.lacksReturn sawReturn = info.lacksReturn sawReturn := by
  unfold FunctionInfo.lacksReturn
  rw [h.isEntryPoint, h.returns]

/-- Where a function comes next in the first run, one of the same name comes next in the second. -/
theorem Passage.Beside.atFunction (h : (S.statements late).Beside c s d u)
    (hu : Underway d f' u) (hat : AtFunction c f s name info) (hstop : info.body.stop ≤ S.stop) :
    ∃ info', AtFunction d f' u name info' := by
  have hkind := h.kindAt_eq h.place (Nat.le_trans (Nat.le_of_lt hat.lt) hstop)
  obtain ⟨name', info', hat'⟩ : ∃ name' info', AtFunction d f' u name' info' := by
    refine hu.atFunction ?_
    have hword := hat.startsFunction
    unfold Context.startsFunction at hword ⊢
    rwa [hkind]
  suffices hname : name' = name from ⟨info', hname ▸ hat'⟩
  have hlength := hat.header.start_eq
  have hle := hat.start_le
  unfold FunctionInfo.headerLength at hlength
  rw [hat.header.name_eq, hat'.header.name_eq]
  have hentry : info'.isEntryPoint = info.isEntryPoint := by
    have hword {c : Context} {i : Nat} {name : Token} {info : FunctionInfo}
        (h : HeaderAt c i name info) : info.isEntryPoint = (c.kindAt i == .mainWord) := by
      cases h with
      | function word _ _ _ _ _ _ _ isEntryPoint => rw [isEntryPoint, word]; rfl
      | entryPoint word _ _ _ _ _ _ isEntryPoint => rw [isEntryPoint, word]; rfl
    rw [hword hat.header, hword hat'.header, hkind]
  rw [hentry]
  split
  · exact h.tokenAt_eq h.place (Nat.le_trans (Nat.le_of_lt hat.lt) hstop)
  next hnot =>
    rw [if_neg hnot] at hlength
    have hinside : s.position + 1 + 1 ≤ S.stop := by omega
    exact h.tokenAt_eq h.place.succ.succ hinside

namespace Passage

/-! ### The statements of a body -/

/-- What relates two runs behind the statements of a body. -/
structure BesideInBody (S : Stretch) (late : String → Prop) (t v : State) : Prop where
  place : (S.statements late).At t.position v.position
  row : RowMirrors late (t.arena.around 0) (v.arena.around 0)
  live : 0 < t.arena.size
  live' : 0 < v.arena.size
  sawReturn : v.sawReturn = t.sawReturn

/-- Both runs enter the body of a function. -/
theorem Beside.entered (h : (S.statements late).Beside c s d u) (hf : Headed c f) (hf' : Headed d f')
    (hs : Underway c f s) (hu : Underway d f' u) (hat : AtFunction c f s name info)
    (hat' : AtFunction d f' u name info') (hsame : SameSignature info info') :
    (S.statements late).Beside (inFunction name.lexeme info c)
      { s with position := info.body.start, sawReturn := false } (inFunction name.lexeme info' d)
      { u with position := info'.body.start, sawReturn := false } := by
  obtain ⟨label, hscope⟩ := hs.functionScope hat.recorded (Nat.le_of_lt hat.lt)
  obtain ⟨label', hscope'⟩ := hu.functionScope hat'.recorded (Nat.le_of_lt hat'.lt)
  have hrow : RowMirrors late (s.arena.around 0) (u.arena.around 0) := by
    have hrow := Shared.row h.related
    rwa [hf.scope, hf'.scope] at hrow
  have hinner : RowMirrors late (s.arena.around info.scope) (u.arena.around info'.scope) := by
    rw [Arena.around_of_parent hscope rfl (Nat.pos_of_ne_zero hat.recorded.inner),
      Arena.around_of_parent hscope' rfl (Nat.pos_of_ne_zero hat'.recorded.inner), hsame.parameters]
    exact .cons (.of_symbols (List.forall₂_same.2 fun symbol _ ↦ .refl late symbol)) hrow
  have hstart : (S.statements late).At info.body.start info'.body.start := by
    obtain ⟨hle, hplace⟩ := h.place
    rw [hat.header.start_eq, hat'.header.start_eq, hsame.headerLength_eq]
    exact ⟨by omega, by omega⟩
  exact ⟨h.tokens, h.tokens', h.last, h.last', h.limits, hstart, hinner,
    Arena.scope?_isSome_iff.1 (hscope ▸ rfl), Arena.scope?_isSome_iff.1 (hscope' ▸ rfl),
    h.related.blocks, h.related.blockDepth, by simp only [inFunction, hsame.returns, hsame.isEntryPoint],
    fun _ ↦ rfl⟩

/-- The statements of a body are followed up to its closing brace. -/
theorem Beside.bodyStatements (h : (S.statements late).Beside c s d u) (hf : Headed c f)
    (hf' : Headed d f') (hs : Underway c f s) (hu : Underway d f' u)
    (hat : AtFunction c f s name info) (hat' : AtFunction d f' u name info')
    (hsame : SameSignature info info')
    (hrun : (Check.bodyStatements name.lexeme info).runFrom c s = (.ok (), t))
    (hstop : info.body.stop ≤ S.stop) :
    Ensures (Check.bodyStatements name.lexeme info') d u (S.Tardy late) fun _ v ↦
      BesideInBody S late t v := by
  have hentered := h.entered hf hf' hs hu hat hat' hsame
  have houtline := runFrom_bodyStatements_outline hs.unchecked.distinct.1 hrun
  obtain ⟨⟨last, hstatements⟩, hend, -⟩ := runFrom_bodyStatements hrun
  have hstatement : S.Follows late Eq (statement c.limits.nesting) (statement c.limits.nesting) :=
    Follows.statement c.limits.nesting
  have hfollows := (Follows.statementsUntil hstatement [.rightBrace]).follows hentered last t
    hstatements (hend ▸ hstop)
  have hafter : Ensures (Check.bodyStatements name.lexeme info') d u (S.Tardy late) fun _ v ↦
      (S.statements late).Beside (inFunction name.lexeme info c) t (inFunction name.lexeme info' d) v := by
    simp only [Check.bodyStatements, ensures_bind, ensures_read, ensures_withReader, ensures_modify,
      ensures_discard, ensures_here, ensures_ite, ensures_violate, ensures_pure]
    rw [h.limits]
    -- the second run is at the brace its body was recorded with, as that is the only one it may be at
    obtain ⟨opening, hstart, hbraced⟩ := hat'.body
    refine (hfollows.and (walks_statementsUntil (walks_statement c.limits.nesting) [.rightBrace]
      (inFunction name.lexeme info' d) _ hf'.closed)).mono ?_
    rintro last' v ⟨⟨-, hbeside⟩, hwalked, hclose⟩
    have hclose : (inFunction name.lexeme info' d).kindAt v.position = .rightBrace := by
      simpa using hclose
    have hplace : v.position = info'.body.stop :=
      hbraced.eq_of_balanced v.position (hstart ▸ hwalked.balanced) hclose
    exact ⟨fun hne ↦ absurd hplace hne, fun _ ↦ hbeside⟩
  refine (hafter.and (ensures_runs _ d u)).mono ?_
  rintro _ v ⟨hbeside, hrun'⟩
  have houtline' := runFrom_bodyStatements_outline hu.unchecked.distinct.1 hrun'
  obtain ⟨label, hscope⟩ := hs.outline hat.recorded (Nat.le_of_lt hat.lt)
  obtain ⟨label', hscope'⟩ := hu.outline hat'.recorded (Nat.le_of_lt hat'.lt)
  obtain ⟨inner, hrow⟩ := Arena.around_of_outline (houtline ▸ hscope)
    (Nat.pos_of_ne_zero hat.recorded.inner)
  obtain ⟨inner', hrow'⟩ := Arena.around_of_outline (houtline' ▸ hscope')
    (Nat.pos_of_ne_zero hat'.recorded.inner)
  have hrows : RowMirrors late (t.arena.around info.scope) (v.arena.around info'.scope) :=
    hbeside.related.row
  rw [hrow, hrow'] at hrows
  exact ⟨hbeside.place, (List.forall₂_cons.1 hrows).2, Nat.zero_lt_of_lt hbeside.related.live,
    Nat.zero_lt_of_lt hbeside.related.live', hbeside.related.sawReturn rfl⟩

/-! ### Rounds -/

/-- A round that comes to a function is followed up to the end of its body, also if that is the last
token of the stretch. -/
theorem FollowsUpTo.function (h : (S.statements late).Beside c s d u) (hf : Headed c f)
    (hf' : Headed d f') (hs : Underway c f s) (hu : Underway d f' u)
    (halike : HeadersAlike (fun _ ↦ False) f f') (hword : c.startsFunction s.position) :
    (S.statements late).FollowsUpTo (S.stop + 1) Eq programRound programRound c s d u := by
  intro _ t hrun hle
  obtain ⟨name, info, hat⟩ := hs.atFunction hword
  have hstop : info.body.stop ≤ S.stop := by
    rw [hat.position_eq hf hs hrun] at hle
    exact Nat.le_of_succ_le_succ hle
  obtain ⟨info', hat'⟩ := h.atFunction hu hat hstop
  have hsame := halike.sameSignature hat.recorded hat'.recorded
  obtain ⟨p, hsignature⟩ := hs.unchecked.runFrom_signature hat.recorded (Nat.le_of_lt hat.lt)
  obtain ⟨p', hsignature'⟩ := hu.unchecked.runFrom_signature hat'.recorded (Nat.le_of_lt hat'.lt)
  -- the first run, taken apart
  have hfirst : Ensures (functionBody name.lexeme) c s (fun _ ↦ True) fun _ t ↦ ∃ inner,
      (Check.bodyStatements name.lexeme info).runFrom c s = (.ok (), inner) ∧
        ¬ info.lacksReturn inner.sawReturn ∧ inner.behindBody name.lexeme info = t :=
    (ensures_functionBody_iff hsignature).2 ((ensures_runs _ c s).mono fun _ inner hinner ↦
      ⟨fun _ ↦ trivial, fun hreturns ↦ ⟨inner, hinner, hreturns, rfl⟩⟩)
  obtain ⟨inner, hinner, hreturns, rfl⟩ := hfirst.of_run (hat.runFrom_programRound.symm.trans hrun)
  unfold Ensures
  rw [hat'.runFrom_programRound]
  refine (ensures_functionBody_iff hsignature').2
    ((h.bodyStatements hf hf' hs hu hat hat' hsame hinner hstop).and (ensures_runs _ d u) |>.mono ?_)
  rintro _ inner' ⟨hbeside, hinner'⟩
  rw [hsame.lacksReturn_eq, hbeside.sawReturn]
  refine ⟨fun hlacks ↦ absurd hlacks hreturns, fun _ ↦ ⟨rfl, h.tokens, h.tokens', h.last, h.last',
    h.limits, ?_, ?_, ?_, ?_, h.related.blocks, h.related.blockDepth, h.related.function, fun hsome ↦ ?_⟩⟩
  · have hend := (runFrom_bodyStatements hinner).2.1
    have hend' := (runFrom_bodyStatements hinner').2.1
    have hplace := hbeside.place.succ
    rwa [hend, hend'] at hplace
  · show RowMirrors late ((inner.behindBody name.lexeme info).arena.around c.scope)
      ((inner'.behindBody name.lexeme info').arena.around d.scope)
    rw [hf.scope, hf'.scope]
    unfold State.behindBody
    rw [hbeside.sawReturn]
    exact Arena.mirrors_modify hbeside.row _ (fun symbol ↦ symbol.name_withReturn _)
      fun hsymbol ↦ hsymbol.withReturn _
  · rw [hf.scope]
    exact (Arena.size_modify _).symm ▸ hbeside.live
  · rw [hf'.scope]
    exact (Arena.size_modify _).symm ▸ hbeside.live'
  · rw [hf.function] at hsome
    cases hsome

theorem Follows.skipStruct : S.Follows late Eq Check.skipStruct Check.skipStruct := by
  unfold Check.skipStruct
  refine (roundsWhile (fun _ ↦ rfl) ((next? .leftBrace).next fun _ ↦ same _) ?_ rfl).next fun _ ↦
    brackets (expectMark .semicolon).discard
  exact fun _ _ _ ↦ atEnd.next fun _ ↦ guard id (quits_violate _) <|
    advance.discard.next fun _ ↦ pure (.yield rfl)

/-- A round that comes to no function. -/
def otherRound : Check Unit := do
  match ← Check.peekKind with
  | .functionWord | .mainWord => Check.violate (.lost .bodyNotRecorded)
  | .structWord => Check.skipStruct
  | _ => discard <| statement (← read).limits.nesting

theorem runFrom_programRound_other (hword : ¬ c.startsFunction s.position) :
    Check.programRound.runFrom c s = otherRound.runFrom c s := by
  have hkind : Check.peekKind.runFrom c s = (.ok (c.kindAt s.position), s) := rfl
  rw [Check.programRound, otherRound, Check.runFrom_bind, Check.runFrom_bind, hkind]
  unfold Context.startsFunction at hword
  generalize c.kindAt s.position = k at hword ⊢
  cases k <;> first | rfl | exact absurd rfl hword

theorem Follows.otherRound : S.Follows late Eq Passage.otherRound Passage.otherRound := by
  refine peekKind.next fun k ↦ ?_
  split
  · exact violate
  · exact violate
  · exact skipStruct
  · refine limits fun c d hlimits ↦ ?_
    rw [hlimits]
    exact (statement _).discard

/-- A round of the walk over the bodies is followed. -/
theorem FollowsUpTo.programRound (h : (S.statements late).Beside c s d u) (hf : Headed c f)
    (hf' : Headed d f') (hs : Underway c f s) (hu : Underway d f' u)
    (halike : HeadersAlike (fun _ ↦ False) f f') :
    (S.statements late).FollowsFrom Eq Check.programRound Check.programRound c s d u := by
  by_cases hword : c.startsFunction s.position
  · exact (FollowsUpTo.function h hf hf' hs hu halike hword).from
  · intro _ t hrun hstop
    rw [runFrom_programRound_other hword] at hrun
    have hle : s.position ≤ t.position :=
      (Follows.otherRound.forward c s h.tokens h.place.1).of_run hrun
    have hword' : ¬ d.startsFunction u.position := by
      unfold Context.startsFunction at hword ⊢
      rwa [h.kindAt_eq h.place (Nat.le_trans hle hstop)]
    unfold Ensures
    rw [runFrom_programRound_other hword']
    exact Follows.otherRound.follows h _ t hrun hstop

end Passage

end FrontEnd
