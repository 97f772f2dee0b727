import FrontEnd.Proofs.Check.Coverage
import FrontEnd.Proofs.Check.CarefulStatement

/-!
# The walk over a program is careful

No check of the headers refuses a division (`Mild`), and what the walk over the bodies passes is sound:
the header in front of a body and a struct have harmless tokens only, and everything else is passed by
a statement (`secures_programRound`).  So in a program that is checked successfully all tokens are
used as they may be (`secures_program`).
-/

namespace FrontEnd

open Check

/-- A check that refuses no division. -/
def Mild {α : Type} (x : Check α) : Prop :=
  ∀ c s, Ensures x c s (fun e ↦ e.violation ≠ .divisionByZero) fun _ _ ↦ True

/-! ### Checks that refuse no division -/

namespace Mild

variable {α β σ : Type} {x y : Check α}

theorem of_still (hx : Still x) : Mild x :=
  fun c s ↦ (hx c s).mono fun _ _ _ ↦ trivial

theorem pure (a : α) : Mild (pure a : Check α) :=
  of_still (.pure a)

theorem violateAt {v : Violation} {t : Token} (hv : v ≠ .divisionByZero) :
    Mild (Check.violateAt v t : Check α) :=
  of_still (.violateAt hv)

theorem violate {v : Violation} (hv : v ≠ .divisionByZero) :
    Mild (Check.violate v : Check α) :=
  of_still (.violate hv)

theorem refuse {e : SemanticError} (he : e.violation ≠ .divisionByZero) :
    Mild (Check.refuse e : Check α) :=
  fun _ _ ↦ he

theorem bind {f : α → Check β} (hx : Mild x) (hf : ∀ a, Mild (f a)) : Mild (x >>= f) := by
  intro c s
  rw [ensures_bind]
  exact (hx c s).mono fun a after _ ↦ hf a c after

/-- After a check that stays where it is. -/
theorem after {f : α → Check β} (hx : Still x) (hf : ∀ a, Mild (f a)) : Mild (x >>= f) :=
  (of_still hx).bind hf

theorem ite {p : Prop} [Decidable p] (hx : Mild x) (hy : Mild y) : Mild (if p then x else y) := by
  split
  · exact hx
  · exact hy

/-- A check that may come before another one. -/
theorem guard {p : Prop} [Decidable p] (hx : Mild x) {z : Check β} (hz : Mild z) :
    Mild (if p then x >>= fun _ ↦ z else z) :=
  ite (hx.bind fun _ ↦ hz) hz

theorem otherwise {p : Prop} [Decidable p] (hx : Mild x) {z : Check β} (hz : Mild z) :
    Mild (if p then z else x >>= fun _ ↦ z) :=
  ite hz (hx.bind fun _ ↦ hz)

theorem discard (hx : Mild x) : Mild (discard x) :=
  fun c s ↦ ensures_discard.2 (hx c s)

theorem modify (f : State → State) : Mild (modify f : Check Unit) :=
  fun _ _ ↦ trivial

theorem modifyGet (f : State → α × State) : Mild (modifyGet f : Check α) :=
  fun _ _ ↦ trivial

theorem moveTo (i : Nat) : Mild (Check.moveTo i) :=
  modify _

theorem advance : Mild Check.advance :=
  fun _ _ ↦ ensures_advance.2 trivial

theorem expect (k : Kind) (wanted : Wanted) : Mild (Check.expect k wanted) := by
  refine .after (.next? k) fun _ ↦ .ite advance <| .after .peek fun _ ↦ ?_
  exact .ite (.violateAt (by simp)) (.violateAt (by simp))

theorem mark (k : Kind) : Mild (Functor.discard (Check.expectMark k)) :=
  (expect k (.mark k)).discard

theorem roundsWhile {due : Check Bool} {round : σ → Check (ForInStep σ)} {value : σ}
    (hdue : Mild due) (hround : ∀ value, Mild (round value)) :
    Mild (Check.roundsWhile due round value) := by
  intro c s
  refine ensures_roundsWhile (fun _ ↦ by simp) (I := fun _ _ ↦ True) trivial fun value t _ ↦ ?_
  refine (hdue c t).mono fun more after _ ↦ ⟨fun _ ↦ ?_, fun _ ↦ trivial⟩
  exact (hround value c after).mono fun r _ _ ↦ by cases r <;> trivial

/-! ### Headers -/

theorem requireFree (what : Redeclared) (name : Token) : Mild (Check.requireFree what name) :=
  .after .get fun _ ↦ .ite (.violateAt (by simp)) (.pure _)

theorem isRecorded (name : String) : Mild (Check.isRecorded name) :=
  .after .get fun _ ↦ .pure _

theorem declareGlobal (symbol : Symbol) (name : Token) : Mild (Check.declareGlobal symbol name) :=
  (modifyGet _).bind fun _ ↦ .ite (.pure _) (.violateAt (by simp))

theorem typeWord (wanted : Wanted) : Mild (Check.typeWord wanted) := by
  refine advance.bind fun t ↦ ?_
  split
  · exact .pure _
  · exact .violateAt (by simp)

theorem typedName (wantedType wantedName : Wanted) : Mild (Check.typedName wantedType wantedName) :=
  (typeWord wantedType).bind fun _ ↦ (expect .identifier wantedName).bind fun _ ↦ .pure _

theorem parameters (scope : Nat) : Mild (Check.parameters scope) := by
  have hround (before : List TypedName) : Mild (Check.parameterRound scope before) :=
    (typedName _ _).bind fun p ↦ (modifyGet _).bind fun _ ↦ .otherwise (.refuse (by simp)) <|
      .after (.next? .comma) fun _ ↦ .ite (advance.discard.bind fun _ ↦ .pure _) (.pure _)
  exact .after (.next? .rightParen) fun _ ↦ .ite (.pure _) (roundsWhile (.pure true) hround)

theorem bodyRange : Mild Check.bodyRange :=
  .after (.next? .leftBrace) fun _ ↦ .otherwise (mark .leftBrace) <| .after .here fun _ ↦
    .after (.matchingClose _) fun _ ↦ (moveTo _).bind fun _ ↦ .pure _

theorem recordFunction (keyword : Nat) (name : Token) (info : FunctionInfo) :
    Mild (Check.recordFunction keyword name info) :=
  fun c _ ↦ ensures_recordFunction_iff.2 (declareGlobal _ name c _)

theorem functionHeader : Mild Check.functionHeader := by
  refine .after .here fun keyword ↦ advance.discard.bind fun _ ↦ advance.bind fun typeToken ↦ ?_
  split
  · exact .violateAt (by simp)
  · exact (expect .identifier .functionName).bind fun name ↦ (requireFree .function name).bind fun _ ↦
      (modifyGet _).bind fun scope ↦ (mark .leftParen).bind fun _ ↦ (parameters scope).bind fun _ ↦
        (mark .rightParen).bind fun _ ↦ bodyRange.bind fun _ ↦ recordFunction keyword name _

theorem entryPointHeader : Mild Check.entryPointHeader :=
  .after .here fun keyword ↦ advance.bind fun name ↦ (isRecorded _).bind fun _ ↦
    .guard (.violateAt (by simp)) <| (modifyGet _).bind fun _ ↦ (mark .leftParen).bind fun _ ↦
      (mark .rightParen).bind fun _ ↦ bodyRange.bind fun _ ↦ recordFunction keyword name _

theorem structHeader : Mild Check.structHeader := by
  have hround (structName : String) (before : List TypedName) :
      Mild (Check.memberRound structName before) :=
    (typedName _ _).bind fun _ ↦ .guard (.refuse (by simp)) <|
      (mark .semicolon).bind fun _ ↦ .pure _
  exact advance.discard.bind fun _ ↦ (expect .identifier .structName).bind fun name ↦
    (requireFree .struct name).bind fun _ ↦ (mark .leftBrace).bind fun _ ↦
      (roundsWhile (.after (.next? .rightBrace) fun _ ↦ .pure _) (hround name.lexeme)).bind fun _ ↦
        (mark .rightBrace).bind fun _ ↦ (mark .semicolon).bind fun _ ↦ declareGlobal _ _

theorem headerRound : Mild Check.headerRound := by
  refine .after .peekKind fun k ↦ ?_
  split
  · exact functionHeader
  · exact entryPointHeader
  · exact structHeader
  · exact .after .here fun _ ↦ .after (.matchingClose _) fun _ ↦ moveTo _
  · exact .after .here fun _ ↦ moveTo _

theorem headers : Mild Check.headers :=
  (roundsWhile (.after (.next? .eof) fun _ ↦ .pure _) fun _ ↦ headerRound.bind fun _ ↦ .pure _).bind
    fun _ ↦ (isRecorded _).bind fun _ ↦ .ite (.pure _) (.violate (by simp))

theorem skipStruct : Mild Check.skipStruct :=
  (roundsWhile (.after (.next? .leftBrace) fun _ ↦ .pure _) fun _ ↦ .after (.next? .eof) fun _ ↦
    .guard (.violate (by simp)) (advance.discard.bind fun _ ↦ .pure _)).bind fun _ ↦
      .after .here fun _ ↦
      .after (.matchingClose _) fun _ ↦ (moveTo _).bind fun _ ↦ mark .semicolon

theorem signature (name : String) : Mild (Check.signature name) := by
  refine .after .get fun s ↦ ?_
  split
  · split
    · exact .pure _
    · exact .violate (by simp)
  · exact .violate (by simp)

end Mild

/-! ### Harmless stretches -/

section

variable {M : Lookups} {c : Context} {f s : State} {i j : Nat} {name : Token} {info : FunctionInfo}
  {E : SemanticError → Prop}

theorem TypedNameAt.sound {n : TypedName} (h : TypedNameAt c i n) : SoundTo M c.text i (i + 2) := by
  obtain ⟨hword, -⟩ := Option.filter_eq_some_iff.1 h.type
  refine SoundTo.trans (.token rfl ?_) (.token h.kind rfl)
  cases hk : c.kindAt i <;> rw [hk] at hword <;> first | rfl | cases hword

theorem TypedNamesAt.sound {mark : Kind} {ns : List TypedName} (h : TypedNamesAt c mark i ns j)
    (hmark : mark.isHarmless) : SoundTo M c.text i j := by
  induction h with
  | nil => exact .refl M c.text i
  | snoc _ hname hafter ih => exact (ih.trans hname.sound).trans (.token hafter hmark)

theorem ParametersAt.sound {ns : List TypedName} (h : ParametersAt c i ns j) :
    SoundTo M c.text i j := by
  cases h with
  | none => exact .refl M c.text i
  | some h hname => exact (h.sound rfl).trans hname.sound

/-- The header of a function up to the start of its body. -/
theorem HeaderAt.sound (h : HeaderAt c i name info)
    (hopens : ∃ opening, info.body.start = opening + 1 ∧ c.kindAt opening = .leftBrace) :
    SoundTo M c.text i info.body.start := by
  obtain ⟨opening, hopening, hbrace⟩ := hopens
  cases h with
  | @function j word returns kind _ opens parameters closes start =>
    obtain rfl : opening = j + 1 := by omega
    have htype : SoundTo M c.text (i + 1) (i + 2) := by
      refine .token rfl ?_
      cases hk : c.kindAt (i + 1) <;> rw [hk] at returns <;> first | rfl | cases returns
    have hname := (((SoundTo.token word rfl).trans htype).trans (.token kind rfl)).trans
      (.token opens rfl)
    exact hopening ▸ ((hname.trans parameters.sound).trans (.token closes rfl)).trans
      (.token hbrace rfl)
  | entryPoint word _ opens closes _ _ start =>
    obtain rfl : opening = i + 3 := by omega
    exact hopening ▸ (((SoundTo.token word rfl).trans (.token opens rfl)).trans
      (.token closes rfl)).trans (.token hbrace rfl)

theorem StructAt.sound {members : List TypedName} {stop : Nat}
    (h : StructAt c i name members stop) : SoundTo M c.text i (stop + 2) :=
  ((((SoundTo.token h.word rfl).trans (.token h.kind rfl)).trans (.token h.opens rfl)).trans
    (h.members.sound rfl)).trans ((SoundTo.token h.closes rfl).trans (.token h.ends rfl))

/-! ### Bodies and rounds -/

/-- The statements of a body with the brace that closes it. -/
theorem secures_bodyStatements (hc : c.Closed) (name : String) (info : FunctionInfo)
    (hfresh : Fresh c.kindAt info.body.start) :
    Secures M (bodyStatements name info) c s (Justified c.text) fun _ _ ↦
      SoundTo M c.text info.body.start (info.body.stop + 1) := by
  simp only [bodyStatements, secures_bind, secures_read, secures_withReader, secures_modify,
    secures_discard, secures_here, secures_ite, secures_violate, secures_pure]
  have hstatements : Careful M (fun _ ↦ True) (statementsOf c) :=
    .statementsUntil (.statement c.limits.nesting) [.rightBrace]
  refine ((hstatements (c := inFunction name info c)
    (s := { s with position := info.body.start, sawReturn := false }) hc hfresh trivial).and
      (walks_statementsUntil (walks_statement c.limits.nesting) [.rightBrace] _ _ hc)).mono ?_
  rintro _ after ⟨hsound, -, hclose⟩
  refine ⟨fun _ ↦ .of_ne (by simp), fun hstop ↦ ?_⟩
  have hstop : after.position = info.body.stop := Decidable.not_not.1 hstop
  have hclose : (inFunction name info c).kindAt after.position = .rightBrace := by
    simpa using hclose
  exact hstop ▸ SoundTo.trans hsound (.token hclose rfl)

theorem secures_functionBody (hc : c.Closed) (hheader : HeaderAt c s.position name info)
    (hbody : IsBody c info.body) (hinfo : s.arena.body? name.lexeme = some info.body) :
    Secures M (functionBody name.lexeme) c s (Justified c.text) fun _ after ↦
      SoundTo M c.text s.position after.position := by
  obtain ⟨opening, hstart, hbraced⟩ := hbody
  simp only [functionBody, secures_bind]
  refine .of_ensures (((Mild.signature name.lexeme c s).and (ensures_signature
    (E := fun _ ↦ True) hinfo)).imp (fun _ ↦ .of_ne) ?_)
  rintro ⟨found, position⟩ _ ⟨-, rfl, hfound⟩
  have hfound : found.body = info.body := hfound
  have hfresh : Fresh c.kindAt found.body.start := by
    rw [hfound, hstart]
    exact fresh_succ (by simp [hbraced.opens])
  refine (secures_bodyStatements hc name.lexeme found hfresh).mono fun _ after hsound ↦ ?_
  rw [hfound] at hsound ⊢
  have hall := (hheader.sound ⟨opening, hstart, hbraced.opens⟩).trans hsound
  simp only [secures_moveTo, secures_get, recordReturn, secures_modify, secures_ite,
    secures_refuse, secures_pure]
  exact ⟨fun _ ↦ .of_ne (by simp), fun _ ↦ hall⟩

/-- What a round passes is sound. -/
theorem secures_programRound (hc : c.Closed) (hfresh : Fresh c.kindAt s.position)
    (h : InStep c f s) :
    Secures M programRound c s (Justified c.text) fun _ after ↦
      SoundTo M c.text s.position after.position := by
  obtain ⟨⟨symbols, hlaid⟩, hkeeps⟩ := h
  by_cases hword : c.kindAt s.position = .functionWord ∨ c.kindAt s.position = .mainWord
  · obtain ⟨name, info, rest, -, hheader, hlookup, hrecorded, hbody, -, -⟩ := hlaid.of_function hword
    rw [secures_congr (run_programRound_function hword (hkeeps.headers ▸ hlookup) [])]
    exact secures_functionBody hc hheader hbody (hkeeps.bodies _ _ hrecorded.body?)
  · simp only [programRound, secures_bind, secures_peekKind]
    split
    next hk => exact absurd (.inl hk) hword
    next hk => exact absurd (.inr hk) hword
    next hk =>
      obtain ⟨name, members, m, rest, -, hstruct, -⟩ := hlaid.of_struct hk
      refine .of_ensures (((Mild.skipStruct c s).and (ensures_skipStruct hk hstruct.kind
        hstruct.opens (hstruct.members.balanced rfl) hstruct.closes hstruct.ends)).imp
          (fun _ ↦ .of_ne) ?_)
      rintro _ _ ⟨-, rfl⟩
      exact hstruct.sound
    next =>
      rw [secures_bind, secures_read]
      exact Careful.discard (P := fun _ ↦ True) (.statement c.limits.nesting) hc hfresh trivial

/-- In a program that is checked successfully all tokens are used as they may be. -/
theorem secures_program (hc : c.Closed) (hw : c.Worded) (hs : Orderly s) (hstart : s.position = 0)
    (hlast : ∀ k, c.kindAt k = .eof → c.tokens.size ≤ k + 1) :
    Secures M program c s (Justified c.text) fun _ _ ↦ ∀ k, Sound M c.text k := by
  simp only [program, secures_bind, secures_read, secures_ite, secures_violate]
  refine ⟨fun _ ↦ .of_ne (by simp), fun _ ↦ ?_⟩
  refine .of_ensures (((Mild.headers c s).and (ensures_headers hc hw hs)).imp (fun _ ↦ .of_ne) ?_)
  rintro _ f ⟨-, symbols, hf⟩
  have hlaid := hf.laid
  rw [hstart] at hlaid
  rw [secures_moveTo]
  refine secures_roundsWhile (fun _ ↦ .of_ne (by simp)) (I := fun _ after ↦
    InStep c f after ∧ SoundTo M c.text 0 after.position)
    ⟨⟨⟨symbols, hlaid⟩, (SameTables.movedTo.2 (.refl f)).keeps⟩, .refl M c.text 0⟩ ?_
  rintro _ after ⟨hstep, hsound⟩
  simp only [secures_bind, atEnd, secures_next?, secures_pure]
  refine ⟨fun hmore ↦ ?_, fun hend k ↦ ?_⟩
  · have hmore : c.kindAt after.position ≠ .eof := by simpa using hmore
    have hfresh := hsound.fresh (fresh_zero c.kindAt)
    refine ((secures_programRound hc hfresh hstep).and (ensures_programRound hc hstep)).mono ?_
    rintro _ later ⟨hpassed, hlater, -⟩
    exact ⟨hlater, hsound.trans hpassed⟩
  · have hend : c.kindAt after.position = .eof := by simpa using hend
    by_cases hk : k < after.position
    · exact hsound.sound k (Nat.zero_le k) hk
    · -- from the end of the input on no token is of another kind
      refine .of_harmless (?_ : (c.kindAt k).isHarmless)
      by_cases heof : c.kindAt k = .eof
      · rw [heof]
        rfl
      · have hsize := hlast _ hend
        have hlt := Context.lt_size_of_ne_eof heof
        obtain rfl : k = after.position := by omega
        exact absurd hend heof

end

/-- The lookups in the check of a sequence of tokens. -/
def lookupsOf (limits : Limits) (tokens : List Token) : Lookups :=
  .among (program.momentsFrom (.top limits tokens) .initial)

/-- The check of a scanned text refuses a division only because of a literal zero, and if it succeeds
all tokens are used as they may be. -/
theorem ensures_sound (limits : Limits) (wordLimit : Nat) (source : String) :
    let tokens := (scan wordLimit source).tokens
    let text := (Context.top limits tokens).text
    Ensures program (.top limits tokens) .initial (Justified text) fun _ _ ↦
      ∀ k, Sound (lookupsOf limits tokens) text k :=
  (secures_program (closed_scan limits wordLimit source) (worded_scan limits wordLimit source)
    orderly_initial rfl fun _ ↦ size_le_of_eof limits wordLimit source).ensures

end FrontEnd
