import FrontEnd.Proofs.Check.Divisions
import FrontEnd.Proofs.Check.Returns

/-!
# The labels of a switch

Every switch of an accepted program was walked over with its own braces, and its labels are spelt apart
as tokens (`exists_switchAt`).  What a label denotes is told by its spelling in the text.  Integers of
one value have one lexeme, so integer labels denote different numbers.  A character has one lexeme for
each way of writing it between quotes, so character labels denote different characters, except that a
tab or a carriage return may be given twice: once escaped and once as it is.
-/

namespace FrontEnd

open Check

/-- Each word of a switch in a stretch has a body behind it, whose labels are spelt apart. -/
def SwitchesIn (c : Context) (i j : Nat) : Prop :=
  ∀ w, i ≤ w → w < j → c.kindAt w = .switchWord → ∃ opening closing, SwitchAt c w opening closing

/-- The case at an index has a label that is spelled in a way which writes a constant. -/
structure LabelAt (limit : Nat) (source : String) (c : Context) (k : Nat) (spelling : List Char)
    (v : Constant) : Prop where
  word : c.kindAt k = .caseWord
  spelled : Spelled limit source (c.tokenAt (k + 1)) spelling
  constant : Text.constant? spelling = some v

section

variable {c : Context} {f s t : State} {i j m : Nat}

/-! ### Switches of a program -/

namespace SwitchesIn

theorem append (h : SwitchesIn c i m) (h' : SwitchesIn c m j) : SwitchesIn c i j := by
  intro w hi hj hword
  by_cases hm : w < m
  · exact h w hi hm hword
  · exact h' w (Nat.le_of_not_lt hm) hj hword

theorem of_uncontrolled (h : c.text.Uncontrolled i j) : SwitchesIn c i j := by
  intro w hi hj hword
  have hplain := h.plain w hi hj
  rw [show c.text.kind w = .switchWord from hword] at hplain
  cases hplain

end SwitchesIn

/-- A function that is checked successfully has the switches of its body. -/
theorem AtFunction.switchesIn (hf : Headed c f) (hs : Underway c f s) {name : Token}
    {info : FunctionInfo} (h : AtFunction c f s name info)
    (hrun : programRound.runFrom c s = (.ok (), t)) : SwitchesIn c s.position t.position := by
  obtain ⟨p, hsignature⟩ := hs.unchecked.runFrom_signature h.recorded (Nat.le_of_lt h.lt)
  have hbody : Ensures (functionBody name.lexeme) c s (fun _ ↦ True) fun _ _ ↦
      SwitchesIn c info.body.start (info.body.stop + 1) := by
    refine (ensures_functionBody_iff hsignature).2 ?_
    refine (ensures_bodyStatements_noted hf.closed _ _).mono fun _ after hafter ↦ ?_
    obtain ⟨hstop, hclose, hnoted⟩ := hafter
    refine ⟨fun _ ↦ trivial, fun _ ↦ SwitchesIn.append (m := info.body.stop) ?_ ?_⟩
    · exact hstop ▸ hnoted.switches
    · exact .of_uncontrolled (.one hclose rfl)
  have hheader := h.header.uncontrolled h.body
  rw [h.position_eq hf hs hrun]
  exact (SwitchesIn.of_uncontrolled hheader).append (hbody.of_run (h.runFrom_programRound.symm.trans hrun))

/-- What a round passes has its switches. -/
theorem Underway.switchesIn (hf : Headed c f) (hs : Underway c f s)
    (hrun : programRound.runFrom c s = (.ok (), t)) : SwitchesIn c s.position t.position := by
  by_cases hword : c.startsFunction s.position
  · obtain ⟨name, info, hat⟩ := hs.atFunction hword
    exact hat.switchesIn hf hs hrun
  obtain ⟨symbols, hlaid⟩ := hs.unchecked.inStep.laid
  have hround : Ensures programRound c s (fun _ ↦ True) fun _ after ↦
      SwitchesIn c s.position after.position := by
    simp only [programRound, ensures_bind, ensures_peekKind]
    split
    next hk => exact absurd (by simp [Context.startsFunction, hk]) hword
    next hk => exact absurd (by simp [Context.startsFunction, hk]) hword
    next hk =>
      obtain ⟨name, members, m, rest, -, hstruct, -⟩ := hlaid.of_struct hk
      refine (ensures_skipStruct hk hstruct.kind hstruct.opens (hstruct.members.balanced rfl)
        hstruct.closes hstruct.ends).imp (fun _ _ ↦ trivial) ?_
      rintro _ _ rfl
      exact .of_uncontrolled hstruct.uncontrolled
    next =>
      simp only [ensures_bind, ensures_read, ensures_discard]
      exact (takesHeed_statement _ c s hf.closed).mono fun _ _ h ↦ h.switches
  exact hround.of_run hrun

/-- When the walk over the bodies has come to its end, it has passed all switches with their bodies. -/
theorem TwoWalks.switchesIn (h : TwoWalks c .initial f t) (hf : Headed c f) :
    SwitchesIn c 0 t.position ∧ c.kindAt t.position = .eof := by
  have hrounds : Ensures (bodyRounds c.limits.scan) c (f.movedTo 0) (fun _ ↦ True) fun _ after ↦
      (Underway c f after ∧ SwitchesIn c 0 after.position) ∧ c.kindAt after.position = .eof := by
    refine ensures_roundsFrom (I := fun _ after ↦ Underway c f after ∧ SwitchesIn c 0 after.position)
      (fun _ ↦ trivial) ?_ _ _ _ ⟨hf.underway, fun w _ hw ↦ absurd hw (Nat.not_lt_zero w)⟩
    rintro _ after ⟨hunder, hpassed⟩
    simp only [ensures_bind, ensures_atEnd, ensures_pure, afterRound_yield]
    refine ⟨fun _ ↦ ?_, fun hend ↦ ⟨⟨hunder, hpassed⟩, by simpa using hend⟩⟩
    refine (ensures_runs _ c after).imp (fun _ _ ↦ trivial) fun _ later hrun ↦ ?_
    exact ⟨(hf.next hunder hrun).1, hpassed.append (hunder.switchesIn hf hrun)⟩
  obtain ⟨⟨-, hpassed⟩, hend⟩ := hrounds.of_run h.bodies
  exact ⟨hpassed, hend⟩

/-- Every switch of an accepted program has a body, whose labels are spelt apart. -/
theorem exists_switchAt {limits : Limits} {wordLimit : Nat} {source : String}
    (haccepted : (analyze limits (scan wordLimit source).tokens).accepted) {w : Nat}
    (hword : (Context.top limits (scan wordLimit source).tokens).kindAt w = .switchWord) :
    ∃ opening closing, SwitchAt (.top limits (scan wordLimit source).tokens) w opening closing := by
  obtain ⟨t, hrun⟩ := runFrom_of_accepted haccepted
  obtain ⟨f, hwalks⟩ := twoWalks_of_run hrun
  have hc := closed_scan limits wordLimit source
  have hw := worded_scan limits wordLimit source
  obtain ⟨hpassed, hend⟩ := hwalks.switchesIn (.of_run hc hw rfl rfl hwalks.headers)
  refine hpassed w (Nat.zero_le w) ?_ hword
  -- the word stands before the end of the input
  have hsize := size_le_of_eof limits wordLimit source hend
  have hlt := Context.lt_size_of_ne_eof (hword ▸ (by decide : Kind.switchWord ≠ Kind.eof))
  refine Nat.lt_of_le_of_ne (by omega) ?_
  rintro rfl
  cases hend.symm.trans hword

/-! ### Values of labels -/

theorem Kind.isConstant_of_mem_labelKinds {k : Kind} {selector : DataType}
    (h : (labelKinds selector).contains k) : k.isConstant := by
  unfold labelKinds at h
  split at h <;> revert h <;> cases k <;> decide

variable {limits : Limits} {wordLimit : Nat} {source : String} {selector : DataType} {k l : Nat}
  {spelling spelling' : List Char} {v : Constant}

/-- The label of a case is an integer or a character, and so it is spelled somewhere in the text. -/
theorem LabelsDiffer.isConstant
    (h : LabelsDiffer (.top limits (scan wordLimit source).tokens) selector i j) (hi : i ≤ k)
    (hj : k < j) (hk : (Context.top limits (scan wordLimit source).tokens).kindAt k = .caseWord) :
    let label := (Context.top limits (scan wordLimit source).tokens).tokenAt (k + 1)
    label ∈ (scan wordLimit source).tokens ∧ label.kind.isConstant := by
  have hconstant := Kind.isConstant_of_mem_labelKinds (h.kinds k hi hj hk)
  have hne : (Context.top limits (scan wordLimit source).tokens).kindAt (k + 1) ≠ .eof := by
    intro heof
    rw [heof] at hconstant
    cases hconstant
  refine ⟨List.mem_of_getElem? (Context.getElem?_of_kindAt_top hne), ?_⟩
  rwa [Context.kind_tokenAt_of_ne_eof hne]

theorem LabelsDiffer.exists_labelAt
    (h : LabelsDiffer (.top limits (scan wordLimit source).tokens) selector i j) (hi : i ≤ k)
    (hj : k < j) (hk : (Context.top limits (scan wordLimit source).tokens).kindAt k = .caseWord) :
    ∃ spelling v,
      LabelAt wordLimit source (.top limits (scan wordLimit source).tokens) k spelling v := by
  obtain ⟨hmem, hconstant⟩ := h.isConstant hi hj hk
  obtain ⟨spelling, hspelled⟩ := exists_spelled_of_isConstant hmem hconstant
  obtain ⟨v, hv, -⟩ := hspelled.writes hconstant
  exact ⟨spelling, v, hk, hspelled, hv⟩

/-- Labels of one value are spelt apart, so they are a tab or a carriage return, escaped and not. -/
theorem LabelsDiffer.exists_writtenTwice
    (h : LabelsDiffer (.top limits (scan wordLimit source).tokens) selector i j) (hi : i ≤ k)
    (hlt : k < l) (hj : l < j)
    (hk : LabelAt wordLimit source (.top limits (scan wordLimit source).tokens) k spelling v)
    (hl : LabelAt wordLimit source (.top limits (scan wordLimit source).tokens) l spelling' v) :
    ∃ e ∈ ['t', 'r'], v = .character (Text.unescaped e) ∧
      (Text.WrittenTwice e spelling spelling' ∨ Text.WrittenTwice e spelling' spelling) := by
  have hconstant := (h.isConstant hi (Nat.lt_trans hlt hj) hk.word).2
  have hconstant' := (h.isConstant (Nat.le_trans hi (Nat.le_of_lt hlt)) hj hl.word).2
  obtain ⟨u, hu, hwrites⟩ := hk.spelled.writes hconstant
  obtain ⟨u', hu', hwrites'⟩ := hl.spelled.writes hconstant'
  obtain rfl : u = v := Option.some.inj (hu.symm.trans hk.constant)
  obtain rfl : u' = u := Option.some.inj (hu'.symm.trans hl.constant)
  exact Text.exists_writtenTwice hu hu' hwrites hwrites' (h.differ k l hi hlt hj hk.word hl.word)

end

/-- The labels of a switch denote different values.

Take the tokens of any text that the check accepts.  Behind every word of a switch stand the braces of
its body, and every case between them has a label that is spelled in the text and writes an integer or
a character.  Two of the labels write the same value only if it is a tab or a carriage return, which one
of them writes with an escape and the other as the character itself: integers are told apart however
many zeros or marks they are spelled with, and so are all other characters. -/
theorem case_labels_are_distinct (limits : Limits) (wordLimit : Nat) (source : String) :
    let tokens := (scan wordLimit source).tokens
    let c := Context.top limits tokens
    (analyze limits tokens).accepted → ∀ w, c.kindAt w = .switchWord →
      ∃ opening closing, SwitchAt c w opening closing ∧
        (∀ k, opening < k → k < closing → c.kindAt k = .caseWord →
          ∃ spelling v, LabelAt wordLimit source c k spelling v) ∧
        ∀ k l, opening < k → k < l → l < closing → ∀ spelling spelling' v,
          LabelAt wordLimit source c k spelling v → LabelAt wordLimit source c l spelling' v →
            ∃ e ∈ ['t', 'r'], v = .character (Text.unescaped e) ∧
              (Text.WrittenTwice e spelling spelling' ∨ Text.WrittenTwice e spelling' spelling) := by
  intro tokens c haccepted w hword
  obtain ⟨opening, closing, hat⟩ := exists_switchAt haccepted hword
  obtain ⟨selector, hlabels⟩ := hat.labels
  refine ⟨opening, closing, hat, fun k hk hclosing hcase ↦ ?_, ?_⟩
  · exact hlabels.exists_labelAt hk hclosing hcase
  · intro k l hk hlt hclosing spelling spelling' v hlabel hlabel'
    exact hlabels.exists_writtenTwice hk hlt hclosing hlabel hlabel'

/-- A program with a switch over numbers, which are spelled with zeros and with a mark. -/
def labelledProgram : String :=
  "mn() \x7b nt n = 1; swtch (n) \x7b cs 007: brk; cs ~7: brk; cs 70: brk; \x7d end; \x7d"

/-- In one program the labels of the switch denote three numbers. -/
theorem case_labels_are_distinct_labelledProgram :
    let c := Context.top .default (scan 64 labelledProgram).tokens
    (analyze .default (scan 64 labelledProgram).tokens).accepted ∧
      ∃ w opening closing, c.kindAt w = .switchWord ∧ SwitchAt c w opening closing ∧
        ∀ k l, opening < k → k < l → l < closing → ∀ spelling spelling' n m,
          LabelAt 64 labelledProgram c k spelling (.integer n) →
            LabelAt 64 labelledProgram c l spelling' (.integer m) → n ≠ m := by
  intro c
  obtain ⟨haccepted, hword⟩ : (analyze .default (scan 64 labelledProgram).tokens).accepted = true ∧
      c.kindAt 9 = .switchWord := by
    decide +kernel
  obtain ⟨opening, closing, hat, -, hdiffer⟩ :=
    case_labels_are_distinct .default 64 labelledProgram haccepted 9 hword
  refine ⟨haccepted, 9, opening, closing, hword, hat, ?_⟩
  rintro k l hk hlt hclosing spelling spelling' n _ hlabel hlabel' rfl
  obtain ⟨_, -, hcharacter, -⟩ := hdiffer k l hk hlt hclosing _ _ _ hlabel hlabel'
  cases hcharacter

/-- A program with a switch over characters that has the tab twice, escaped and not. -/
def tabbedProgram : String :=
  "mn() \x7b chr c = 'a'; swtch (c) \x7b cs '\\t': brk; cs '\t': brk; \x7d end; \x7d"

/-- A switch of an accepted program can have two labels that denote one character. -/
theorem exists_labels_of_one_value :
    let c := Context.top .default (scan 64 tabbedProgram).tokens
    (scan 64 tabbedProgram).clean ∧ (analyze .default (scan 64 tabbedProgram).tokens).accepted ∧
      ∃ w opening closing k l spelling spelling' v, c.kindAt w = .switchWord ∧
        SwitchAt c w opening closing ∧ opening < k ∧ k < l ∧ l < closing ∧
          LabelAt 64 tabbedProgram c k spelling v ∧ LabelAt 64 tabbedProgram c l spelling' v := by
  intro c
  obtain ⟨hclean, haccepted, hword, hfirst, hopens, hinside, hcase, hcase', hescaped, hraw⟩ :
      (scan 64 tabbedProgram).clean = true ∧
      (analyze .default (scan 64 tabbedProgram).tokens).accepted = true ∧
      c.kindAt 9 = .switchWord ∧ (∀ k ∈ List.range' 10 3, c.kindAt k ≠ .leftBrace) ∧
      c.kindAt 13 = .leftBrace ∧ (∀ k ∈ List.range' 14 6, c.kindAt k ≠ .rightBrace) ∧
      c.kindAt 14 = .caseWord ∧ c.kindAt 19 = .caseWord ∧
      Spelled 64 tabbedProgram (c.tokenAt 15) (Text.singleQuoted ['\\', 't']) ∧
      Spelled 64 tabbedProgram (c.tokenAt 20) (Text.singleQuoted ['\t']) := by
    decide +kernel
  obtain ⟨opening, closing, hat⟩ := exists_switchAt haccepted hword
  -- the first brace behind the word opens the body, and none closes it before the second case
  have hopening : opening = 13 := by
    rcases Nat.lt_trichotomy opening 13 with hlt | heq | hgt
    · have hmem : opening ∈ List.range' 10 3 := List.mem_range'_1.2 ⟨hat.lt, hlt⟩
      exact absurd hat.opens (hfirst opening hmem)
    · exact heq
    · exact absurd hopens (hat.first 13 (by decide) hgt)
  subst hopening
  have hclosing : 19 < closing := by
    by_contra hle
    have hstart : 14 ≤ closing := hat.balanced.le
    exact hinside closing (List.mem_range'_1.2 ⟨hstart, by omega⟩) hat.closes
  exact ⟨hclean, haccepted, 9, 13, closing, 14, 19, _, _, .character '\t', hword, hat, by decide,
    by decide, hclosing, ⟨hcase, hescaped, rfl⟩, ⟨hcase', hraw, rfl⟩⟩

end FrontEnd
