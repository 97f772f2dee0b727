import FrontEnd.Proofs.Check.Statements
import FrontEnd.Proofs.Check.Straight

/-!
# The words of control flow that a walk passes

A walk over statements takes heed of the words it passes (`Heeds`): a return was seen exactly if one
of them returns, each switch has a body of its own whose labels are spelt apart (`SwitchAt`), and
inside a switch no other case is passed than its own.

What goes straight takes heed, and so does what passes no other words than those of conditionals, loops
and jumps.  The labels of a switch are followed from round to round (`CasesHeeded`).
-/

namespace FrontEnd

open Check

/-- The labels of the cases in a stretch are of the kinds a selector admits, no two of one spelling. -/
structure LabelsDiffer (c : Context) (selector : DataType) (i j : Nat) : Prop where
  kinds : ∀ k, i ≤ k → k < j → c.kindAt k = .caseWord →
    (labelKinds selector).contains (c.kindAt (k + 1))
  differ : ∀ k l, i ≤ k → k < l → l < j → c.kindAt k = .caseWord → c.kindAt l = .caseWord →
    (c.tokenAt (k + 1)).lexeme ≠ (c.tokenAt (l + 1)).lexeme

/-- The word of a switch stands at an index, and the braces of its body, the first behind it, stand at
two others. -/
structure SwitchAt (c : Context) (word opening closing : Nat) : Prop where
  lt : word < opening
  first : ∀ k, word < k → k < opening → c.kindAt k ≠ .leftBrace
  opens : c.kindAt opening = .leftBrace
  balanced : Balanced c.kindAt (opening + 1) closing
  closes : c.kindAt closing = .rightBrace
  labels : ∃ selector, LabelsDiffer c selector (opening + 1) closing

/-- A walk from one state to the other took heed of the returns and switches it passed. -/
structure Noted (c : Context) (s after : State) : Prop where
  le : s.position ≤ after.position
  sawReturn : after.sawReturn = true ↔ s.sawReturn = true ∨
    ∃ k, s.position ≤ k ∧ k < after.position ∧ c.kindAt k = .returnWord
  switches : ∀ w, s.position ≤ w → w < after.position → c.kindAt w = .switchWord →
    ∃ opening closing, SwitchAt c w opening closing

/-- A walk took heed of the words it passed, and inside a switch it passed no case. -/
structure Heeds (c : Context) (s after : State) : Prop extends Noted c s after where
  caseless : .switch ∈ c.blocks → ∀ k, s.position ≤ k → k < after.position → c.kindAt k ≠ .caseWord

/-- A walk over cases of a switch: it took heed of the words, and the labels it passed are known. -/
structure CasesHeeded (c : Context) (selector : DataType) (s : State) (soFar : SwitchSoFar)
    (after : State) : Prop extends Noted c s after where
  labels : LabelsDiffer c selector s.position after.position
  known : ∀ k, s.position ≤ k → k < after.position → c.kindAt k = .caseWord →
    (c.tokenAt (k + 1)).lexeme ∈ soFar.labels

/-- A check that takes heed from a state, where it succeeds. -/
def HeedsFrom {α : Type} (x : Check α) (c : Context) (s : State) : Prop :=
  Ensures x c s (fun _ ↦ True) fun _ after ↦ Heeds c s after

/-- A check that takes heed wherever it succeeds. -/
def TakesHeed {α : Type} (x : Check α) : Prop :=
  ∀ c s, c.Closed → HeedsFrom x c s

section

variable {α β σ : Type} {x y : Check α} {f : α → Check β} {c d : Context}
  {s after later : State} {k : Kind} {i j m : Nat} {selector : DataType} {soFar : SwitchSoFar}

/-! ### Labels -/

namespace LabelsDiffer

/-- Where no case stands there is no label. -/
theorem of_caseless (h : ∀ k, i ≤ k → k < j → c.kindAt k ≠ .caseWord) :
    LabelsDiffer c selector i j :=
  ⟨fun k hi hj hk ↦ absurd hk (h k hi hj), fun k _ hi hlt hj hk _ ↦
    absurd hk (h k hi (Nat.lt_trans hlt hj))⟩

/-- Behind some cases stands another stretch, whose labels are others. -/
theorem append (h : LabelsDiffer c selector i j) (h' : LabelsDiffer c selector j m)
    (hother : ∀ k l, i ≤ k → k < j → j ≤ l → l < m → c.kindAt k = .caseWord →
      c.kindAt l = .caseWord → (c.tokenAt (k + 1)).lexeme ≠ (c.tokenAt (l + 1)).lexeme) :
    LabelsDiffer c selector i m := by
  refine ⟨fun k hi hm hk ↦ ?_, fun k l hi hlt hm hk hl ↦ ?_⟩
  · by_cases hj : k < j
    · exact h.kinds k hi hj hk
    · exact h'.kinds k (Nat.le_of_not_lt hj) hm hk
  by_cases hl' : l < j
  · exact h.differ k l hi hlt hl' hk hl
  by_cases hk' : k < j
  · exact hother k l hi hk' (Nat.le_of_not_lt hl') hm hk hl
  · exact h'.differ k l (Nat.le_of_not_lt hk') hlt hm hk hl

end LabelsDiffer

/-! ### What was noted -/

namespace Noted

theorem trans (h : Noted c s after) (h' : Noted c after later) : Noted c s later := by
  refine ⟨Nat.le_trans h.le h'.le, ?_, fun w hs hlater hw ↦ ?_⟩
  · rw [h'.sawReturn, h.sawReturn, or_assoc]
    refine or_congr_right ⟨?_, fun ⟨k, hs, hlater, hk⟩ ↦ ?_⟩
    · rintro (⟨k, hs, hafter, hk⟩ | ⟨k, hafter, hlater, hk⟩)
      · exact ⟨k, hs, Nat.lt_of_lt_of_le hafter h'.le, hk⟩
      · exact ⟨k, Nat.le_trans h.le hafter, hlater, hk⟩
    · by_cases hafter : k < after.position
      · exact .inl ⟨k, hs, hafter, hk⟩
      · exact .inr ⟨k, Nat.le_of_not_lt hafter, hlater, hk⟩
  · by_cases hafter : w < after.position
    · exact h.switches w hs hafter hw
    · exact h'.switches w (Nat.le_of_not_lt hafter) hlater hw

/-- The word of a switch is passed, with a body behind it. -/
theorem switch (hword : c.kindAt s.position = .switchWord)
    (h : ∃ opening closing, SwitchAt c s.position opening closing) :
    Noted c s (s.movedTo (s.position + 1)) := by
  have hone {k : Nat} (hs : s.position ≤ k) (hlater : k < s.position + 1) : k = s.position := by
    omega
  refine ⟨Nat.le_succ _, (or_iff_left ?_).symm, fun w hs hlater _ ↦ hone hs hlater ▸ h⟩
  rintro ⟨k, hs, hlater, hk⟩
  cases hword.symm.trans (hone hs hlater ▸ hk)

/-- What was noted is a matter of the tokens alone. -/
theorem of_tokens (h : Noted d s after) (htokens : d.tokens = c.tokens) (hlast : d.last = c.last) :
    Noted c s after := by
  have hkind : d.kindAt = c.kindAt := by
    unfold Context.kindAt
    rw [htokens]
  have htoken : d.tokenAt = c.tokenAt := by
    unfold Context.tokenAt
    rw [htokens, hlast]
  refine ⟨h.le, hkind ▸ h.sawReturn, fun w hs hafter hw ↦ ?_⟩
  obtain ⟨opening, closing, hat⟩ := h.switches w hs hafter (hkind ▸ hw)
  obtain ⟨selector, hlabels⟩ := hat.labels
  refine ⟨opening, closing, hat.lt, hkind ▸ hat.first, hkind ▸ hat.opens, hkind ▸ hat.balanced,
    hkind ▸ hat.closes, selector, hkind ▸ hlabels.kinds, ?_⟩
  exact hkind ▸ htoken ▸ hlabels.differ

end Noted

namespace Heeds

theorem of_straight (h : Straight c s after) : Heeds c s after := by
  have hnone {k : Nat} {word : Kind} (hword : word.isControl) (hs : s.position ≤ k)
      (hafter : k < after.position) : c.kindAt k ≠ word := by
    rintro rfl
    exact absurd hword (by simp [h.plain k hs hafter])
  refine ⟨⟨h.le, ?_, fun w hs hafter hw ↦ absurd hw (hnone rfl hs hafter)⟩,
    fun _ k hs hafter ↦ hnone rfl hs hafter⟩
  rw [h.sawReturn]
  exact (or_iff_left fun ⟨k, hs, hafter, hk⟩ ↦ hnone rfl hs hafter hk).symm

theorem refl (c : Context) (s : State) : Heeds c s s :=
  of_straight (.refl c s)

theorem trans (h : Heeds c s after) (h' : Heeds c after later) : Heeds c s later := by
  refine ⟨h.toNoted.trans h'.toNoted, fun hswitch k hs hlater ↦ ?_⟩
  by_cases hk : k < after.position
  · exact h.caseless hswitch k hs hk
  · exact h'.caseless hswitch k (Nat.le_of_not_lt hk) hlater

/-- One token is passed that is no word to take heed of. -/
theorem step (hk : c.kindAt s.position = k)
    (hword : [.returnWord, .switchWord, .caseWord].contains k = false) :
    Heeds c s (s.movedTo (c.after s.position)) := by
  have hle : s.position ≤ c.after s.position ∧ c.after s.position ≤ s.position + 1 := by
    unfold Context.after
    split <;> omega
  have hnone {i : Nat} {word : Kind} (hmem : [.returnWord, .switchWord, .caseWord].contains word)
      (hs : s.position ≤ i) (hafter : i < c.after s.position) : c.kindAt i ≠ word := by
    obtain rfl : i = s.position := by omega
    rintro rfl
    exact absurd hmem (by rw [hk, hword]; exact Bool.false_ne_true)
  refine ⟨⟨hle.1, ?_, fun w hs hafter hw ↦ absurd hw (hnone rfl hs hafter)⟩,
    fun _ i hs hafter ↦ hnone rfl hs hafter⟩
  exact (or_iff_left fun ⟨i, hs, hafter, hi⟩ ↦ hnone rfl hs hafter hi).symm

/-- The word that returns and a straight walk behind it. -/
theorem returned (hword : c.kindAt s.position = .returnWord)
    (h : Straight c (s.movedTo (c.after s.position)) after) :
    Heeds c s { after with sawReturn := true } := by
  have hnext := Context.after_of_kindAt hword (by simp)
  have hle : s.position + 1 ≤ after.position := hnext ▸ h.le
  -- behind the word there is no other one
  have hnone {i : Nat} {word : Kind} (hcontrol : word.isControl) (hne : word ≠ .returnWord)
      (hs : s.position ≤ i) (hafter : i < after.position) : c.kindAt i ≠ word := by
    rintro rfl
    obtain rfl | hlt := Nat.eq_or_lt_of_le hs
    · exact hne hword
    · have hplain := h.plain i (show c.after s.position ≤ i by omega) hafter
      exact absurd hcontrol (by simp [hplain])
  exact ⟨⟨Nat.le_of_succ_le hle, iff_of_true rfl (.inr ⟨s.position, Nat.le_refl _, hle, hword⟩),
    fun w hs hafter hw ↦ absurd hw (hnone rfl (by simp) hs hafter)⟩,
    fun _ i hs hafter ↦ hnone rfl (by simp) hs hafter⟩

end Heeds

/-! ### From a state -/

namespace HeedsFrom

theorem of_straight (h : StraightFrom x c s) : HeedsFrom x c s :=
  Ensures.mono h fun _ _ ↦ .of_straight

theorem bind (hx : HeedsFrom x c s)
    (hf : ∀ a after, x.runFrom c s = (.ok a, after) → HeedsFrom (f a) c after) :
    HeedsFrom (x >>= f) c s := by
  refine ensures_bind f |>.2 ((hx.and (ensures_runs x c s)).mono fun a after h ↦ ?_)
  exact (hf a after h.2).mono fun _ _ hrest ↦ h.1.trans hrest

theorem ite {p : Prop} [Decidable p] (hx : p → HeedsFrom x c s) (hy : ¬p → HeedsFrom y c s) :
    HeedsFrom (if p then x else y) c s :=
  (ensures_ite p y).2 ⟨hx, hy⟩

theorem advance (hk : c.kindAt s.position = k)
    (hword : [.returnWord, .switchWord, .caseWord].contains k = false) :
    HeedsFrom Check.advance c s :=
  ensures_advance.2 (.step hk hword)

/-- A token that is no word to take heed of, and what goes on behind it. -/
theorem pass (hk : c.kindAt s.position = k)
    (hword : [.returnWord, .switchWord, .caseWord].contains k = false) {f : PUnit → Check β}
    (hf : HeedsFrom (f ⟨⟩) c (s.movedTo (c.after s.position))) :
    HeedsFrom (discard Check.advance >>= f) c s := by
  refine (ensures_bind f).2 (ensures_discard.2 (ensures_advance.2 ?_))
  exact hf.mono fun _ _ hrest ↦ (Heeds.step hk hword).trans hrest

end HeedsFrom

/-! ### From everywhere -/

namespace TakesHeed

theorem of_straight (h : GoesStraight x) : TakesHeed x :=
  fun c s hc ↦ .of_straight (h c s hc)

theorem pure (a : α) : TakesHeed (pure a : Check α) :=
  of_straight (.pure a)

theorem bind (hx : TakesHeed x) (hf : ∀ a, TakesHeed (f a)) : TakesHeed (x >>= f) :=
  fun c s hc ↦ (hx c s hc).bind fun a after _ ↦ hf a c after hc

theorem ite {p : Prop} [Decidable p] (hx : TakesHeed x) (hy : TakesHeed y) :
    TakesHeed (if p then x else y) :=
  fun c s hc ↦ .ite (fun _ ↦ hx c s hc) fun _ ↦ hy c s hc

theorem discard (hx : TakesHeed x) : TakesHeed (discard x) :=
  fun c s hc ↦ ensures_discard.2 (hx c s hc)

theorem expectMark (hword : [.returnWord, .switchWord, .caseWord].contains k = false) :
    TakesHeed (Check.expectMark k) :=
  fun _ _ _ ↦ ensures_expectMark.2 ⟨fun h ↦ .step h hword, fun _ ↦ trivial⟩

theorem inBlock (hx : TakesHeed x) (kind : BlockKind) : TakesHeed (Check.inBlock kind x) := by
  intro c s hc
  refine (ensures_inBlock kind).2 ((hx { c with blocks := kind :: c.blocks } s hc).mono ?_)
  intro _ after h
  exact ⟨h.toNoted.of_tokens rfl rfl, fun hswitch ↦ h.caseless (List.mem_cons_of_mem _ hswitch)⟩

theorem inScope (hx : TakesHeed x) (label : String) : TakesHeed (Check.inScope label x) := by
  intro c s hc
  let d : Context := { c with scope := s.arena.size, blockDepth := c.blockDepth + 1 }
  refine (ensures_inScope label).2 ((hx d _ hc).mono fun _ after h ↦ ?_)
  obtain ⟨⟨hle, hsaw, hswitches⟩, hcaseless⟩ := h
  exact ⟨Noted.of_tokens (d := d) ⟨hle, hsaw, hswitches⟩ rfl rfl, hcaseless⟩

theorem roundsWhile {due : Check Bool} {round : σ → Check (ForInStep σ)} {value : σ}
    (hround : ∀ value c s, c.Closed → Ensures due c s (fun _ ↦ True) fun more after ↦
      after = s ∧ (more = true → HeedsFrom (round value) c s)) :
    TakesHeed (Check.roundsWhile due round value) := by
  intro c s hc
  refine ensures_roundsWhile (I := fun _ after ↦ Heeds c s after) (fun _ ↦ trivial)
    (.refl c s) fun value t ht ↦ ?_
  refine (hround value c t hc).mono ?_
  rintro more after ⟨rfl, hmore⟩
  refine ⟨fun h ↦ (hmore h).mono fun r later hlater ↦ ?_, fun _ ↦ ht⟩
  have hwhole := ht.trans hlater
  cases r <;> exact hwhole

/-! ### Blocks and their statements -/

theorem statementsUntil {statement : Check Ending} (h : TakesHeed statement)
    (terminators : List Kind) : TakesHeed (Check.statementsUntil statement terminators) := by
  refine roundsWhile fun last c s hc ↦ ⟨rfl, fun _ ↦ ?_⟩
  refine .bind (of_straight (.of_traced .peekKind) c s hc) fun k after hpeek ↦ ?_
  cases hpeek
  refine .ite (fun _ ↦ pure _ c s hc) fun _ ↦ ?_
  have hrest : TakesHeed (statement >>= fun ending ↦
      (Pure.pure (ForInStep.yield (some ending)) : Check _)) :=
    h.bind fun _ ↦ pure _
  exact .ite (fun _ ↦ .bind (of_straight (.violate _) c s hc) fun _ after _ ↦ hrest c after hc)
    fun _ ↦ hrest c s hc

/-- The check of the statements of a block takes heed, up to every terminator. -/
def Inside (inner : Inner) : Prop :=
  ∀ terminators, TakesHeed (inner terminators)

section

variable {inner : Inner} (hinner : Inside inner)

include hinner

theorem block (label : String) : TakesHeed (Check.block inner label) :=
  (expectMark rfl).discard.bind fun _ ↦ ((hinner _).inScope label).discard.bind fun _ ↦
    (expectMark rfl).discard

/-! ### Conditionals and loops -/

theorem ifStatement (hc : c.Closed) (hword : c.kindAt s.position = .ifWord) (levels : Nat) :
    HeedsFrom (Check.ifStatement levels inner) c s := by
  have hguarded (construct : Guarded) (label : String) : TakesHeed (do
      Check.condition levels construct
      Check.block inner label) :=
    (of_straight (.condition levels construct)).bind fun _ ↦ block hinner label
  have hbranches : TakesHeed (Check.roundsWhile (Check.next? .elseIfWord) (fun _ ↦ do
      Functor.discard Check.advance
      Check.condition levels .elseIfBlock
      Check.block inner "else-if block"
      return .yield ()) ()) := by
    refine roundsWhile fun _ c s hc ↦ ensures_next?.2 ⟨rfl, fun hmore ↦ ?_⟩
    exact .pass (by simpa using hmore) rfl (((of_straight (.condition levels _)).bind fun _ ↦
      (block hinner _).bind fun _ ↦ pure _) c _ hc)
  refine .pass hword rfl (((of_straight (.condition levels _)).bind fun _ ↦
    (block hinner _).bind fun _ ↦ hbranches.bind fun _ ↦ ?_) c _ hc)
  intro c s hc
  refine .bind (of_straight (.next? .elseWord) c s hc) fun more after hnext ↦ ?_
  cases hnext
  exact .ite (fun helse ↦ .pass (by simpa using helse) rfl (block hinner _ c _ hc))
    fun _ ↦ pure _ c s hc

theorem whileStatement (hc : c.Closed) (hword : c.kindAt s.position = .whileWord) (levels : Nat) :
    HeedsFrom (Check.whileStatement levels inner) c s :=
  .pass hword rfl (((of_straight (.condition levels _)).bind fun _ ↦
    (block hinner _).inBlock .loop) c _ hc)

theorem doStatement (hc : c.Closed) (hword : c.kindAt s.position = .doWord) (levels : Nat) :
    HeedsFrom (Check.doStatement levels inner) c s :=
  .pass hword rfl ((((block hinner _).inBlock .loop).bind fun _ ↦ (expectMark rfl).discard.bind
    fun _ ↦ (of_straight (.condition levels _)).bind fun _ ↦ (expectMark rfl).discard) c _ hc)

theorem forStatement (hc : c.Closed) (hword : c.kindAt s.position = .forWord) (levels : Nat) :
    HeedsFrom (Check.forStatement levels inner) c s := by
  have hbody : TakesHeed (do
      Functor.discard (Check.expectMark .rightParen)
      Check.inBlock .loop (Check.block inner "for block")) :=
    (expectMark rfl).discard.bind fun _ ↦ (block hinner _).inBlock .loop
  have hrest (close : Nat) : TakesHeed (do
      if (← Check.here) ≠ close then
        Check.violate (.unexpectedToken (← Check.peek).lexeme .forHeader)
      Functor.discard (Check.expectMark .rightParen)
      Check.inBlock .loop (Check.block inner "for block")) :=
    (of_straight .here).bind fun _ ↦ ite ((of_straight .peek).bind fun _ ↦
      (of_straight (.violate _)).bind fun _ ↦ hbody) hbody
  exact .pass hword rfl (((of_straight .here).bind fun _ ↦ (expectMark rfl).discard.bind fun _ ↦
    (of_straight (.matchingClose _)).bind fun _ ↦ (of_straight (.forStart levels)).bind fun _ ↦
      (of_straight (.forCondition levels)).bind fun _ ↦ (of_straight (.forUpdate levels)).bind
        fun _ ↦ hrest _) c _ hc)

end

end TakesHeed

/-! ### Switches -/

/-- No brace stands in a phrase. -/
theorem Phrase.ne_leftBrace {kind : Nat → Kind} {commas : Bool} (h : Phrase kind commas i j) :
    ∀ k, i ≤ k → k < j → kind k ≠ .leftBrace := by
  induction h with
  | nil => exact fun k hi hj ↦ by omega
  | @plain b i j hi _ ih =>
    intro k hk hj
    obtain rfl | hlt := Nat.eq_or_lt_of_le hk
    · intro hbrace
      rw [hbrace] at hi
      cases hi
    · exact ih k hlt hj
  | @comma i j hi _ ih =>
    intro k hk hj
    obtain rfl | hlt := Nat.eq_or_lt_of_le hk
    · exact hi ▸ by decide
    · exact ih k hlt hj
  | @group b i m j closing hi hbrace _ hm _ ihinner ih =>
    intro k hk hj
    obtain rfl | hlt := Nat.eq_or_lt_of_le hk
    · exact hbrace
    by_cases hinside : k < m
    · exact ihinner k hlt hinside
    obtain rfl | hbehind := Nat.eq_or_lt_of_le (Nat.le_of_not_lt hinside)
    · rw [hm]
      exact Kind.closer?_ne hi rfl
    · exact ih k hbehind hj

/-- A selector is a phrase between parentheses. -/
theorem ensures_inParentheses (hc : c.Closed) (levels : Nat) :
    Ensures (inParentheses levels) c s (fun _ ↦ True) fun _ after ↦
      Straight c s after ∧ Phrase c.kindAt false s.position after.position := by
  suffices hphrase : Ensures (inParentheses levels) c s Unlost fun _ after ↦
      Phrase c.kindAt false s.position after.position from
    .and (GoesStraight.inParentheses levels c s hc) hphrase
  simp only [inParentheses, ensures_bind, ensures_here, ensures_discard, ensures_expectMark,
    ensures_pure]
  refine ⟨fun hopen ↦ ?_, fun _ ↦ unlost_expected _ _⟩
  have hcloser : (c.kindAt s.position).closer? = some .rightParen := by rw [hopen]; rfl
  refine (ensures_matchingClose hcloser).mono ?_
  rintro close _ ⟨rfl, hclose, hbound⟩
  refine (ensures_inside (takePhrases_operand levels) hcloser (by simp [hopen]) hclose
    hbound).mono fun _ _ hinside ↦ ?_
  exact ⟨fun _ ↦ hinside.phrase, fun _ ↦ unlost_expected _ _⟩

namespace CasesHeeded

theorem refl (c : Context) (selector : DataType) (s : State) (soFar : SwitchSoFar) :
    CasesHeeded c selector s soFar s :=
  ⟨(Heeds.refl c s).toNoted, .of_caseless fun _ _ _ ↦ by omega, fun _ _ _ ↦ by omega⟩

/-- The labels known make no difference to what was passed. -/
theorem with_default (h : CasesHeeded c selector s soFar after) (hadDefault : Bool) :
    CasesHeeded c selector s { soFar with hadDefault := hadDefault } after :=
  ⟨h.toNoted, h.labels, h.known⟩

/-- A stretch without cases. -/
theorem append (h : CasesHeeded c selector s soFar after) (h' : Heeds c after later)
    (hswitch : .switch ∈ c.blocks) : CasesHeeded c selector s soFar later := by
  have hcaseless := h'.caseless hswitch
  refine ⟨h.toNoted.trans h'.toNoted, h.labels.append (.of_caseless hcaseless) ?_, ?_⟩
  · exact fun k l _ _ hafter hlater _ hl ↦ absurd hl (hcaseless l hafter hlater)
  · intro k hs hlater hk
    by_cases hafter : k < after.position
    · exact h.known k hs hafter hk
    · exact absurd hk (hcaseless k (Nat.le_of_not_lt hafter) hlater)

/-- The word of a case with a label not known yet. -/
theorem labelled (h : CasesHeeded c selector s soFar after)
    (hword : c.kindAt after.position = .caseWord)
    (hkind : (labelKinds selector).contains (c.kindAt (after.position + 1)))
    (hlabel : (c.tokenAt (after.position + 1)).lexeme ∉ soFar.labels) :
    CasesHeeded c selector s
      { soFar with labels := (c.tokenAt (after.position + 1)).lexeme :: soFar.labels }
      (after.movedTo (after.position + 1)) := by
  have hone {k : Nat} (hafter : after.position ≤ k) (hlater : k < after.position + 1) :
      k = after.position := by omega
  have hstep : Noted c after (after.movedTo (after.position + 1)) := by
    refine ⟨Nat.le_succ _, (or_iff_left ?_).symm, fun w hs hlater hw ↦ ?_⟩
    · rintro ⟨k, hs, hlater, hk⟩
      cases hword.symm.trans (hone hs hlater ▸ hk)
    · cases hword.symm.trans (hone hs hlater ▸ hw)
  refine ⟨h.toNoted.trans hstep, h.labels.append (m := after.position + 1) ⟨?_, ?_⟩ ?_, ?_⟩
  · exact fun k hs hlater _ ↦ hone hs hlater ▸ hkind
  · exact fun k l hs hlt hlater ↦ by omega
  · intro k l hs hafter hl hlater hk _ hsame
    rw [hone hl hlater] at hsame
    exact hlabel (hsame ▸ h.known k hs hafter hk)
  · intro k hs hlater hk
    by_cases hafter : k < after.position
    · exact List.mem_cons_of_mem _ (h.known k hs hafter hk)
    · rw [hone (Nat.le_of_not_lt hafter) hlater]
      exact List.mem_cons_self

end CasesHeeded

/-- A label that is read is of a kind the selector admits, and none known before. -/
theorem ensures_caseLabel_fresh (hc : c.Closed) (selector : DataType) (labels : List String) :
    Ensures (caseLabel selector labels) c s (fun _ ↦ True) fun label after ↦
      label = c.tokenAt s.position ∧ after = s.movedTo (s.position + 1) ∧
        (labelKinds selector).contains (c.kindAt s.position) ∧ label.lexeme ∉ labels := by
  simp only [caseLabel, ensures_bind, ensures_advance, ensures_ite, ensures_violateAt, ensures_pure,
    hc.kind_tokenAt]
  refine ⟨fun hkind ↦ ⟨fun _ ↦ trivial, fun hfresh ↦ ⟨trivial, ?_, hkind, by simpa using hfresh⟩⟩,
    fun _ ↦ trivial⟩
  rw [Context.after_of_ne_eof fun heof ↦ ?_]
  have hordinary := isOrdinary_of_label hkind
  rw [heof] at hordinary
  cases hordinary

section

variable {inner : Inner} (hinner : TakesHeed.Inside inner)

include hinner

theorem takesHeed_caseBlock (keyword : Token) (which : CaseBlock) :
    TakesHeed (caseBlock inner keyword which) := by
  refine (TakesHeed.expectMark rfl).discard.bind fun _ ↦
    (((hinner _).inBlock .case).inScope _).bind fun _ ↦ ?_
  exact .ite (.of_straight (.violateAt _ _)) (.pure _)

/-- A round of a switch takes heed of its labels. -/
theorem ensures_switchRound_heeded (hc : c.Closed) (hswitch : .switch ∈ c.blocks)
    (h : CasesHeeded c selector s soFar after) :
    Ensures (switchRound inner selector soFar) c after (fun _ ↦ True)
      (AfterRound (CasesHeeded c selector s) (CasesHeeded c selector s)) := by
  simp only [switchRound, ensures_bind, ensures_peek, hc.kind_tokenAt]
  split
  next => exact h
  next hword =>
    have hnext := Context.after_of_kindAt hword (by simp)
    simp only [ensures_bind, ensures_discard, ensures_advance, ensures_pure, hnext]
    refine (ensures_caseLabel_fresh hc selector soFar.labels).mono ?_
    rintro label _ ⟨rfl, rfl, hkind, hfresh⟩
    have hlabel : Heeds c (after.movedTo (after.position + 1))
        (after.movedTo (after.position + 1 + 1)) := by
      have hstep := Straight.step (c := c) (s := after.movedTo (after.position + 1))
        (GoesStraight.isControl_of_label hkind)
      rw [State.position_movedTo, Context.after_of_ne_eof fun heof ↦ ?_] at hstep
      · exact .of_straight hstep
      · have hordinary := isOrdinary_of_label hkind
        rw [State.position_movedTo, heof] at hordinary
        cases hordinary
    refine (takesHeed_caseBlock hinner _ _ c _ hc).mono fun _ later hblock ↦ ?_
    exact ((h.labelled hword hkind hfresh).append hlabel hswitch).append hblock hswitch
  next hword =>
    simp only [ensures_bind, ensures_ite, ensures_violateAt, ensures_discard, ensures_advance,
      ensures_pure]
    refine ⟨fun _ ↦ trivial, fun _ ↦ ?_⟩
    refine (takesHeed_caseBlock hinner _ _ c _ hc).mono fun _ later hblock ↦ ?_
    exact ((h.append (.step hword rfl) hswitch).append hblock hswitch).with_default true
  next => trivial
  next => trivial

/-- A switch takes heed of the words inside it, and the braces around its cases are its own. -/
theorem heedsFrom_switchStatement (hwalks : WalksInside inner) (hc : c.Closed)
    (hword : c.kindAt s.position = .switchWord) (levels : Nat) :
    HeedsFrom (switchStatement levels inner) c s := by
  have hnext := Context.after_of_kindAt hword (by simp)
  simp only [HeedsFrom, switchStatement, ensures_bind, ensures_advance, ensures_read, ensures_ite,
    ensures_violateAt, ensures_discard, ensures_expectMark, ensures_inBlock]
  refine ⟨fun _ ↦ trivial, fun houtside ↦ ?_⟩
  refine (ensures_inParentheses hc levels).mono ?_
  rintro found after ⟨hstraight, hphrase⟩
  refine ⟨fun _ ↦ trivial, fun _ ↦ ⟨fun hopen ↦ ?_, fun _ ↦ trivial⟩⟩
  have hopening := Context.after_of_kindAt hopen (by simp)
  rw [hopening]
  -- the cases are walked over inside a switch, where no other case is passed than its own
  let d : Context := { c with blocks := .switch :: c.blocks }
  have hcases : Ensures (rounds (switchRound inner found.1) ⟨[], false⟩) d
      (after.movedTo (after.position + 1)) (fun _ ↦ True)
        (CasesHeeded d found.1 (after.movedTo (after.position + 1))) :=
    ensures_rounds (fun _ ↦ trivial) (.refl d found.1 _ _) fun soFar t ht ↦
      ensures_switchRound_heeded hinner (c := d) hc List.mem_cons_self ht
  have hwalked : Ensures (rounds (switchRound inner found.1) ⟨[], false⟩) d
      (after.movedTo (after.position + 1)) Unlost fun _ later ↦
        Passed d (after.movedTo (after.position + 1)) later :=
    ensures_roundsWhile_of_rel (Passed.refl d) Passed.trans (by simp) (by simp) fun soFar t ↦
      walks_switchRound hwalks found.1 soFar d t hc
  refine (hcases.and hwalked).mono ?_
  rintro soFar later ⟨hlater, hpassed⟩
  refine ⟨fun hclose ↦ ?_, fun _ ↦ trivial⟩
  rw [Context.after_of_kindAt hclose (by simp)]
  have hle : s.position + 1 ≤ after.position := hnext ▸ hstraight.le
  have hlater' : after.position + 1 ≤ later.position := hlater.le
  have hat : SwitchAt c s.position after.position later.position := by
    refine ⟨hle, fun k hlt hbefore ↦ hphrase.ne_leftBrace k ?_ hbefore, hopen, hpassed.balanced,
      hclose, found.1, hlater.labels.kinds, hlater.labels.differ⟩
    rw [State.position_movedTo, hnext]
    exact hlt
  have hbrace : Noted c after (after.movedTo (after.position + 1)) :=
    hopening ▸ (Heeds.step hopen rfl).toNoted
  have hlast : Noted c later (later.movedTo (later.position + 1)) :=
    Context.after_of_kindAt hclose (by simp) ▸ (Heeds.step hclose rfl).toNoted
  have hbefore : Noted c s after :=
    (Noted.switch hword ⟨_, _, hat⟩).trans (hnext ▸ (Heeds.of_straight hstraight).toNoted)
  exact ⟨((hbefore.trans hbrace).trans (hlater.toNoted.of_tokens rfl rfl)).trans hlast,
    fun hswitch ↦ absurd hswitch (by simpa using houtside)⟩

/-! ### All statements -/

omit hinner in
theorem heedsFrom_returnStatement (hc : c.Closed) (hword : c.kindAt s.position = .returnWord)
    (levels : Nat) : HeedsFrom (returnStatement levels) c s := by
  have hend {after : State} (h : Straight c (s.movedTo (c.after s.position)) after) :
      Ensures (expectMark .semicolon) c { after with sawReturn := true } (fun _ ↦ True)
        fun _ later ↦ Heeds c s later := by
    refine ensures_expectMark.2 ⟨fun hsemicolon ↦ ?_, fun _ ↦ trivial⟩
    have hkind : c.kindAt after.position = .semicolon := hsemicolon
    exact .returned hword (h.trans (.step (hkind ▸ rfl)))
  simp only [HeedsFrom, returnStatement, ensures_bind, ensures_advance, ensures_read]
  split
  · trivial
  next f _ =>
    simp only [ensures_bind, ensures_ite, ensures_modify, ensures_discard]
    refine ⟨fun _ ↦ ?_, fun _ ↦ ⟨fun _ ↦ ?_, fun _ ↦ ?_⟩⟩
    · exact (GoesStraight.entryPointReturn _ c _ hc).mono fun _ _ ↦ hend
    · exact (GoesStraight.voidReturn f _ c _ hc).mono fun _ _ ↦ hend
    · exact (GoesStraight.valueReturn levels f _ c _ hc).mono fun _ _ ↦ hend

omit hinner in
/-- A jump or the end of the program, at its word. -/
theorem heedsFrom_jump (hk : c.kindAt s.position = k)
    (hword : [.returnWord, .switchWord, .caseWord].contains k = false) (hc : c.Closed)
    {f : Token → Check β} (hf : ∀ keyword, TakesHeed (f keyword)) :
    HeedsFrom (Check.advance >>= f) c s :=
  .bind (.advance hk hword) fun keyword after _ ↦ hf keyword c after hc

omit hinner in
theorem heedsFrom_breakStatement (hc : c.Closed) (hword : c.kindAt s.position = .breakWord) :
    HeedsFrom breakStatement c s := by
  have hread : GoesStraight (read : Check Context) := .of_traced .read
  refine heedsFrom_jump hword rfl hc fun keyword ↦ .of_straight (hread.bind fun _ ↦ ?_)
  exact .guard (.violateAt _ _) (GoesStraight.expectMark rfl).discard

omit hinner in
theorem heedsFrom_continueStatement (hc : c.Closed) (hword : c.kindAt s.position = .continueWord) :
    HeedsFrom continueStatement c s := by
  have hread : GoesStraight (read : Check Context) := .of_traced .read
  refine heedsFrom_jump hword rfl hc fun keyword ↦ .of_straight (hread.bind fun _ ↦ ?_)
  split
  · exact (GoesStraight.expectMark rfl).discard
  · exact .violateAt _ _
  · exact .violateAt _ _

omit hinner in
theorem heedsFrom_endStatement (hc : c.Closed) (hword : c.kindAt s.position = .endWord) :
    HeedsFrom endStatement c s := by
  have hread : GoesStraight (read : Check Context) := .of_traced .read
  refine heedsFrom_jump hword rfl hc fun keyword ↦ .of_straight (hread.bind fun _ ↦ ?_)
  have hend : GoesStraight (do
      discard (expectMark .semicolon)
      unless ← next? .rightBrace do violateAt .misplacedEnd keyword) :=
    (GoesStraight.expectMark rfl).discard.bind fun _ ↦ (GoesStraight.next? _).bind fun _ ↦
      .ite (.pure _) (.violateAt _ _)
  exact .ite hend ((GoesStraight.violateAt _ _).bind fun _ ↦ hend)

theorem heedsFrom_ordinaryStatement (hwalks : WalksInside inner) (hc : c.Closed) (levels : Nat)
    {t : Token} (ht : t.kind = c.kindAt s.position) :
    HeedsFrom (ordinaryStatement levels inner t) c s := by
  unfold ordinaryStatement
  split
  next => exact .of_straight (GoesStraight.variableDeclaration levels c s hc)
  next => exact .of_straight (GoesStraight.variableDeclaration levels c s hc)
  next => exact .of_straight (GoesStraight.variableDeclaration levels c s hc)
  next => exact .of_straight (GoesStraight.variableDeclaration levels c s hc)
  next => exact .of_straight (GoesStraight.variableDeclaration levels c s hc)
  next hk => exact .of_straight (GoesStraight.constantDeclaration hc (ht.symm.trans hk) levels)
  next hk => exact .of_straight (GoesStraight.instanceDeclaration hc (ht.symm.trans hk))
  next => exact .of_straight (GoesStraight.nameStatement levels c s hc)
  next hk => exact .of_straight (GoesStraight.countStatement hc (ht.symm.trans hk) rfl levels)
  next hk => exact .of_straight (GoesStraight.countStatement hc (ht.symm.trans hk) rfl levels)
  next hk => exact .of_straight (GoesStraight.printStatement hc (ht.symm.trans hk) levels)
  next hk => exact TakesHeed.ifStatement hinner hc (ht.symm.trans hk) levels
  next hk => exact heedsFrom_switchStatement hinner hwalks hc (ht.symm.trans hk) levels
  next hk => exact TakesHeed.forStatement hinner hc (ht.symm.trans hk) levels
  next hk => exact TakesHeed.whileStatement hinner hc (ht.symm.trans hk) levels
  next hk => exact TakesHeed.doStatement hinner hc (ht.symm.trans hk) levels
  next hk => exact heedsFrom_returnStatement hc (ht.symm.trans hk) levels
  next hk => exact heedsFrom_continueStatement hc (ht.symm.trans hk)
  next hk => exact heedsFrom_endStatement hc (ht.symm.trans hk)
  all_goals exact .of_straight (GoesStraight.violate _ c s hc)

theorem takesHeed_statementWith (hwalks : WalksInside inner) (levels : Nat) :
    TakesHeed (statementWith levels inner) := by
  intro c s hc
  refine .bind (.of_straight (GoesStraight.peek c s hc)) fun t after hpeek ↦ ?_
  cases hpeek
  refine .ite (fun hword ↦ ?_) fun _ ↦ ?_
  · rw [hc.kind_tokenAt] at hword
    exact .bind (heedsFrom_breakStatement hc hword) fun _ after _ ↦ TakesHeed.pure _ c after hc
  · exact .bind (heedsFrom_ordinaryStatement hinner hwalks hc levels (hc.kind_tokenAt _))
      fun _ after _ ↦ TakesHeed.pure _ c after hc

end

/-- The statements of blocks take heed on every level. -/
theorem takesHeed_statementsBelow (levels : Nat) : TakesHeed.Inside (statementsBelow levels) := by
  induction levels with
  | zero => exact fun _ ↦ .of_straight (.of_traced .tooDeep)
  | succ levels ih =>
    exact .statementsUntil (takesHeed_statementWith ih (walks_statementsBelow levels) levels)

theorem takesHeed_statement (levels : Nat) : TakesHeed (statement levels) :=
  takesHeed_statementWith (takesHeed_statementsBelow levels) (walks_statementsBelow levels) levels

/-- The walk over the statements of a body ends at its closing brace, with heed taken of its words. -/
theorem ensures_bodyStatements_noted (hc : c.Closed) (name : String) (info : FunctionInfo) :
    Ensures (bodyStatements name info) c s (fun _ ↦ True) fun _ after ↦
      after.position = info.body.stop ∧ c.kindAt info.body.stop = .rightBrace ∧
        Noted c { s with position := info.body.start, sawReturn := false } after := by
  simp only [bodyStatements, ensures_bind, ensures_read, ensures_withReader, ensures_modify,
    ensures_discard, ensures_here, ensures_ite, ensures_violate, ensures_pure]
  have hstatements := (TakesHeed.statementsUntil (takesHeed_statement c.limits.nesting) [.rightBrace]
    (inFunction name info c) { s with position := info.body.start, sawReturn := false } hc).and
      (walks_statementsUntil (walks_statement c.limits.nesting) [.rightBrace] _ _ hc)
  refine hstatements.mono ?_
  rintro _ after ⟨hheeds, -, hclose⟩
  refine ⟨fun _ ↦ trivial, fun hstop ↦ ?_⟩
  have hstop : after.position = info.body.stop := Decidable.not_not.1 hstop
  have hclose : (inFunction name info c).kindAt after.position = .rightBrace := by simpa using hclose
  exact ⟨hstop, hstop ▸ hclose, hheeds.toNoted.of_tokens rfl rfl⟩

end

end FrontEnd
