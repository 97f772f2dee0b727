import FrontEnd.Check.Program
import FrontEnd.Proofs.Check.Phrase

/-!
# Checks that proceed

A check never goes back over the tokens, and every round of a loop that asks for another one passes
a token.  So a loop makes no more rounds than there are tokens, and what may end a run at a limit is
a loop that was allowed fewer, or a level of nesting below.

`Proceeds w passes x` says so of a check that starts at a token of the stage `w`: it ends at that
token or further on, further on with a result that `passes`, and it ends at a limit only for one of
these reasons.  The second one, `w.Below`, is open: an expression is about any operand below it.

Past the end of the input the walk stands still and sees the last token again, so a check that reads
some token need not pass one.  Where a token stands for sure there is `Starts`.
-/

namespace FrontEnd

open Check

/-- Why a run may end at a limit: loops are allowed no more rounds than there are tokens, or
something below ended so. -/
def Excused (c : Context) (Below : SemanticError → Prop) (e : SemanticError) : Prop :=
  e.violation.isLimit → c.limits.scan ≤ c.tokens.size ∨ Below e

/-- A stretch of the tokens up to their end, and how levels below may end at a limit. -/
structure Stage where
  tokens : Array Token
  /-- The first token of the stretch. -/
  start : Nat
  Below : SemanticError → Prop

/-- The stage that starts one token further on. -/
def Stage.next (w : Stage) : Stage :=
  { w with start := w.start + 1 }

/-- What becomes of the place: it is not left backwards, and it is passed if that is asked for. -/
structure Onward (size : Nat) (passed : Prop) (s after : State) : Prop where
  le : s.position ≤ after.position
  le_size : after.position ≤ size
  lt : passed → s.position < after.position

/-- A check that moves nothing and comes to no limit. -/
def Unmoved {α : Type} (x : Check α) : Prop :=
  ∀ c s, Ensures x c s (fun e ↦ e.violation.isLimit = false)
    fun _ after ↦ after.position = s.position

section

variable (w : Stage) {α : Type} (passes : α → Prop) (x : Check α)

/-- A check that proceeds from every token of a stage and from the end of the input. -/
def Proceeds : Prop :=
  ∀ ⦃c s⦄, c.tokens = w.tokens → w.start ≤ s.position → s.position ≤ w.tokens.size →
    Ensures x c s (Excused c w.Below) fun a after ↦
      Onward w.tokens.size (passes a) s after

/-- A check that proceeds from every token of a stage. -/
def FromToken : Prop :=
  ∀ ⦃c s⦄, c.tokens = w.tokens → w.start ≤ s.position → s.position < w.tokens.size →
    Ensures x c s (Excused c w.Below) fun a after ↦
      Onward w.tokens.size (passes a) s after

/-- A check that does not go back. -/
abbrev Stays : Prop :=
  Proceeds w (fun _ ↦ False) x

/-- A check that passes a token. -/
abbrev MovesOn : Prop :=
  Proceeds w (fun _ ↦ True) x

end

/-! ### Searches ahead -/

namespace Context

variable {c : Context} {left index depth : Nat}

/-- A search that gives up has passed a token at each step. -/
theorem le_size_of_searchClose_exhausted {opening closing : Kind} (hindex : index ≤ c.tokens.size)
    (h : c.searchClose opening closing left index depth = .exhausted) :
    index + left ≤ c.tokens.size := by
  fun_induction Context.searchClose c opening closing left index depth with
  | case1 => exact hindex
  | case2 => cases h
  | case3 _ _ _ _ hend _ ih | case5 _ _ _ _ hend _ _ _ ih | case6 _ _ _ _ hend _ _ ih =>
    have hrest := ih (lt_size_of_ne_eof hend) h
    omega
  | case4 => cases h

theorem le_size_of_searchEnd_exhausted {terminators : List Kind} (hindex : index ≤ c.tokens.size)
    (h : c.searchEnd terminators left index depth = .exhausted) :
    index + left ≤ c.tokens.size := by
  fun_induction Context.searchEnd c terminators left index depth with
  | case1 => exact hindex
  | case2 => cases h
  | case3 _ _ _ _ hend _ ih | case5 _ _ _ _ hend _ _ _ ih | case7 _ _ _ _ hend _ _ _ ih =>
    have hrest := ih (lt_size_of_ne_eof fun heof ↦ hend (.inl heof)) h
    omega
  | case4 => cases h
  | case6 => cases h

theorem searchEnd_ne_ended (terminators : List Kind) (left index depth : Nat) :
    c.searchEnd terminators left index depth ≠ .ended := by
  fun_induction Context.searchEnd c terminators left index depth <;> simp_all

/-- Where an expression ends is a token, or the end of the input. -/
theorem le_size_of_searchEnd {terminators : List Kind} {stop : Nat}
    (hindex : index ≤ c.tokens.size)
    (h : c.searchEnd terminators left index depth = .found stop) : stop ≤ c.tokens.size := by
  fun_induction Context.searchEnd c terminators left index depth with
  | case1 => cases h
  | case2 | case4 | case6 =>
    cases h
    exact hindex
  | case3 _ _ _ _ hend _ ih | case5 _ _ _ _ hend _ _ _ ih | case7 _ _ _ _ hend _ _ _ ih =>
    exact ih (lt_size_of_ne_eof fun heof ↦ hend (.inl heof)) h

end Context

/-! ### What becomes of the place -/

namespace Onward

variable {size : Nat} {passed passed' : Prop} {s after later : State}

theorem of_position_eq (h : s.position ≤ size) (heq : after.position = s.position) :
    Onward size False s after :=
  ⟨Nat.le_of_eq heq.symm, heq ▸ h, False.elim⟩

theorem mono (h : Onward size passed s after) (himp : passed' → passed) :
    Onward size passed' s after :=
  ⟨h.le, h.le_size, fun hpassed ↦ h.lt (himp hpassed)⟩

/-- A token that is passed anywhere on the way is passed. -/
theorem trans (h : Onward size passed s after) (h' : Onward size passed' after later) :
    Onward size (passed ∨ passed') s later := by
  refine ⟨Nat.le_trans h.le h'.le, h'.le_size, ?_⟩
  rintro (hpassed | hpassed)
  · exact Nat.lt_of_lt_of_le (h.lt hpassed) h'.le
  · exact Nat.lt_of_le_of_lt h.le (h'.lt hpassed)

end Onward

variable {c : Context} {Below : SemanticError → Prop}

theorem excused_of_isLimit {e : SemanticError} (h : e.violation.isLimit = false) :
    Excused c Below e :=
  fun hlimit ↦ absurd hlimit (by simp [h])

theorem excused_of_scan {e : SemanticError} (h : c.limits.scan ≤ c.tokens.size) :
    Excused c Below e :=
  fun _ ↦ .inl h

theorem excused_expected (index : Nat) (wanted : Wanted) :
    Excused c Below (c.expected index wanted) := by
  refine excused_of_isLimit ?_
  show (if (c.tokenAt index).kind = .eof then _ else _ : Violation).isLimit = false
  split <;> rfl

variable {w : Stage} {α β σ : Type} {p q : α → Prop} {r : β → Prop} {x y : Check α}
  {f : α → Check β}

/-! ### The operations of the monad -/

namespace Proceeds

theorem weaken (hx : Proceeds w q x) (h : ∀ a, p a → q a) : Proceeds w p x :=
  fun _ _ hc hstart hsize ↦ (hx hc hstart hsize).mono fun a _ hon ↦ hon.mono (h a)

theorem stays (hx : Proceeds w q x) : Stays w x :=
  hx.weaken fun _ ↦ False.elim

/-- What proceeds from every token proceeds from every later one. -/
theorem later (hx : Proceeds w p x) : Proceeds w.next p x :=
  fun _ _ hc hstart hsize ↦ hx hc (Nat.le_of_succ_le hstart) hsize

theorem of_unmoved (h : Unmoved x) : Stays w x :=
  fun c s _ _ hsize ↦
    (h c s).imp (fun _ ↦ excused_of_isLimit) fun _ _ heq ↦ .of_position_eq hsize heq

/-- A check that only fails, and not at a limit. -/
theorem of_refuses (h : ∀ c s, Ensures x c s (fun e ↦ e.violation.isLimit = false)
    fun _ _ ↦ False) : Proceeds w p x :=
  fun c s _ _ _ ↦ (h c s).imp (fun _ ↦ excused_of_isLimit) fun _ _ hfalse ↦ hfalse.elim

theorem pure (a : α) : Stays w (pure a : Check α) :=
  of_unmoved fun _ _ ↦ rfl

/-- A result that asks for no token to be passed. -/
theorem result {a : α} (h : ¬ p a) : Proceeds w p (Pure.pure a : Check α) :=
  fun _ _ _ _ hsize ↦ (Onward.of_position_eq hsize rfl).mono h

theorem refuse {e : SemanticError} (h : e.violation.isLimit = false) :
    Proceeds w p (Check.refuse e : Check α) :=
  of_refuses fun _ _ ↦ h

theorem violateAt {v : Violation} {t : Token} (h : v.isLimit = false) :
    Proceeds w p (Check.violateAt v t : Check α) :=
  of_refuses fun _ _ ↦ h

theorem violate {v : Violation} (h : v.isLimit = false) :
    Proceeds w p (Check.violate v : Check α) :=
  of_refuses fun _ _ ↦ h

theorem violateThen {v : Violation} (h : v.isLimit = false) :
    Proceeds w r (Check.violate v >>= f) :=
  of_refuses fun _ _ ↦ (ensures_bind _).2 h

theorem next (hx : Proceeds w q x) (hf : ∀ a, Proceeds w r (f a)) : Proceeds w r (x >>= f) := by
  intro c s hc hstart hsize
  rw [ensures_bind]
  refine (hx hc hstart hsize).mono fun a after hon ↦ ?_
  have hrest := hf a hc (Nat.le_trans hstart hon.le) hon.le_size
  exact hrest.mono fun b last hlast ↦ (hon.trans hlast).mono .inr

/-- Behind a token that is passed the stage is a later one. -/
theorem first (hx : MovesOn w x) (hf : ∀ a, Stays w.next (f a)) : Proceeds w r (x >>= f) := by
  intro c s hc hstart hsize
  rw [ensures_bind]
  refine (hx hc hstart hsize).mono fun a after hon ↦ ?_
  have hlt : s.position < after.position := hon.lt trivial
  have hrest := hf a hc (show w.start + 1 ≤ after.position by omega) hon.le_size
  exact hrest.mono fun b last hlast ↦ (hon.trans hlast).mono fun _ ↦ .inl trivial

/-- A token passed in front is passed, whatever comes behind it. -/
theorem andThen (hx : MovesOn w x) (hf : ∀ a, Stays w (f a)) : Proceeds w r (x >>= f) :=
  hx.first fun a ↦ (hf a).later

theorem map {g : α → β} (hx : Proceeds w (fun a ↦ r (g a)) x) : Proceeds w r (g <$> x) := by
  intro c s hc hstart hsize
  rw [ensures_map]
  exact hx hc hstart hsize

theorem discard {P : Prop} (hx : Proceeds w (fun _ ↦ P) x) :
    Proceeds w (fun _ ↦ P) (discard x) := by
  rw [Functor.discard, LawfulFunctor.map_const]
  exact hx.map

theorem ite {P : Prop} [Decidable P] (hx : Proceeds w p x) (hy : Proceeds w p y) :
    Proceeds w p (if P then x else y) := by
  split
  · exact hx
  · exact hy

/-- A check that may come before another one. -/
theorem guard {P : Prop} [Decidable P] (hx : Stays w x) {z : Check β} (hz : Proceeds w r z) :
    Proceeds w r (if P then x >>= fun _ ↦ z else z) :=
  ite (hx.next fun _ ↦ hz) hz

theorem otherwise {P : Prop} [Decidable P] (hx : Stays w x) {z : Check β}
    (hz : Proceeds w r z) : Proceeds w r (if P then z else x >>= fun _ ↦ z) :=
  ite hz (hx.next fun _ ↦ hz)

theorem read {g : Context → Check β} (hg : ∀ c, c.tokens = w.tokens → Proceeds w r (g c)) :
    Proceeds w r (read >>= g) :=
  fun c _ hc ↦ hg c hc hc

theorem get : Stays w (get : Check State) :=
  of_unmoved fun _ _ ↦ rfl

theorem modify {g : State → State} (hg : ∀ s, (g s).position = s.position) :
    Stays w (modify g : Check Unit) :=
  of_unmoved fun _ s ↦ hg s

/-- A part is about the same tokens as the whole. -/
theorem withReader {g : Context → Context} (htokens : ∀ c, (g c).tokens = c.tokens)
    (hlimits : ∀ c, (g c).limits = c.limits) (hx : Proceeds w p x) :
    Proceeds w p (withReader g x : Check α) := by
  intro c s hc hstart hsize
  refine (hx (c := g c) ((htokens c).trans hc) hstart hsize).imp (fun e he ↦ ?_) fun _ _ hon ↦ hon
  unfold Excused at he
  rwa [hlimits, htokens] at he

end Proceeds

namespace FromToken

theorem of_proceeds (hx : Proceeds w p x) : FromToken w p x :=
  fun _ _ hc hstart hsize ↦ hx hc hstart (Nat.le_of_lt hsize)

/-- Behind a token that is passed the stage is a later one. -/
theorem first (hx : FromToken w (fun _ ↦ True) x) (hf : ∀ a, Stays w.next (f a)) :
    FromToken w r (x >>= f) := by
  intro c s hc hstart hsize
  rw [ensures_bind]
  refine (hx hc hstart hsize).mono fun a after hon ↦ ?_
  have hlt : s.position < after.position := hon.lt trivial
  have hrest := hf a hc (show w.start + 1 ≤ after.position by omega) hon.le_size
  exact hrest.mono fun b last hlast ↦ (hon.trans hlast).mono fun _ ↦ .inl trivial

/-- Before the token is passed something may be asked. -/
theorem after (hx : Unmoved x) (hf : ∀ a, FromToken w r (f a)) : FromToken w r (x >>= f) := by
  intro c s hc hstart hsize
  rw [ensures_bind]
  refine (hx c s).imp (fun _ ↦ excused_of_isLimit) fun a t heq ↦ ?_
  refine (hf a hc (heq ▸ hstart) (heq ▸ hsize)).mono fun b last hlast ↦ ?_
  exact ⟨heq ▸ hlast.le, hlast.le_size, fun hpass ↦ heq ▸ hlast.lt hpass⟩

theorem ite {P : Prop} [Decidable P] (hx : FromToken w p x) (hy : FromToken w p y) :
    FromToken w p (if P then x else y) := by
  split
  · exact hx
  · exact hy

/-- A violation may come in front. -/
theorem guard {P : Prop} [Decidable P] (hx : ∀ c s, Ensures x c s
    (fun e ↦ e.violation.isLimit = false) fun _ _ ↦ False) {z : Check β} (hz : FromToken w r z) :
    FromToken w r (if P then x >>= fun _ ↦ z else z) := by
  refine ite (fun c s _ _ _ ↦ ?_) hz
  rw [ensures_bind]
  exact (hx c s).imp (fun _ ↦ excused_of_isLimit) fun _ _ hfalse ↦ hfalse.elim

theorem discard {P : Prop} (hx : FromToken w (fun _ ↦ P) x) :
    FromToken w (fun _ ↦ P) (discard x) := by
  intro c s hc hstart hsize
  rw [ensures_discard]
  exact hx hc hstart hsize

/-- The next token is passed where one stands. -/
theorem advance : FromToken w (fun _ ↦ True) Check.advance := by
  intro c s hc _ hsize
  rw [ensures_advance, Context.after, hc, if_pos hsize]
  exact ⟨Nat.le_succ _, hsize, fun _ ↦ Nat.lt_succ_self _⟩

end FromToken

namespace Proceeds

/-! ### Looking ahead and around -/

theorem here : Stays w Check.here :=
  of_unmoved fun _ _ ↦ rfl

theorem peek : Stays w Check.peek :=
  of_unmoved fun _ _ ↦ rfl

theorem peekKind : Stays w Check.peekKind :=
  of_unmoved fun _ _ ↦ rfl

theorem secondKind : Stays w Check.secondKind :=
  of_unmoved fun _ _ ↦ rfl

theorem next? (k : Kind) : Stays w (Check.next? k) :=
  of_unmoved fun _ _ ↦ rfl

/-- At the end of the input nothing moves. -/
theorem advance : Stays w Check.advance := by
  intro c s hc _ hsize
  rw [ensures_advance, Context.after, hc]
  show Onward _ _ s (s.movedTo _)
  split
  next hlt => exact ⟨Nat.le_succ _, hlt, False.elim⟩
  next => exact .of_position_eq hsize rfl

/-- A token that must stand here is passed. -/
theorem expect {k : Kind} (hk : k ≠ .eof) (wanted : Wanted) :
    MovesOn w (Check.expect k wanted) := by
  intro c s hc _ _
  refine ensures_expect.2 ⟨fun hkind ↦ ?_, fun _ ↦ excused_expected _ _⟩
  have hlt := Context.lt_size_of_ne_eof (hkind ▸ hk)
  rw [Context.after_of_kindAt hkind hk]
  exact ⟨Nat.le_succ _, hc ▸ hlt, fun _ ↦ Nat.lt_succ_self _⟩

theorem expectMark {k : Kind} (hk : k ≠ .eof) : MovesOn w (Check.expectMark k) :=
  expect hk _

end Proceeds

/-! ### Searches ahead -/

section

variable {c : Context} {s : State}

/-- A bracket is closed at a token, unless the search for it gives up too early. -/
theorem ensures_matchingClose_size (opening : Nat) :
    Ensures (matchingClose opening) c s (Excused c Below) fun close after ↦
      after = s ∧ opening ≤ close ∧ close < c.tokens.size := by
  simp only [matchingClose, ensures_bind, ensures_read]
  cases hcloser : (c.kindAt opening).closer? with
  | none => exact excused_of_isLimit rfl
  | some closing =>
    have hkinds := Kind.closer?_ne_eof hcloser
    have hopening := Context.lt_size_of_ne_eof hkinds.1
    dsimp only
    cases hsearch : c.searchClose (c.kindAt opening) closing c.limits.scan opening 0 with
    | found close =>
      obtain ⟨hle, hclose⟩ := le_of_searchClose hsearch
      exact ⟨rfl, hle, Context.lt_size_of_ne_eof (hclose ▸ hkinds.2)⟩
    | ended => exact excused_of_isLimit rfl
    | exhausted =>
      have hsize := Context.le_size_of_searchClose_exhausted (Nat.le_of_lt hopening) hsearch
      exact excused_of_scan (by omega)

/-- An expression ends at a token or at the end of the input, unless the search gives up too
early. -/
theorem ensures_expressionEnd_size (terminators : List Kind) (hsize : s.position ≤ c.tokens.size) :
    Ensures (expressionEnd terminators) c s (Excused c Below) fun stop after ↦
      after = s ∧ stop ≤ c.tokens.size := by
  simp only [expressionEnd, ensures_bind, ensures_read, ensures_here]
  cases hsearch : c.searchEnd terminators c.limits.scan s.position 0 with
  | found stop => exact ⟨rfl, Context.le_size_of_searchEnd hsize hsearch⟩
  | ended =>
    -- The search for an end takes the end of the input for one.
    exact absurd hsearch (Context.searchEnd_ne_ended _ _ _ _)
  | exhausted =>
    have hlimit := Context.le_size_of_searchEnd_exhausted hsize hsearch
    exact excused_of_scan (by omega)

end

namespace Proceeds

theorem matchingClose (opening : Nat) {f : Nat → Check β}
    (hf : ∀ close < w.tokens.size, Proceeds w r (f close)) :
    Proceeds w r (Check.matchingClose opening >>= f) := by
  intro c s hc hstart hsize
  rw [ensures_bind, ← hc]
  refine (ensures_matchingClose_size opening).mono ?_
  rintro close _ ⟨rfl, -, hclose⟩
  rw [hc] at hclose ⊢
  exact hf close hclose hc hstart hsize

theorem expressionEnd (terminators : List Kind) {f : Nat → Check β}
    (hf : ∀ stop ≤ w.tokens.size, Proceeds w r (f stop)) :
    Proceeds w r (Check.expressionEnd terminators >>= f) := by
  intro c s hc hstart hsize
  rw [ensures_bind, ← hc]
  refine (ensures_expressionEnd_size terminators (hc ▸ hsize)).mono ?_
  rintro stop _ ⟨rfl, hstop⟩
  rw [hc] at hstop ⊢
  exact hf stop hstop hc hstart hsize

end Proceeds

theorem FromToken.matchingClose (opening : Nat) {f : Nat → Check β}
    (hf : ∀ close < w.tokens.size, FromToken w r (f close)) :
    FromToken w r (Check.matchingClose opening >>= f) := by
  intro c s hc hstart hsize
  rw [ensures_bind, ← hc]
  refine (ensures_matchingClose_size opening).mono ?_
  rintro close _ ⟨rfl, -, hclose⟩
  rw [hc] at hclose ⊢
  exact hf close hclose hc hstart hsize

/-! ### Counted loops -/

/-- A round asks for another one. -/
def Again (r : ForInStep σ) : Prop :=
  ∃ value, r = .yield value

/-- Each round that asks for another one passes a token. -/
def RoundsOn (w : Stage) (due : Check Bool) (round : σ → Check (ForInStep σ)) : Prop :=
  ∀ ⦃c s⦄ (value : σ), c.tokens = w.tokens → w.start ≤ s.position → s.position ≤ w.tokens.size →
    Ensures due c s (Excused c w.Below) fun more after ↦ after = s ∧
      (more = true → Ensures (round value) c s (Excused c w.Below) fun r later ↦
        Onward w.tokens.size (Again r) s later)

theorem not_again_done (value : σ) : ¬ Again (.done value) :=
  fun ⟨_, h⟩ ↦ nomatch h

/-- A loop makes no more rounds than there are tokens: with each round that is left to it one more
token is behind it. -/
theorem ensures_roundsFrom_onward {I : State → Prop} {due : Check Bool}
    {round : σ → Check (ForInStep σ)}
    (hround : ∀ value s, I s → s.position ≤ c.tokens.size →
      Ensures due c s (Excused c Below) fun more after ↦ after = s ∧
        (more = true → Ensures (round value) c s (Excused c Below) fun r later ↦
          Onward c.tokens.size (Again r) s later ∧ I later)) :
    ∀ (left : Nat) (value : σ) {s : State}, I s → s.position ≤ c.tokens.size →
      c.limits.scan ≤ s.position + left →
      Ensures (Check.roundsFrom due round left value) c s (Excused c Below)
        fun _ after ↦ Onward c.tokens.size False s after ∧ I after := by
  intro left
  induction left with
  | zero =>
    intro value s hs hsize hleft
    refine ensures_roundsFrom_zero.2 ((hround value s hs hsize).mono ?_)
    rintro more _ ⟨rfl, -⟩
    exact ⟨fun _ ↦ excused_of_scan (Nat.le_trans hleft hsize),
      fun _ ↦ ⟨.of_position_eq hsize rfl, hs⟩⟩
  | succ left ih =>
    intro value s hs hsize hleft
    refine ensures_roundsFrom_succ.2 ((hround value s hs hsize).mono ?_)
    rintro more _ ⟨rfl, hround⟩
    refine ⟨fun hmore ↦ (hround hmore).mono fun r later hr ↦ ?_,
      fun _ ↦ ⟨.of_position_eq hsize rfl, hs⟩⟩
    obtain ⟨hon, hlater⟩ := hr
    cases r with
    | done value => exact ⟨hon.mono False.elim, hlater⟩
    | yield value =>
      have hlt := hon.lt ⟨value, rfl⟩
      have hrest := ih value hlater hon.le_size (by omega)
      exact hrest.mono fun _ _ hlast ↦ ⟨(hon.trans hlast.1).mono False.elim, hlast.2⟩

namespace RoundsOn

variable {due : Check Bool} {round : σ → Check (ForInStep σ)}

/-- Rounds that pass a token wherever they start. -/
theorem of_proceeds (hdue : ∀ c s, Ensures due c s (fun _ ↦ False) fun _ after ↦ after = s)
    (hround : ∀ value, Proceeds w Again (round value)) : RoundsOn w due round :=
  fun c s value hc hstart hsize ↦ (hdue c s).imp (fun _ ↦ False.elim) fun _ _ hafter ↦
    ⟨hafter, fun _ ↦ hround value hc hstart hsize⟩

/-- Rounds that start where a token stands. -/
theorem of_fromToken {ask : Check Bool} (hask : ∀ c s, Ensures ask c s (fun _ ↦ False)
      fun more after ↦ after = s ∧ (more = true → c.kindAt s.position ≠ .eof))
    (hround : ∀ value, FromToken w Again (round value)) : RoundsOn w ask round :=
  fun c s value hc hstart _ ↦ (hask c s).imp (fun _ ↦ False.elim) fun _ _ hafter ↦
    ⟨hafter.1, fun hmore ↦
      hround value hc hstart (hc ▸ Context.lt_size_of_ne_eof (hafter.2 hmore))⟩

theorem roundsFrom (h : RoundsOn w due round) (hc : c.tokens = w.tokens) (left : Nat) (value : σ)
    {s : State} (hstart : w.start ≤ s.position) (hsize : s.position ≤ w.tokens.size)
    (hleft : c.limits.scan ≤ s.position + left) :
    Ensures (Check.roundsFrom due round left value) c s (Excused c w.Below)
      fun _ after ↦ Onward w.tokens.size False s after := by
  rw [← hc] at hsize ⊢
  refine (ensures_roundsFrom_onward (I := fun t ↦ w.start ≤ t.position) (fun value t ht hlast ↦ ?_)
    left value hstart hsize hleft).mono fun _ _ h ↦ h.1
  refine (h value hc ht (hc ▸ hlast)).mono ?_
  rintro more _ ⟨rfl, hround⟩
  refine ⟨rfl, fun hmore ↦ (hround hmore).mono fun r later hon ↦ ?_⟩
  exact ⟨hc ▸ hon, Nat.le_trans ht hon.le⟩

theorem roundsWhile (h : RoundsOn w due round) (value : σ) :
    Stays w (Check.roundsWhile due round value) :=
  fun _ _ hc hstart hsize ↦ h.roundsFrom hc _ value hstart hsize (Nat.le_add_left _ _)

end RoundsOn

namespace Proceeds

theorem rounds {round : σ → Check (ForInStep σ)} (h : ∀ value, Proceeds w Again (round value))
    (value : σ) : Stays w (Check.rounds round value) :=
  (RoundsOn.of_proceeds (fun _ _ ↦ (ensures_pure true).2 rfl) h).roundsWhile value

/-- A token that is asked for is passed. -/
theorem whenNext {k : Kind} (hk : k ≠ .eof) {y : Check α} (hx : Stays w.next x)
    (hy : Proceeds w p y) : Proceeds w p (do
      if ← Check.next? k then
        Functor.discard Check.advance
        x
      else y) := by
  intro c s hc hstart hsize
  simp only [ensures_bind, ensures_next?, ensures_ite, beq_iff_eq]
  refine ⟨fun hkind ↦ ?_, fun _ ↦ hy hc hstart hsize⟩
  have hlt := Context.lt_size_of_ne_eof (hkind ▸ hk)
  have hpass : FromToken w p (Functor.discard Check.advance >>= fun _ ↦ x) :=
    FromToken.advance.discard.first fun _ ↦ hx
  exact (ensures_bind _).1 (hpass hc hstart (hc ▸ hlt))

/-! ### Names and blocks -/

theorem resolve (name : String) : Stays w (Check.resolve name) :=
  of_unmoved fun _ _ ↦ rfl

theorem declaredHere (name : String) : Stays w (Check.declaredHere name) :=
  of_unmoved fun _ _ ↦ rfl

theorem modifySymbol (name : String) (f : Symbol → Symbol) : Stays w (Check.modifySymbol name f) :=
  of_unmoved fun _ _ ↦ rfl

theorem insertSymbol (scope : Nat) (symbol : Symbol) : Stays w (Check.insertSymbol scope symbol) :=
  of_unmoved fun _ _ ↦ ensures_insertSymbol.2 ⟨fun _ _ ↦ rfl, fun _ ↦ rfl⟩

theorem declare (symbol : Symbol) (t : Token) : Stays w (Check.declare symbol t) :=
  read fun _ _ ↦ (insertSymbol _ symbol).next fun _ ↦ ite (pure _) (violateAt rfl)

theorem warn (name : String) (t : Token) : Stays w (Check.warn name t) :=
  modify fun _ ↦ rfl

theorem inScope (label : String) (hx : Proceeds w p x) : Proceeds w p (Check.inScope label x) := by
  intro c s hc hstart hsize
  rw [ensures_inScope]
  refine Ensures.mono (hx (s := { s with arena := s.arena.push c.scope label }) hc hstart hsize) ?_
  exact fun _ _ hon ↦ ⟨hon.le, hon.le_size, hon.lt⟩

theorem inBlock (kind : BlockKind) (hx : Proceeds w p x) : Proceeds w p (Check.inBlock kind x) :=
  withReader (fun _ ↦ rfl) (fun _ ↦ rfl) hx

end Proceeds

end FrontEnd
