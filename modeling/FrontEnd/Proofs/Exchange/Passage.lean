import FrontEnd.Proofs.Check.ScopeLife
import FrontEnd.Proofs.Retelling.Alike

/-!
# Passages that two texts share

Two texts may have a stretch of tokens in common that starts at different indices.  A `Passage` is
such a stretch, with what relates two runs over it: `Follows rel x y` says that wherever a run of `x`
over the first text succeeds inside the passage, a run of `y` over the second text, from the same
place of the passage, succeeds as well, with a result in `rel`, or stops at a violation that is
excused.

Only runs of the first check that succeed matter.  A run goes forward, so all tokens that it has read
stand before the place it ends at, and if that is inside the passage so are they.  The exceptions are
looks ahead: what they read is inside the passage because of what the check does next
(`Follows.matchingClose`, `Follows.expressionEnd`, `Follows.secondKind`).
-/

namespace FrontEnd

open Check

/-- A stretch of tokens that two texts have in common. -/
structure Stretch where
  /-- The tokens of the first text. -/
  tokens : Array Token
  /-- The tokens of the second text. -/
  tokens' : Array Token
  /-- The token that is seen past the end of both. -/
  last : Token
  /-- Where the stretch starts in the first text. -/
  start : Nat
  /-- Where it starts in the second text. -/
  start' : Nat
  /-- The last index of the stretch in the first text. -/
  stop : Nat
  agree : ∀ n, start + n ≤ stop → tokens'[start' + n]? = tokens[start + n]?
  closed : last.kind = .eof

/-- The kind of the token at an index of the first text. -/
def Stretch.kindAt (S : Stretch) (index : Nat) : Kind :=
  (S.tokens[index]?.map Token.kind).getD .eof

/-- A stretch with what relates two runs over it. -/
structure Passage extends Stretch where
  /-- What relates two runs besides their places. -/
  Related : Context → State → Context → State → Prop
  moved : ∀ {c s d u} i j, Related c s d u → Related c (s.movedTo i) d (u.movedTo j)
  /-- The violations at which the second run may stop although the first one goes on. -/
  Excused : SemanticError → Prop

/-! ### What is known of one check -/

section

variable {α β : Type} {c : Context} {s t : State}

/-- A check that never succeeds. -/
def Quits (x : Check α) : Prop :=
  ∀ c s, Ensures x c s (fun _ ↦ True) fun _ _ ↦ False

theorem Context.after_mono {i j : Nat} (h : i ≤ j) : c.after i ≤ c.after j := by
  unfold Context.after
  split_ifs <;> omega

theorem Quits.bind {x : Check α} (hx : Quits x) (f : α → Check β) : Quits (x >>= f) := by
  intro c s
  rw [ensures_bind]
  exact (hx c s).mono fun _ _ h ↦ h.elim

theorem Quits.later (x : Check α) {f : α → Check β} (hf : ∀ a, Quits (f a)) : Quits (x >>= f) :=
  fun c s ↦ (ensures_bind f).2 ((ensures_runs x c s).mono fun a after _ ↦ hf a c after)

theorem quits_refuse (e : SemanticError) : Quits (Check.refuse e : Check α) :=
  fun _ _ ↦ trivial

theorem quits_violate (v : Violation) : Quits (Check.violate v : Check α) :=
  fun _ _ ↦ trivial

theorem quits_violateAt (v : Violation) (t : Token) : Quits (Check.violateAt v t : Check α) :=
  fun _ _ ↦ trivial

theorem exists_run_bind {x : Check α} {f : α → Check β} {b : β}
    (h : (x >>= f).runFrom c s = (.ok b, t)) :
    ∃ a after, x.runFrom c s = (.ok a, after) ∧ (f a).runFrom c after = (.ok b, t) := by
  rw [Check.runFrom_bind] at h
  cases hx : x.runFrom c s with
  | mk result after =>
    rw [hx] at h
    cases result with
    | error e => cases h
    | ok a => exact ⟨a, after, rfl, h⟩

end

namespace Passage

variable (P : Passage)

/-- Indices of the same token of the passage. -/
def At (i j : Nat) : Prop :=
  P.start ≤ i ∧ i + P.start' = j + P.start

/-- Runs at the same place of the passage. -/
structure Beside (c : Context) (s : State) (d : Context) (u : State) : Prop where
  tokens : c.tokens = P.tokens
  tokens' : d.tokens = P.tokens'
  last : c.last = P.last
  last' : d.last = P.last
  limits : d.limits = c.limits
  place : P.At s.position u.position
  related : P.Related c s d u

section

variable {α : Type}

/-- From the start of the passage on, a run of the check over the first text that goes on is not further
back than it was. -/
def GoesForward (x : Check α) : Prop :=
  ∀ c s, c.tokens = P.tokens → P.start ≤ s.position →
    Ensures x c s (fun _ ↦ True) fun _ after ↦ s.position ≤ after.position

/-- From the start of the passage on, a run of the check over the first text that goes on is at an index
or behind it. -/
def Attains (index : Nat) (x : Check α) : Prop :=
  ∀ c s, c.tokens = P.tokens → P.start ≤ s.position →
    Ensures x c s (fun _ ↦ True) fun _ after ↦ index ≤ after.position

/-- From the start of the passage on, a run of the check over the first text that goes on has passed the
token it started at. -/
def Consumes (x : Check α) : Prop :=
  ∀ c s, c.tokens = P.tokens → P.start ≤ s.position →
    Ensures x c s (fun _ ↦ True) fun _ after ↦ c.after s.position ≤ after.position

/-- Where the run of `x` succeeds and is not behind an index then, the run of `y` succeeds too, unless
it stops at a violation that is excused. -/
def FollowsUpTo (index : Nat) (rel : α → α → Prop) (x y : Check α) (c : Context) (s : State)
    (d : Context) (u : State) : Prop :=
  ∀ a t, x.runFrom c s = (.ok a, t) → t.position ≤ index →
    Ensures y d u P.Excused fun b v ↦ rel a b ∧ P.Beside c t d v

/-- Where the run of `x` succeeds inside the passage, the run of `y` does so too, unless it stops at a
violation that is excused. -/
def FollowsFrom (rel : α → α → Prop) (x y : Check α) (c : Context) (s : State) (d : Context)
    (u : State) : Prop :=
  P.FollowsUpTo P.stop rel x y c s d u

/-- Runs of `y` follow those of `x` from the same places of the passage. -/
structure Follows (rel : α → α → Prop) (x y : Check α) : Prop where
  forward : P.GoesForward x
  follows : ∀ {c s d u}, P.Beside c s d u → P.FollowsFrom rel x y c s d u

/-- Runs of `y` follow those of `x`, and these pass the token they start at. -/
structure FollowsPast (rel : α → α → Prop) (x y : Check α) : Prop where
  follows : P.Follows rel x y
  consumes : P.Consumes x

/-- Runs of `y` follow those of `x`, and these go on to an index. -/
structure FollowsTo (index : Nat) (rel : α → α → Prop) (x y : Check α) : Prop where
  follows : P.Follows rel x y
  attains : P.Attains index x

end

variable {P} {α β σ : Type}

/-! ### Places of the passage -/

theorem exists_at {i : Nat} (h : P.start ≤ i) : ∃ j, P.At i j :=
  ⟨i - P.start + P.start', h, by omega⟩

namespace At

variable {i j k l : Nat}

theorem succ (h : P.At i j) : P.At (i + 1) (j + 1) := by
  obtain ⟨hle, heq⟩ := h
  exact ⟨by omega, by omega⟩

theorem le_iff (h : P.At i j) (h' : P.At k l) : j ≤ l ↔ i ≤ k := by
  obtain ⟨-, heq⟩ := h
  obtain ⟨-, heq'⟩ := h'
  omega

theorem lt_iff (h : P.At i j) (h' : P.At k l) : j < l ↔ i < k := by
  obtain ⟨-, heq⟩ := h
  obtain ⟨-, heq'⟩ := h'
  omega

theorem eq_iff (h : P.At i j) (h' : P.At k l) : j = l ↔ i = k := by
  obtain ⟨-, heq⟩ := h
  obtain ⟨-, heq'⟩ := h'
  omega

theorem min (h : P.At i j) (h' : P.At k l) : P.At (min i k) (min j l) := by
  obtain ⟨hle, heq⟩ := h
  obtain ⟨hle', heq'⟩ := h'
  exact ⟨by omega, by omega⟩

end At

namespace Beside

variable {c d : Context} {s u : State} {i j : Nat}

theorem movedTo (h : P.Beside c s d u) (hij : P.At i j) : P.Beside c (s.movedTo i) d (u.movedTo j) :=
  ⟨h.tokens, h.tokens', h.last, h.last', h.limits, hij, P.moved i j h.related⟩

section

variable (h : P.Beside c s d u) (hij : P.At i j) (hi : i ≤ P.stop)

include h hij hi

theorem token?_eq : d.tokens[j]? = c.tokens[i]? := by
  obtain ⟨hle, heq⟩ := hij
  obtain ⟨n, rfl⟩ := Nat.exists_eq_add_of_le hle
  obtain rfl : j = P.start' + n := by omega
  rw [h.tokens, h.tokens', P.agree n hi]

theorem tokenAt_eq : d.tokenAt j = c.tokenAt i := by
  rw [Context.tokenAt, Context.tokenAt, h.token?_eq hij hi, h.last, h.last']

theorem kindAt_eq : d.kindAt j = c.kindAt i := by
  rw [Context.kindAt, Context.kindAt, h.token?_eq hij hi]

theorem lt_size_iff : j < d.tokens.size ↔ i < c.tokens.size := by
  have hsome {tokens : Array Token} {k : Nat} : k < tokens.size ↔ tokens[k]?.isSome := by simp
  rw [hsome, hsome, h.token?_eq hij hi]

theorem after : P.At (c.after i) (d.after j) := by
  unfold Context.after
  by_cases hlt : i < c.tokens.size
  · rw [if_pos hlt, if_pos ((h.lt_size_iff hij hi).2 hlt)]
    exact hij.succ
  · rw [if_neg hlt, if_neg fun hlt' ↦ hlt ((h.lt_size_iff hij hi).1 hlt')]
    exact hij

end

end Beside

/-! ### The operations of the monad -/

theorem GoesForward.of_forward {x : Check α} (h : Forward x) : P.GoesForward x :=
  fun c s _ _ ↦ h c s

theorem GoesForward.bind {x : Check α} {f : α → Check β} (hx : P.GoesForward x)
    (hf : ∀ a, P.GoesForward (f a)) : P.GoesForward (x >>= f) := by
  intro c s hc hs
  rw [ensures_bind]
  refine (hx c s hc hs).mono fun a after hle ↦ ?_
  exact (hf a c after hc (Nat.le_trans hs hle)).mono fun _ _ hle' ↦ Nat.le_trans hle hle'

theorem FollowsFrom.bind {rel : α → α → Prop} {rel' : β → β → Prop} {x y : Check α}
    {f g : α → Check β} {c d : Context} {s u : State} (hc : c.tokens = P.tokens)
    (hs : P.start ≤ s.position) (hforward : P.GoesForward x)
    (hx : P.FollowsFrom rel x y c s d u) (hforward' : ∀ a, P.GoesForward (f a))
    (hf : ∀ {a b t v}, x.runFrom c s = (.ok a, t) → rel a b → P.Beside c t d v →
      P.FollowsFrom rel' (f a) (g b) c t d v) : P.FollowsFrom rel' (x >>= f) (y >>= g) c s d u := by
  intro b t hrun hstop
  obtain ⟨a, middle, hfirst, hsecond⟩ := exists_run_bind hrun
  have hmiddle : s.position ≤ middle.position := (hforward c s hc hs).of_run hfirst
  have hle : middle.position ≤ t.position :=
    (hforward' a c middle hc (Nat.le_trans hs hmiddle)).of_run hsecond
  rw [ensures_bind]
  refine (hx a middle hfirst (Nat.le_trans hle hstop)).mono ?_
  rintro a' v ⟨hrel, hbeside⟩
  exact hf hfirst hrel hbeside b t hsecond hstop

namespace Follows

variable {rel : α → α → Prop} {rel' : β → β → Prop} {x y x' y' : Check α} {f g : α → Check β}

theorem pure {a b : α} (h : rel a b) : P.Follows rel (pure a) (pure b) := by
  refine ⟨.of_forward (.pure a), fun hbeside _ _ hrun _ ↦ ?_⟩
  cases hrun
  exact ⟨h, hbeside⟩

/-- A result that does not depend on the place. -/
theorem same (a : α) : P.Follows Eq (Pure.pure a) (Pure.pure a) :=
  pure rfl

/-- Where the first run stops it does not matter what the second one does. -/
theorem of_quits (hx : Quits x) : P.Follows rel x y :=
  ⟨fun c s _ _ ↦ (hx c s).mono fun _ _ h ↦ h.elim,
    fun _ _ _ hrun _ ↦ ((hx _ _).of_run hrun).elim⟩

theorem violate {v : Violation} : P.Follows rel (Check.violate v) y :=
  of_quits (quits_violate v)

theorem violateAt {v : Violation} {t : Token} : P.Follows rel (Check.violateAt v t) y :=
  of_quits (quits_violateAt v t)

theorem bind (hx : P.Follows rel x y) (hrefl : ∀ a, rel a a)
    (hf : ∀ a b, rel a b → P.Follows rel' (f a) (g b)) : P.Follows rel' (x >>= f) (y >>= g) := by
  have hforward (a : α) : P.GoesForward (f a) := (hf a a (hrefl a)).forward
  exact ⟨hx.forward.bind hforward, fun h ↦ (hx.follows h).bind h.tokens h.place.1 hx.forward hforward
    fun _ hrel hbeside ↦ (hf _ _ hrel).follows hbeside⟩

/-- A check whose result does not depend on the place. -/
theorem next (hx : P.Follows Eq x y) (hf : ∀ a, P.Follows rel' (f a) (g a)) :
    P.Follows rel' (x >>= f) (y >>= g) := by
  refine hx.bind (fun _ ↦ rfl) ?_
  rintro a _ rfl
  exact hf a

theorem discard (hx : P.Follows rel x y) : P.Follows Eq (discard x) (discard y) := by
  refine ⟨fun c s hc hs ↦ ensures_discard.2 (hx.forward c s hc hs), fun hbeside _ t hrun hstop ↦ ?_⟩
  rw [Functor.discard, LawfulFunctor.map_const, Function.comp_apply, map_eq_pure_bind] at hrun
  obtain ⟨a, after, hfirst, hsecond⟩ := exists_run_bind hrun
  cases hsecond
  rw [ensures_discard]
  exact (hx.follows hbeside a t hfirst hstop).mono fun _ _ h ↦ ⟨rfl, h.2⟩

theorem ite {p q : Prop} [Decidable p] [Decidable q] (h : q ↔ p) (hx : P.Follows rel x y)
    (hx' : P.Follows rel x' y') : P.Follows rel (if p then x else x') (if q then y else y') := by
  by_cases hp : p
  · rwa [if_pos hp, if_pos (h.2 hp)]
  · rwa [if_neg hp, if_neg fun hq ↦ hp (h.1 hq)]

/-- A check that stops, made before another one if something is the case.  The other one may rely on its
not being so. -/
theorem except {p q : Prop} [Decidable p] [Decidable q] (h : q → p) (hx : Quits x) {z w : Check β}
    (hz : ¬ p → P.Follows rel' z w) :
    P.Follows rel' (if p then x >>= fun _ ↦ z else z) (if q then y >>= fun _ ↦ w else w) := by
  by_cases hp : p
  · rw [if_pos hp]
    exact of_quits (hx.bind _)
  · rw [if_neg hp, if_neg fun hq ↦ hp (h hq)]
    exact hz hp

/-- A check that stops, made before another one if something is the case. -/
theorem guard {p q : Prop} [Decidable p] [Decidable q] (h : q → p) (hx : Quits x) {z w : Check β}
    (hz : P.Follows rel' z w) :
    P.Follows rel' (if p then x >>= fun _ ↦ z else z) (if q then y >>= fun _ ↦ w else w) :=
  except h hx fun _ ↦ hz

theorem otherwise {p q : Prop} [Decidable p] [Decidable q] (h : p → q) (hx : Quits x) {z w : Check β}
    (hz : P.Follows rel' z w) :
    P.Follows rel' (if p then z else x >>= fun _ ↦ z) (if q then w else y >>= fun _ ↦ w) := by
  by_cases hp : p
  · rw [if_pos hp, if_pos (h hp)]
    exact hz
  · rw [if_neg hp]
    exact of_quits (hx.bind _)

/-! ### Looking around -/

theorem limits {f g : Context → Check β}
    (hf : ∀ c d, d.limits = c.limits → P.Follows rel' (f c) (g d)) :
    P.Follows rel' (read >>= f) (read >>= g) :=
  ⟨fun c s hc hs ↦ (hf c c rfl).forward c s hc hs, fun h ↦ (hf _ _ h.limits).follows h⟩

theorem here {f g : Nat → Check β} (hf : ∀ i j, P.At i j → P.Follows rel' (f i) (g j)) :
    P.Follows rel' (Check.here >>= f) (Check.here >>= g) := by
  refine ⟨fun c s hc hs ↦ ?_, fun h ↦ (hf _ _ h.place).follows h⟩
  obtain ⟨j, hj⟩ := exists_at hs
  exact (hf _ _ hj).forward c s hc hs

theorem peek : P.Follows Eq Check.peek Check.peek := by
  refine ⟨fun _ _ _ _ ↦ Nat.le_refl _, fun h _ _ hrun hstop ↦ ?_⟩
  cases hrun
  exact ⟨(h.tokenAt_eq h.place hstop).symm, h⟩

theorem peekKind : P.Follows Eq Check.peekKind Check.peekKind := by
  refine ⟨fun _ _ _ _ ↦ Nat.le_refl _, fun h _ _ hrun hstop ↦ ?_⟩
  cases hrun
  exact ⟨(h.kindAt_eq h.place hstop).symm, h⟩

theorem next? (k : Kind) : P.Follows Eq (Check.next? k) (Check.next? k) :=
  peekKind.next fun _ ↦ same _

theorem atEnd : P.Follows Eq Check.atEnd Check.atEnd :=
  next? .eof

theorem advance : P.Follows Eq Check.advance Check.advance := by
  refine ⟨.of_forward .advance, fun {c s d u} h a t hrun hstop ↦ ?_⟩
  have hmoved : Ensures Check.advance c s (fun _ ↦ False) fun a t ↦
      c.tokenAt s.position = a ∧ s.movedTo (c.after s.position) = t := ensures_advance.2 ⟨rfl, rfl⟩
  obtain ⟨rfl, rfl⟩ := hmoved.of_run hrun
  have hs := Nat.le_trans (c.le_after s.position) hstop
  rw [ensures_advance]
  exact ⟨(h.tokenAt_eq h.place hs).symm, h.movedTo (h.after h.place hs)⟩

theorem expect (k : Kind) (wanted : Wanted) :
    P.Follows Eq (Check.expect k wanted) (Check.expect k wanted) :=
  (next? k).next fun _ ↦ ite Iff.rfl advance <| peek.next fun _ ↦ ite Iff.rfl violateAt violateAt

theorem expectMark (k : Kind) : P.Follows Eq (Check.expectMark k) (Check.expectMark k) :=
  expect k (.mark k)

end Follows

/-! ### Passing the next token -/

namespace FollowsPast

variable {rel : α → α → Prop} {rel' : β → β → Prop} {x y x' y' : Check α} {f g : α → Check β}

theorem bind (hx : P.FollowsPast rel x y) (hrefl : ∀ a, rel a a)
    (hf : ∀ a b, rel a b → P.Follows rel' (f a) (g b)) :
    P.FollowsPast rel' (x >>= f) (y >>= g) := by
  refine ⟨hx.follows.bind hrefl hf, fun c s hc hs ↦ ?_⟩
  rw [ensures_bind]
  refine (hx.consumes c s hc hs).mono fun a after hafter ↦ ?_
  have hle : P.start ≤ after.position := Nat.le_trans hs (Nat.le_trans (c.le_after _) hafter)
  exact ((hf a a (hrefl a)).forward c after hc hle).mono fun _ _ hle ↦ Nat.le_trans hafter hle

theorem next (hx : P.FollowsPast Eq x y) (hf : ∀ a, P.Follows rel' (f a) (g a)) :
    P.FollowsPast rel' (x >>= f) (y >>= g) := by
  refine hx.bind (fun _ ↦ rfl) ?_
  rintro a _ rfl
  exact hf a

/-- It is what comes later that passes the token. -/
theorem later (hx : P.Follows rel x y) (hrefl : ∀ a, rel a a)
    (hf : ∀ a b, rel a b → P.FollowsPast rel' (f a) (g b)) :
    P.FollowsPast rel' (x >>= f) (y >>= g) := by
  refine ⟨hx.bind hrefl fun a b hab ↦ (hf a b hab).follows, fun c s hc hs ↦ ?_⟩
  rw [ensures_bind]
  refine (hx.forward c s hc hs).mono fun a after hle ↦ ?_
  exact ((hf a a (hrefl a)).consumes c after hc (Nat.le_trans hs hle)).mono fun _ _ hafter ↦
    Nat.le_trans (Context.after_mono hle) hafter

theorem ite {p q : Prop} [Decidable p] [Decidable q] (h : q ↔ p) (hx : P.FollowsPast rel x y)
    (hx' : P.FollowsPast rel x' y') :
    P.FollowsPast rel (if p then x else x') (if q then y else y') := by
  refine ⟨.ite h hx.follows hx'.follows, fun c s hc hs ↦ ?_⟩
  split
  · exact hx.consumes c s hc hs
  · exact hx'.consumes c s hc hs

theorem discard (hx : P.FollowsPast rel x y) : P.FollowsPast Eq (discard x) (discard y) :=
  ⟨hx.follows.discard, fun c s hc hs ↦ ensures_discard.2 (hx.consumes c s hc hs)⟩

theorem violateAt {v : Violation} {t : Token} : P.FollowsPast rel (Check.violateAt v t) y :=
  ⟨.violateAt, fun _ _ _ _ ↦ trivial⟩

theorem advance : P.FollowsPast Eq Check.advance Check.advance :=
  ⟨.advance, fun _ _ _ _ ↦ ensures_advance.2 (Nat.le_refl _)⟩

theorem expect (k : Kind) (wanted : Wanted) :
    P.FollowsPast Eq (Check.expect k wanted) (Check.expect k wanted) :=
  ⟨.expect k wanted, fun _ _ _ _ ↦ ensures_expect.2 ⟨fun _ ↦ Nat.le_refl _, fun _ ↦ trivial⟩⟩

end FollowsPast

/-- The kind of the token after the next one is the same if the next one is passed. -/
theorem Follows.secondKind {rel' : β → β → Prop} {f g : Kind → Check β}
    (hf : ∀ k, P.FollowsPast rel' (f k) (g k)) :
    P.Follows rel' (Check.secondKind >>= f) (Check.secondKind >>= g) := by
  refine ⟨fun c s hc hs ↦ (hf _).follows.forward c s hc hs, fun {c s d u} h b t hrun hstop ↦ ?_⟩
  have hle : c.after s.position ≤ t.position :=
    ((hf _).consumes c s h.tokens h.place.1).of_run hrun
  have hkind : d.kindAt (u.position + 1) = c.kindAt (s.position + 1) := by
    by_cases hlt : s.position < c.tokens.size
    · rw [Context.after, if_pos hlt] at hle
      exact h.kindAt_eq h.place.succ (Nat.le_trans hle hstop)
    · rw [Context.after, if_neg hlt] at hle
      have hlt' := mt (h.lt_size_iff h.place (Nat.le_trans hle hstop)).1 hlt
      rw [Context.kindAt, Context.kindAt, Array.getElem?_eq_none (by omega),
        Array.getElem?_eq_none (by omega)]
  show Ensures (g (d.kindAt (u.position + 1))) d u _ _
  rw [hkind]
  exact (hf _).follows.follows h b t hrun hstop

/-! ### Going on to an index -/

namespace FollowsTo

variable {rel : α → α → Prop} {rel' : β → β → Prop} {x y x' y' : Check α} {f g : α → Check β}
  {index : Nat}

theorem next (hx : P.FollowsTo index Eq x y) (hf : ∀ a, P.Follows rel' (f a) (g a)) :
    P.FollowsTo index rel' (x >>= f) (y >>= g) := by
  refine ⟨hx.follows.next hf, fun c s hc hs ↦ ?_⟩
  rw [ensures_bind]
  refine ((hx.attains c s hc hs).and (hx.follows.forward c s hc hs)).mono fun a after hafter ↦ ?_
  exact ((hf a).forward c after hc (Nat.le_trans hs hafter.2)).mono fun _ _ hle ↦
    Nat.le_trans hafter.1 hle

/-- It is what comes later that goes on to the index. -/
theorem later (hx : P.Follows Eq x y) (hf : ∀ a, P.FollowsTo index rel' (f a) (g a)) :
    P.FollowsTo index rel' (x >>= f) (y >>= g) := by
  refine ⟨hx.next fun a ↦ (hf a).follows, fun c s hc hs ↦ ?_⟩
  rw [ensures_bind]
  exact (hx.forward c s hc hs).mono fun a after hle ↦ (hf a).attains c after hc (Nat.le_trans hs hle)

theorem here {f g : Nat → Check β} (hf : ∀ i j, P.At i j → P.FollowsTo index rel' (f i) (g j)) :
    P.FollowsTo index rel' (Check.here >>= f) (Check.here >>= g) := by
  refine ⟨.here fun i j hij ↦ (hf i j hij).follows, fun c s hc hs ↦ ?_⟩
  obtain ⟨j, hj⟩ := exists_at hs
  exact (hf _ _ hj).attains c s hc hs

theorem ite {p q : Prop} [Decidable p] [Decidable q] (h : q ↔ p) (hx : P.FollowsTo index rel x y)
    (hx' : P.FollowsTo index rel x' y') :
    P.FollowsTo index rel (if p then x else x') (if q then y else y') := by
  refine ⟨.ite h hx.follows hx'.follows, fun c s hc hs ↦ ?_⟩
  split
  · exact hx.attains c s hc hs
  · exact hx'.attains c s hc hs

/-- The index is where the check has to be. -/
theorem arrive {stop stop' : Nat} (hstop : P.At stop stop') {z w v v' : Check β}
    (hv : Quits v) (hz : P.Follows rel' z w) :
    P.FollowsTo stop rel' (Check.here >>= fun i ↦ if i ≠ stop then v else z)
      (Check.here >>= fun i ↦ if i ≠ stop' then v' else w) := by
  refine ⟨.here fun i j hij ↦ .ite (not_congr (hij.eq_iff hstop)) (.of_quits hv) hz,
    fun c s hc hs ↦ ?_⟩
  rw [ensures_bind, ensures_here, ensures_ite]
  refine ⟨fun _ ↦ (hv c s).mono fun _ _ hfalse ↦ hfalse.elim, fun harrived ↦ ?_⟩
  rw [← Decidable.not_not.1 harrived]
  exact hz.forward c s hc hs

theorem discard (hx : P.FollowsTo index rel x y) : P.FollowsTo index Eq (discard x) (discard y) :=
  ⟨hx.follows.discard, fun c s hc hs ↦ ensures_discard.2 (hx.attains c s hc hs)⟩

/-- A check that stops, made before another one if something is the case. -/
theorem guard {p q : Prop} [Decidable p] [Decidable q] (h : q → p) (hx : Quits x) {z w : Check β}
    (hz : P.FollowsTo index rel' z w) :
    P.FollowsTo index rel' (if p then x >>= fun _ ↦ z else z) (if q then y >>= fun _ ↦ w else w) := by
  refine ⟨.guard h hx hz.follows, fun c s hc hs ↦ ?_⟩
  split
  · exact (hx.bind _ c s).mono fun _ _ hfalse ↦ hfalse.elim
  · exact hz.attains c s hc hs

end FollowsTo

/-- A bracket that is found inside the passage is found in the other text. -/
theorem Beside.searchClose {c d : Context} {s u : State} (h : P.Beside c s d u)
    {opening closing : Kind} {left i j depth k : Nat} (hij : P.At i j)
    (hfound : c.searchClose opening closing left i depth = .found k) (hstop : k ≤ P.stop) :
    ∃ l, d.searchClose opening closing left j depth = .found l ∧ P.At k l := by
  induction left generalizing i j depth with
  | zero => cases hfound
  | succ left ih =>
    have hle := (le_of_searchClose hfound).1
    have hkind := h.kindAt_eq hij (Nat.le_trans hle hstop)
    simp only [Context.searchClose] at hfound ⊢
    rw [hkind]
    by_cases heof : c.kindAt i = .eof
    · rw [if_pos heof] at hfound
      cases hfound
    rw [if_neg heof] at hfound ⊢
    by_cases hopening : c.kindAt i = opening
    · rw [if_pos hopening] at hfound ⊢
      exact ih hij.succ hfound
    rw [if_neg hopening] at hfound ⊢
    by_cases hclosing : c.kindAt i = closing
    · rw [if_pos hclosing] at hfound ⊢
      by_cases hdepth : depth = 1
      · rw [if_pos hdepth] at hfound ⊢
        cases hfound
        exact ⟨j, rfl, hij⟩
      · rw [if_neg hdepth] at hfound ⊢
        exact ih hij.succ hfound
    · rw [if_neg hclosing] at hfound ⊢
      exact ih hij.succ hfound

/-- A bracket that is found was found by a search for the one that closes. -/
theorem ensures_matchingClose_found (opening : Nat) (c : Context) (s : State) :
    Ensures (Check.matchingClose opening) c s (fun _ ↦ True) fun i after ↦ after = s ∧
      ∃ closing, (c.kindAt opening).closer? = some closing ∧
        c.searchClose (c.kindAt opening) closing c.limits.scan opening 0 = .found i := by
  simp only [Check.matchingClose, ensures_bind, ensures_read]
  split
  · exact trivial
  next closing hclosing =>
    split
    next i hi => exact ⟨rfl, closing, hclosing, hi⟩
    · exact trivial
    · exact trivial

/-- The end of an expression that is found inside the passage is found in the other text. -/
theorem Beside.searchEnd {c d : Context} {s u : State} (h : P.Beside c s d u)
    {terminators : List Kind} {left i j depth k : Nat} (hij : P.At i j)
    (hfound : c.searchEnd terminators left i depth = .found k) (hstop : k ≤ P.stop) :
    ∃ l, d.searchEnd terminators left j depth = .found l ∧ P.At k l := by
  -- Step by step the two searches see the same kinds, as far as the end that the first one finds.
  induction left generalizing i j depth with
  | zero => cases hfound
  | succ left ih =>
    have hle := le_of_searchEnd hfound
    have hkind := h.kindAt_eq hij (Nat.le_trans hle hstop)
    simp only [Context.searchEnd] at hfound ⊢
    rw [hkind]
    by_cases hend : c.kindAt i = .eof ∨ c.kindAt i = .semicolon
    · rw [if_pos hend] at hfound ⊢
      cases hfound
      exact ⟨j, rfl, hij⟩
    rw [if_neg hend] at hfound ⊢
    by_cases hopener : (c.kindAt i).isOpener
    · rw [if_pos hopener] at hfound ⊢
      exact ih hij.succ hfound
    rw [if_neg hopener] at hfound ⊢
    by_cases hcloser : (c.kindAt i).isCloser
    · rw [if_pos hcloser] at hfound ⊢
      by_cases hdepth : depth = 0
      · rw [if_pos hdepth] at hfound ⊢
        cases hfound
        exact ⟨j, rfl, hij⟩
      · rw [if_neg hdepth] at hfound ⊢
        exact ih hij.succ hfound
    rw [if_neg hcloser] at hfound ⊢
    by_cases hterminator : depth = 0 ∧ c.kindAt i ∈ terminators
    · rw [if_pos hterminator] at hfound ⊢
      cases hfound
      exact ⟨j, rfl, hij⟩
    · rw [if_neg hterminator] at hfound ⊢
      exact ih hij.succ hfound

namespace Follows

variable {rel : α → α → Prop} {rel' : β → β → Prop} {f g : Nat → Check β}

/-- A bracket is found at the same place if the check goes on behind it. -/
theorem matchingClose {opening opening' : Nat} (hopening : P.At opening opening')
    (hf : ∀ i j, P.At i j → (P.kindAt i).isCloser → P.FollowsTo i rel' (f i) (g j)) :
    P.Follows rel' (Check.matchingClose opening >>= f) (Check.matchingClose opening' >>= g) := by
  have hcloser {c : Context} (hc : c.tokens = P.tokens) {closing : Kind} {i : Nat}
      (hclosing : (c.kindAt opening).closer? = some closing)
      (hfound : c.searchClose (c.kindAt opening) closing c.limits.scan opening 0 = .found i) :
      (P.kindAt i).isCloser := by
    have hkind : P.kindAt i = closing := by
      rw [← (le_of_searchClose hfound).2, Stretch.kindAt, Context.kindAt, hc]
    rcases Kind.closer?_eq_some hclosing with ⟨-, rfl⟩ | ⟨-, rfl⟩ | ⟨-, rfl⟩ <;> rw [hkind] <;> rfl
  refine ⟨fun c s hc hs ↦ ?_, fun {c s d u} h b t hrun hstop ↦ ?_⟩
  · rw [ensures_bind]
    refine (ensures_matchingClose_found opening c s).mono ?_
    rintro i _ ⟨rfl, closing, hclosing, hfound⟩
    obtain ⟨j, hj⟩ := exists_at (Nat.le_trans hopening.1 (le_of_searchClose hfound).1)
    exact (hf i j hj (hcloser hc hclosing hfound)).follows.forward c _ hc hs
  · obtain ⟨i, after, hfirst, hsecond⟩ := exists_run_bind hrun
    obtain ⟨rfl, closing, hclosing, hfound⟩ := (ensures_matchingClose_found opening c s).of_run hfirst
    have hle := (le_of_searchClose hfound).1
    obtain ⟨_, hplace⟩ := exists_at (Nat.le_trans hopening.1 hle)
    have hattains := (hf i _ hplace (hcloser h.tokens hclosing hfound)).attains
    have hi : i ≤ P.stop := Nat.le_trans ((hattains c _ h.tokens h.place.1).of_run hsecond) hstop
    have hkind := h.kindAt_eq hopening (Nat.le_trans hle hi)
    obtain ⟨j, hfound', hj⟩ := h.searchClose hopening hfound hi
    simp only [Check.matchingClose, bind_assoc, ensures_bind, ensures_read, hkind, hclosing,
      h.limits, hfound', ensures_pure]
    exact (hf i j hj (hcloser h.tokens hclosing hfound)).follows.follows h b t hsecond hstop

/-- The end of an expression is found at the same place if the check goes on to it. -/
theorem expressionEnd (terminators : List Kind)
    (hf : ∀ i j, P.At i j → P.Follows rel' (f i) (g j))
    (hattains : ∀ {c s i}, c.tokens = P.tokens → c.last = P.last → P.start ≤ s.position →
      c.searchEnd terminators c.limits.scan s.position 0 = .found i →
        Ensures (f i) c s (fun _ ↦ True) fun _ after ↦ i ≤ after.position) :
    P.Follows rel' (Check.expressionEnd terminators >>= f)
      (Check.expressionEnd terminators >>= g) := by
  have hsearch (c : Context) (s : State) : Ensures (Check.expressionEnd terminators) c s
      (fun _ ↦ True) fun i after ↦ after = s ∧
        c.searchEnd terminators c.limits.scan s.position 0 = .found i := by
    simp only [Check.expressionEnd, ensures_bind, ensures_read, ensures_here]
    split
    next i hi => exact ⟨rfl, hi⟩
    · exact trivial
  refine ⟨fun c s hc hs ↦ ?_, fun {c s d u} h b t hrun hstop ↦ ?_⟩
  · rw [ensures_bind]
    refine (hsearch c s).mono ?_
    rintro i _ ⟨rfl, hfound⟩
    obtain ⟨j, hj⟩ := exists_at (Nat.le_trans hs (le_of_searchEnd hfound))
    exact (hf i j hj).forward c _ hc hs
  · obtain ⟨i, after, hfirst, hsecond⟩ := exists_run_bind hrun
    obtain ⟨rfl, hfound⟩ := (hsearch c s).of_run hfirst
    have hi : i ≤ P.stop :=
      Nat.le_trans ((hattains h.tokens h.last h.place.1 hfound).of_run hsecond) hstop
    obtain ⟨j, hfound', hj⟩ := h.searchEnd h.place hfound hi
    simp only [Check.expressionEnd, bind_assoc, ensures_bind, ensures_read, ensures_here,
      h.limits, hfound', ensures_pure]
    exact (hf i j hj).follows h b t hsecond hstop

/-! ### Counted loops -/

section

variable {rel : σ → σ → Prop} {due due' : Check Bool} {round round' : σ → Check (ForInStep σ)}
  {value value' : σ}

theorem roundsFrom (hrefl : ∀ a, rel a a) (hdue : P.Follows Eq due due')
    (hround : ∀ a b, rel a b → P.Follows (Retelling.Steps rel) (round a) (round' b)) (left : Nat)
    (h : rel value value') : P.Follows rel (Check.roundsFrom due round left value)
      (Check.roundsFrom due' round' left value') := by
  have hsteps (step : ForInStep σ) : Retelling.Steps rel step step := by
    cases step with
    | done a => exact .done (hrefl a)
    | yield a => exact .yield (hrefl a)
  induction left generalizing value value' with
  | zero =>
    refine hdue.next fun more ↦ ite Iff.rfl ?_ (pure h)
    exact limits fun c d _ ↦ violate
  | succ left ih =>
    refine hdue.next fun more ↦ ite Iff.rfl ((hround _ _ h).bind hsteps fun a b hab ↦ ?_) (pure h)
    cases hab with
    | done hab => exact pure hab
    | yield hab => exact ih hab

theorem roundsWhile (hrefl : ∀ a, rel a a) (hdue : P.Follows Eq due due')
    (hround : ∀ a b, rel a b → P.Follows (Retelling.Steps rel) (round a) (round' b))
    (h : rel value value') :
    P.Follows rel (Check.roundsWhile due round value) (Check.roundsWhile due' round' value') := by
  refine limits fun c d hlimits ↦ ?_
  rw [hlimits]
  exact roundsFrom hrefl hdue hround _ h

theorem rounds (hrefl : ∀ a, rel a a)
    (hround : ∀ a b, rel a b → P.Follows (Retelling.Steps rel) (round a) (round' b))
    (h : rel value value') :
    P.Follows rel (Check.rounds round value) (Check.rounds round' value') :=
  roundsWhile hrefl (same true) hround h

end

end Follows

end Passage

end FrontEnd
