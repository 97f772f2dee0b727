import FrontEnd.Proofs.Exchange.Passage

/-!
# Leaving a passage

The check of a header or of a body ends behind the brace that closes the body.  If that brace is the
last token of a passage, the run ends at a token that the two texts need not have in common.
`Passage.FollowsOut` allows for this: a run may end right behind the passage.  What comes before the
brace still ends inside of it, because the brace is passed later (`Passage.Passes`).
-/

namespace FrontEnd

open Check

namespace Passage

variable (P : Passage) {α β : Type}

/-- From the start of the passage on, a run of the check over the first text that goes on ends further
on than it started. -/
def Passes (x : Check α) : Prop :=
  ∀ c s, c.tokens = P.tokens → P.start ≤ s.position →
    Ensures x c s (fun _ ↦ True) fun _ after ↦ s.position < after.position

/-- Runs of `y` follow those of `x`, also if these end right behind the passage. -/
structure FollowsOut (rel : α → α → Prop) (x y : Check α) : Prop where
  forward : P.GoesForward x
  follows : ∀ {c s d u}, P.Beside c s d u → P.FollowsUpTo (P.stop + 1) rel x y c s d u

variable {P} {rel : α → α → Prop} {rel' : β → β → Prop} {x y : Check α} {f g : α → Check β}
  {c d : Context} {s u : State}

namespace Passes

theorem forward (hx : P.Passes x) : P.GoesForward x :=
  fun c s hc hs ↦ (hx c s hc hs).mono fun _ _ hlt ↦ Nat.le_of_lt hlt

theorem of_quits (hx : Quits x) : P.Passes x :=
  fun c s _ _ ↦ (hx c s).mono fun _ _ hfalse ↦ hfalse.elim

theorem bind (hx : P.Passes x) (hf : ∀ a, P.GoesForward (f a)) : P.Passes (x >>= f) := by
  intro c s hc hs
  rw [ensures_bind]
  refine (hx c s hc hs).mono fun a after hlt ↦ ?_
  exact (hf a c after hc (Nat.le_trans hs (Nat.le_of_lt hlt))).mono fun _ _ hle ↦
    Nat.lt_of_lt_of_le hlt hle

theorem later (hx : P.GoesForward x) (hf : ∀ a, P.Passes (f a)) : P.Passes (x >>= f) := by
  intro c s hc hs
  rw [ensures_bind]
  refine (hx c s hc hs).mono fun a after hle ↦ ?_
  exact (hf a c after hc (Nat.le_trans hs hle)).mono fun _ _ hlt ↦ Nat.lt_of_le_of_lt hle hlt

theorem ite {p : Prop} [Decidable p] (hx : P.Passes x) (hy : P.Passes y) :
    P.Passes (if p then x else y) := by
  split
  · exact hx
  · exact hy

end Passes

/-! ### Runs that end behind the passage -/

theorem FollowsUpTo.from (hx : P.FollowsUpTo (P.stop + 1) rel x y c s d u) :
    P.FollowsFrom rel x y c s d u :=
  fun a t hrun hstop ↦ hx a t hrun (Nat.le_succ_of_le hstop)

/-- What comes before a part that passes a token ends inside the passage. -/
theorem FollowsUpTo.later (h : P.Beside c s d u) (hx : P.Follows rel x y) (hf : ∀ a, P.Passes (f a))
    (hfollows : ∀ {a b t v}, x.runFrom c s = (.ok a, t) → rel a b → P.Beside c t d v →
      P.FollowsUpTo (P.stop + 1) rel' (f a) (g b) c t d v) :
    P.FollowsUpTo (P.stop + 1) rel' (x >>= f) (y >>= g) c s d u := by
  intro b t hrun hstop
  obtain ⟨a, middle, hfirst, hsecond⟩ := exists_run_bind hrun
  have hle : s.position ≤ middle.position := (hx.forward c s h.tokens h.place.1).of_run hfirst
  have hlt : middle.position < t.position :=
    (hf a c middle h.tokens (Nat.le_trans h.place.1 hle)).of_run hsecond
  rw [ensures_bind]
  refine (hx.follows h a middle hfirst (by omega)).mono ?_
  rintro a' v ⟨hrel, hbeside⟩
  exact hfollows hfirst hrel hbeside b t hsecond hstop

theorem FollowsUpTo.here {index : Nat} {f g : Nat → Check β}
    (hf : P.FollowsUpTo index rel' (f s.position) (g u.position) c s d u) :
    P.FollowsUpTo index rel' (Check.here >>= f) (Check.here >>= g) c s d u :=
  hf

namespace FollowsOut

theorem follows_within (hx : P.FollowsOut rel x y) : P.Follows rel x y :=
  ⟨hx.forward, fun h ↦ (hx.follows h).from⟩

theorem pure {a b : α} (h : rel a b) : P.FollowsOut rel (pure a) (pure b) := by
  refine ⟨.of_forward (.pure a), fun hbeside _ _ hrun _ ↦ ?_⟩
  cases hrun
  exact ⟨h, hbeside⟩

theorem of_quits (hx : Quits x) : P.FollowsOut rel x y :=
  ⟨(Passes.of_quits hx).forward, fun _ _ _ hrun _ ↦ ((hx _ _).of_run hrun).elim⟩

theorem ite {p q : Prop} [Decidable p] [Decidable q] (h : q ↔ p) {x' y' : Check α}
    (hx : P.FollowsOut rel x y) (hx' : P.FollowsOut rel x' y') :
    P.FollowsOut rel (if p then x else x') (if q then y else y') := by
  by_cases hp : p
  · rwa [if_pos hp, if_pos (h.2 hp)]
  · rwa [if_neg hp, if_neg fun hq ↦ hp (h.1 hq)]

theorem bind (hx : P.FollowsOut rel x y) (hrefl : ∀ a, rel a a)
    (hf : ∀ a b, rel a b → P.FollowsOut rel' (f a) (g b)) :
    P.FollowsOut rel' (x >>= f) (y >>= g) := by
  refine ⟨hx.forward.bind fun a ↦ (hf a a (hrefl a)).forward, fun {c s d u} h b t hrun hstop ↦ ?_⟩
  obtain ⟨a, middle, hfirst, hsecond⟩ := exists_run_bind hrun
  have hle : s.position ≤ middle.position := (hx.forward c s h.tokens h.place.1).of_run hfirst
  have hle' : middle.position ≤ t.position :=
    ((hf a a (hrefl a)).forward c middle h.tokens (Nat.le_trans h.place.1 hle)).of_run hsecond
  rw [ensures_bind]
  refine (hx.follows h a middle hfirst (Nat.le_trans hle' hstop)).mono ?_
  rintro a' v ⟨hrel, hbeside⟩
  exact (hf a a' hrel).follows hbeside b t hsecond hstop

/-- What comes before a part that passes a token ends inside the passage. -/
theorem later (hx : P.Follows rel x y) (hrefl : ∀ a, rel a a) (hf : ∀ a, P.Passes (f a))
    (hfollows : ∀ a b, rel a b → P.FollowsOut rel' (f a) (g b)) :
    P.FollowsOut rel' (x >>= f) (y >>= g) :=
  ⟨hx.forward.bind fun a ↦ (hfollows a a (hrefl a)).forward,
    fun h ↦ .later h hx hf fun _ hrel ↦ (hfollows _ _ hrel).follows⟩

end FollowsOut

/-! ### Brackets that are passed as a whole -/

section

variable {f g : Nat → Nat → Check β}

theorem Passes.brackets (hf : ∀ i k, P.GoesForward (f i k)) :
    P.Passes (Check.here >>= fun i ↦ Check.matchingClose i >>= fun k ↦
      Check.moveTo (k + 1) >>= fun _ ↦ f i k) := by
  intro c s hc hs
  simp only [ensures_bind, ensures_here, ensures_moveTo]
  refine (ensures_matchingClose_found s.position c s).mono ?_
  rintro k _ ⟨rfl, closing, -, hfound⟩
  have hlt := Nat.lt_succ_of_le (le_of_searchClose hfound).1
  exact (hf _ k c _ hc (Nat.le_trans hs (Nat.le_of_lt hlt))).mono fun _ _ hle ↦
    Nat.lt_of_lt_of_le hlt hle

/-- The bracket that closes is the same one if it stands inside the passage, and both runs go on behind
it. -/
theorem FollowsUpTo.brackets (h : P.Beside c s d u) {index : Nat} (hindex : index ≤ P.stop + 1)
    (hforward : ∀ i k, P.GoesForward (f i k))
    (hf : ∀ {i j k l t v}, P.At i j → P.At k l → P.Beside c t d v →
      P.FollowsUpTo index rel' (f i k) (g j l) c t d v) :
    P.FollowsUpTo index rel'
      (Check.here >>= fun i ↦ Check.matchingClose i >>= fun k ↦
        Check.moveTo (k + 1) >>= fun _ ↦ f i k)
      (Check.here >>= fun i ↦ Check.matchingClose i >>= fun k ↦
        Check.moveTo (k + 1) >>= fun _ ↦ g i k) c s d u := by
  intro b t hrun hle
  obtain ⟨_, _, hhere, hrest⟩ := exists_run_bind hrun
  cases hhere
  obtain ⟨k, after, hfirst, hrest⟩ := exists_run_bind hrest
  obtain ⟨rfl, closing, hclosing, hfound⟩ := (ensures_matchingClose_found _ c _).of_run hfirst
  obtain ⟨_, _, hmove, hsecond⟩ := exists_run_bind hrest
  cases hmove
  have hopening := (le_of_searchClose hfound).1
  have hstart : P.start ≤ k + 1 := Nat.le_succ_of_le (Nat.le_trans h.place.1 hopening)
  have hbehind : k + 1 ≤ t.position := (hforward _ k c _ h.tokens hstart).of_run hsecond
  have hk : k ≤ P.stop := by omega
  obtain ⟨l, hfound', hkl⟩ := h.searchClose h.place hfound hk
  have hkind := h.kindAt_eq h.place (Nat.le_trans hopening hk)
  simp only [Check.matchingClose, bind_assoc, ensures_bind, ensures_here, ensures_read, hkind,
    hclosing, h.limits, hfound', ensures_pure, ensures_moveTo]
  exact hf h.place hkl (h.movedTo hkl.succ) b t hsecond hle

end

end Passage

end FrontEnd
