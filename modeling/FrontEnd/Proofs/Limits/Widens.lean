import FrontEnd.Check.Program
import FrontEnd.Proofs.Check.Ensures

/-!
# Wider limits

`Widens limits x y` compares two runs from the same state: that of `x` under limits that are no wider,
and that of `y` under the given ones.  They end with the same result in the same state, or `x` comes
to a limit.  The two checks differ in the number of levels that are left to them, and in nothing else.

The limits are read in four places: by the counted loops, by the two searches ahead and where a level
is refused.  Everything else reads other parts of the context and is closed under composition, so
there is one lemma for each check, which follows its text.
-/

namespace FrontEnd

open Check

/-- No limit is wider than the other one. -/
instance : LE Limits :=
  ⟨fun narrow wide ↦ narrow.scan ≤ wide.scan ∧ narrow.nesting ≤ wide.nesting⟩

/-- The same context under other limits. -/
def Context.within (c : Context) (limits : Limits) : Context :=
  { c with limits := limits }

/-- Under the given limits the one check does what the other does under limits that are no wider,
unless that one comes to a limit. -/
def Widens (limits : Limits) {α : Type} (x y : Check α) : Prop :=
  ∀ ⦃c s⦄, c.limits ≤ limits →
    AtLimit (x.runFrom c s).1 ∨ y.runFrom (c.within limits) s = x.runFrom c s

/-! ### Searches ahead -/

namespace Context

variable {c : Context} {left more : Nat}

theorem searchClose_within (limits : Limits) (opening closing : Kind) (left index depth : Nat) :
    (c.within limits).searchClose opening closing left index depth =
      c.searchClose opening closing left index depth := by
  induction left generalizing index depth with
  | zero => rfl
  | succ left ih => simp only [searchClose, ih]; rfl

theorem searchEnd_within (limits : Limits) (terminators : List Kind) (left index depth : Nat) :
    (c.within limits).searchEnd terminators left index depth =
      c.searchEnd terminators left index depth := by
  induction left generalizing index depth with
  | zero => rfl
  | succ left ih => simp only [searchEnd, ih]; rfl

/-- A search that ends does not need more steps. -/
theorem searchClose_of_le (hle : left ≤ more) (opening closing : Kind) (index depth : Nat) :
    c.searchClose opening closing left index depth = .exhausted ∨
      c.searchClose opening closing more index depth =
        c.searchClose opening closing left index depth := by
  induction left generalizing more index depth with
  | zero => exact .inl rfl
  | succ left ih =>
    obtain ⟨more, rfl⟩ : ∃ m, more = m + 1 := ⟨more - 1, by omega⟩
    have hrest (index depth : Nat) := ih (Nat.le_of_succ_le_succ hle) index depth
    simp only [searchClose]
    split
    · exact .inr rfl
    split
    · exact hrest _ _
    split
    · split
      · exact .inr rfl
      · exact hrest _ _
    · exact hrest _ _

theorem searchEnd_of_le (hle : left ≤ more) (terminators : List Kind) (index depth : Nat) :
    c.searchEnd terminators left index depth = .exhausted ∨
      c.searchEnd terminators more index depth = c.searchEnd terminators left index depth := by
  induction left generalizing more index depth with
  | zero => exact .inl rfl
  | succ left ih =>
    obtain ⟨more, rfl⟩ : ∃ m, more = m + 1 := ⟨more - 1, by omega⟩
    have hrest (index depth : Nat) := ih (Nat.le_of_succ_le_succ hle) index depth
    simp only [searchEnd]
    split
    · exact .inr rfl
    split
    · exact hrest _ _
    split
    · split
      · exact .inr rfl
      · exact hrest _ _
    split
    · exact .inr rfl
    · exact hrest _ _

end Context

namespace Widens

variable {limits : Limits} {α β σ : Type} {x y x' y' : Check α} {f g : α → Check β}

/-! ### The operations of the monad -/

/-- A check that always comes to a limit is widened by any other. -/
theorem of_limit (h : ∀ c s, AtLimit (x.runFrom c s).1) : Widens limits x y :=
  fun c s _ ↦ .inl (h c s)

/-- A check that does not read the limits. -/
theorem of_eq (h : ∀ c s, y.runFrom (c.within limits) s = x.runFrom c s) : Widens limits x y :=
  fun c s _ ↦ .inr (h c s)

theorem pure (a : α) : Widens limits (pure a : Check α) (pure a) :=
  of_eq fun _ _ ↦ rfl

theorem refuse (e : SemanticError) : Widens limits (Check.refuse e : Check α) (Check.refuse e) :=
  of_eq fun _ _ ↦ rfl

theorem next (hx : Widens limits x y) (hf : ∀ a, Widens limits (f a) (g a)) :
    Widens limits (x >>= f) (y >>= g) := by
  intro c s hc
  rw [Check.runFrom_bind, Check.runFrom_bind]
  rcases hx (s := s) hc with ⟨e, he, hlimit⟩ | heq
  · left
    generalize x.runFrom c s = o at he
    obtain ⟨result, after⟩ := o
    subst he
    exact ⟨e, rfl, hlimit⟩
  · rw [heq]
    cases x.runFrom c s with
    | mk result after =>
      cases result with
      | error e => exact .inr rfl
      | ok a => exact hf a hc

theorem map {h : α → β} (hx : Widens limits x y) : Widens limits (h <$> x) (h <$> y) := by
  rw [map_eq_pure_bind, map_eq_pure_bind]
  exact hx.next fun a ↦ pure (h a)

theorem discard (hx : Widens limits x y) : Widens limits (discard x) (discard y) := by
  rw [Functor.discard, LawfulFunctor.map_const, Functor.discard, LawfulFunctor.map_const]
  exact hx.map

theorem ite {p : Prop} [Decidable p] (hx : Widens limits x y) (hx' : Widens limits x' y') :
    Widens limits (if p then x else x') (if p then y else y') := by
  split
  · exact hx
  · exact hx'

/-- A check that may come before another one. -/
theorem guard {p : Prop} [Decidable p] (hx : Widens limits x y) {z w : Check β}
    (hz : Widens limits z w) :
    Widens limits (if p then x >>= fun _ ↦ z else z) (if p then y >>= fun _ ↦ w else w) :=
  ite (hx.next fun _ ↦ hz) hz

theorem otherwise {p : Prop} [Decidable p] (hx : Widens limits x y) {z w : Check β}
    (hz : Widens limits z w) :
    Widens limits (if p then z else x >>= fun _ ↦ z) (if p then w else y >>= fun _ ↦ w) :=
  ite hz (hx.next fun _ ↦ hz)

/-- What is read of a context may tell its limits. -/
theorem read {f g : Context → Check β}
    (hf : ∀ c, c.limits ≤ limits → Widens limits (f c) (g (c.within limits))) :
    Widens limits (read >>= f) (read >>= g) :=
  fun c _ hc ↦ hf c hc hc

theorem get : Widens limits (get : Check State) get :=
  of_eq fun _ _ ↦ rfl

theorem modify (f : State → State) : Widens limits (modify f : Check Unit) (modify f) :=
  of_eq fun _ _ ↦ rfl

/-- The context of a part has the limits of the whole. -/
theorem withReader {f : Context → Context} (hf : ∀ c, (f c).limits = c.limits)
    (hcomm : ∀ c, f (c.within limits) = (f c).within limits) (hx : Widens limits x y) :
    Widens limits (withReader f x : Check α) (withReader f y) := by
  intro c s hc
  have hrun := hx (c := f c) (s := s) (hf c ▸ hc)
  rw [← hcomm] at hrun
  exact hrun

/-! ### Looking ahead and around -/

theorem here : Widens limits Check.here Check.here :=
  of_eq fun _ _ ↦ rfl

theorem peek : Widens limits Check.peek Check.peek :=
  of_eq fun _ _ ↦ rfl

theorem peekKind : Widens limits Check.peekKind Check.peekKind :=
  of_eq fun _ _ ↦ rfl

theorem secondKind : Widens limits Check.secondKind Check.secondKind :=
  of_eq fun _ _ ↦ rfl

theorem next? (k : Kind) : Widens limits (Check.next? k) (Check.next? k) :=
  of_eq fun _ _ ↦ rfl

theorem atEnd : Widens limits Check.atEnd Check.atEnd :=
  next? .eof

theorem violateAt (v : Violation) (t : Token) :
    Widens limits (Check.violateAt v t : Check α) (Check.violateAt v t) :=
  refuse _

theorem violate (v : Violation) : Widens limits (Check.violate v : Check α) (Check.violate v) :=
  of_eq fun _ _ ↦ rfl

theorem moveTo (index : Nat) : Widens limits (Check.moveTo index) (Check.moveTo index) :=
  modify _

theorem advance : Widens limits Check.advance Check.advance :=
  peek.next fun t ↦ here.next fun _ ↦ read fun _ _ ↦ guard (moveTo _) (pure t)

theorem expect (k : Kind) (wanted : Wanted) :
    Widens limits (Check.expect k wanted) (Check.expect k wanted) :=
  (next? k).next fun _ ↦ ite advance <| peek.next fun _ ↦ ite (violateAt _ _) (violateAt _ _)

theorem expectMark (k : Kind) : Widens limits (Check.expectMark k) (Check.expectMark k) :=
  expect k (.mark k)

/-! ### Where limits are read -/

theorem atLimit_violate {v : Violation} (hv : v.isLimit) (c : Context) (s : State) :
    AtLimit ((Check.violate v : Check α).runFrom c s).1 :=
  ⟨_, rfl, hv⟩

theorem matchingClose (opening : Nat) :
    Widens limits (Check.matchingClose opening) (Check.matchingClose opening) := by
  refine read fun c hc ↦ ?_
  have hscan : (c.within limits).limits.scan = limits.scan := rfl
  have hkind : (c.within limits).kindAt opening = c.kindAt opening := rfl
  simp only [hkind, Context.searchClose_within, hscan]
  cases (c.kindAt opening).closer? with
  | none => exact violate _
  | some closing =>
    dsimp only
    rcases Context.searchClose_of_le hc.1 (c.kindAt opening) closing opening 0 with h | h
    · rw [h]
      exact of_limit (atLimit_violate rfl)
    · rw [h]
      split
      · exact pure _
      · exact violateAt _ _
      · exact of_limit (atLimit_violate rfl)

theorem expressionEnd (terminators : List Kind) :
    Widens limits (Check.expressionEnd terminators) (Check.expressionEnd terminators) := by
  refine read fun c hc ↦ here.next fun i ↦ ?_
  have hscan : (c.within limits).limits.scan = limits.scan := rfl
  rw [Context.searchEnd_within, hscan]
  rcases Context.searchEnd_of_le hc.1 terminators i 0 with h | h
  · rw [h]
    exact of_limit (atLimit_violate rfl)
  · rw [h]
    split
    · exact pure _
    · exact of_limit (atLimit_violate rfl)

theorem tooDeep : Widens limits (Check.tooDeep : Check α) y :=
  of_limit fun _ _ ↦ ⟨_, rfl, rfl⟩

section

variable {due : Check Bool} {round round' : σ → Check (ForInStep σ)}

/-- A loop that ends does not need more rounds. -/
theorem roundsFrom (hdue : Widens limits due due)
    (hround : ∀ value, Widens limits (round value) (round' value)) {left more : Nat}
    (hle : left ≤ more) (value : σ) :
    Widens limits (Check.roundsFrom due round left value)
      (Check.roundsFrom due round' more value) := by
  induction left generalizing more value with
  | zero =>
    rw [Check.roundsFrom, Check.roundsFrom.eq_def]
    exact hdue.next fun _ ↦ ite (of_limit fun _ _ ↦ ⟨_, rfl, rfl⟩) (pure value)
  | succ left ih =>
    obtain ⟨more, rfl⟩ : ∃ m, more = m + 1 := ⟨more - 1, by omega⟩
    refine hdue.next fun _ ↦ ite ((hround value).next fun step ↦ ?_) (pure value)
    cases step with
    | done value => exact pure value
    | yield value => exact ih (Nat.le_of_succ_le_succ hle) value

theorem roundsWhile (hdue : Widens limits due due)
    (hround : ∀ value, Widens limits (round value) (round' value)) (value : σ) :
    Widens limits (Check.roundsWhile due round value) (Check.roundsWhile due round' value) :=
  read fun _ hc ↦ roundsFrom hdue hround hc.1 value

theorem rounds (hround : ∀ value, Widens limits (round value) (round' value)) (value : σ) :
    Widens limits (Check.rounds round value) (Check.rounds round' value) :=
  roundsWhile (pure true) hround value

end

/-! ### Names and blocks -/

theorem resolve (name : String) : Widens limits (Check.resolve name) (Check.resolve name) :=
  of_eq fun _ _ ↦ rfl

theorem modifySymbol (name : String) (f : Symbol → Symbol) :
    Widens limits (Check.modifySymbol name f) (Check.modifySymbol name f) :=
  of_eq fun _ _ ↦ rfl

theorem insertSymbol (scope : Nat) (symbol : Symbol) :
    Widens limits (Check.insertSymbol scope symbol) (Check.insertSymbol scope symbol) :=
  of_eq fun _ _ ↦ rfl

theorem declaredHere (name : String) :
    Widens limits (Check.declaredHere name) (Check.declaredHere name) :=
  of_eq fun _ _ ↦ rfl

theorem declare (symbol : Symbol) (place : Token) :
    Widens limits (Check.declare symbol place) (Check.declare symbol place) :=
  read fun c _ ↦ (insertSymbol c.scope symbol).next fun _ ↦ ite (pure _) (violateAt _ _)

theorem warn (name : String) (t : Token) : Widens limits (Check.warn name t) (Check.warn name t) :=
  modify _

theorem inScope (label : String) (hx : Widens limits x y) :
    Widens limits (Check.inScope label x) (Check.inScope label y) := by
  intro c s hc
  have hleaving {z : Check α} (c : Context) : (Check.inScope label z).runFrom c s =
      let o := z.runFrom { c with scope := s.arena.size, blockDepth := c.blockDepth + 1 }
        { s with arena := s.arena.push c.scope label }
      (o.1, { o.2 with arena := o.2.arena.release s.arena.size }) := rfl
  rw [hleaving, hleaving]
  rcases hx (c := { c with scope := s.arena.size, blockDepth := c.blockDepth + 1 })
    (s := { s with arena := s.arena.push c.scope label }) hc with hlimit | heq
  · exact .inl hlimit
  · right
    dsimp only
    rw [← heq]
    rfl

theorem inBlock (kind : BlockKind) (hx : Widens limits x y) :
    Widens limits (Check.inBlock kind x) (Check.inBlock kind y) :=
  withReader (fun _ ↦ rfl) (fun _ ↦ rfl) hx

end Widens

end FrontEnd
