import FrontEnd.Check.Statement
import FrontEnd.Proofs.Check.Bracketing
import FrontEnd.Proofs.Check.Operands

/-!
# Where a walk leads

Some violations say that a token is missing or does not belong where it stands: the *structural*
ones.  `Reaches kind x i Q` says of a check on tokens of the given kinds that, started at an index,
it meets no structural violation and ends with a result and at an index in `Q`; `Leads kind x i j`
says that the index is `j`.  What stands in the scopes does not matter for either.

Both are closed under what checks are built from, with the kinds known: a question for the next kind
has one answer, and a search ahead that finds a bracket finds the one given by `Pairs`.
-/

namespace FrontEnd

open Check

/-- The violations that are about the shape of a program and not about what it means. -/
def Violation.isStructural : Violation → Bool
  | expectedToken _ _ | unexpectedToken _ _ | unexpectedEnd | unclosed _ | incompleteExpression
  | missingRightOperand _ | unexpectedClosingParenthesis => true
  | _ => false

/-- A violation of another sort. -/
def Nonstructural (e : SemanticError) : Prop :=
  e.violation.isStructural = false

/-- On tokens of the given kinds, a check that starts at an index meets no structural violation and
ends with a result and an index in `Q`. -/
def Reaches {α : Type} (kind : Nat → Kind) (x : Check α) (i : Nat) (Q : α → Nat → Prop) : Prop :=
  ∀ c s, c.kindAt = kind → s.position = i →
    Ensures x c s Nonstructural fun a after ↦ Q a after.position

/-- The check leads from one index to another. -/
abbrev Leads {α : Type} (kind : Nat → Kind) (x : Check α) (i j : Nat) : Prop :=
  Reaches kind x i fun _ m ↦ m = j

namespace Reaches

variable {α β σ : Type} {kind : Nat → Kind} {x y : Check α} {i j m : Nat} {k : Kind}
  {Q R : α → Nat → Prop} {Q' : β → Nat → Prop} {f : α → Check β}

theorem mono (h : Reaches kind x i Q) (hQ : ∀ a m, Q a m → R a m) : Reaches kind x i R :=
  fun c s hc hs ↦ (h c s hc hs).mono fun a _ ↦ hQ a _

/-! ### The operations of the monad -/

theorem pure {a : α} (h : Q a i) : Reaches kind (pure a : Check α) i Q := by
  rintro c s - rfl
  exact h

theorem refuse {e : SemanticError} (h : e.violation.isStructural = false) :
    Reaches kind (Check.refuse e : Check α) i Q :=
  fun _ _ _ _ ↦ h

theorem violateAt {v : Violation} (h : v.isStructural = false) (t : Token) :
    Reaches kind (violateAt v t : Check α) i Q :=
  fun _ _ _ _ ↦ h

theorem violate {v : Violation} (h : v.isStructural = false) :
    Reaches kind (violate v : Check α) i Q :=
  fun _ _ _ _ ↦ h

theorem bind (hx : Reaches kind x i R) (hf : ∀ a m, R a m → Reaches kind (f a) m Q') :
    Reaches kind (x >>= f) i Q' := by
  intro c s hc hs
  rw [ensures_bind]
  exact (hx c s hc hs).mono fun a after ha ↦ hf a _ ha c after hc rfl

/-- A check that leads somewhere, and what comes then. -/
theorem next (hx : Leads kind x i m) (hf : ∀ a, Reaches kind (f a) m Q') :
    Reaches kind (x >>= f) i Q' :=
  hx.bind fun a _ hm ↦ hm ▸ hf a

/-- What comes after a violation does not matter. -/
theorem violateAt_then {v : Violation} (h : v.isStructural = false) (t : Token) :
    Reaches kind (Check.violateAt v t >>= f) i Q' :=
  bind (R := fun _ _ ↦ False) (violateAt h t) fun _ _ hfalse ↦ hfalse.elim

theorem ite {p : Prop} [Decidable p] (hx : p → Reaches kind x i Q) (hy : ¬ p → Reaches kind y i Q) :
    Reaches kind (if p then x else y) i Q := by
  split
  next h => exact hx h
  next h => exact hy h

theorem ifSo {p : Prop} [Decidable p] (h : p) (hx : Reaches kind x i Q) :
    Reaches kind (if p then x else y) i Q :=
  ite (fun _ ↦ hx) (absurd h)

theorem ifNot {p : Prop} [Decidable p] (h : ¬ p) (hy : Reaches kind y i Q) :
    Reaches kind (if p then x else y) i Q :=
  ite (fun hp ↦ absurd hp h) fun _ ↦ hy

/-- A check that stays where it is and may come before another one. -/
theorem guard {p : Prop} [Decidable p] {z : Check β} (hx : Leads kind x i i)
    (hz : Reaches kind z i Q') : Reaches kind (if p then x >>= fun _ ↦ z else z) i Q' :=
  ite (fun _ ↦ hx.next fun _ ↦ hz) fun _ ↦ hz

theorem otherwise {p : Prop} [Decidable p] {z : Check β} (hx : Leads kind x i i)
    (hz : Reaches kind z i Q') : Reaches kind (if p then z else x >>= fun _ ↦ z) i Q' :=
  ite (fun _ ↦ hz) fun _ ↦ hx.next fun _ ↦ hz

theorem map {g : α → β} (hx : Leads kind x i j) : Leads kind (g <$> x) i j := by
  rw [map_eq_pure_bind]
  exact hx.next fun a ↦ pure rfl

theorem discard (hx : Leads kind x i j) : Leads kind (discard x) i j := by
  rw [Functor.discard, LawfulFunctor.map_const]
  exact hx.map

theorem read {g : Context → Check β} (h : ∀ c, c.kindAt = kind → Reaches kind (g c) i Q') :
    Reaches kind (read >>= g) i Q' :=
  fun c s hc hs ↦ h c hc c s hc hs

theorem get {g : State → Check β} (h : ∀ s, Reaches kind (g s) i Q') :
    Reaches kind (get >>= g) i Q' :=
  fun c s hc hs ↦ h s c s hc hs

theorem modify {g : State → State} (h : ∀ s, (g s).position = s.position) :
    Leads kind (modify g : Check Unit) i i :=
  fun _ s _ hs ↦ (h s).trans hs

/-! ### Walking over the tokens -/

theorem here {g : Nat → Check β} (h : Reaches kind (g i) i Q') :
    Reaches kind (here >>= g) i Q' := by
  rintro c s hc rfl
  exact h c s hc rfl

theorem peek {g : Token → Check β} (h : ∀ t, (kind i ≠ .eof → t.kind = kind i) →
    Reaches kind (g t) i Q') : Reaches kind (peek >>= g) i Q' := by
  rintro c s rfl rfl
  exact h (c.tokenAt s.position) Context.kind_tokenAt_of_ne_eof c s rfl rfl

theorem peekKind {g : Kind → Check β} (h : Reaches kind (g (kind i)) i Q') :
    Reaches kind (peekKind >>= g) i Q' := by
  rintro c s rfl rfl
  exact h c s rfl rfl

theorem secondKind {g : Kind → Check β} (h : Reaches kind (g (kind (i + 1))) i Q') :
    Reaches kind (secondKind >>= g) i Q' := by
  rintro c s rfl rfl
  exact h c s rfl rfl

theorem next? {g : Bool → Check β} (h : Reaches kind (g (kind i == k)) i Q') :
    Reaches kind (next? k >>= g) i Q' := by
  rintro c s rfl rfl
  exact h c s rfl rfl

theorem asks {Q : Bool → Nat → Prop} (h : Q (kind i == k) i) :
    Reaches kind (Check.next? k) i Q := by
  rintro c s rfl rfl
  exact h

/-- The next token is of the kind asked for. -/
theorem whenNext {x y : Check β} (hk : kind i = k) (hx : Reaches kind x i Q') :
    Reaches kind (do if ← Check.next? k then x else y) i Q' :=
  next? <| ifSo (beq_iff_eq.2 hk) hx

/-- The next token is of another kind. -/
theorem unlessNext {x y : Check β} (hk : kind i ≠ k) (hy : Reaches kind y i Q') :
    Reaches kind (do if ← Check.next? k then x else y) i Q' :=
  next? <| ifNot (fun heq ↦ hk (beq_iff_eq.1 heq)) hy

theorem moveTo (m : Nat) : Leads kind (moveTo m) i m :=
  fun _ _ _ _ ↦ rfl

/-- The next token, whatever it is, and what comes after it. -/
theorem advance {g : Token → Check β} (hk : kind i ≠ .eof)
    (h : ∀ t, t.kind = kind i → Reaches kind (g t) (i + 1) Q') :
    Reaches kind (advance >>= g) i Q' := by
  rintro c s rfl rfl
  rw [ensures_bind, ensures_advance]
  exact h _ (Context.kind_tokenAt_of_ne_eof hk) c _ rfl (Context.after_of_ne_eof hk)

theorem skip (hk : kind i ≠ .eof) : Leads kind (Functor.discard Check.advance) i (i + 1) := by
  rintro c s rfl rfl
  rw [ensures_discard, ensures_advance]
  exact Context.after_of_ne_eof hk

theorem expect (hk : kind i = k) (heof : k ≠ .eof) (wanted : Wanted) :
    Leads kind (expect k wanted) i (i + 1) := by
  rintro c s rfl rfl
  rw [ensures_expect]
  exact ⟨fun _ ↦ Context.after_of_kindAt hk heof, fun hne ↦ absurd hk hne⟩

theorem expectMark (hk : kind i = k) (heof : k ≠ .eof) : Leads kind (expectMark k) i (i + 1) :=
  expect hk heof (.mark k)

/-! ### Names and blocks -/

theorem resolve (name : String) : Leads kind (resolve name) i i :=
  fun _ _ _ hs ↦ hs

theorem declaredHere (name : String) : Leads kind (declaredHere name) i i :=
  fun _ _ _ hs ↦ hs

theorem insertSymbol (scope : Nat) (symbol : Symbol) :
    Leads kind (insertSymbol scope symbol) i i := by
  intro c s _ hs
  rw [ensures_insertSymbol]
  exact ⟨fun _ _ ↦ hs, fun _ ↦ hs⟩

theorem declare (symbol : Symbol) (place : Token) : Leads kind (declare symbol place) i i :=
  read fun _ _ ↦ (insertSymbol _ symbol).next fun _ ↦ ite (fun _ ↦ pure rfl) fun _ ↦
    violateAt rfl place

theorem modifySymbol (name : String) (g : Symbol → Symbol) :
    Leads kind (modifySymbol name g) i i :=
  fun _ _ _ hs ↦ hs

theorem warn (name : String) (t : Token) : Leads kind (warn name t) i i :=
  fun _ _ _ hs ↦ hs

theorem inBlock (b : BlockKind) (hx : Reaches kind x i Q) : Reaches kind (inBlock b x) i Q :=
  fun c s hc hs ↦ hx { c with blocks := b :: c.blocks } s hc hs

theorem inScope (label : String) (hx : Reaches kind x i Q) :
    Reaches kind (inScope label x) i Q := by
  intro c s hc hs
  rw [ensures_inScope]
  exact hx { c with scope := s.arena.size, blockDepth := c.blockDepth + 1 }
    { s with arena := s.arena.push c.scope label } hc hs

/-! ### Counted loops -/

/-- Where a round leaves the walk: at a place for another round or at an end. -/
def AfterStep (I D : Nat → Prop) (step : ForInStep σ) (m : Nat) : Prop :=
  match step with
  | .done _ => D m
  | .yield _ => I m

/-- Rounds that go on at a place of an invariant lead to where they end. -/
theorem roundsWhile {due : Check Bool} {round : σ → Check (ForInStep σ)} {value : σ}
    {I D : Nat → Prop} (hi : I i)
    (hround : ∀ value m, I m → Reaches kind due m fun more n ↦ n = m ∧
      (more = true → Reaches kind (round value) m (AfterStep I D)) ∧ (more = false → D m)) :
    Reaches kind (roundsWhile due round value) i fun _ ↦ D := by
  intro c s hc hs
  refine ensures_roundsWhile (fun _ ↦ rfl) (I := fun _ after ↦ I after.position)
    (D := fun _ after ↦ D after.position) (hs ▸ hi) fun value s hs ↦ ?_
  refine (hround value s.position hs c s hc rfl).mono ?_
  rintro more after ⟨hstay, hmore, hend⟩
  refine ⟨fun hgo ↦ (hmore hgo c after hc hstay).mono fun step later hstep ↦ ?_,
    fun hdone ↦ hstay ▸ hend hdone⟩
  cases step <;> exact hstep

theorem rounds {round : σ → Check (ForInStep σ)} {value : σ} {I D : Nat → Prop} (hi : I i)
    (hround : ∀ value m, I m → Reaches kind (round value) m (AfterStep I D)) :
    Reaches kind (rounds round value) i fun _ ↦ D :=
  roundsWhile hi fun value m hm ↦ pure ⟨rfl, fun _ ↦ hround value m hm, fun h ↦ by cases h⟩

end Reaches

/-! ### Searches ahead -/

/-- A search that begins at a bracket comes to another one, unless it reaches its limit before. -/
def Pairs (kind : Nat → Kind) (i j : Nat) : Prop :=
  ∃ closing, (kind i).closer? = some closing ∧ ∀ c : Context, c.kindAt = kind → ∀ left,
    c.searchClose (kind i) closing left i 0 = .exhausted ∨
      c.searchClose (kind i) closing left i 0 = .found j

section

variable {β : Type} {kind : Nat → Kind} {commas : Bool} {closing : Kind} {i j m : Nat}
  {Q : β → Nat → Prop} {terminators : List Kind}

theorem Phrase.pairs (hopen : (kind i).closer? = some closing) (h : Phrase kind true (i + 1) j)
    (hclose : kind j = closing) : Pairs kind i j := by
  refine ⟨closing, hopen, ?_⟩
  rintro c rfl left
  exact (h.searchClose_eq hopen hclose left).imp And.right id

/-- A search that goes on to its bracket finds it. -/
theorem Pairs.of_goesOn (hopen : (kind i).closer? = some closing) (hclose : kind j = closing)
    (h : ∀ c : Context, c.kindAt = kind → GoesOn i j (c.searchClose (kind i) closing · i 0)
      (c.searchClose (kind i) closing · j 1)) : Pairs kind i j := by
  refine ⟨closing, hopen, fun c hc left ↦ ?_⟩
  rcases (h c hc).cases_left left with ⟨-, hlimit⟩ | ⟨rest, -, hgoes⟩
  · exact .inl hlimit
  · rw [hgoes]
    cases rest with
    | zero => exact .inl rfl
    | succ rest =>
      subst hc
      exact .inr (by
        simp [Context.searchClose, hclose, (Kind.closer?_ne_eof hopen).2,
          Kind.closer?_ne hopen hopen])

theorem Balanced.pairs (hopen : kind i = .leftBrace) (h : Balanced kind (i + 1) j)
    (hclose : kind j = .rightBrace) : Pairs kind i j := by
  refine .of_goesOn (by rw [hopen]; rfl) hclose ?_
  rintro c rfl
  rw [hopen]
  exact (goesOn_opening rfl hopen).trans (h.goesOn_searchClose (Nat.le_refl 1))

theorem Reaches.matchingClose {g : Nat → Check β} (h : Pairs kind i j)
    (hg : Reaches kind (g j) m Q) : Reaches kind (matchingClose i >>= g) m Q := by
  rintro c s rfl hs
  obtain ⟨closing, hopen, hsearch⟩ := h
  rw [ensures_bind, ensures_matchingClose_iff hopen]
  rcases hsearch c rfl c.limits.scan with hlimit | hfound
  · simp only [hlimit]
    exact ⟨by simp, by simp, fun _ ↦ rfl⟩
  · simp only [hfound]
    refine ⟨?_, by simp, by simp⟩
    rintro _ ⟨⟩
    exact hg c s rfl hs

/-- A kind at which the search for the end of an expression stops. -/
def Kind.endsExpression (terminators : List Kind) (k : Kind) : Bool :=
  k == .semicolon || k.isCloser || (terminators.contains k && k.closer?.isNone)

/-- The search for the end of an expression stops behind a phrase, unless the limit is too small for
it. -/
theorem Phrase.searchEnd_eq {c : Context} (hterminators : ∀ k ∈ terminators, k.isPlain = false)
    (h : Phrase c.kindAt false i j) (hend : (c.kindAt j).endsExpression terminators) (left : Nat) :
    (i + left ≤ j ∧ c.searchEnd terminators left i 0 = .exhausted) ∨
      c.searchEnd terminators left i 0 = .found j := by
  rcases (h.goesOn_searchEnd hterminators (by simp)).cases_left left with
    ⟨hlt, hlimit⟩ | ⟨rest, hleft, hgoes⟩
  · exact .inl ⟨Nat.le_of_lt hlt, hlimit⟩
  · cases rest with
    | zero => exact .inl ⟨Nat.le_of_eq hleft, hgoes⟩
    | succ rest =>
      refine .inr (hgoes.trans ?_)
      simp only [Kind.endsExpression, Bool.or_eq_true, beq_iff_eq, Bool.and_eq_true,
        List.contains_iff_mem, Option.isNone_iff_eq_none] at hend
      rcases hend with (hsemicolon | hcloser) | ⟨hmem, hopener⟩
      · simp [Context.searchEnd, hsemicolon]
      · have hopener : (c.kindAt j).isOpener = false := by
          cases hk : c.kindAt j <;> simp_all [Kind.isCloser, Kind.isOpener, Kind.closer?]
        simp [Context.searchEnd, hcloser, hopener]
      · simp [Context.searchEnd, hmem, Kind.isOpener, hopener]

theorem Reaches.expressionEnd {g : Nat → Check β}
    (hterminators : ∀ k ∈ terminators, k.isPlain = false) (h : Phrase kind false i j)
    (hend : (kind j).endsExpression terminators) (hg : Reaches kind (g j) i Q) :
    Reaches kind (expressionEnd terminators >>= g) i Q := by
  rintro c s rfl rfl
  simp only [Check.expressionEnd, ensures_bind, ensures_read, ensures_here]
  rcases h.searchEnd_eq hterminators hend c.limits.scan with ⟨-, hlimit⟩ | hfound
  · rw [hlimit]
    exact rfl
  · rw [hfound]
    exact hg c s rfl rfl

end

end FrontEnd
