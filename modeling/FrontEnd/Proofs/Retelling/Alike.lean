import FrontEnd.Proofs.Check.Ensures
import FrontEnd.Proofs.Retelling.Arena

/-!
# Runs that end alike

Two checks are `Alike` if their runs over two texts that tell the same program end alike: both succeed
with results that correspond, or both stop at the same violation at the same place, and the states they
leave correspond.  So a relation between two runs is a relation between two checks, and it is closed
under everything that checks are built from.

Where a check reports the token it has just looked at, it matters that this is the next token:
`AlikeAt` is the same for runs that start at a token of a kind.
-/

namespace FrontEnd

open Check

namespace Retelling

variable (T : Retelling)

section

variable {α : Type}

/-- Results of two runs: both or none succeed. -/
inductive Results (rel : α → α → Prop) : Except SemanticError α → Except SemanticError α → Prop
  | ok {a b : α} : rel a b → Results rel (.ok a) (.ok b)
  | error {e f : SemanticError} : T.Errors e f → Results rel (.error e) (.error f)

/-- How two runs end. -/
structure Ends (rel : α → α → Prop) (o p : Except SemanticError α × State) : Prop where
  results : T.Results rel o.1 p.1
  states : T.States o.2 p.2

/-- The runs of two checks from corresponding states end alike. -/
def Alike (rel : α → α → Prop) (x y : Check α) : Prop :=
  ∀ ⦃c d s u⦄, T.Contexts c d → T.States s u → T.Ends rel (x.runFrom c s) (y.runFrom d u)

/-- The runs of two checks from corresponding states before tokens of a kind end alike. -/
def AlikeAt (k : Kind) (rel : α → α → Prop) (x y : Check α) : Prop :=
  ∀ ⦃c d s u⦄, T.Contexts c d → T.States s u → (c.tokenAt s.position).kind = k →
    T.Ends rel (x.runFrom c s) (y.runFrom d u)

end

/-- The types of the same expression. -/
abbrev Types (a b : DataType) : Prop :=
  b = a.renamed T.rename

/-- How two rounds end: both or none ask for another one. -/
inductive Steps {σ : Type} (rel : σ → σ → Prop) : ForInStep σ → ForInStep σ → Prop
  | done {a b : σ} : rel a b → Steps rel (.done a) (.done b)
  | yield {a b : σ} : rel a b → Steps rel (.yield a) (.yield b)

variable {T} {α β σ : Type}

theorem Contexts.searchClose_eq {c d : Context} (h : T.Contexts c d) (opening closing : Kind)
    (left index depth : Nat) : d.searchClose opening closing left index depth =
      c.searchClose opening closing left index depth := by
  induction left generalizing index depth with
  | zero => rfl
  | succ left ih => simp only [Context.searchClose, h.kinds, ih]

theorem Contexts.searchEnd_eq {c d : Context} (h : T.Contexts c d) (terminators : List Kind)
    (left index depth : Nat) : d.searchEnd terminators left index depth =
      c.searchEnd terminators left index depth := by
  induction left generalizing index depth with
  | zero => rfl
  | succ left ih => simp only [Context.searchEnd, h.kinds, ih]

/-- The next tokens stand at the same place. -/
theorem Contexts.next {c d : Context} {s u : State} (hc : T.Contexts c d) (hs : T.States s u) :
    T.Tokens (c.tokenAt s.position) (d.tokenAt u.position) := by
  rw [hs.position]
  exact hc.tokens s.position

/-- The same states but for the arenas. -/
theorem States.withArena {s u : State} (h : T.States s u) {a b : Arena} (harena : T.Arenas a b) :
    T.States { s with arena := a } { u with arena := b } :=
  ⟨h.position, harena, h.functions, h.headers, h.sawReturn, h.warnings⟩

/-! ### The operations of the monad -/

namespace Ends

variable {rel : α → α → Prop} {rel' : β → β → Prop} {x y : Check α} {f g : α → Check β}
  {c d : Context} {s u : State} (hx : T.Ends rel (x.runFrom c s) (y.runFrom d u))

include hx

theorem mono {weaker : α → α → Prop} (h : ∀ a b, rel a b → weaker a b) :
    T.Ends weaker (x.runFrom c s) (y.runFrom d u) := by
  refine ⟨?_, hx.states⟩
  have hresults := hx.results
  generalize (x.runFrom c s).1 = result, (y.runFrom d u).1 = result' at hresults
  cases hresults with
  | ok hab => exact .ok (h _ _ hab)
  | error herror => exact .error herror

/-- What is known of the result of the one run is known of those of runs that end alike. -/
theorem ensuring {P : α → Prop} (h : Ensures x c s (fun _ ↦ True) fun a _ ↦ P a) :
    T.Ends (fun a b ↦ rel a b ∧ P a) (x.runFrom c s) (y.runFrom d u) := by
  obtain ⟨hresults, hstates⟩ := hx
  refine ⟨?_, hstates⟩
  unfold Ensures at h
  generalize x.runFrom c s = o, y.runFrom d u = p at hresults h
  obtain ⟨result, after⟩ := o
  obtain ⟨result', after'⟩ := p
  cases hresults with
  | ok hab => exact .ok ⟨hab, h⟩
  | error herror => exact .error herror

theorem bind (hc : T.Contexts c d) (hf : ∀ a b, rel a b → T.Alike rel' (f a) (g b)) :
    T.Ends rel' ((x >>= f).runFrom c s) ((y >>= g).runFrom d u) := by
  obtain ⟨hresults, hstates⟩ := hx
  rw [Check.runFrom_bind, Check.runFrom_bind]
  generalize x.runFrom c s = o, y.runFrom d u = p at hresults hstates
  obtain ⟨result, after⟩ := o
  obtain ⟨result', after'⟩ := p
  cases hresults with
  | ok h => exact hf _ _ h hc hstates
  | error h => exact ⟨.error h, hstates⟩

end Ends

namespace Alike

variable {rel : α → α → Prop} {rel' : β → β → Prop} {x y x' y' : Check α} {f g : α → Check β}

theorem pure {a b : α} (h : rel a b) : T.Alike rel (pure a) (pure b) :=
  fun _ _ _ _ _ hs ↦ ⟨.ok h, hs⟩

/-- A result that does not depend on the text. -/
theorem same (a : α) : T.Alike Eq (Pure.pure a) (Pure.pure a) :=
  pure rfl

theorem refuse {e e' : SemanticError} (h : T.Errors e e') :
    T.Alike rel (Check.refuse e) (Check.refuse e') :=
  fun _ _ _ _ _ hs ↦ ⟨.error h, hs⟩

theorem bind (hx : T.Alike rel x y) (hf : ∀ a b, rel a b → T.Alike rel' (f a) (g b)) :
    T.Alike rel' (x >>= f) (y >>= g) :=
  fun _ _ _ _ hc hs ↦ (hx hc hs).bind hc hf

/-- A check whose result does not depend on the text. -/
theorem next (hx : T.Alike Eq x y) (hf : ∀ a, T.Alike rel' (f a) (g a)) :
    T.Alike rel' (x >>= f) (y >>= g) := by
  refine hx.bind ?_
  rintro a _ rfl
  exact hf a

/-- A check whose result is a type. -/
theorem typed {f g : DataType → Check β} {x y : Check DataType} (hx : T.Alike T.Types x y)
    (hf : ∀ a, T.Alike rel' (f a) (g (a.renamed T.rename))) : T.Alike rel' (x >>= f) (y >>= g) := by
  refine hx.bind ?_
  rintro a _ rfl
  exact hf a

theorem map {h : α → β} (hx : T.Alike rel x y) (hh : ∀ a b, rel a b → rel' (h a) (h b)) :
    T.Alike rel' (h <$> x) (h <$> y) := by
  rw [map_eq_pure_bind, map_eq_pure_bind]
  exact hx.bind fun a b hab ↦ pure (hh a b hab)

theorem discard (hx : T.Alike rel x y) : T.Alike Eq (discard x) (discard y) := by
  rw [Functor.discard, LawfulFunctor.map_const, Functor.discard, LawfulFunctor.map_const]
  exact hx.map fun _ _ _ ↦ rfl

theorem ite {p q : Prop} [Decidable p] [Decidable q] (h : q ↔ p) (hx : T.Alike rel x y)
    (hx' : T.Alike rel x' y') : T.Alike rel (if p then x else x') (if q then y else y') := by
  by_cases hp : p
  · rwa [if_pos hp, if_pos (h.2 hp)]
  · rwa [if_neg hp, if_neg fun hq ↦ hp (h.1 hq)]

/-- A check that may come before another one. -/
theorem guard {p q : Prop} [Decidable p] [Decidable q] (h : q ↔ p) (hx : T.Alike Eq x y)
    {z w : Check β} (hz : T.Alike rel' z w) :
    T.Alike rel' (if p then x >>= fun _ ↦ z else z) (if q then y >>= fun _ ↦ w else w) :=
  ite h (hx.bind fun _ _ _ ↦ hz) hz

theorem otherwise {p q : Prop} [Decidable p] [Decidable q] (h : q ↔ p) (hx : T.Alike Eq x y)
    {z w : Check β} (hz : T.Alike rel' z w) :
    T.Alike rel' (if p then z else x >>= fun _ ↦ z) (if q then w else y >>= fun _ ↦ w) :=
  ite h hz (hx.bind fun _ _ _ ↦ hz)

theorem read : T.Alike T.Contexts read read :=
  fun _ _ _ _ hc hs ↦ ⟨.ok hc, hs⟩

theorem get : T.Alike T.States get get :=
  fun _ _ _ _ _ hs ↦ ⟨.ok hs, hs⟩

theorem modify {f g : State → State} (h : ∀ s u, T.States s u → T.States (f s) (g u)) :
    T.Alike Eq (modify f : Check Unit) (modify g) :=
  fun _ _ s u _ hs ↦ ⟨.ok rfl, h s u hs⟩

theorem withReader {f g : Context → Context} (h : ∀ c d, T.Contexts c d → T.Contexts (f c) (g d))
    (hx : T.Alike rel x y) : T.Alike rel (withReader f x : Check α) (withReader g y) :=
  fun _ _ _ _ hc hs ↦ hx (h _ _ hc) hs

/-! ### Looking ahead and around -/

theorem here : T.Alike Eq Check.here Check.here :=
  fun _ _ _ _ _ hs ↦ ⟨.ok hs.position.symm, hs⟩

theorem peek : T.Alike T.Tokens Check.peek Check.peek :=
  fun _ _ _ _ hc hs ↦ ⟨.ok (hc.next hs), hs⟩

theorem peekKind : T.Alike Eq Check.peekKind Check.peekKind := by
  intro c d s u hc hs
  refine ⟨.ok ?_, hs⟩
  rw [hs.position, hc.kinds]

theorem secondKind : T.Alike Eq Check.secondKind Check.secondKind := by
  intro c d s u hc hs
  refine ⟨.ok ?_, hs⟩
  rw [hs.position, hc.kinds]

theorem next? (k : Kind) : T.Alike Eq (Check.next? k) (Check.next? k) :=
  peekKind.next fun _ ↦ same _

theorem atEnd : T.Alike Eq Check.atEnd Check.atEnd :=
  next? .eof

theorem moveTo (index : Nat) : T.Alike Eq (Check.moveTo index) (Check.moveTo index) :=
  modify fun _ _ h ↦ ⟨rfl, h.arena, h.functions, h.headers, h.sawReturn, h.warnings⟩

theorem advance : T.Alike T.Tokens Check.advance Check.advance := by
  refine peek.bind fun t u htu ↦ here.next fun i ↦ read.bind fun c d hc ↦ ?_
  exact guard (by rw [hc.size]) (moveTo _) (pure htu)

section

variable {t u : Token} {v w : Violation}

/-- The same violation at tokens that stand at the same place. -/
theorem violateAt (h : T.Tokens t u) (hv : w = v.renamed T.rename (T.found t.kind)) :
    T.Alike rel (Check.violateAt v t) (Check.violateAt w u) :=
  refuse ⟨t, u, h, rfl, rfl, hv⟩

/-- A violation that does not tell what was found. -/
theorem violate (hv : ∀ found, w = v.renamed T.rename found) :
    T.Alike rel (Check.violate v) (Check.violate w) :=
  peek.bind fun _ _ h ↦ violateAt h (hv _)

end

theorem expect (k : Kind) (wanted : Wanted) :
    T.Alike T.Tokens (Check.expect k wanted) (Check.expect k wanted) :=
  (next? k).next fun _ ↦ ite Iff.rfl advance <| peek.bind fun _ _ h ↦
    ite (by rw [T.kind h]) (violateAt h rfl)
      (violateAt h (congrArg (Violation.expectedToken wanted) (T.lexeme h)))

theorem expectMark (k : Kind) : T.Alike T.Tokens (Check.expectMark k) (Check.expectMark k) :=
  expect k (.mark k)

/-- A name that must stand here. -/
theorem expectName (wanted : Wanted) :
    T.Alike T.Names (Check.expect .identifier wanted) (Check.expect .identifier wanted) := by
  have hkind (c : Context) (s : State) : Ensures (Check.expect .identifier wanted) c s
      (fun _ ↦ True) fun t _ ↦ t.kind = .identifier :=
    ensures_expect.2 ⟨fun h ↦ Context.kind_tokenAt_of_kindAt h nofun, fun _ ↦ trivial⟩
  intro c d s u hc hs
  exact ((expect .identifier wanted hc hs).ensuring (hkind c s)).mono fun _ _ h ↦
    .of_identifier h.1 h.2

/-! ### Searches ahead -/

theorem matchingClose (opening : Nat) :
    T.Alike Eq (Check.matchingClose opening) (Check.matchingClose opening) := by
  refine read.bind fun c d hc ↦ ?_
  rw [hc.kinds, hc.limits]
  split
  · exact violate fun _ ↦ rfl
  · rw [hc.searchClose_eq]
    split
    · exact same _
    · exact violateAt (hc.tokens _) rfl
    · exact violate fun _ ↦ rfl

theorem expressionEnd (terminators : List Kind) :
    T.Alike Eq (Check.expressionEnd terminators) (Check.expressionEnd terminators) := by
  refine read.bind fun c d hc ↦ here.next fun i ↦ ?_
  rw [hc.searchEnd_eq, hc.limits]
  split
  · exact same _
  · exact violate fun _ ↦ rfl

/-! ### Counted loops -/

section

variable {rel : σ → σ → Prop} {due due' : Check Bool} {round round' : σ → Check (ForInStep σ)}
  {value value' : σ}

theorem roundsFrom (hdue : T.Alike Eq due due')
    (hround : ∀ a b, rel a b → T.Alike (Steps rel) (round a) (round' b)) (left : Nat)
    (h : rel value value') :
    T.Alike rel (Check.roundsFrom due round left value)
      (Check.roundsFrom due' round' left value') := by
  induction left generalizing value value' with
  | zero =>
    refine hdue.next fun more ↦ ite Iff.rfl (read.bind fun c d hc ↦ ?_) (pure h)
    rw [hc.limits]
    exact violate fun _ ↦ rfl
  | succ left ih =>
    refine hdue.next fun more ↦ ite Iff.rfl ((hround _ _ h).bind fun a b hab ↦ ?_) (pure h)
    cases hab with
    | done hab => exact pure hab
    | yield hab => exact ih hab

theorem roundsWhile (hdue : T.Alike Eq due due')
    (hround : ∀ a b, rel a b → T.Alike (Steps rel) (round a) (round' b)) (h : rel value value') :
    T.Alike rel (Check.roundsWhile due round value) (Check.roundsWhile due' round' value') := by
  refine read.bind fun c d hc ↦ ?_
  rw [hc.limits]
  exact roundsFrom hdue hround _ h

theorem rounds (hround : ∀ a b, rel a b → T.Alike (Steps rel) (round a) (round' b))
    (h : rel value value') :
    T.Alike rel (Check.rounds round value) (Check.rounds round' value') :=
  roundsWhile (same true) hround h

end

/-! ### Names and blocks -/

section

variable {name name' : String} {a b : Symbol} {t u : Token}

theorem resolve (h : name' = T.rename name) :
    T.Alike (Option.Rel T.Symbols) (Check.resolve name) (Check.resolve name') := by
  intro c d s u hc hs
  refine ⟨.ok ?_, hs⟩
  rw [h, hc.scope]
  exact hs.arena.lookup c.scope name

theorem modifySymbol {f g : Symbol → Symbol} (h : name' = T.rename name)
    (hf : ∀ {a b}, T.Symbols a b → T.Symbols (f a) (g b)) :
    T.Alike Eq (Check.modifySymbol name f) (Check.modifySymbol name' g) := by
  refine read.bind fun c d hc ↦ modify fun s u hs ↦ hs.withArena ?_
  rw [h, hc.scope]
  exact hs.arena.modify c.scope name hf

theorem insertSymbol {scope scope' : Nat} (hscope : scope' = scope) (h : T.Symbols a b) :
    T.Alike Eq (Check.insertSymbol scope a) (Check.insertSymbol scope' b) := by
  subst hscope
  intro c d s u hc hs
  have hinsert := hs.arena.insert scope' h
  rw [runFrom_insertSymbol, runFrom_insertSymbol]
  generalize s.arena.insert scope' a = inserted, u.arena.insert scope' b = inserted' at hinsert
  cases hinsert with
  | none => exact ⟨.ok rfl, hs⟩
  | some harena => exact ⟨.ok rfl, hs.withArena harena⟩

theorem declaredHere (h : name' = T.rename name) :
    T.Alike Eq (Check.declaredHere name) (Check.declaredHere name') := by
  refine get.bind fun s u hs ↦ read.bind fun c d hc ↦ pure ?_
  rw [h, hc.scope, hs.arena.declaredHere_eq]

theorem declare (h : T.Symbols a b) (ht : T.Tokens t u) :
    T.Alike Eq (Check.declare a t) (Check.declare b u) := by
  refine read.bind fun c d hc ↦ (insertSymbol hc.scope h).next fun free ↦ ite Iff.rfl (same _) ?_
  exact violateAt ht (congrArg (Violation.redeclaration .var) h.name)

theorem warn (h : T.Reads name name') (ht : T.Tokens t u) :
    T.Alike Eq (Check.warn name t) (Check.warn name' u) := by
  refine modify fun s v hs ↦ ?_
  refine ⟨hs.position, hs.arena, hs.functions, hs.headers, hs.sawReturn, ?_⟩
  simp only [Array.toList_push]
  exact List.rel_append hs.warnings (.cons ⟨h, .of_tokens ht⟩ .nil)

end

theorem inScope {label label' : String} (h : T.Labels label label') (hx : T.Alike rel x y) :
    T.Alike rel (Check.inScope label x) (Check.inScope label' y) := by
  intro c d s u hc hs
  have hcontexts : T.Contexts { c with scope := s.arena.size, blockDepth := c.blockDepth + 1 }
      { d with scope := u.arena.size, blockDepth := d.blockDepth + 1 } :=
    ⟨hc.tokens, hc.kinds, hc.size, hc.limits, hs.arena.size_eq, hc.blocks,
      congrArg (· + 1) hc.blockDepth, hc.function⟩
  have hpush : T.Arenas (s.arena.push c.scope label) (u.arena.push d.scope label') :=
    hc.scope ▸ hs.arena.push _ h
  have hends := hx hcontexts (hs.withArena hpush)
  exact ⟨hends.results, hends.states.withArena (hends.states.arena.release hs.arena.size_eq)⟩

theorem inBlock (kind : BlockKind) (hx : T.Alike rel x y) :
    T.Alike rel (Check.inBlock kind x) (Check.inBlock kind y) :=
  hx.withReader fun _ _ hc ↦ ⟨hc.tokens, hc.kinds, hc.size, hc.limits, hc.scope,
    congrArg (kind :: ·) hc.blocks, hc.blockDepth, hc.function⟩

end Alike

/-! ### Runs that start at a token of a kind -/

namespace AlikeAt

variable {rel : α → α → Prop} {rel' : β → β → Prop} {x y x' y' : Check α} {f g : α → Check β}
  {k : Kind}

theorem of_alike (hx : T.Alike rel x y) : T.AlikeAt k rel x y :=
  fun _ _ _ _ hc hs _ ↦ hx hc hs

/-- The violation may tell what was found. -/
theorem violate {v w : Violation} (hv : w = v.renamed T.rename (T.found k)) :
    T.AlikeAt k rel (Check.violate v) (Check.violate w) :=
  fun _ _ _ _ hc hs hk ↦ ⟨.error ⟨_, _, hc.next hs, rfl, rfl, hk ▸ hv⟩, hs⟩

theorem bind (hx : T.AlikeAt k rel x y) (hf : ∀ a b, rel a b → T.Alike rel' (f a) (g b)) :
    T.AlikeAt k rel' (x >>= f) (y >>= g) :=
  fun _ _ _ _ hc hs hk ↦ (hx hc hs hk).bind hc hf

theorem next (hx : T.AlikeAt k Eq x y) (hf : ∀ a, T.Alike rel' (f a) (g a)) :
    T.AlikeAt k rel' (x >>= f) (y >>= g) := by
  refine hx.bind ?_
  rintro a _ rfl
  exact hf a

theorem ite {p q : Prop} [Decidable p] [Decidable q] (h : q ↔ p) (hx : T.AlikeAt k rel x y)
    (hx' : T.AlikeAt k rel x' y') :
    T.AlikeAt k rel (if p then x else x') (if q then y else y') := by
  by_cases hp : p
  · rwa [if_pos hp, if_pos (h.2 hp)]
  · rwa [if_neg hp, if_neg fun hq ↦ hp (h.1 hq)]

end AlikeAt

/-- A check that looks at the next token first. -/
theorem Alike.peekAt {rel : α → α → Prop} {f g : Token → Check α}
    (hf : ∀ t u, T.Tokens t u → T.AlikeAt t.kind rel (f t) (g u)) :
    T.Alike rel (Check.peek >>= f) (Check.peek >>= g) := by
  intro c d s u hc hs
  exact hf _ _ (hc.next hs) hc hs rfl

/-- A check that looks at the kind of the next token first. -/
theorem Alike.peekKindAt {rel : α → α → Prop} {f g : Kind → Check α}
    (hend : T.Alike rel (f .eof) (g .eof)) (hf : ∀ k, T.AlikeAt k rel (f k) (g k)) :
    T.Alike rel (Check.peekKind >>= f) (Check.peekKind >>= g) := by
  intro c d s u hc hs
  show T.Ends rel ((f (c.kindAt s.position)).runFrom c s) ((g (d.kindAt u.position)).runFrom d u)
  rw [hs.position, hc.kinds]
  by_cases hk : c.kindAt s.position = .eof
  · rw [hk]
    exact hend hc hs
  · exact hf _ hc hs (Context.kind_tokenAt_of_ne_eof hk)

namespace AlikeAt

variable {k : Kind}

theorem here {rel : α → α → Prop} {f g : Nat → Check α}
    (hf : ∀ i, T.AlikeAt k rel (f i) (g i)) :
    T.AlikeAt k rel (Check.here >>= f) (Check.here >>= g) := by
  intro c d s u hc hs hk
  show T.Ends rel ((f s.position).runFrom c s) ((g u.position).runFrom d u)
  rw [hs.position]
  exact hf _ hc hs hk

/-- The token that is passed is of the kind. -/
theorem advance {rel : α → α → Prop} {f g : Token → Check α}
    (hf : ∀ t u, T.Tokens t u → t.kind = k → T.Alike rel (f t) (g u)) :
    T.AlikeAt k rel (Check.advance >>= f) (Check.advance >>= g) :=
  fun _ _ _ _ hc hs hk ↦ ((Alike.advance hc hs).ensuring (ensures_advance.2 hk)).bind hc
    fun t u h ↦ hf t u h.1 h.2

end AlikeAt

end Retelling

end FrontEnd
