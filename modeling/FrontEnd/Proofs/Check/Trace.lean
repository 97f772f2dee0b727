import FrontEnd.Check.Statement
import FrontEnd.Proofs.Check.Ensures
import FrontEnd.Proofs.Scope.WellFormed

/-!
# The moments of a walk

`Ensures` forgets the state in which a check stops at a violation, and it says nothing of the states
on the way.  A `Trace` has all of them: it leads from one state to another through the moments of a
run, and says of each of them what it was.  The state changes by a `Change`, a name is looked up,
or a block with its own trace is passed.

`Traced x` says that the runs of `x` leave traces, however they end.  It is closed under everything
the checks of statements are built from, so it holds of all of them (`Traced.statement`), and what
every change keeps is kept by every run.
-/

namespace FrontEnd

/-- The state in which a run of a check ends, with a result or at a violation. -/
def Check.leaves {α : Type} (x : Check α) (c : Context) (s : State) : State :=
  (x.runFrom c s).2

/-- The state in which the body of a block starts. -/
def State.entered (s : State) (c : Context) (label : String) : State :=
  { s with arena := s.arena.push c.scope label }

/-- The context in which the body of a block runs, when the block is entered in a state. -/
def Context.entering (c : Context) (s : State) : Context :=
  { c with scope := s.arena.size, blockDepth := c.blockDepth + 1 }

/-- The state after a block, which was opened as the scope with an index, is left. -/
def State.released (s : State) (scope : Nat) : State :=
  { s with arena := s.arena.release scope }

/-- What a walk over statements can do to the state, apart from opening and leaving blocks. -/
inductive Change (c : Context) (s : State) : State → Prop
  | moved (index : Nat) : Change c s (s.movedTo index)
  | warned (w : Warning) : Change c s { s with warnings := s.warnings.push w }
  | marked (name : String) (part : Part) :
    Change c s { s with arena := s.arena.modify c.scope name part.mark }
  | declared {symbol : Symbol} {arena : Arena} (h : s.arena.insert c.scope symbol = some arena) :
    Change c s { s with arena := arena }
  | returned : Change c s { s with sawReturn := true }

/-- What a walk over statements does to the state at a time, apart from opening and leaving blocks:
it passes one token, it gives values to what is there, and it declares only what holds values and is
well formed. -/
inductive Step (c : Context) (s : State) : State → Prop
  | passed : Step c s (s.movedTo (c.after s.position))
  | warned (w : Warning) : Step c s { s with warnings := s.warnings.push w }
  | marked (name : String) (part : Part) (hpart : s.arena.HasPart c.scope name part) :
    Step c s { s with arena := s.arena.modify c.scope name part.mark }
  | declared {symbol : Symbol} {arena : Arena} (hvalue : symbol.isValue)
    (hformed : symbol.WellFormed s.arena.KnowsStruct)
    (h : s.arena.insert c.scope symbol = some arena) : Step c s { s with arena := arena }
  | refused {symbol : Symbol} (h : s.arena.insert c.scope symbol = none) : Step c s s
  | returned : Step c s { s with sawReturn := true }

theorem Step.change {c : Context} {s t : State} (h : Step c s t) : Change c s t := by
  cases h with
  | passed => exact .moved _
  | warned w => exact .warned w
  | marked name part _ => exact .marked name part
  | declared _ _ hinsert => exact .declared hinsert
  | refused _ => exact .moved s.position
  | returned => exact .returned

/-- What may happen on a walk. -/
structure Rules where
  /-- What may become of the state in a context, apart from opening and leaving blocks. -/
  change : Context → State → State → Prop
  /-- In which contexts a part of a walk may run. -/
  inside : Context → Context → Prop

/-- Rules that admit what happens on a walk that declares nothing and gives nothing a value. -/
class Rules.Reading (R : Rules) : Prop where
  passed {c : Context} {s : State} : R.change c s (s.movedTo (c.after s.position))
  warned {c : Context} {s : State} (w : Warning) :
    R.change c s { s with warnings := s.warnings.push w }

/-- Rules that admit moves to any token. -/
class Rules.Moving (R : Rules) : Prop where
  moved {c : Context} {s : State} (index : Nat) : R.change c s (s.movedTo index)

/-- Rules that admit the steps of a walk over statements. -/
class Rules.Stepping (R : Rules) : Prop where
  step {c : Context} {s t : State} (h : Step c s t) : R.change c s t
  within (c : Context) (kind : BlockKind) : R.inside c { c with blocks := kind :: c.blocks }

/-- Rules that admit what happens on a walk over statements, and moves to any token. -/
class Rules.Ordinary (R : Rules) : Prop where
  change {c : Context} {s t : State} (h : Change c s t) : R.change c s t
  inside (c : Context) (kind : BlockKind) : R.inside c { c with blocks := kind :: c.blocks }

instance (priority := low) {R : Rules} [R.Stepping] : R.Reading :=
  ⟨Rules.Stepping.step .passed, fun w ↦ Rules.Stepping.step (.warned w)⟩

instance (priority := low) {R : Rules} [R.Ordinary] : R.Stepping :=
  ⟨fun h ↦ Rules.Ordinary.change h.change, Rules.Ordinary.inside⟩

instance (priority := low) {R : Rules} [R.Ordinary] : R.Moving :=
  ⟨fun index ↦ Rules.Ordinary.change (.moved index)⟩

/-- The rules of a walk over statements. -/
def Rules.statements : Rules :=
  ⟨Change, fun c d ↦ ∃ kind, d = { c with blocks := kind :: c.blocks }⟩

instance : Rules.statements.Ordinary :=
  ⟨id, fun _ kind ↦ ⟨kind, rfl⟩⟩

/-- The rules of a walk that leaves the scopes as they are. -/
def Rules.reading : Rules :=
  ⟨fun _ s t ↦ t.arena = s.arena, fun _ _ ↦ True⟩

instance : Rules.reading.Reading :=
  ⟨rfl, fun _ ↦ rfl⟩

/-- The moments, newest first, by which a walk leads from one state to another. -/
inductive Trace (R : Rules) : Context → State → List Moment → State → Prop
  | nil (c : Context) (s : State) : Trace R c s [] s
  | lookup {c : Context} {s t : State} {past : List Moment} (h : Trace R c s past t)
    (name : String) : Trace R c s (⟨c, t, some name⟩ :: past) t
  | change {c : Context} {s t u : State} {past : List Moment} (h : Trace R c s past t)
    (hchange : R.change c t u) : Trace R c s (⟨c, u, none⟩ :: past) u
  | inside {c d : Context} {s t u : State} {past inner : List Moment} (h : Trace R c s past t)
    (hinside : R.inside c d) (hinner : Trace R d t inner u) : Trace R c s (inner ++ past) u
  | inScope {c : Context} {s t u : State} {past inner : List Moment} (h : Trace R c s past t)
    (label : String) (hinner : Trace R (c.entering t) (t.entered c label) inner u) :
    Trace R c s (⟨c, u.released t.arena.size, none⟩ ::
      (inner ++ ⟨c.entering t, t.entered c label, none⟩ :: past)) (u.released t.arena.size)

section

variable {R : Rules}

theorem Trace.append {c : Context} {s t u : State} {past later : List Moment}
    (h : Trace R c s past t) (h' : Trace R c t later u) : Trace R c s (later ++ past) u := by
  induction h' with
  | nil => exact h
  | lookup _ name ih => exact (ih h).lookup name
  | change _ hchange ih => exact (ih h).change hchange
  | inside _ hinside hinner ih _ =>
    rw [List.append_assoc]
    exact (ih h).inside hinside hinner
  | inScope _ label hinner ih _ =>
    rw [List.cons_append, List.append_assoc, List.cons_append]
    exact (ih h).inScope label hinner

theorem ensures_leaves {α : Type} (x : Check α) (c : Context) (s : State) :
    Ensures x c s (fun _ ↦ True) fun _ after ↦ after = x.leaves c s := by
  unfold Ensures Check.leaves
  obtain ⟨_ | _, _⟩ := x.runFrom c s <;> trivial

/-- A walk that leaves the scopes as they are at each change leaves all of them so. -/
theorem Trace.arena_eq {c : Context} {s t : State} {past : List Moment}
    (h : Trace .reading c s past t) (hs : 0 < s.arena.size) : t.arena = s.arena := by
  induction h with
  | nil => rfl
  | lookup _ _ ih => exact ih hs
  | change _ hchange ih => exact hchange.trans (ih hs)
  | inside _ _ _ ih ihinner =>
    have hfirst := ih hs
    exact (ihinner (hfirst ▸ hs)).trans hfirst
  | @inScope c s t u _ _ _ label _ ih ihinner =>
    have hfirst := ih hs
    have ht : 0 < t.arena.size := hfirst ▸ hs
    have hinner : u.arena = t.arena.push c.scope label :=
      ihinner (Nat.lt_of_lt_of_eq (Nat.succ_pos _) (Array.size_push _).symm)
    show u.arena.release t.arena.size = s.arena
    rw [hinner, Arena.release_push ht, hfirst]

/-- A check whose run from a state leaves a trace, however it ends. -/
def TracedFrom (R : Rules) {α : Type} (x : Check α) (c : Context) (s : State) : Prop :=
  Trace R c s (x.momentsFrom c s) (x.leaves c s)

/-- A check whose runs leave traces, however they end. -/
def Traced (R : Rules) {α : Type} (x : Check α) : Prop :=
  ∀ c s, TracedFrom R x c s

variable {α β : Type}

theorem Check.leaves_bind (x : Check α) (f : α → Check β) (c : Context) (s : State) :
    (x >>= f).leaves c s = match x.runFrom c s with
      | (.ok a, after) => (f a).leaves c after
      | (.error _, after) => after := by
  unfold Check.leaves
  rw [Check.runFrom_bind]
  cases x.runFrom c s with
  | mk result after => cases result <;> rfl

theorem Check.momentsFrom_bind (x : Check α) (f : α → Check β) (c : Context) (s : State) :
    (x >>= f).momentsFrom c s = match x.runFrom c s with
      | (.ok a, after) => (f a).momentsFrom c after ++ x.momentsFrom c s
      | (.error _, _) => x.momentsFrom c s := by
  unfold Check.momentsFrom Check.runFrom
  rw [Check.run_bind]
  obtain ⟨⟨_ | a, after⟩, past⟩ := x.run c s []
  · rfl
  · exact congrArg Prod.snd ((f a).run_eq c after past)

/-- The rest of a run goes on from the state its first part leads to. -/
theorem Trace.bind {x : Check α} {f : α → Check β} {c : Context} {s : State}
    (hx : Trace R c s (x.momentsFrom c s) (x.leaves c s))
    (hf : ∀ a after, x.runFrom c s = (.ok a, after) →
      Trace R c after ((f a).momentsFrom c after) ((f a).leaves c after)) :
    Trace R c s ((x >>= f).momentsFrom c s) ((x >>= f).leaves c s) := by
  unfold Check.leaves at hx
  rw [Check.momentsFrom_bind, Check.leaves_bind]
  cases hrun : x.runFrom c s with
  | mk result after =>
    rw [hrun] at hx
    cases result with
    | error e => exact hx
    | ok a => exact hx.append (hf a after hrun)

namespace Traced

variable {σ : Type} {x y : Check α}

/-! ### The operations of the monad -/

theorem pure (a : α) : Traced R (pure a : Check α) :=
  fun c s ↦ .nil c s

theorem refuse (e : SemanticError) : Traced R (Check.refuse e : Check α) :=
  fun c s ↦ .nil c s

theorem read : Traced R (read : Check Context) :=
  fun c s ↦ .nil c s

theorem get : Traced R (get : Check State) :=
  fun c s ↦ .nil c s

theorem modify {f : State → State} (hf : ∀ c s, R.change c s (f s)) :
    Traced R (modify f : Check Unit) :=
  fun c s ↦ (Trace.nil c s).change (hf c s)

theorem bind {f : α → Check β} (hx : Traced R x) (hf : ∀ a, Traced R (f a)) : Traced R (x >>= f) :=
  fun c s ↦ .bind (hx c s) fun a after _ ↦ hf a c after

theorem ite {p : Prop} [Decidable p] (hx : Traced R x) (hy : Traced R y) :
    Traced R (if p then x else y) := by
  split
  · exact hx
  · exact hy

/-- A check that may come before another one. -/
theorem guard {p : Prop} [Decidable p] (hx : Traced R x) {z : Check β} (hz : Traced R z) :
    Traced R (if p then x >>= fun _ ↦ z else z) :=
  ite (hx.bind fun _ ↦ hz) hz

theorem otherwise {p : Prop} [Decidable p] (hx : Traced R x) {z : Check β} (hz : Traced R z) :
    Traced R (if p then z else x >>= fun _ ↦ z) :=
  ite hz (hx.bind fun _ ↦ hz)

theorem choose {p : Prop} [Decidable p] {f : α → Check β} (hx : Traced R x)
    (hy : Traced R y) (hf : ∀ a, Traced R (f a)) :
    Traced R (if p then x >>= f else y >>= f) :=
  ite (hx.bind hf) (hy.bind hf)

theorem map {f : α → β} (hx : Traced R x) : Traced R (f <$> x) := by
  rw [map_eq_pure_bind]
  exact hx.bind fun a ↦ .pure (f a)

theorem discard (hx : Traced R x) : Traced R (discard x) := by
  rw [Functor.discard, LawfulFunctor.map_const]
  exact hx.map

theorem withReader {f : Context → Context} (hf : ∀ c, R.inside c (f c)) (hx : Traced R x) :
    Traced R (withReader f x : Check α) := by
  intro c s
  have h := (Trace.nil c s).inside (hf c) (hx (f c) s)
  rw [List.append_nil] at h
  exact h

theorem inScope (label : String) (hx : Traced R x) : Traced R (Check.inScope label x) :=
  fun c s ↦ (Trace.nil c s).inScope label (hx (c.entering s) (s.entered c label))

/-! ### Looking ahead and around -/


theorem here : Traced R Check.here :=
  fun c s ↦ .nil c s

theorem peek : Traced R Check.peek :=
  fun c s ↦ .nil c s

theorem peekKind : Traced R Check.peekKind :=
  fun c s ↦ .nil c s

theorem secondKind : Traced R Check.secondKind :=
  fun c s ↦ .nil c s

theorem next? (k : Kind) : Traced R (Check.next? k) :=
  fun c s ↦ .nil c s

theorem atEnd : Traced R Check.atEnd :=
  next? .eof

theorem violateAt (v : Violation) (t : Token) : Traced R (Check.violateAt v t : Check α) :=
  refuse _

theorem violate (v : Violation) : Traced R (Check.violate v : Check α) :=
  peek.bind fun t ↦ violateAt v t

theorem matchingClose (opening : Nat) : Traced R (Check.matchingClose opening) := by
  refine read.bind fun c ↦ ?_
  split
  · exact violate _
  · split
    · exact pure _
    · exact violateAt _ _
    · exact violate _

theorem expressionEnd (terminators : List Kind) : Traced R (Check.expressionEnd terminators) := by
  refine read.bind fun c ↦ here.bind fun i ↦ ?_
  split
  · exact pure _
  · exact violate _

theorem resolve (name : String) : Traced R (Check.resolve name) :=
  fun c s ↦ (Trace.nil c s).lookup name

theorem declaredHere (name : String) : Traced R (Check.declaredHere name) :=
  fun c s ↦ .nil c s

/-! ### Counted loops -/

theorem roundsFrom {due : Check Bool} {round : σ → Check (ForInStep σ)} (hdue : Traced R due)
    (hround : ∀ value, Traced R (round value)) :
    ∀ left value, Traced R (Check.roundsFrom due round left value) := by
  intro left
  induction left with
  | zero =>
    exact fun value ↦ hdue.bind fun more ↦ ite (read.bind fun c ↦ violate _) (pure value)
  | succ left ih =>
    refine fun value ↦ hdue.bind fun more ↦ ite ((hround value).bind fun step ↦ ?_) (pure value)
    cases step with
    | done value => exact pure value
    | yield value => exact ih value

theorem roundsWhile {due : Check Bool} {round : σ → Check (ForInStep σ)} {value : σ}
    (hdue : Traced R due) (hround : ∀ value, Traced R (round value)) :
    Traced R (Check.roundsWhile due round value) :=
  read.bind fun c ↦ roundsFrom hdue hround c.limits.scan value

theorem rounds {round : σ → Check (ForInStep σ)} {value : σ}
    (hround : ∀ value, Traced R (round value)) : Traced R (Check.rounds round value) :=
  roundsWhile (pure true) hround

/-! ### Changing the state -/

theorem moveTo [R.Moving] (index : Nat) : Traced R (Check.moveTo index) :=
  modify fun _ _ ↦ Rules.Moving.moved index

section

variable [R.Reading]

theorem advance : Traced R Check.advance := by
  intro c s
  refine .bind (peek c s) fun t after hpeek ↦ ?_
  cases hpeek
  refine .bind (here c s) fun i after hhere ↦ ?_
  cases hhere
  refine .bind (read c s) fun d after hread ↦ ?_
  cases hread
  by_cases hlt : s.position < c.tokens.size
  · rw [if_pos hlt]
    have hpassed : R.change c s (s.movedTo (c.after s.position)) := Rules.Reading.passed
    rw [Context.after, if_pos hlt] at hpassed
    exact (Trace.nil c s).change hpassed
  · rw [if_neg hlt]
    exact .nil c s

theorem expect (k : Kind) (wanted : Wanted) : Traced R (Check.expect k wanted) :=
  (next? k).bind fun _ ↦ ite advance <| peek.bind fun _ ↦ ite (violateAt _ _) (violateAt _ _)

theorem expectMark (k : Kind) : Traced R (Check.expectMark k) :=
  expect k (.mark k)

theorem warn (name : String) (t : Token) : Traced R (Check.warn name t) :=
  modify fun _ _ ↦ Rules.Reading.warned _

end

theorem inBlock [R.Stepping] (kind : BlockKind) (hx : Traced R x) : Traced R (Check.inBlock kind x) :=
  hx.withReader fun c ↦ Rules.Stepping.within c kind

/-! ### What reading keeps -/

/-- What has only read has left the parts of a name there. -/
theorem keepsPart (h : Traced .reading x) {c : Context} {s : State} {name : String} {part : Part}
    (hpart : s.arena.HasPart c.scope name part) :
    Ensures x c s (fun _ ↦ True) fun _ after ↦ after.arena.HasPart c.scope name part := by
  cases part with
  | whole | element => exact (ensures_leaves x c s).mono fun _ _ _ ↦ trivial
  | member member =>
    have hs : 0 < s.arena.size := by
      obtain ⟨_, _, _, _, hlookup, -⟩ := hpart
      obtain ⟨_, ⟨scope, hscope, -⟩, -⟩ := Arena.holds_of_lookup hlookup
      exact Nat.zero_lt_of_lt (Array.getElem?_eq_some_iff.1 hscope).1
    refine (ensures_leaves x c s).mono ?_
    rintro _ _ rfl
    rwa [(h c s).arena_eq hs]

end Traced

namespace TracedFrom

variable {σ : Type} {x : Check α} {f : α → Check β} {c : Context} {s : State}

theorem bind (hx : TracedFrom R x c s)
    (hf : ∀ a after, x.runFrom c s = (.ok a, after) → TracedFrom R (f a) c after) :
    TracedFrom R (x >>= f) c s :=
  Trace.bind hx hf

/-- The rest of a check goes on from where its first part may lead. -/
theorem next {E : SemanticError → Prop} {Q : α → State → Prop} (hx : TracedFrom R x c s)
    (hensures : Ensures x c s E Q) (hf : ∀ a after, Q a after → TracedFrom R (f a) c after) :
    TracedFrom R (x >>= f) c s :=
  hx.bind fun a after hrun ↦ hf a after (hensures.of_run hrun)

theorem ite {p : Prop} [Decidable p] {y : Check α} (hx : p → TracedFrom R x c s)
    (hy : ¬p → TracedFrom R y c s) : TracedFrom R (if p then x else y) c s := by
  split
  next h => exact hx h
  next h => exact hy h

/-- Rounds leave a trace where each leaves one, from wherever the one before may lead. -/
theorem roundsFrom {due : Check Bool} {round : σ → Check (ForInStep σ)} {I : σ → State → Prop}
    (hdue : Traced R due) (hround : ∀ value s, I value s →
      Ensures due c s (fun _ ↦ True) fun more after ↦ more = true →
        TracedFrom R (round value) c after ∧
          Ensures (round value) c after (fun _ ↦ True) fun step later ↦
            ∀ next, step = .yield next → I next later) :
    ∀ left value s, I value s → TracedFrom R (Check.roundsFrom due round left value) c s := by
  intro left
  induction left with
  | zero =>
    exact fun value s _ ↦ (hdue.bind fun more ↦
      Traced.ite (Traced.read.bind fun c ↦ Traced.violate _) (Traced.pure value)) c s
  | succ left ih =>
    refine fun value s hs ↦ next (hdue c s) (hround value s hs) fun more after hafter ↦ ?_
    refine ite (fun hmore ↦ ?_) fun _ ↦ Traced.pure value c after
    obtain ⟨htraced, hensures⟩ := hafter hmore
    refine next htraced hensures fun step later hlater ↦ ?_
    cases step with
    | done value => exact Traced.pure value c later
    | yield value => exact ih value later (hlater value rfl)

theorem roundsWhile {due : Check Bool} {round : σ → Check (ForInStep σ)} {value : σ}
    {I : σ → State → Prop} (hs : I value s) (hdue : Traced R due)
    (hround : ∀ value s, I value s → Ensures due c s (fun _ ↦ True) fun more after ↦ more = true →
      TracedFrom R (round value) c after ∧
        Ensures (round value) c after (fun _ ↦ True) fun step later ↦
          ∀ next, step = .yield next → I next later) :
    TracedFrom R (Check.roundsWhile due round value) c s :=
  bind (Traced.read c s) fun d after hread ↦ by
    cases hread
    exact roundsFrom hdue hround c.limits.scan value s hs

variable [R.Stepping]

/-- A name that is taken leaves the state as it was. -/
theorem declare {symbol : Symbol} (place : Token) (hvalue : symbol.isValue)
    (hformed : symbol.WellFormed s.arena.KnowsStruct) :
    TracedFrom R (Check.declare symbol place) c s := by
  have hinsert : TracedFrom R (Check.insertSymbol c.scope symbol) c s := by
    refine (Trace.nil c s).change (Rules.Stepping.step ?_)
    show Step c s ((Check.insertSymbol c.scope symbol).runFrom c s).2
    rw [runFrom_insertSymbol]
    split
    next hfree => exact .declared hvalue hformed hfree
    next htaken => exact .refused htaken
  refine bind (Traced.read c s) fun d t hread ↦ ?_
  cases hread
  exact hinsert.bind fun _ later _ ↦ Traced.ite (.pure _) (.violateAt _ _) c later

end TracedFrom

/-- Where a condition holds, a target may be given a value, and reading keeps the condition. -/
structure Markable (R : Rules) (c : Context) (t : Target) (I : State → Prop) : Prop where
  reads {α : Type} {x : Check α} {s : State} (hx : Traced .reading x) (hs : I s) :
    Ensures x c s (fun _ ↦ True) fun _ after ↦ I after
  mark {s : State} (hs : I s) : TracedFrom R (Check.markInitialized t) c s

namespace Markable

variable {x : Check α} {f : α → Check β} {c : Context} {s : State} {t : Target} {I : State → Prop}

/-- Steps that give a part a value need the part to be there. -/
theorem of_hasPart [R.Stepping] :
    Markable R c t fun s ↦ s.arena.HasPart c.scope t.name t.part where
  reads hx hs := hx.keepsPart hs
  mark {s} hs := by
    have hmark : Step c s { s with arena := s.arena.modify c.scope t.name t.part.mark } :=
      .marked t.name t.part hs
    exact (Trace.nil c s).change (Rules.Stepping.step hmark)

/-- Any change of the kind of a statement needs nothing. -/
theorem of_ordinary [R.Ordinary] : Markable R c t fun _ ↦ True where
  reads _ _ := (ensures_leaves _ c _).mono fun _ _ _ ↦ trivial
  mark {s} _ := by
    have hmark : Change c s { s with arena := s.arena.modify c.scope t.name t.part.mark } :=
      .marked t.name t.part
    exact (Trace.nil c s).change (Rules.Ordinary.change hmark)

theorem next (h : Markable R c t I) (hx : Traced R x) (hreads : Traced .reading x) (hs : I s)
    (hf : ∀ a after, I after → TracedFrom R (f a) c after) : TracedFrom R (x >>= f) c s :=
  .next (hx c s) (h.reads hreads hs) hf

end Markable

end

end FrontEnd
