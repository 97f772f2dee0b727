import FrontEnd.Check.Program
import FrontEnd.Proofs.Check.Trace

/-!
# Courses of runs

What can be said of a run is mostly said of its parts: of the state and the moments between one place
and the next.  A `Course` is such a property of a part of a run, and tells whether the part came to a
result.  It `Joins` if two parts that have it and follow one another have it together; then it holds
of whatever is built from checks that have it, loops and conditionals included.  It is `Easy` if a
change that leaves the warnings alone and does not go back has it too, so that only lookups and
warnings are left to care about.

A `Trace` says what each step of a run was; a course may count or match steps.
-/

namespace FrontEnd

/-- A property of a part of a run: from a state, through moments, newest first, to a state, and whether
the part came to a result. -/
abbrev Course := State → List Moment → State → Prop → Prop

/-- Whether a check comes to a result. -/
def Check.Succeeds {α : Type} (x : Check α) (c : Context) (s : State) : Prop :=
  ∃ a, (x.runFrom c s).1 = .ok a

namespace Course

/-- A course that two parts have together. -/
class Joins (P : Course) : Prop where
  nil (s : State) (ended : Prop) : P s [] s ended
  append {s t u : State} {past later : List Moment} {ended : Prop} (h : P s past t True)
    (h' : P t later u ended) : P s (later ++ past) u ended

/-- A course that changes have which neither go back nor warn. -/
class Easy (P : Course) : Prop extends P.Joins where
  change {s t u : State} {past : List Moment} {ended : Prop} (c : Context) (h : P s past t ended)
    (hposition : t.position ≤ u.position) (hwarnings : u.warnings = t.warnings)
    (hstays : ended ∨ u.position = t.position) : P s (⟨c, u, none⟩ :: past) u ended

/-- The run of a check from a state takes a course. -/
def Taken (P : Course) {α : Type} (x : Check α) (c : Context) (s : State) : Prop :=
  P s (x.momentsFrom c s) (x.leaves c s) (x.Succeeds c s)

/-- All runs of a check in a context take a course. -/
def Takes (P : Course) {α : Type} (x : Check α) (c : Context) : Prop :=
  ∀ s, P.Taken x c s

end Course

section

variable {P : Course} {α β σ : Type} {x y : Check α} {c : Context} {s t : State}

theorem Check.not_succeeds {e : SemanticError} (h : (x.runFrom c s).1 = .error e) :
    ¬ x.Succeeds c s := by
  rintro ⟨a, ha⟩
  cases h.symm.trans ha

theorem Check.succeeds_bind (x : Check α) (f : α → Check β) (c : Context) (s : State) :
    (x >>= f).Succeeds c s = match x.runFrom c s with
      | (.ok a, after) => (f a).Succeeds c after
      | (.error _, _) => False := by
  unfold Check.Succeeds
  rw [Check.runFrom_bind]
  cases x.runFrom c s with
  | mk result after =>
    cases result with
    | ok a => rfl
    | error e =>
      refine eq_false fun h ↦ ?_
      obtain ⟨_, h⟩ := h
      cases h

namespace Course.Taken

/-- The rest of a run goes on from where its first part ended. -/
theorem bind [P.Joins] {f : α → Check β} (hx : P.Taken x c s)
    (hf : ∀ a after, x.runFrom c s = (.ok a, after) → P.Taken (f a) c after) :
    P.Taken (x >>= f) c s := by
  unfold Taken at *
  unfold Check.leaves at hx
  rw [Check.momentsFrom_bind, Check.leaves_bind, Check.succeeds_bind]
  cases hrun : x.runFrom c s with
  | mk result after =>
    rw [hrun] at hx
    cases result with
    | error e =>
      have hfails : x.Succeeds c s = False :=
        eq_false (Check.not_succeeds (congrArg Prod.fst hrun))
      rwa [hfails] at hx
    | ok a =>
      have hsucceeds : x.Succeeds c s = True := eq_true ⟨a, congrArg Prod.fst hrun⟩
      rw [hsucceeds] at hx
      exact Joins.append hx (hf a after hrun)

/-- The rest of a check goes on from where its first part may lead. -/
theorem next [P.Joins] {f : α → Check β} {E : SemanticError → Prop} {Q : α → State → Prop}
    (hx : P.Taken x c s) (hensures : Ensures x c s E Q)
    (hf : ∀ a after, Q a after → P.Taken (f a) c after) : P.Taken (x >>= f) c s :=
  hx.bind fun a after hrun ↦ hf a after (hensures.of_run hrun)

theorem ite {p : Prop} [Decidable p] (hx : p → P.Taken x c s) (hy : ¬p → P.Taken y c s) :
    P.Taken (if p then x else y) c s := by
  split
  next h => exact hx h
  next h => exact hy h

theorem map [P.Joins] {f : α → β} (hx : P.Taken x c s) : P.Taken (f <$> x) c s := by
  rw [map_eq_pure_bind]
  exact hx.bind fun a after _ ↦ Joins.nil after _

theorem discard [P.Joins] (hx : P.Taken x c s) : P.Taken (discard x) c s := by
  rw [Functor.discard, LawfulFunctor.map_const]
  exact hx.map

theorem modify [P.Easy] {f : State → State} (hposition : s.position ≤ (f s).position)
    (hwarnings : (f s).warnings = s.warnings) : P.Taken (modify f : Check Unit) c s :=
  Easy.change c (Joins.nil s _) hposition hwarnings (.inl ⟨(), rfl⟩)

theorem moveTo [P.Easy] {index : Nat} (h : s.position ≤ index) :
    P.Taken (Check.moveTo index) c s :=
  modify h rfl

/-- A block takes a course if its body does where it is entered. -/
theorem inScope [P.Easy] (label : String) (hx : P.Taken x (c.entering s) (s.entered c label)) :
    P.Taken (Check.inScope label x) c s := by
  have hentered : P s [⟨c.entering s, s.entered c label, none⟩] (s.entered c label) True :=
    Easy.change _ (Joins.nil s _) (Nat.le_refl _) rfl (.inl trivial)
  have hinner := Joins.append hentered hx
  have hleft := Easy.change
    (u := (x.leaves (c.entering s) (s.entered c label)).released s.arena.size) c hinner
    (Nat.le_refl _) rfl (.inr rfl)
  exact hleft

/-- A check that leaves no moments and no change behind. -/
theorem of_still [P.Joins] (hmoments : x.momentsFrom c s = []) (hleaves : x.leaves c s = s) :
    P.Taken x c s := by
  unfold Taken
  rw [hmoments, hleaves]
  exact Joins.nil s _

/-- Rounds take a course where each takes it, from wherever the one before may lead. -/
theorem roundsFrom [P.Joins] {due : Check Bool} {round : σ → Check (ForInStep σ)}
    {I : σ → State → Prop} (hdue : P.Takes due c) (hround : ∀ value s, I value s →
      Ensures due c s (fun _ ↦ True) fun more after ↦ more = true →
        P.Taken (round value) c after ∧
          Ensures (round value) c after (fun _ ↦ True) fun step later ↦
            ∀ next, step = .yield next → I next later) :
    ∀ left value s, I value s → P.Taken (Check.roundsFrom due round left value) c s := by
  intro left
  induction left with
  | zero =>
    exact fun value s _ ↦ (hdue s).bind fun more after _ ↦
      .ite (fun _ ↦ of_still rfl rfl) fun _ ↦ of_still rfl rfl
  | succ left ih =>
    refine fun value s hs ↦ next (hdue s) (hround value s hs) fun more after hafter ↦ ?_
    refine ite (fun hmore ↦ ?_) fun _ ↦ of_still rfl rfl
    obtain ⟨htaken, hensures⟩ := hafter hmore
    refine next htaken hensures fun step later hlater ↦ ?_
    cases step with
    | done value => exact of_still rfl rfl
    | yield value => exact ih value later (hlater value rfl)

theorem roundsWhile [P.Joins] {due : Check Bool} {round : σ → Check (ForInStep σ)} {value : σ}
    {I : σ → State → Prop} (hs : I value s) (hdue : P.Takes due c)
    (hround : ∀ value s, I value s → Ensures due c s (fun _ ↦ True) fun more after ↦ more = true →
      P.Taken (round value) c after ∧
        Ensures (round value) c after (fun _ ↦ True) fun step later ↦
          ∀ next, step = .yield next → I next later) :
    P.Taken (Check.roundsWhile due round value) c s :=
  bind (of_still rfl rfl) fun d after hread ↦ by
    cases hread
    exact roundsFrom hdue hround c.limits.scan value s hs

end Course.Taken

namespace Course.Takes

section

variable [P.Joins]

/-! ### The operations of the monad -/

theorem of_still (h : ∀ s, x.momentsFrom c s = [] ∧ x.leaves c s = s) : P.Takes x c :=
  fun s ↦ .of_still (h s).1 (h s).2

theorem pure (a : α) : P.Takes (pure a : Check α) c :=
  of_still fun _ ↦ ⟨rfl, rfl⟩

theorem refuse (e : SemanticError) : P.Takes (Check.refuse e : Check α) c :=
  of_still fun _ ↦ ⟨rfl, rfl⟩

theorem read : P.Takes (read : Check Context) c :=
  of_still fun _ ↦ ⟨rfl, rfl⟩

theorem get : P.Takes (get : Check State) c :=
  of_still fun _ ↦ ⟨rfl, rfl⟩

theorem bind {f : α → Check β} (hx : P.Takes x c) (hf : ∀ a, P.Takes (f a) c) :
    P.Takes (x >>= f) c :=
  fun s ↦ (hx s).bind fun a after _ ↦ hf a after

omit [P.Joins] in
theorem ite {p : Prop} [Decidable p] (hx : P.Takes x c) (hy : P.Takes y c) :
    P.Takes (if p then x else y) c := by
  split
  · exact hx
  · exact hy

/-- A check that may come before another one. -/
theorem guard {p : Prop} [Decidable p] (hx : P.Takes x c) {z : Check β} (hz : P.Takes z c) :
    P.Takes (if p then x >>= fun _ ↦ z else z) c :=
  ite (hx.bind fun _ ↦ hz) hz

theorem otherwise {p : Prop} [Decidable p] (hx : P.Takes x c) {z : Check β} (hz : P.Takes z c) :
    P.Takes (if p then z else x >>= fun _ ↦ z) c :=
  ite hz (hx.bind fun _ ↦ hz)

theorem discard (hx : P.Takes x c) : P.Takes (discard x) c :=
  fun s ↦ (hx s).discard

/-! ### Looking ahead and around -/

theorem here : P.Takes Check.here c :=
  of_still fun _ ↦ ⟨rfl, rfl⟩

theorem peek : P.Takes Check.peek c :=
  of_still fun _ ↦ ⟨rfl, rfl⟩

theorem peekKind : P.Takes Check.peekKind c :=
  of_still fun _ ↦ ⟨rfl, rfl⟩

theorem secondKind : P.Takes Check.secondKind c :=
  of_still fun _ ↦ ⟨rfl, rfl⟩

theorem next? (k : Kind) : P.Takes (Check.next? k) c :=
  of_still fun _ ↦ ⟨rfl, rfl⟩

theorem atEnd : P.Takes Check.atEnd c :=
  next? .eof

theorem violateAt (v : Violation) (t : Token) : P.Takes (Check.violateAt v t : Check α) c :=
  refuse _

theorem violate (v : Violation) : P.Takes (Check.violate v : Check α) c :=
  peek.bind fun t ↦ violateAt v t

theorem matchingClose (opening : Nat) : P.Takes (Check.matchingClose opening) c := by
  refine read.bind fun c ↦ ?_
  split
  · exact violate _
  · split
    · exact pure _
    · exact violateAt _ _
    · exact violate _

theorem expressionEnd (terminators : List Kind) : P.Takes (Check.expressionEnd terminators) c := by
  refine read.bind fun c ↦ here.bind fun i ↦ ?_
  split
  · exact pure _
  · exact violate _

theorem declaredHere (name : String) : P.Takes (Check.declaredHere name) c :=
  of_still fun _ ↦ ⟨rfl, rfl⟩

theorem isRecorded (name : String) : P.Takes (Check.isRecorded name) c :=
  of_still fun _ ↦ ⟨rfl, rfl⟩

theorem apply (op : Operator) (t : Token) (left right : DataType) :
    P.Takes (Check.apply op t left right) c := by
  unfold Check.apply
  split
  · exact pure _
  · exact violateAt _ _

theorem checkLiteralIndex (index : Token) (size : Dimension) :
    P.Takes (Check.checkLiteralIndex index size) c := by
  unfold Check.checkLiteralIndex
  split
  · exact pure _
  · refine ite ?_ (pure _)
    split
    · exact pure _
    · exact ite (violateAt _ _) (pure _)

theorem requireInt (t : Target) : P.Takes (Check.requireInt t) c :=
  ite (violateAt _ _) (pure _)

theorem requireType (wanted value : DataType) (place : Token) :
    P.Takes (Check.requireType wanted value place) c :=
  ite (violateAt _ _) (pure _)

theorem requireForVariable (clause : ForClause) (t : Target) :
    P.Takes (Check.requireForVariable clause t) c :=
  ite (violateAt _ _) (pure _)

theorem requireFree (what : Redeclared) (name : Token) :
    P.Takes (Check.requireFree what name) c :=
  get.bind fun _ ↦ ite (violateAt _ _) (pure _)

theorem checkArity (name : Token) (function : String) (expected found : Nat) :
    P.Takes (Check.checkArity name function expected found) c :=
  ite (violateAt _ _) (pure _)

theorem checkTypes : ∀ index arguments parameters,
    P.Takes (Check.checkTypes index arguments parameters) c
  | index, (_, _) :: arguments, _ :: parameters =>
    guard (violateAt _ _) (checkTypes (index + 1) arguments parameters)
  | _, [], _ => pure _
  | _, _ :: _, [] => pure _

theorem checkCount (size : Dimension) (isConstant : Bool) (count : Nat) (place : Token)
    (tooMany : Nat → Nat → Violation) :
    P.Takes (Check.checkCount size isConstant count place tooMany) c := by
  unfold Check.checkCount
  split
  · exact pure _
  · exact guard (violateAt _ _) <| ite (violateAt _ _) (pure _)

theorem tooDeep : P.Takes (Check.tooDeep : Check α) c :=
  read.bind fun _ ↦ violate _

/-! ### Counted loops -/

theorem roundsWhile {due : Check Bool} {round : σ → Check (ForInStep σ)} {value : σ}
    (hdue : P.Takes due c) (hround : ∀ value, P.Takes (round value) c) :
    P.Takes (Check.roundsWhile due round value) c :=
  fun _ ↦ .roundsWhile (I := fun _ _ ↦ True) trivial hdue fun value t _ ↦
    (ensures_leaves due c t).mono fun _ after _ _ ↦
      ⟨hround value after, (ensures_leaves (round value) c after).mono fun _ _ _ _ _ ↦ trivial⟩

theorem rounds {round : σ → Check (ForInStep σ)} {value : σ}
    (hround : ∀ value, P.Takes (round value) c) : P.Takes (Check.rounds round value) c :=
  roundsWhile (pure true) hround

end

/-! ### Changing the state -/

section

variable [P.Easy]

theorem modify {f : State → State} (hposition : ∀ s, s.position ≤ (f s).position)
    (hwarnings : ∀ s, (f s).warnings = s.warnings) : P.Takes (modify f : Check Unit) c :=
  fun s ↦ .modify (hposition s) (hwarnings s)

theorem modifyGet {f : State → α × State} (hposition : ∀ s, s.position ≤ (f s).2.position)
    (hwarnings : ∀ s, (f s).2.warnings = s.warnings) : P.Takes (modifyGet f : Check α) c :=
  fun s ↦ Easy.change c (Joins.nil s _) (hposition s) (hwarnings s) (.inl ⟨_, rfl⟩)

theorem advance : P.Takes Check.advance c := by
  intro s
  refine .bind (peek s) fun t after hpeek ↦ ?_
  cases hpeek
  refine .bind (here s) fun i after hhere ↦ ?_
  cases hhere
  refine .bind (read s) fun d after hread ↦ ?_
  cases hread
  exact .ite (fun _ ↦ .bind (.moveTo (Nat.le_succ _)) fun _ _ _ ↦ .of_still rfl rfl) fun _ ↦ .of_still rfl rfl

theorem expect (k : Kind) (wanted : Wanted) : P.Takes (Check.expect k wanted) c :=
  (next? k).bind fun _ ↦ ite advance <| peek.bind fun _ ↦ ite (violateAt _ _) (violateAt _ _)

theorem expectMark (k : Kind) : P.Takes (Check.expectMark k) c :=
  expect k (.mark k)

theorem operator? (stop floor : Nat) : P.Takes (Check.operator? stop floor) c := by
  refine peek.bind fun t ↦ ?_
  split
  · exact pure none
  · exact ite (pure none) <| advance.discard.bind fun _ ↦ here.bind fun _ ↦
      guard (violateAt _ _) <| peek.bind fun _ ↦ guard (violate _) (pure _)

theorem inputValue (type : DataType) : P.Takes (Check.inputValue type) c :=
  advance.bind fun _ ↦ otherwise (violateAt _ _) <| (expectMark .leftParen).discard.bind fun _ ↦
    (expect .stringLit .promptString).discard.bind fun _ ↦ (expectMark .rightParen).discard

theorem typeWord (wanted : Wanted) : P.Takes (Check.typeWord wanted) c := by
  refine advance.bind fun t ↦ ?_
  split
  · exact pure _
  · exact violateAt _ _

theorem insertSymbol (scope : Nat) (symbol : Symbol) :
    P.Takes (Check.insertSymbol scope symbol) c := by
  refine modifyGet (fun s ↦ ?_) fun s ↦ ?_
  · split <;> exact Nat.le_refl _
  · split <;> rfl

theorem declare (symbol : Symbol) (place : Token) : P.Takes (Check.declare symbol place) c :=
  read.bind fun _ ↦ (insertSymbol _ symbol).bind fun _ ↦ ite (pure _) (violateAt _ _)

theorem modifySymbol (name : String) (f : Symbol → Symbol) :
    P.Takes (Check.modifySymbol name f) c :=
  read.bind fun _ ↦ modify (fun _ ↦ Nat.le_refl _) fun _ ↦ rfl

theorem markInitialized (t : Target) : P.Takes (Check.markInitialized t) c :=
  modifySymbol _ _

end

end Course.Takes

end

end FrontEnd
