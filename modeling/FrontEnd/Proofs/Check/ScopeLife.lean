import FrontEnd.Proofs.Check.Headers
import FrontEnd.Proofs.Check.KeepsScopes

/-!
# The life of scopes

Scopes are opened in two ways.  A block opens one for as long as it is walked over, so no walk over
statements, blocks or expressions leaves any behind.  The walk over the headers opens one for each
function and for the entry point, and these stay.

So the table an analysis returns, whatever stopped it, has the global scope and one scope for each
header that was come to, in the order of the text (`scopes_never_leak`).
-/

namespace FrontEnd

open Check

section

variable {α β : Type} {x : Check α} {c : Context} {s t : State}

/-! ### Runs that go forward -/

/-- A check that, where it goes on, is not further back than it was. -/
def Forward (x : Check α) : Prop :=
  ∀ c s, Ensures x c s (fun _ ↦ True) fun _ after ↦ s.position ≤ after.position

theorem Context.le_after (c : Context) (i : Nat) : i ≤ c.after i := by
  unfold Context.after
  split <;> omega

namespace Forward

theorem pure (a : α) : Forward (pure a : Check α) :=
  fun _ _ ↦ Nat.le_refl _

theorem violateAt (v : Violation) (t : Token) : Forward (Check.violateAt v t : Check α) :=
  fun _ _ ↦ trivial

theorem bind {f : α → Check β} (hx : Forward x) (hf : ∀ a, Forward (f a)) : Forward (x >>= f) := by
  intro c s
  rw [ensures_bind]
  refine (hx c s).mono fun a after hle ↦ (hf a c after).mono fun b later hle' ↦ ?_
  exact Nat.le_trans hle hle'

theorem ite {p : Prop} [Decidable p] {y : Check α} (hx : Forward x) (hy : Forward y) :
    Forward (if p then x else y) := by
  split
  · exact hx
  · exact hy

theorem advance : Forward Check.advance := by
  intro c s
  rw [ensures_advance]
  exact c.le_after s.position

theorem expect (k : Kind) (wanted : Wanted) : Forward (Check.expect k wanted) := by
  intro c s
  rw [ensures_expect]
  exact ⟨fun _ ↦ c.le_after s.position, fun _ ↦ trivial⟩

theorem next? (k : Kind) : Forward (Check.next? k) :=
  fun _ _ ↦ Nat.le_refl _

theorem discard (hx : Forward x) : Forward (discard x) := by
  intro c s
  rw [ensures_discard]
  exact hx c s

theorem insertSymbol (scope : Nat) (symbol : Symbol) : Forward (Check.insertSymbol scope symbol) := by
  intro c s
  rw [ensures_insertSymbol]
  exact ⟨fun _ _ ↦ Nat.le_refl _, fun _ ↦ Nat.le_refl _⟩

theorem roundsWhile {σ : Type} {due : Check Bool} {round : σ → Check (ForInStep σ)} {value : σ}
    (hdue : ∀ c s, Ensures due c s (fun _ ↦ True) fun _ after ↦ after = s)
    (hround : ∀ value, Forward (round value)) : Forward (Check.roundsWhile due round value) :=
  fun c _ ↦ ensures_roundsWhile_of_rel (R := fun s t ↦ s.position ≤ t.position)
    (fun _ ↦ Nat.le_refl _) Nat.le_trans (fun _ ↦ trivial) (hdue c) fun value ↦ hround value c

theorem typedName (wantedType wantedName : Wanted) : Forward (Check.typedName wantedType wantedName) := by
  have htype : Forward (typeWord wantedType) := by
    refine advance.bind fun t ↦ ?_
    split
    · exact pure _
    · exact violateAt _ _
  exact htype.bind fun _ ↦ (expect .identifier wantedName).bind fun _ ↦ pure _

theorem parameters (scope : Nat) : Forward (Check.parameters scope) := by
  have hround (before : List TypedName) : Forward (parameterRound scope before) := by
    have hmore (p : TypedName) : Forward (do
        if ← Check.next? .comma then
          Functor.discard Check.advance
          return ForInStep.yield (before ++ [p])
        else
          return ForInStep.done (before ++ [p])) :=
      (next? .comma).bind fun _ ↦ ite (advance.discard.bind fun _ ↦ pure _) (pure _)
    exact (typedName _ _).bind fun p ↦ (insertSymbol _ _).bind fun _ ↦
      ite (hmore p) (bind (fun _ _ ↦ trivial) fun _ ↦ hmore p)
  refine (next? .rightParen).bind fun _ ↦ ite (pure _) ?_
  exact roundsWhile (fun _ _ ↦ rfl) hround

theorem bodyRange : Forward Check.bodyRange := by
  intro c s
  refine ensures_bodyRange.imp (fun _ _ ↦ trivial) ?_
  rintro body _ ⟨-, -, hlt, rfl⟩
  rw [State.position_movedTo]
  omega

theorem requireFree (what : Redeclared) (name : Token) : Forward (Check.requireFree what name) := by
  intro c s
  simp only [Check.requireFree, ensures_bind, ensures_get, ensures_ite, ensures_violateAt]
  exact ⟨fun _ ↦ trivial, fun _ ↦ Nat.le_refl _⟩

theorem declareGlobal (symbol : Symbol) (name : Token) : Forward (Check.declareGlobal symbol name) :=
  (insertSymbol 0 symbol).bind fun _ ↦ ite (pure _) (violateAt _ _)

theorem recordFunction (keyword : Nat) (name : Token) (info : FunctionInfo) :
    Forward (Check.recordFunction keyword name info) :=
  fun c _ ↦ ensures_recordFunction_iff.2 (declareGlobal _ name c _)

/-- A function from the opening of its scope on. -/
theorem functionRest (label : String) {parameters : Nat → Check (List TypedName)}
    (hparameters : ∀ scope, Forward (parameters scope)) (keyword : Nat) (name : Token)
    (info : Nat → List TypedName → BodyRange → FunctionInfo) :
    Forward (do
      let scope ← openFunctionScope label
      Functor.discard <| expectMark .leftParen
      let parameters ← parameters scope
      Functor.discard <| expectMark .rightParen
      let body ← Check.bodyRange
      Check.recordFunction keyword name (info scope parameters body)) := by
  intro c s
  rw [ensures_bind, ensures_openFunctionScope]
  refine bind (expect _ _).discard (fun _ ↦ ?_) c _
  exact (hparameters _).bind fun _ ↦ (expect _ _).discard.bind fun _ ↦ bodyRange.bind fun _ ↦
    recordFunction _ _ _

end Forward

/-- The header of a function or of the entry point. -/
structure Header where
  /-- Where its word stands. -/
  index : Nat
  name : String
  isEntryPoint : Bool

namespace Header

/-- The label of the scope a header opens. -/
def label (h : Header) : String :=
  if h.isEntryPoint then "entry point mn" else "function " ++ h.name

/-- Whether the header stands in a sequence of tokens: the word for the entry point, which gives it
its name, or that for a function, with the name behind the type. -/
def StandsIn (h : Header) (tokens : Array Token) : Prop :=
  if h.isEntryPoint then
    ∃ t, tokens[h.index]? = some t ∧ t.kind = .mainWord ∧ t.lexeme = h.name
  else
    ∃ word t, tokens[h.index]? = some word ∧ word.kind = .functionWord ∧
      tokens[h.index + 2]? = some t ∧ t.kind = .identifier ∧ t.lexeme = h.name

end Header

/-- The scopes of a state are the global one and those opened by headers, in the order of the text,
and every recorded function has the scope its header opened. -/
structure Opened (c : Context) (hs : List Header) (s : State) : Prop where
  outline : s.arena.outline = ("global", none) :: hs.map fun h ↦ (h.label, some 0)
  increasing : hs.Pairwise fun h h' ↦ h.index < h'.index
  stands : ∀ h ∈ hs, h.StandsIn c.tokens
  recorded : ∀ f ∈ s.functions, ∃ i h, hs[i]? = some h ∧ f = (h.name, i + 1)

namespace Opened

variable {hs : List Header}

theorem size_eq (h : Opened c hs s) : s.arena.size = hs.length + 1 := by
  rw [← Arena.length_outline, h.outline]
  simp

theorem size_pos (h : Opened c hs s) : 0 < s.arena.size := by
  rw [h.size_eq]
  omega

theorem of_sameScopes (h : Opened c hs s) (hsame : SameScopes s t) : Opened c hs t :=
  ⟨hsame.outline.trans h.outline, h.increasing, h.stands, hsame.functions ▸ h.recorded⟩

/-- The scope a header opens is the next one. -/
theorem opens (h : Opened c hs s) {header : Header} (hstands : header.StandsIn c.tokens)
    (hlast : ∀ h ∈ hs, h.index < header.index) :
    Opened c (hs ++ [header]) { s with arena := s.arena.push 0 header.label } := by
  refine ⟨?_, ?_, ?_, fun f hf ↦ ?_⟩
  · rw [Arena.outline_push, h.outline]
    simp
  · exact List.pairwise_append.2 ⟨h.increasing, List.pairwise_singleton _ _, by simpa using hlast⟩
  · intro h' hmem
    obtain hmem | hmem := List.mem_append.1 hmem
    · exact h.stands h' hmem
    · rwa [List.mem_singleton.1 hmem]
  · obtain ⟨i, h', hi, rfl⟩ := h.recorded f hf
    exact ⟨i, h', by rw [List.getElem?_append_left (List.getElem?_eq_some_iff.1 hi).1, hi], rfl⟩

/-- The function whose header was last is recorded with its scope. -/
theorem records {header : Header} (h : Opened c (hs ++ [header]) s) (headers : List (Nat × String)) :
    Opened c (hs ++ [header])
      { s with functions := (header.name, hs.length + 1) :: s.functions, headers := headers } := by
  refine ⟨h.outline, h.increasing, h.stands, fun f hf ↦ ?_⟩
  obtain rfl | hf := List.mem_cons.1 hf
  · exact ⟨hs.length, header, by simp, rfl⟩
  · exact h.recorded f hf

end Opened

theorem Context.exists_token {i : Nat} {k : Kind} (h : c.kindAt i = k) (hk : k ≠ .eof) :
    c.tokens[i]? = some (c.tokenAt i) ∧ (c.tokenAt i).kind = k := by
  refine ⟨?_, Context.kind_tokenAt_of_kindAt h hk⟩
  unfold Context.kindAt at h
  unfold Context.tokenAt
  cases htoken : c.tokens[i]? with
  | none => rw [htoken] at h; exact absurd h.symm hk
  | some t => rfl

/-- What a round of the walk over the headers may leave: the scope of its own header more. -/
def OpenedAt (c : Context) (hs : List Header) (index : Nat) (s : State) : Prop :=
  ∃ hs', Opened c (hs ++ hs') s ∧ ∀ h ∈ hs', h.index = index

namespace OpenedAt

variable {hs : List Header} {index : Nat}

theorem none (h : Opened c hs s) (hsame : SameScopes s t) : OpenedAt c hs index t :=
  ⟨[], by rw [List.append_nil]; exact h.of_sameScopes hsame, by simp⟩

theorem one {header : Header} (h : Opened c (hs ++ [header]) s) : OpenedAt c hs header.index s :=
  ⟨[header], h, by simp⟩

end OpenedAt

/-! ### The rounds of the walk over the headers -/

theorem runFrom_advance (c : Context) (s : State) :
    Check.advance.runFrom c s = (.ok (c.tokenAt s.position), s.movedTo (c.after s.position)) :=
  Ensures.run_eq (ensures_advance.2 ⟨rfl, rfl⟩)

/-- The walks over statements, blocks and expressions. -/
inductive IsWalk : {α : Type} → Check α → Prop
  | operand (levels stop : Nat) : IsWalk (operand levels stop)
  | expression (levels stop : Nat) : IsWalk (expressionType levels stop)
  | value (levels : Nat) (terminators : List Kind) : IsWalk (valueType levels terminators)
  | call (levels : Nat) : IsWalk (call (Check.operand levels))
  | target (levels : Nat) : IsWalk (target (Check.operand levels))
  | arguments (levels close : Nat) : IsWalk (arguments (Check.operand levels) close)
  | assignment (levels : Nat) (terminators : List Kind) (t : Target) :
    IsWalk (assignmentTail levels terminators t)
  | condition (levels : Nat) (construct : Guarded) : IsWalk (condition levels construct)
  | block (levels : Nat) (label : String) : IsWalk (block (statementsBelow levels) label)
  | caseBlock (levels : Nat) (keyword : Token) (which : CaseBlock) :
    IsWalk (caseBlock (statementsBelow levels) keyword which)
  | conditional (levels : Nat) : IsWalk (ifStatement levels (statementsBelow levels))
  | switch (levels : Nat) : IsWalk (switchStatement levels (statementsBelow levels))
  | whileLoop (levels : Nat) : IsWalk (whileStatement levels (statementsBelow levels))
  | doLoop (levels : Nat) : IsWalk (doStatement levels (statementsBelow levels))
  | forLoop (levels : Nat) : IsWalk (forStatement levels (statementsBelow levels))
  | statement (levels : Nat) : IsWalk (statement levels)
  | statements (levels : Nat) (terminators : List Kind) : IsWalk (statementsBelow levels terminators)
  | inScope (label : String) {α : Type} {x : Check α} : IsWalk x → IsWalk (inScope label x)
  | inBlock (kind : BlockKind) {α : Type} {x : Check α} : IsWalk x → IsWalk (inBlock kind x)
  | body (name : String) : IsWalk (functionBody name)

theorem IsWalk.traced (h : IsWalk x) : Traced .keepingScopes x := by
  induction h with
  | operand levels stop => exact .operand levels stop
  | expression levels stop => exact .expressionType levels stop
  | value levels terminators => exact .valueType levels terminators
  | call levels => exact .call (.operand levels)
  | target levels => exact .target (.operand levels)
  | arguments levels close => exact .arguments (.operand levels) close
  | assignment levels terminators t =>
    exact fun _ _ ↦ Traced.assignmentTail .of_ordinary levels terminators trivial
  | condition levels construct => exact .condition levels construct
  | block levels label => exact .block (.statementsBelow levels) label
  | caseBlock levels keyword which => exact .caseBlock (.statementsBelow levels) keyword which
  | conditional levels => exact .ifStatement (.statementsBelow levels) levels
  | switch levels => exact .switchStatement (.statementsBelow levels) levels
  | whileLoop levels => exact .whileStatement (.statementsBelow levels) levels
  | doLoop levels => exact .doStatement (.statementsBelow levels) levels
  | forLoop levels => exact .forStatement (.statementsBelow levels) levels
  | statement levels => exact .statement levels
  | statements levels terminators => exact .statementsBelow levels terminators
  | inScope label _ ih => exact .inScope label ih
  | inBlock kind _ ih => exact .inBlock kind ih
  | body name => exact .functionBody fun c s ↦ Rules.keepingScopes_recordReturn c s name

theorem IsWalk.keepsScopes (h : IsWalk x) : KeepsScopes x :=
  h.traced.keepsScopes

end

end FrontEnd
