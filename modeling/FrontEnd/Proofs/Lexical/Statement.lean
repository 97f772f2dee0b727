import FrontEnd.Proofs.Check.KeepsScopes
import FrontEnd.Proofs.Lexical.Declaration

/-!
# Statements keep a walk abreast

A walk is abreast of the reader where a statement starts, and again where it ends.  At the ends of a block
one of them is ahead: the reader opens a block with its brace, and the walk a scope behind the brace
(`Opens`); the walk leaves the scope in front of the closing brace, and the reader the block with it
(`Left`).  A switch has a block for the reader from its brace on, and no scope, so the walk has left that
block wherever it is between two cases; the block of a case takes its place.

What blocks contain is a parameter (`ResolveInner`).
-/

namespace FrontEnd

open Check

/-- A walk is beside a block that the reader has just opened and has yet to enter it. -/
def Opens (c : Context) (s : State) : Prop :=
  ∃ blocks, c.view s.position = ⟨.start, [] :: blocks⟩ ∧ InBlocks c s blocks

/-- A walk is outside of the innermost block that a reader has open. -/
@[mk_iff]
structure Left (mode : Mode) (c : Context) (s : State) : Prop where
  mode : (c.view s.position).mode = mode
  blocks : InBlocks c s (c.view s.position).blocks.tail

/-- The statements of a block resolve names from where a statement may start to a terminator. -/
structure ResolveInner (inner : Inner) : Prop where
  resolve : ∀ {c : Context} {s : State}, c.Closed → At .start c s → ∀ terminators,
    Resolves (inner terminators) c s fun _ after ↦
      Arrives (At .start) c s after ∧ terminators.contains (c.kindAt after.position)
  keeps : ∀ terminators, KeepsScopes (inner terminators)

section

variable {α : Type} {x : Check α} {c d : Context} {s after : State} {v : View} {mode other : Mode}
  {commas : Bool} {k : Kind} {P : Context → State → Prop}

/-! ### Modes of statements -/

/-- The word of a statement. -/
theorem At.word (h : At .start c s) (hk : c.kindAt s.position = k) (hname : k ≠ .identifier)
    (hne : k ≠ .eof) (hfirst : ∀ blocks i, View.next ⟨.start, blocks⟩ k i = ⟨mode, blocks⟩) :
    Arrives (At mode) c s (s.movedTo (c.after s.position)) :=
  .token hk hname (h.turned hk hne hfirst)

/-- The semicolon of a statement. -/
theorem Sees.ended (h : Sees v commas c s) (hmode : v.mode = .inside)
    (hk : c.kindAt s.position = .semicolon) :
    Arrives (At .start) c s (s.movedTo (c.after s.position)) :=
  .token hk (by decide) ((h.toAt hmode).turned hk (by decide) fun _ _ ↦ rfl)

/-- A token in the head of a loop that is no name, for the reader waits for the brace. -/
theorem Sees.inHead (h : Sees v commas c s) (hmode : v.mode = .loop) (hk : c.kindAt s.position = k)
    (hkind : k ∈ [.leftParen, .rightParen, .semicolon]) :
    Looked v commas c s (s.movedTo (c.after s.position)) := by
  have hkinds : ∀ k ∈ [Kind.leftParen, .rightParen, .semicolon],
      k ≠ .identifier ∧ k ≠ .eof ∧ k ≠ .leftBrace := by decide
  obtain ⟨hname, hne, hbrace⟩ := hkinds k hkind
  have hview : c.view (c.after s.position) = c.view s.position := by
    rw [Context.view_after hk hne, h.view]
    simp [View.next, hmode, hbrace]
  exact .token hk hname (h.of_view_eq rfl hview)

/-! ### Blocks -/

theorem Opens.left (h : Opens c s) : Left .start c s := by
  obtain ⟨blocks, hview, hblocks⟩ := h
  exact ⟨congrArg View.mode hview, by rwa [hview]⟩

/-- A brace opens a block. -/
theorem At.opens (h : At mode c s) (hmode : mode = .inside ∨ mode = .loop)
    (hk : c.kindAt s.position = .leftBrace) :
    Arrives Opens c s (s.movedTo (c.after s.position)) := by
  have hview : c.view (c.after s.position) = ⟨.start, [] :: (c.view s.position).blocks⟩ := by
    rw [Context.view_after hk (by decide)]
    rcases hmode with rfl | rfl <;> simp [View.next, View.enter, h.mode]
  exact .token hk (by decide) ⟨_, hview, h.abreast.live, h.abreast.rows⟩

/-- A brace closes a block. -/
theorem Left.closed (h : Left .start c s) (hk : c.kindAt s.position = .rightBrace) :
    Arrives (At .start) c s (s.movedTo (c.after s.position)) := by
  have hview : c.view (c.after s.position) = ⟨.start, (c.view s.position).blocks.tail⟩ := by
    rw [Context.view_after hk (by decide)]
    simp [View.next, View.leave, h.mode]
  have hblocks := congrArg View.blocks hview
  exact .token hk (by decide) ⟨congrArg View.mode hview, h.blocks.live, hblocks ▸ h.blocks.rows⟩

/-- The first scope of a row is left. -/
theorem At.left (h : At .start d after) (hd : d.SameText c) (hlt : c.scope < d.scope) {scope : Scope}
    (haround : after.arena.around d.scope = scope :: after.arena.around c.scope) :
    Left .start c after := by
  obtain ⟨hmode, hlive, hrows⟩ := h
  rw [haround, hd.lists_eq, hd.view_eq] at hrows
  refine ⟨hd.view_eq ▸ hmode, Nat.lt_trans hlt hlive, ?_⟩
  generalize (c.view after.position).blocks = blocks at hrows
  cases hrows with
  | cons _ hrest => exact hrest

theorem Left.released (h : Left mode c after) {id : Nat} (hlive : c.scope < id)
    (hsize : c.scope < (after.released id).arena.size) : Left mode c (after.released id) := by
  refine ⟨h.mode, hsize, ?_⟩
  rw [show (after.released id).arena.around c.scope = after.arena.around c.scope from
    Arena.around_release hlive]
  exact h.blocks.rows

/-- The scope of a block is opened beside the block of the reader, and left before it. -/
theorem resolves_inScope (hs : Opens c s) (hkeeps : KeepsScopes x) (label : String)
    (hx : At .start (c.entering s) (s.entered c label) →
      Resolves x (c.entering s) (s.entered c label) fun _ after ↦
        Arrives (At .start) (c.entering s) (s.entered c label) after) :
    Resolves (inScope label x) c s fun _ after ↦ Arrives (Left .start) c s after := by
  obtain ⟨blocks, hview, hlive, hrows⟩ := hs
  have htext : (c.entering s).SameText c := ⟨rfl, rfl⟩
  have hstart : At .start (c.entering s) (s.entered c label) := by
    refine ⟨?_, ?_, ?_⟩
    · rw [htext.view_eq]
      exact congrArg View.mode hview
    · exact Nat.lt_of_lt_of_eq (Nat.lt_succ_self _) (Array.size_push _).symm
    · rw [htext.view_eq, htext.lists_eq]
      show List.Forall₂ _ ((s.arena.push c.scope label).around s.arena.size) (c.view s.position).blocks
      rw [Arena.around_push hlive, hview]
      exact .cons .nil hrows
  have hinside := htext.resolves (hx hstart)
  refine (upholds_inScope label).2 ((hinside.and (ensures_leaves x _ _)).mono ?_)
  rintro _ after ⟨harrives, rfl⟩
  -- The outline tells that the scope which is left is still the one that was opened.
  have houtline := hkeeps.entered label c s
  have hthere : (x.leaves (c.entering s) (s.entered c label)).arena.outline[s.arena.size]? =
      some (label, some c.scope) := by
    rw [houtline, List.getElem?_append_right (by simp)]
    simp
  obtain ⟨scope, haround⟩ := Arena.around_of_outline hthere hlive
  have hsize := ((hkeeps.inScope label) c s (Nat.lt_of_le_of_lt (Nat.zero_le _) hlive)).size_eq
  refine ⟨htext.answeredTo_eq ▸ harrives.answered, ?_⟩
  exact (harrives.there.left htext hlive haround).released hlive (Nat.lt_of_lt_of_eq hlive hsize.symm)

/-- What is reached in one context of a text is reached in another one. -/
theorem Arrives.of_sameText (h : Arrives P d s after) (hd : d.SameText c) (hP : P d = P c) :
    Arrives P c s after :=
  ⟨hd.answeredTo_eq ▸ h.answered, hP ▸ h.there⟩

theorem Context.SameText.left_eq (h : d.SameText c) (hscope : d.scope = c.scope) :
    Left mode d = Left mode c := by
  funext s
  rw [left_iff, left_iff, h.inBlocks_eq hscope, h.view_eq]

theorem resolves_inBlock {Q : α → State → Prop} (kind : BlockKind)
    (h : Resolves x { c with blocks := kind :: c.blocks } s Q) : Resolves (inBlock kind x) c s Q := by
  have htext : Context.SameText { c with blocks := kind :: c.blocks } c := ⟨rfl, rfl⟩
  exact (upholds_inBlock kind).2 (htext.resolves h)

theorem resolves_statementsUntil {statement : Check Ending} (hs : At .start c s)
    (h : ∀ t, At .start c t → Resolves statement c t fun _ after ↦ Arrives (At .start) c t after)
    (terminators : List Kind) :
    Resolves (statementsUntil statement terminators) c s fun _ after ↦
      Arrives (At .start) c s after ∧ terminators.contains (c.kindAt after.position) := by
  refine upholds_rounds (by simp) (I := fun _ after ↦ Arrives (At .start) c s after) (.refl hs) ?_
  intro last after hafter
  simp only [upholds_bind, upholds_peekKind, upholds_ite, upholds_pure, upholds_violate,
    afterRound_done, afterRound_yield]
  refine ⟨fun hend ↦ ⟨hafter, hend⟩, fun _ ↦ ⟨fun _ ↦ by simp, fun _ ↦ ?_⟩⟩
  exact (h after hafter.there).mono fun _ _ ↦ hafter.trans

section

variable {inner : Inner} (hinner : ResolveInner inner) (hc : c.Closed)

include hinner hc

theorem resolves_block (hs : At mode c s) (hmode : mode = .inside ∨ mode = .loop) (label : String) :
    Resolves (block inner label) c s fun _ after ↦ Arrives (At .start) c s after := by
  simp only [block, upholds_bind, upholds_discard, upholds_expectMark]
  refine ⟨fun hopen ↦ ?_, fun _ ↦ by simp⟩
  have hopened := hs.opens hmode hopen
  have hclosed : (c.entering (s.movedTo (c.after s.position))).Closed := hc
  refine (resolves_inScope hopened.there (hinner.keeps _) label fun hstart ↦
    (hinner.resolve hclosed hstart _).mono fun _ _ h ↦ h.1).mono fun _ after hleft ↦ ?_
  exact ⟨fun hclose ↦ (hopened.trans hleft).trans (hleft.there.closed hclose), fun _ ↦ by simp⟩

/-- The block of a loop. -/
theorem resolves_loopBlock (hs : At mode c s) (hmode : mode = .inside ∨ mode = .loop) (label : String) :
    Resolves (inBlock .loop <| block inner label) c s fun _ after ↦ Arrives (At .start) c s after := by
  let d := { c with blocks := .loop :: c.blocks }
  have htext : d.SameText c := ⟨rfl, rfl⟩
  have hclosed : d.Closed := hc
  have hthere : At mode d s := htext.at_eq rfl ▸ hs
  refine resolves_inBlock .loop ((resolves_block hinner hclosed hthere hmode label).mono ?_)
  exact fun _ _ h ↦ h.of_sameText htext (htext.at_eq rfl)

end

/-! ### Simple statements -/

theorem resolves_nameStatement (hc : c.Closed) (hs : At .start c s) (levels : Nat) :
    Resolves (nameStatement levels) c s fun _ after ↦ Arrives (At .start) c s after := by
  have hoperand := resolveOperands_operand hc levels
  -- Behind the name the reader is inside of a statement.
  have hbehind (hname : c.kindAt s.position = .identifier) :
      Sees ⟨.inside, (c.view s.position).blocks⟩ false c (s.movedTo (c.after s.position)) := by
    have hview : c.view (c.after s.position) = ⟨.inside, (c.view s.position).blocks⟩ := by
      rw [Context.view_after hname (by decide)]
      simp [View.next, View.turn, Mode.first, hs.mode]
    have hblocks := congrArg View.blocks hview
    exact ⟨hview, trivial, hs.abreast.of_eq rfl hblocks⟩
  simp only [nameStatement, upholds_bind, upholds_secondKind, upholds_ite, upholds_discard,
    upholds_expectMark]
  refine ⟨fun hparen ↦ ?_, fun _ ↦ ?_⟩
  · refine (resolves_call hoperand hbehind hparen).mono fun _ after hcall ↦ ?_
    exact ⟨fun hend ↦ hcall.trans (hcall.there.ended rfl hend), fun _ ↦ by simp⟩
  · refine (resolves_target hoperand hbehind).mono fun t _ htarget ↦ ?_
    refine (resolvesNames_assignmentTail hc levels (by simp) t htarget.there).mono fun _ after htail ↦ ?_
    exact ⟨fun hend ↦ (htarget.trans htail).trans (htail.there.ended rfl hend), fun _ ↦ by simp⟩

/-- Behind a word that says what a statement does. -/
theorem At.insideOf (h : At .start c s) (hk : c.kindAt s.position = k) (hname : k ≠ .identifier)
    (hne : k ≠ .eof) (hfirst : ∀ blocks i, View.next ⟨.start, blocks⟩ k i = ⟨.inside, blocks⟩) :
    Looked ⟨.inside, (c.view s.position).blocks⟩ false c s (s.movedTo (c.after s.position)) := by
  have hview : c.view (c.after s.position) = ⟨.inside, (c.view s.position).blocks⟩ := by
    rw [Context.view_after hk hne, ← hfirst, ← h.mode]
  have hblocks := congrArg View.blocks hview
  exact .token hk hname ⟨hview, trivial, h.abreast.of_eq rfl hblocks⟩

theorem resolves_countStatement (hc : c.Closed) (hs : At .start c s)
    (hk : c.kindAt s.position = .increment ∨ c.kindAt s.position = .decrement) (levels : Nat) :
    Resolves (countStatement levels) c s fun _ after ↦ Arrives (At .start) c s after := by
  have hthere : Looked ⟨.inside, (c.view s.position).blocks⟩ false c s (s.movedTo (c.after s.position)) := by
    rcases hk with hk | hk
    · exact hs.insideOf hk (by decide) (by decide) fun _ _ ↦ rfl
    · exact hs.insideOf hk (by decide) (by decide) fun _ _ ↦ rfl
  simp only [countStatement, upholds_bind, upholds_discard, upholds_advance, upholds_expectMark]
  refine (resolves_target (resolveOperands_operand hc levels) fun hname ↦
    hthere.there.took (.step hname rfl)).mono fun t after htarget ↦ ?_
  refine ((calm_requireInt t).resolves (ensures_requireInt t)).mono ?_
  rintro _ _ rfl
  exact ⟨fun hend ↦ (hthere.trans htarget).trans (htarget.there.ended rfl hend), fun _ ↦ by simp⟩

theorem resolves_printStatement (hc : c.Closed) (hs : At .start c s)
    (hword : c.kindAt s.position = .printWord) (levels : Nat) :
    Resolves (printStatement levels) c s fun _ after ↦ Arrives (At .start) c s after := by
  have hthere := hs.insideOf hword (by decide) (by decide) fun _ _ ↦ rfl
  simp only [printStatement, upholds_bind, upholds_discard, upholds_advance, upholds_here,
    upholds_expectMark]
  refine ⟨fun hopen ↦ ?_, fun _ ↦ by simp⟩
  have hcloser : (c.kindAt (s.movedTo (c.after s.position)).position).closer? = some .rightParen := by
    rw [hopen]
    rfl
  have hbrace : c.kindAt (s.movedTo (c.after s.position)).position ≠ .leftBrace := by
    rw [hopen]
    decide
  refine ((Calm.matchingClose _).resolves (ensures_matchingClose hcloser)).mono ?_
  rintro close start ⟨rfl, hclose, hbound⟩
  rw [← Context.after_of_kindAt hopen (by decide)] at hbound
  refine (resolves_arguments (resolveOperands_operand hc levels) (hthere.there.opened hcloser hbrace)
    hbound).mono ?_
  rintro arguments last ⟨hlooked, htook, rfl⟩
  refine ⟨fun _ ↦ ?_, fun _ ↦ by simp⟩
  have hbehind := hthere.trans (Looked.brackets hthere.there hcloser hlooked.answered hclose
    (.brackets hcloser hbrace htook hclose))
  exact ⟨fun hend ↦ hbehind.trans (hbehind.there.ended rfl hend), fun _ ↦ by simp⟩

/-! ### Conditionals -/

theorem resolvesNames_inParentheses (hc : c.Closed) (levels : Nat) :
    ResolvesNames c (inParentheses levels) := by
  intro v s hs
  simp only [inParentheses, upholds_bind, upholds_here, upholds_discard, upholds_expectMark,
    upholds_pure]
  refine ⟨fun hopen ↦ ?_, fun _ ↦ by simp⟩
  have hcloser : (c.kindAt s.position).closer? = some .rightParen := by rw [hopen]; rfl
  refine ((Calm.matchingClose _).resolves (ensures_matchingClose hcloser)).mono ?_
  rintro close _ ⟨rfl, hclose, hbound⟩
  exact (resolves_inside (resolveOperands_operand hc levels) hs hcloser (by rw [hopen]; decide) hclose
    hbound).mono fun _ _ hinside ↦ ⟨fun _ ↦ hinside, fun _ ↦ by simp⟩

theorem resolvesNames_condition (hc : c.Closed) (levels : Nat) (construct : Guarded) :
    ResolvesNames c (condition levels construct) := by
  intro v s hs
  simp only [condition, upholds_bind, upholds_ite, upholds_violateAt, upholds_pure]
  exact (resolvesNames_inParentheses hc levels hs).mono fun _ _ h ↦ ⟨fun _ ↦ by simp, fun _ ↦ h⟩

section

variable {inner : Inner} (hinner : ResolveInner inner)

include hinner

/-- A word, a condition and a block. -/
theorem resolves_guardedBlock (hc : c.Closed) (hs : At .start c s) (hk : c.kindAt s.position = k)
    (hname : k ≠ .identifier) (hne : k ≠ .eof)
    (hfirst : ∀ blocks i, View.next ⟨.start, blocks⟩ k i = ⟨.inside, blocks⟩) (levels : Nat)
    (construct : Guarded) (label : String) :
    Resolves (do discard advance; condition levels construct; block inner label) c s fun _ after ↦
      Arrives (At .start) c s after := by
  have hthere := hs.insideOf hk hname hne hfirst
  simp only [upholds_bind, upholds_discard, upholds_advance]
  refine (resolvesNames_condition hc levels construct hthere.there).mono fun _ _ hcondition ↦ ?_
  exact (resolves_block hinner hc (hcondition.there.toAt rfl) (.inl rfl) label).mono fun _ _ ↦
    (hthere.trans hcondition).trans

theorem resolves_ifStatement (hc : c.Closed) (hs : At .start c s)
    (hword : c.kindAt s.position = .ifWord) (levels : Nat) :
    Resolves (ifStatement levels inner) c s fun _ after ↦ Arrives (At .start) c s after := by
  have hfirst := resolves_guardedBlock hinner hc hs hword (by decide) (by decide) (fun _ _ ↦ rfl) levels
    .ifBlock "if block"
  simp only [upholds_bind] at hfirst
  simp only [ifStatement, upholds_bind]
  refine hfirst.mono fun _ _ hcondition ↦ hcondition.mono fun _ _ hblock ↦ hblock.mono fun _ t ht ↦ ?_
  have hbranches : Resolves (roundsWhile (next? .elseIfWord) (fun _ ↦ do
      discard advance
      condition levels .elseIfBlock
      block inner "else-if block"
      return .yield ()) ()) c t fun _ after ↦ Arrives (At .start) c s after := by
    refine upholds_roundsWhile (by simp) (I := fun _ after ↦ Arrives (At .start) c s after) ht ?_
    intro _ after hafter
    simp only [upholds_next?, beq_iff_eq]
    refine ⟨fun helse ↦ ?_, fun _ ↦ hafter⟩
    have hbranch := resolves_guardedBlock hinner hc hafter.there helse (by decide) (by decide)
      (fun _ _ ↦ rfl) levels .elseIfBlock "else-if block"
    simp only [upholds_bind] at hbranch
    simp only [upholds_bind, upholds_pure, afterRound_yield]
    exact hbranch.mono fun _ _ hcondition ↦ hcondition.mono fun _ _ hblock ↦ hblock.mono fun _ _ ↦
      hafter.trans
  refine hbranches.mono fun _ after hafter ↦ ?_
  simp only [upholds_bind, upholds_next?, upholds_ite, beq_iff_eq, upholds_discard, upholds_advance,
    upholds_pure]
  refine ⟨fun helse ↦ ?_, fun _ ↦ hafter⟩
  have hthere : Arrives (At .inside) c _ _ :=
    hafter.there.word helse (by decide) (by decide) fun _ _ ↦ rfl
  exact (resolves_block hinner hc hthere.there (.inl rfl) _).mono fun _ _ ↦ (hafter.trans hthere).trans

/-! ### Switches -/

omit hinner in
theorem calm_caseLabel (selector : DataType) (labels : List String) : Calm (caseLabel selector labels) :=
  .bind .advance fun _ ↦ .otherwise (.violateAt rfl _) (.guard (.violateAt rfl _) (.pure _))

omit hinner in
theorem Left.turned (h : Left mode c s) (hk : c.kindAt s.position = k) (hname : k ≠ .identifier)
    (hne : k ≠ .eof) (hnext : ∀ blocks i, View.next ⟨mode, blocks⟩ k i = ⟨other, blocks⟩) :
    Arrives (Left other) c s (s.movedTo (c.after s.position)) := by
  have hview : c.view (c.after s.position) = ⟨other, (c.view s.position).blocks⟩ := by
    rw [Context.view_after hk hne, ← hnext _ s.position, ← h.mode]
  have hblocks := congrArg View.blocks hview
  exact .token hk hname ⟨congrArg View.mode hview, h.blocks.live, hblocks ▸ h.blocks.rows⟩

omit hinner in
/-- The label of a case is a literal. -/
theorem resolves_caseLabel (hc : c.Closed) (hs : Left .label c s) (selector : DataType)
    (labels : List String) :
    Resolves (caseLabel selector labels) c s fun _ after ↦ Arrives (Left .label) c s after := by
  refine (calm_caseLabel selector labels).resolves (E := fun _ ↦ True) ?_
  simp only [caseLabel, ensures_bind, ensures_advance, ensures_ite, ensures_violateAt, ensures_pure,
    hc.kind_tokenAt, implies_true, true_and, and_true]
  intro hlabel _
  have hkinds : ∀ k ∈ labelKinds selector, k ≠ .identifier ∧ k ≠ .eof ∧ k ≠ .colon := by
    unfold labelKinds
    split <;> decide
  obtain ⟨hname, hne, hcolon⟩ := hkinds _ (List.contains_iff_mem.1 hlabel)
  exact hs.turned rfl hname hne fun blocks i ↦ by simp [View.next, hcolon]

/-- The block of a case takes the place of the one before. -/
theorem resolves_caseBlock (hc : c.Closed) (hs : Left .label c s) (keyword : Token) (which : CaseBlock) :
    Resolves (caseBlock inner keyword which) c s fun _ after ↦ Arrives (Left .start) c s after := by
  simp only [caseBlock, upholds_bind, upholds_discard, upholds_ite, upholds_violateAt, upholds_pure,
    upholds_expectMark]
  refine ⟨fun hcolon ↦ ?_, fun _ ↦ by simp⟩
  have hview : c.view (c.after s.position) = ⟨.start, [] :: (c.view s.position).blocks.tail⟩ := by
    rw [Context.view_after hcolon (by decide)]
    simp [View.next, View.leave, View.enter, hs.mode]
  have hopened : Arrives Opens c s (s.movedTo (c.after s.position)) :=
    .token hcolon (by decide) ⟨_, hview, hs.blocks.live, hs.blocks.rows⟩
  have hkeeps : KeepsScopes (inBlock .case (inner [.caseWord, .defaultWord, .rightBrace])) :=
    fun d t ht ↦ hinner.keeps _ { d with blocks := .case :: d.blocks } t ht
  refine (resolves_inScope hopened.there hkeeps "case block" fun hstart ↦ ?_).mono fun _ _ hleft ↦
    ⟨fun _ ↦ by simp, fun _ ↦ hopened.trans hleft⟩
  let outer := c.entering (s.movedTo (c.after s.position))
  let d := { outer with blocks := .case :: outer.blocks }
  have htext : d.SameText outer := ⟨rfl, rfl⟩
  have hclosed : d.Closed := hc
  have hthere : At .start d _ := htext.at_eq rfl ▸ hstart
  refine resolves_inBlock .case ((hinner.resolve hclosed hthere _).mono ?_)
  exact fun _ _ h ↦ h.1.of_sameText htext (htext.at_eq rfl)

theorem resolves_switchRound (hc : c.Closed) (hs : Left .start c s) (selector : DataType)
    (soFar : SwitchSoFar) :
    Resolves (switchRound inner selector soFar) c s (AfterRound
      (fun _ after ↦ Arrives (Left .start) c s after) fun _ after ↦ Arrives (Left .start) c s after) := by
  simp only [switchRound, upholds_bind, upholds_peek, hc.kind_tokenAt]
  split
  next => exact upholds_pure.2 (.refl hs)
  next hk =>
    have hthere : Arrives (Left .label) c s _ := hs.turned hk (by decide) (by decide) fun _ _ ↦ rfl
    simp only [upholds_bind, upholds_discard, upholds_advance, upholds_pure]
    refine (resolves_caseLabel hc hthere.there selector _).mono fun label _ hlabel ↦ ?_
    exact (resolves_caseBlock hinner hc hlabel.there _ _).mono fun _ _ ↦ (hthere.trans hlabel).trans
  next hk =>
    have hthere : Arrives (Left .label) c s _ := hs.turned hk (by decide) (by decide) fun _ _ ↦ rfl
    simp only [upholds_bind, upholds_ite, upholds_violateAt, upholds_discard, upholds_advance,
      upholds_pure]
    refine ⟨fun _ ↦ by simp, fun _ ↦ ?_⟩
    exact (resolves_caseBlock hinner hc hthere.there _ _).mono fun _ _ ↦ hthere.trans
  next => simp
  next => simp

theorem resolves_switchStatement (hc : c.Closed) (hs : At .start c s)
    (hword : c.kindAt s.position = .switchWord) (levels : Nat) :
    Resolves (switchStatement levels inner) c s fun _ after ↦ Arrives (At .start) c s after := by
  have hthere := hs.insideOf hword (by decide) (by decide) fun _ _ ↦ rfl
  let d := { c with blocks := .switch :: c.blocks }
  have htext : d.SameText c := ⟨rfl, rfl⟩
  have hclosed : d.Closed := hc
  simp only [switchStatement, upholds_bind, upholds_advance, upholds_read, upholds_ite,
    upholds_violateAt, upholds_discard, upholds_expectMark]
  refine ⟨fun _ ↦ by simp, fun _ ↦ ?_⟩
  refine (resolvesNames_inParentheses hc levels hthere.there).mono fun found after hfound ↦ ?_
  refine ⟨fun _ ↦ by simp, fun _ ↦ ⟨fun hopen ↦ ?_, fun _ ↦ by simp⟩⟩
  have hopened := (hfound.there.toAt rfl).opens (.inl rfl) hopen
  have hrounds : Resolves (inBlock .switch <| rounds (switchRound inner found.1) ⟨[], false⟩) c
      (after.movedTo (c.after after.position)) fun _ later ↦
        Arrives (Left .start) c (after.movedTo (c.after after.position)) later := by
    have hleft : Left .start d (after.movedTo (c.after after.position)) :=
      htext.left_eq rfl ▸ hopened.there.left
    have hinside : Resolves (rounds (switchRound inner found.1) ⟨[], false⟩) d
        (after.movedTo (c.after after.position)) fun _ later ↦
          Arrives (Left .start) d (after.movedTo (c.after after.position)) later := by
      refine upholds_rounds (by simp) (I := fun _ later ↦
        Arrives (Left .start) d (after.movedTo (c.after after.position)) later) (.refl hleft) ?_
      intro soFar t ht
      refine (resolves_switchRound hinner hclosed ht.there found.1 soFar).mono fun r later hround ↦ ?_
      cases r with
      | done _ => exact ht.trans hround
      | yield _ => exact ht.trans hround
    exact resolves_inBlock .switch (hinside.mono fun _ _ h ↦ h.of_sameText htext (htext.left_eq rfl))
  refine hrounds.mono fun _ last hlast ↦ ⟨fun hclose ↦ ?_, fun _ ↦ by simp⟩
  exact (((hthere.trans hfound).trans hopened).trans hlast).trans (hlast.there.closed hclose)

/-! ### Loops -/

theorem resolves_whileStatement (hc : c.Closed) (hs : At .start c s)
    (hword : c.kindAt s.position = .whileWord) (levels : Nat) :
    Resolves (whileStatement levels inner) c s fun _ after ↦ Arrives (At .start) c s after := by
  have hthere := hs.insideOf hword (by decide) (by decide) fun _ _ ↦ rfl
  simp only [whileStatement, upholds_bind, upholds_discard, upholds_advance]
  refine (resolvesNames_condition hc levels _ hthere.there).mono fun _ _ hcondition ↦ ?_
  exact (resolves_loopBlock hinner hc (hcondition.there.toAt rfl) (.inl rfl) _).mono fun _ _ ↦
    (hthere.trans hcondition).trans

/-- The condition behind a block belongs to a statement of its own for the reader. -/
theorem resolves_doStatement (hc : c.Closed) (hs : At .start c s)
    (hword : c.kindAt s.position = .doWord) (levels : Nat) :
    Resolves (doStatement levels inner) c s fun _ after ↦ Arrives (At .start) c s after := by
  have hthere : Arrives (At .inside) c s _ := hs.word hword (by decide) (by decide) fun _ _ ↦ rfl
  simp only [doStatement, upholds_bind, upholds_discard, upholds_advance, upholds_expectMark]
  refine (resolves_loopBlock hinner hc hthere.there (.inl rfl) _).mono fun _ _ hblock ↦
    ⟨fun hwhile ↦ ?_, fun _ ↦ by simp⟩
  have hsecond := hblock.there.insideOf hwhile (by decide) (by decide) fun _ _ ↦ rfl
  refine (resolvesNames_condition hc levels _ hsecond.there).mono fun _ _ hcondition ↦
    ⟨fun hend ↦ ?_, fun _ ↦ by simp⟩
  exact (((hthere.trans hblock).trans hsecond).trans hcondition).trans (hcondition.there.ended rfl hend)

end

section

variable {levels : Nat} (hc : c.Closed) (hs : Sees v false c s) (hmode : v.mode = .loop)

include hc hs hmode

theorem resolves_forStart :
    Resolves (forStart levels) c s fun _ after ↦ Looked v false c s after := by
  simp only [forStart, requireForVariable, upholds_bind, upholds_ite, upholds_violateAt,
    upholds_discard, upholds_expectMark, upholds_pure]
  refine (resolves_target (resolveOperands_operand hc levels) fun hname ↦
    hs.took (.step hname rfl)).mono fun t _ htarget ↦ ⟨fun _ ↦ by simp, fun _ ↦ ⟨fun hassign ↦ ?_,
      fun _ ↦ by simp⟩⟩
  have hsign := Looked.step htarget.there hassign rfl (by decide)
  refine (resolves_valueOfType hc levels (by simp) hsign.there .int _).mono fun found _ hvalue ↦
    hvalue.mono fun _ _ hvalue ↦ ?_
  refine (resolvesNames_markInitialized t hvalue.there).mono fun _ _ hmark ↦
    ⟨fun hend ↦ ?_, fun _ ↦ by simp⟩
  exact (((htarget.trans hsign).trans hvalue).trans hmark).trans (hmark.there.inHead hmode hend (by decide))

theorem resolves_forCondition :
    Resolves (forCondition levels) c s fun _ after ↦ Looked v false c s after := by
  simp only [forCondition, upholds_bind, upholds_ite, upholds_violate, upholds_discard,
    upholds_expectMark]
  refine (resolvesNames_valueType hc levels (by simp) hs).mono fun found _ hfound ↦
    ⟨fun _ ↦ by simp, fun _ ↦ ⟨fun hend ↦ ?_, fun _ ↦ by simp⟩⟩
  exact hfound.trans (hfound.there.inHead hmode hend (by decide))

end

theorem resolvesNames_forUpdate (hc : c.Closed) (levels : Nat) : ResolvesNames c (forUpdate levels) := by
  intro v s hs
  have hoperand := resolveOperands_operand hc levels
  have hcount : ∀ {k : Kind}, c.kindAt s.position = k → k.isPlain → k ≠ .identifier →
      Resolves (do discard advance; requireForVariable .update (← target (operand levels))) c s
        fun _ after ↦ Looked v false c s after := by
    intro k hk hplain hname
    have hsign := Looked.step hs hk hplain hname
    simp only [upholds_bind, upholds_discard, upholds_advance, requireForVariable, upholds_ite,
      upholds_violateAt, upholds_pure]
    exact (resolves_target hoperand fun hname ↦ hsign.there.took (.step hname rfl)).mono fun _ _ h ↦
      ⟨fun _ ↦ by simp, fun _ ↦ hsign.trans h⟩
  simp only [forUpdate, upholds_bind, upholds_peekKind]
  split
  next hk => exact hcount hk rfl (by decide)
  next hk => exact hcount hk rfl (by decide)
  next =>
    simp only [upholds_bind, requireForVariable, upholds_ite, upholds_violateAt, upholds_peekKind,
      upholds_violate, upholds_pure]
    refine (resolves_target hoperand fun hname ↦ hs.took (.step hname rfl)).mono fun t _ htarget ↦
      ⟨fun _ ↦ by simp, fun _ ↦ ⟨fun _ ↦ ?_, fun _ ↦ by simp⟩⟩
    exact (resolvesNames_assignmentTail hc levels (by simp [Kind.isPlain, Kind.isCloser]) t
      htarget.there).mono fun _ _ ↦ htarget.trans
  next => simp

section

variable {inner : Inner} (hinner : ResolveInner inner)

include hinner

theorem resolves_forStatement (hc : c.Closed) (hs : At .start c s)
    (hword : c.kindAt s.position = .forWord) (levels : Nat) :
    Resolves (forStatement levels inner) c s fun _ after ↦ Arrives (At .start) c s after := by
  have hthere : Arrives (At .loop) c s _ := hs.word hword (by decide) (by decide) fun _ _ ↦ rfl
  have hsees : Sees _ false c _ := hthere.there.sees trivial
  have hmode := hthere.there.mode
  simp only [forStatement, upholds_bind, upholds_discard, upholds_advance, upholds_here,
    upholds_expectMark, upholds_ite, upholds_violate, upholds_peek]
  refine ⟨fun hopen ↦ ?_, fun _ ↦ by simp⟩
  have hparen := hsees.inHead hmode hopen (by decide)
  refine ((Calm.matchingClose _).resolves (ensures_matchingClose (by rw [hopen]; rfl))).mono ?_
  rintro close _ ⟨rfl, -, -⟩
  refine (resolves_forStart hc hparen.there hmode).mono fun _ _ hstart ↦ ?_
  refine (resolves_forCondition hc hstart.there hmode).mono fun _ _ hcondition ↦ ?_
  refine (resolvesNames_forUpdate hc levels hcondition.there).mono fun _ _ hupdate ↦ ?_
  refine ⟨fun _ ↦ by simp, fun _ ↦ ⟨fun hclose ↦ ?_, fun _ ↦ by simp⟩⟩
  have hhead := (((hparen.trans hstart).trans hcondition).trans hupdate).trans
    (hupdate.there.inHead hmode hclose (by decide))
  exact (resolves_loopBlock hinner hc (hhead.there.toAt hmode) (.inr rfl) _).mono fun _ _ ↦
    (hthere.trans hhead).trans

end

/-! ### Jumps -/

section

variable (hs : At .start c s)

include hs

theorem resolves_breakStatement (hword : c.kindAt s.position = .breakWord) :
    Resolves breakStatement c s fun _ after ↦ Arrives (At .start) c s after := by
  have hthere := hs.insideOf hword (by decide) (by decide) fun _ _ ↦ rfl
  simp only [breakStatement, upholds_bind, upholds_advance, upholds_read, upholds_ite,
    upholds_violateAt, upholds_discard, upholds_expectMark]
  exact ⟨fun _ ↦ by simp, fun _ ↦ ⟨fun hend ↦ hthere.trans (hthere.there.ended rfl hend),
    fun _ ↦ by simp⟩⟩

theorem resolves_continueStatement (hword : c.kindAt s.position = .continueWord) :
    Resolves continueStatement c s fun _ after ↦ Arrives (At .start) c s after := by
  have hthere := hs.insideOf hword (by decide) (by decide) fun _ _ ↦ rfl
  simp only [continueStatement, upholds_bind, upholds_advance, upholds_read]
  split
  · simp only [upholds_discard, upholds_expectMark]
    exact ⟨fun hend ↦ hthere.trans (hthere.there.ended rfl hend), fun _ ↦ by simp⟩
  · simp
  · simp

omit hs in
theorem resolvesNames_entryPointReturn (hc : c.Closed) (keyword : Token) :
    ResolvesNames c (entryPointReturn keyword) := by
  intro v s hs
  simp only [entryPointReturn, upholds_bind, upholds_next?, upholds_ite, upholds_peek,
    upholds_secondKind, upholds_discard, upholds_advance, upholds_violateAt, upholds_pure,
    hc.kind_tokenAt, Bool.and_eq_true, decide_eq_true_eq]
  exact ⟨fun _ ↦ .refl hs, fun _ ↦ ⟨fun hzero ↦ Looked.step hs hzero.1.1 rfl (by decide),
    fun _ ↦ by simp⟩⟩

omit hs in
theorem resolvesNames_valueReturn (hc : c.Closed) (levels : Nat) (f : FunctionContext)
    (keyword : Token) : ResolvesNames c (valueReturn levels f keyword) := by
  intro v s hs
  simp only [valueReturn, upholds_bind, upholds_next?, upholds_ite, upholds_violateAt, upholds_pure]
  refine ⟨fun _ ↦ by simp, fun _ ↦ ?_⟩
  exact (resolvesNames_valueType hc levels (by simp) hs).mono fun _ _ h ↦ ⟨fun _ ↦ by simp, fun _ ↦ h⟩

omit hs in
theorem resolvesNames_voidReturn (f : FunctionContext) (keyword : Token) :
    ResolvesNames c (voidReturn f keyword) := by
  intro v s hs
  simp only [voidReturn, upholds_bind, upholds_next?, upholds_ite, upholds_violateAt, upholds_pure]
  exact ⟨fun _ ↦ .refl hs, fun _ ↦ by simp⟩

theorem resolves_returnStatement (hc : c.Closed) (hword : c.kindAt s.position = .returnWord)
    (levels : Nat) :
    Resolves (returnStatement levels) c s fun _ after ↦ Arrives (At .start) c s after := by
  have hthere := hs.insideOf hword (by decide) (by decide) fun _ _ ↦ rfl
  -- What is returned is followed by the note that something was, and a semicolon.
  have hreturns {x : Check Unit} (hx : ResolvesNames c x) :
      Resolves x c (s.movedTo (c.after s.position)) fun _ after ↦
        (c.kindAt after.position = .semicolon → Arrives (At .start) c s
          ({ after with sawReturn := true }.movedTo (c.after after.position))) ∧
        (c.kindAt after.position ≠ .semicolon →
          c.Blames (c.expected after.position (.mark .semicolon))) := by
    refine (hx hthere.there).mono fun _ after hvalue ↦ ⟨fun hend ↦ ?_, fun _ ↦ by simp⟩
    have hended := hvalue.there.ended rfl hend
    have hnoted : Arrives (At .start) c after
        ({ after with sawReturn := true }.movedTo (c.after after.position)) :=
      ⟨hended.answered, hended.there.mode, hended.there.abreast.live, hended.there.abreast.rows⟩
    exact (hthere.trans hvalue).trans hnoted
  simp only [returnStatement, upholds_bind, upholds_advance, upholds_read]
  split
  · simp
  next f _ =>
    simp only [upholds_bind, upholds_ite, upholds_modify, upholds_discard, upholds_expectMark]
    exact ⟨fun _ ↦ hreturns (resolvesNames_entryPointReturn hc _),
      fun _ ↦ ⟨fun _ ↦ hreturns (resolvesNames_voidReturn f _),
        fun _ ↦ hreturns (resolvesNames_valueReturn hc levels f _)⟩⟩

theorem resolves_endStatement (hword : c.kindAt s.position = .endWord) :
    Resolves endStatement c s fun _ after ↦ Arrives (At .start) c s after := by
  have hthere := hs.insideOf hword (by decide) (by decide) fun _ _ ↦ rfl
  simp only [endStatement, upholds_bind, upholds_advance, upholds_read, upholds_ite,
    upholds_violateAt, upholds_discard, upholds_expectMark, upholds_next?, upholds_pure]
  refine ⟨fun _ ↦ ⟨fun hend ↦ ⟨fun _ ↦ ?_, fun _ ↦ by simp⟩, fun _ ↦ by simp⟩, fun _ ↦ by simp⟩
  exact hthere.trans (hthere.there.ended rfl hend)

end

/-! ### All statements -/

section

variable {inner : Inner} (hinner : ResolveInner inner)

include hinner

theorem resolves_ordinaryStatement (hc : c.Closed) (hs : At .start c s) (levels : Nat) {t : Token}
    (ht : t.kind = c.kindAt s.position) :
    Resolves (ordinaryStatement levels inner t) c s fun _ after ↦ Arrives (At .start) c s after := by
  unfold ordinaryStatement
  split
  next => exact resolves_variableDeclaration hc hs levels
  next => exact resolves_variableDeclaration hc hs levels
  next => exact resolves_variableDeclaration hc hs levels
  next => exact resolves_variableDeclaration hc hs levels
  next => exact resolves_variableDeclaration hc hs levels
  next hk => exact resolves_constantDeclaration hc hs (ht.symm.trans hk) levels
  next hk => exact resolves_instanceDeclaration hs (ht.symm.trans hk)
  next => exact resolves_nameStatement hc hs levels
  next hk => exact resolves_countStatement hc hs (.inl (ht.symm.trans hk)) levels
  next hk => exact resolves_countStatement hc hs (.inr (ht.symm.trans hk)) levels
  next hk => exact resolves_printStatement hc hs (ht.symm.trans hk) levels
  next hk => exact resolves_ifStatement hinner hc hs (ht.symm.trans hk) levels
  next hk => exact resolves_switchStatement hinner hc hs (ht.symm.trans hk) levels
  next hk => exact resolves_forStatement hinner hc hs (ht.symm.trans hk) levels
  next hk => exact resolves_whileStatement hinner hc hs (ht.symm.trans hk) levels
  next hk => exact resolves_doStatement hinner hc hs (ht.symm.trans hk) levels
  next hk => exact resolves_returnStatement hs hc (ht.symm.trans hk) levels
  next hk => exact resolves_continueStatement hs (ht.symm.trans hk)
  next hk => exact resolves_endStatement hs (ht.symm.trans hk)
  all_goals simp

theorem resolves_statementWith (hc : c.Closed) (hs : At .start c s) (levels : Nat) :
    Resolves (statementWith levels inner) c s fun _ after ↦ Arrives (At .start) c s after := by
  simp only [statementWith, upholds_bind, upholds_peek, upholds_ite, upholds_pure]
  refine ⟨fun hword ↦ ?_, fun _ ↦ ?_⟩
  · rw [hc.kind_tokenAt] at hword
    exact resolves_breakStatement hs hword
  · exact resolves_ordinaryStatement hinner hc hs levels (hc.kind_tokenAt _)

end

/-- The statements of blocks resolve names on every level. -/
theorem resolveInner_statementsBelow (levels : Nat) : ResolveInner (statementsBelow levels) where
  keeps terminators := (Traced.statementsBelow levels terminators).keepsScopes
  resolve := by
    induction levels with
    | zero => exact fun _ _ _ ↦ by simp [statementsBelow, tooDeep]
    | succ levels ih =>
      have hinner : ResolveInner (statementsBelow levels) :=
        ⟨ih, fun terminators ↦ (Traced.statementsBelow levels terminators).keepsScopes⟩
      intro c s hc hs
      exact resolves_statementsUntil hs fun _ ht ↦ resolves_statementWith hinner hc ht levels

theorem resolves_statement (hc : c.Closed) (hs : At .start c s) (levels : Nat) :
    Resolves (statement levels) c s fun _ after ↦ Arrives (At .start) c s after :=
  resolves_statementWith (resolveInner_statementsBelow levels) hc hs levels

end

end FrontEnd
