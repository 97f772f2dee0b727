import FrontEnd.Proofs.Grammar.Yield

/-!
# One terminal decides

A word of the grammar is derived by some rules; the parser has to find them by the next terminal
alone.  For most categories it does: `Regular A w` says that `w` is read as `A` before everything
that may come behind `A`, which the table `follow` lists, and a rule passes this on from its row
(`reads_of_fits`) by a check on `first`, `nullable` and `follow`.

Three places need more.

* `lsf` and `ls` may stand behind a conditional and also behind the statements inside one, so a
  word with both has several derivations.  The parser takes them into the innermost conditional
  that is still open; `Dangling` says that statements with further branches behind them are read
  whichever conditional the branches belonged to.
* The cases of a switch may be grouped in many ways; the parser nests them as deep as it can, and
  `Predicted` of the case lists is about reading cases in front of cases.
* The body of a switch vanishes, or begins with `dflt`, when it has no case, but its only rule is
  for `cs`.  A word with such a switch (`BareSwitch`) is not read.

That is all: `reads_iff_of_mem_language` reads every other word.
-/

namespace FrontEnd.Grammar

open Kind Nonterminal

/-! ### The tables -/

/-- What a word of a category may begin with. -/
def first : Nonterminal → List Kind
  | switchBody => [caseWord, defaultWord]
  | A => ((rules A).filter fun r ↦ !r.body.isEmpty).flatMap Rule.lookaheads

/-- Whether a category has the empty word. -/
def nullable (A : Nonterminal) : Bool :=
  A == switchBody || (rules A).any fun r ↦ r.body.isEmpty

/-- What a word of a row may begin with. -/
def firstRow : List GrammarSymbol → List Kind
  | [] => []
  | .terminal k :: _ => [k]
  | .nonterminal A :: α => first A ++ if nullable A then firstRow α else []

/-- Whether a row has the empty word. -/
def nullableRow : List GrammarSymbol → Bool
  | [] => true
  | .terminal _ :: _ => false
  | .nonterminal A :: α => nullable A && nullableRow α

/-- What may come behind a conditional that no further branch belongs to. -/
def conditionalFollow : List Kind :=
  statementStart ++ [rightBrace, endWord, caseWord, defaultWord]

/-- The lookaheads before which a category vanishes. -/
def vanishing (A : Nonterminal) : List Kind :=
  ((rules A).filter fun r ↦ r.body.isEmpty).flatMap Rule.lookaheads

/-- What may come behind a word of a category for it to be read to its end and no further. -/
def follow : Nonterminal → List Kind
  | program => [eof]
  | typedVariables | constants | typedConstants | constantInitializer _ | constantValue _
  | constantArray _ | constantArrayInitializer _ | forStart | forCondition => [semicolon]
  | boolValue | charValue | stringValue | arrayDeclaration _ => [comma, semicolon]
  | doubleArithmetic | expression | operandChain => [comma, semicolon, rightParen]
  | intArithmetic => [comma, rightParen, rightBracket, semicolon]
  | intOperand | numericOperand | countedName | nameUse => operandFollow
  | operand | concatenation =>
    relationalSigns ++ logicalSigns ++ arithmeticSigns ++ [comma, semicolon, rightParen]
  | place | arrayAccess => vanishing placeTail
  | index => [rightBracket]
  | argument | outputValue => [comma, rightParen]
  | elements _ | rows _ | structBody | switchBody => [rightBrace]
  | condition => [rightParen, semicolon]
  | returnValue => [semicolon]
  | forStep | forStepTail | forStepValue => [rightParen]
  | statements => [endWord, rightBrace, caseWord, defaultWord]
  | conditional => conditionalFollow
  | A => if nullable A then vanishing A else Kind.all

/-- Whether words of the symbols of a row, read one after the other, come to the end of the row
before the terminals `F`. -/
def Fits (F : List Kind) : List GrammarSymbol → Bool
  | [] => true
  | .terminal _ :: α => Fits F α
  | .nonterminal A :: α =>
    A ∉ [switchBody, cases, moreCases] && firstRow α ⊆ follow A &&
      (!nullableRow α || F ⊆ follow A) && Fits F α

/-- The categories whose rules hand reading on from their rows and need nothing else. -/
def isPlain (A : Nonterminal) : Bool :=
  A ∉ [nameStatementTail, conditional, switchBody, cases, moreCases]

variable {A : Nonterminal} {α β : List GrammarSymbol} {u v w rest : List Kind} {r : Rule}
  {k : Kind} {F : List Kind}

/-- What the tables are checked for, category by category. -/
theorem checked : ∀ A ∈ Nonterminal.all,
    (∀ r ∈ rules A, (∀ k ∈ r.lookaheads, production A k = some r.body) ∧
      (∀ k ∈ firstRow r.body, k ∈ first A ∧ (isPlain A → k ∈ r.lookaheads)) ∧
        (nullableRow r.body → nullable A) ∧ (isPlain A → Fits (follow A) r.body)) ∧
      (isPlain A → nullable A → ∀ k ∈ follow A, production A k = some []) := by
  decide +kernel

/-- The lookaheads of the rules of one category do not overlap. -/
theorem production_of_mem (hr : r ∈ rules A) (hk : k ∈ r.lookaheads) :
    production A k = some r.body :=
  ((checked A A.mem_all).1 r hr).1 k hk

/-- A plain category has a rule before everything its words begin with. -/
theorem mem_lookaheads (hA : isPlain A) (hr : r ∈ rules A) (hk : k ∈ firstRow r.body) :
    k ∈ r.lookaheads :=
  (((checked A A.mem_all).1 r hr).2.1 k hk).2 hA

theorem mem_first (hr : r ∈ rules A) (hk : k ∈ firstRow r.body) : k ∈ first A :=
  (((checked A A.mem_all).1 r hr).2.1 k hk).1

theorem nullable_of_mem (hr : r ∈ rules A) (hnil : nullableRow r.body) : nullable A :=
  ((checked A A.mem_all).1 r hr).2.2.1 hnil

/-- A plain category that has the empty word vanishes before everything that may come behind it. -/
theorem production_of_nullable (hA : isPlain A) (hnil : nullable A) (hk : k ∈ follow A) :
    production A k = some [] :=
  (checked A A.mem_all).2 hA hnil k hk

theorem fits_of_mem (hA : isPlain A) (hr : r ∈ rules A) : Fits (follow A) r.body :=
  ((checked A A.mem_all).1 r hr).2.2.2 hA

/-! ### How words begin -/

/-- A word with which the tables agree that it is one of a category. -/
structure Starts (A : Nonterminal) (w : List Kind) : Prop where
  /-- The empty word is one of a category that has it. -/
  nullable_of_nil : w = [] → nullable A
  /-- Any other word begins with a terminal that words of the category begin with. -/
  mem_first_of_cons : ∀ k ∈ w.head?, k ∈ first A

/-- The words of a row begin as the tables say. -/
theorem RowIn.starts (h : RowIn Starts α w) :
    (w = [] → nullableRow α) ∧ ∀ k ∈ w.head?, k ∈ firstRow α := by
  induction α generalizing w with
  | nil => simp_all [RowIn, nullableRow]
  | cons s α ih =>
    cases s with
    | terminal j =>
      obtain ⟨v, rfl, -⟩ := h
      simp [firstRow]
    | nonterminal A =>
      obtain ⟨u, v, rfl, hu, hv⟩ := h
      obtain ⟨hnil, hfirst⟩ := ih hv
      cases u with
      | nil =>
        have hA : nullable A := hu.nullable_of_nil rfl
        simp_all [nullableRow, firstRow]
      | cons k u =>
        have hk : k ∈ first A := hu.mem_first_of_cons k rfl
        simp_all [firstRow]

/-- Every word of a category begins as the tables say. -/
theorem respected_starts : Respected Starts := by
  intro A r hr w h
  obtain ⟨hnil, hfirst⟩ := h.starts
  exact ⟨fun hw ↦ nullable_of_mem hr (hnil hw), fun k hk ↦ mem_first hr (hfirst k hk)⟩

/-! ### Reading a row -/

/-- The row `α`, read from `u`, leaves `v`. -/
def Reads (α : List GrammarSymbol) (u v : List Kind) : Prop :=
  ∃ rs, Guided α u v rs

namespace Reads

theorem nil (u : List Kind) : Reads [] u u := ⟨_, .nil u⟩

theorem terminal (k : Kind) (h : Reads α u v) : Reads (.terminal k :: α) (k :: u) v :=
  h.imp fun _ h ↦ .terminal k h

theorem append (h : Reads α u v) (h' : Reads β v w) : Reads (α ++ β) u w := by
  obtain ⟨_, h⟩ := h
  obtain ⟨_, h'⟩ := h'
  exact ⟨_, h.append h'⟩

/-- Reading a category is reading the row that replaces it before the next terminal. -/
theorem of_production (hprod : production A (ahead u) = some α) (h : Reads α u v) :
    Reads [.nonterminal A] u v := by
  obtain ⟨_, h⟩ := h
  exact ⟨_, .nonterminal hprod h (.nil v)⟩

/-- Reading a row is reading it with its first category replaced. -/
theorem expand (hprod : production A (ahead u) = some α) (h : Reads (α ++ β) u v) :
    Reads (.nonterminal A :: β) u v := by
  obtain ⟨_, h⟩ := h
  obtain ⟨x, _, _, -, h₁, h₂⟩ := Guided.of_append h
  exact ⟨_, .nonterminal hprod h₁ h₂⟩

/-- A category that vanishes before the next terminal takes nothing. -/
theorem vanish (hprod : production A (ahead u) = some []) : Reads [.nonterminal A] u u :=
  of_production hprod (nil u)

theorem cons (h : Reads [.nonterminal A] u v) (h' : Reads α v w) :
    Reads (.nonterminal A :: α) u w :=
  h.append h'

/-- A category that is read has a rule before the next terminal. -/
theorem isSome_production (h : Reads (.nonterminal A :: α) u v) :
    (production A (ahead u)).isSome := by
  obtain ⟨_, h⟩ := h
  cases h with
  | nonterminal hprod _ _ => exact hprod ▸ rfl

end Reads

/-- The word is read as the category before everything that may come behind it. -/
def Regular (A : Nonterminal) (w : List Kind) : Prop :=
  ∀ rest, ahead rest ∈ follow A → Reads [.nonterminal A] (w ++ rest) rest

/-- What is seen before a word and the rest is seen before the word, or, if there is none, before
the rest. -/
theorem ahead_append_mem {G : List Kind} (hword : ∀ k ∈ w.head?, k ∈ G)
    (hrest : w = [] → ahead rest ∈ G) : ahead (w ++ rest) ∈ G := by
  cases w with
  | nil => exact hrest rfl
  | cons k w => exact hword k rfl

/-- The words of a row, read one after the other, come to its end before what it fits. -/
theorem reads_of_fits (hfits : Fits F α)
    (h : RowIn (fun A w ↦ Starts A w ∧ (A ∉ [switchBody, cases, moreCases] → Regular A w)) α w)
    (hrest : ahead rest ∈ F) : Reads α (w ++ rest) rest := by
  induction α generalizing w with
  | nil =>
    obtain rfl : w = [] := h
    exact .nil rest
  | cons s α ih =>
    cases s with
    | terminal k =>
      obtain ⟨v, rfl, hv⟩ := h
      exact .terminal k (ih hfits hv)
    | nonterminal A =>
      obtain ⟨u, v, rfl, ⟨-, hu⟩, hv⟩ := h
      simp only [Fits, Bool.and_eq_true, decide_eq_true_eq, Bool.or_eq_true] at hfits
      obtain ⟨⟨⟨hA, hfirst⟩, hnil⟩, hfits⟩ := hfits
      obtain ⟨hvnil, hvfirst⟩ := (hv.mono fun _ _ h ↦ h.1).starts
      have hahead : ahead (v ++ rest) ∈ follow A := by
        refine ahead_append_mem (fun k hk ↦ hfirst (hvfirst k hk)) fun hempty ↦ ?_
        exact hnil.resolve_left (by simp [hvnil hempty]) hrest
      rw [List.append_assoc]
      exact (hu hA _ hahead).cons (ih hfits hv)

/-- A plain category is read as one of its rows is. -/
theorem reads_of_row (hA : isPlain A) (hr : r ∈ rules A) (hstarts : RowIn Starts r.body w)
    (hrest : w = [] → ahead rest ∈ follow A) (h : w ≠ [] → Reads r.body (w ++ rest) rest) :
    Reads [.nonterminal A] (w ++ rest) rest := by
  obtain ⟨hnil, hfirst⟩ := hstarts.starts
  cases w with
  | nil => exact .vanish (production_of_nullable hA (nullable_of_mem hr (hnil rfl)) (hrest rfl))
  | cons k w =>
    have hk : k ∈ r.lookaheads := mem_lookaheads hA hr (hfirst k rfl)
    exact .of_production (production_of_mem hr hk) (h (List.cons_ne_nil k w))

/-! ### Reading the categories -/

/-- What the cases of a switch may be followed by. -/
def casesFollow : List Kind := [defaultWord, rightBrace]

/-- Further branches of a conditional, each part read as such before anything. -/
structure Branches (e f : List Kind) : Prop where
  starts_elseIfs : Starts elseIfBlocks e
  starts_else : Starts elseBlock f
  /-- Blocks with a condition of their own are read in front of others. -/
  prepend : ∀ v x, Reads [elseIfBlocks] v x → Reads [elseIfBlocks] (e ++ v) x
  reads_else : f ≠ [] → ∀ x, Reads [elseBlock] (f ++ x) x

/-- A row that is read with further branches of an enclosing conditional behind it, whichever
conditional the branches are taken into. -/
def Dangling (α : List GrammarSymbol) (w : List Kind) : Prop :=
  ∀ e f rest, Branches e f → ahead rest = rightBrace →
    Reads (α ++ [.nonterminal elseIfBlocks, .nonterminal elseBlock]) (w ++ (e ++ (f ++ rest))) rest

/-- How the parser reads a word as a category. -/
def Predicted : Nonterminal → List Kind → Prop
  | statements, w => Regular statements w ∧ Dangling [statements] w
  | conditional, w => Regular conditional w ∧ Dangling [conditional, statements] w
  | elseIfBlocks, w => ∀ v x, Reads [elseIfBlocks] v x → Reads [elseIfBlocks] (w ++ v) x
  | elseBlock, w => w ≠ [] → ∀ x, Reads [elseBlock] (w ++ x) x
  | switchBody, w => ahead w = caseWord → Regular switchBody w
  | cases, w => w ≠ [] → ∀ v x, ahead x ∈ casesFollow → Reads [moreCases] v x →
      Reads [cases] (w ++ v) x
  | moreCases, w => ∀ v x, ahead x ∈ casesFollow → Reads [moreCases] v x →
      Reads [moreCases] (w ++ v) x
  | A, w => Regular A w

/-- A word that begins as words of the category do and is read as one. -/
def Readable (A : Nonterminal) (w : List Kind) : Prop :=
  Starts A w ∧ Predicted A w

theorem Readable.regular (h : Readable A w) (hA : A ∉ [switchBody, cases, moreCases]) :
    Regular A w := by
  obtain ⟨hstarts, h⟩ := h
  intro rest hrest
  cases A
  case statements => exact h.1 rest hrest
  case conditional => exact h.1 rest hrest
  case elseIfBlocks => exact h rest rest (.vanish (production_of_nullable rfl rfl hrest))
  case elseBlock =>
    cases w with
    | nil => exact .vanish (production_of_nullable rfl rfl hrest)
    | cons k w => exact h (List.cons_ne_nil k w) rest
  case switchBody | cases | moreCases => simp at hA
  all_goals exact h rest hrest

/-- The words of a row come to its end before what it fits. -/
theorem reads_of_readable (hfits : Fits F α) (h : RowIn Readable α w) (hrest : ahead rest ∈ F) :
    Reads α (w ++ rest) rest :=
  reads_of_fits hfits (h.mono fun _ _ h ↦ ⟨h.1, h.regular⟩) hrest

/-- A plain category is read, if the words of its row are. -/
theorem regular_of_row (hA : isPlain A) (hr : r ∈ rules A) (h : RowIn Readable r.body w) :
    Regular A w := by
  intro rest hrest
  have hstarts : RowIn Starts r.body w := h.mono fun _ _ h ↦ h.1
  exact reads_of_row hA hr hstarts (fun _ ↦ hrest) fun _ ↦
    reads_of_readable (fits_of_mem hA hr) h hrest

/-- A category without the empty word is read by a rule that applies to the word. -/
theorem regular_of_mem_lookaheads (hr : r ∈ rules A) (hk : ∃ k ∈ w.head?, k ∈ r.lookaheads)
    (hfits : Fits (follow A) r.body) (h : RowIn Readable r.body w) : Regular A w := by
  intro rest hrest
  obtain ⟨k, hhead, hk⟩ := hk
  obtain ⟨w, rfl⟩ := List.head?_eq_some_iff.1 hhead
  exact .of_production (production_of_mem hr hk) (reads_of_readable hfits h hrest)

/-- The front of a row is read before anything, if it ends with a terminal. -/
theorem reads_front (hfits : Fits Kind.all α) (h : RowIn Readable α w) :
    Reads α (w ++ rest) rest :=
  reads_of_readable hfits h (Kind.mem_all _)

theorem predicted_elseIfBlocks (hr : r ∈ rules elseIfBlocks) (h : RowIn Readable r.body w) :
    Predicted elseIfBlocks w := by
  intro v x hv
  obtain rfl | rfl := List.mem_pair.1 hr
  · obtain ⟨front, _, rfl, hfront, e, _, rfl, ⟨-, he⟩, rfl⟩ := RowIn.of_append
      [elseIfWord, leftParen, condition, rightParen, leftBrace, statements, rightBrace] h
    have hblock : Reads _ (front ++ (e ++ v)) (e ++ v) := reads_front (by decide) hfront
    obtain ⟨front, rfl, -⟩ := hfront
    simpa using Reads.of_production rfl (hblock.append (he v x hv))
  · obtain rfl : w = [] := h
    exact hv

theorem predicted_elseBlock (hr : r ∈ rules elseBlock) (h : RowIn Readable r.body w) :
    Predicted elseBlock w := by
  intro hw x
  obtain rfl | rfl := List.mem_pair.1 hr
  · have hblock : Reads _ (w ++ x) x := reads_front (by decide) h
    obtain ⟨front, rfl, -⟩ := h
    exact .of_production rfl hblock
  · exact absurd h hw

/-- A name may stand alone before an assignment, or have an index or a member behind it first. -/
theorem regular_nameStatementTail (hr : r ∈ rules nameStatementTail)
    (h : RowIn Readable r.body w) : Regular nameStatementTail w := by
  have hfirst : (w = [] → nullableRow r.body) ∧ ∀ k ∈ w.head?, k ∈ firstRow r.body :=
    (h.mono fun _ _ h ↦ h.1).starts
  have hfits : ∀ r ∈ rules nameStatementTail, Fits (follow nameStatementTail) r.body := by
    decide
  have hnil : ∀ r ∈ rules nameStatementTail, ¬ nullableRow r.body := by
    decide
  cases w with
  | nil => exact absurd (hfirst.1 rfl) (hnil r hr)
  | cons k w =>
    by_cases hk : k ∈ r.lookaheads
    · exact regular_of_mem_lookaheads hr ⟨k, rfl, hk⟩ (hfits r hr) h
    · -- Before a sign of assignment the row with the index or member is not the one chosen.
      have hskip : ∀ r ∈ rules nameStatementTail, ∀ k ∈ firstRow r.body, k ∉ r.lookaheads →
          r.body = [.nonterminal placeTail, .nonterminal assignment] ∧
            k ∈ compoundSigns ++ [assign] ∧ k ∉ first placeTail := by
        decide
      obtain ⟨hbody, hassign, hplace⟩ := hskip r hr k (hfirst.2 k rfl) hk
      rw [hbody] at h
      obtain ⟨p, a, hw, ⟨hp, -⟩, h⟩ := h
      obtain rfl : p = [] := by
        cases p with
        | nil => rfl
        | cons j p =>
          obtain ⟨rfl, -⟩ := List.cons.inj hw
          exact absurd (hp.mem_first_of_cons k rfl) hplace
      rw [hw]
      have halone : ⟨compoundSigns ++ [assign], [.nonterminal assignment]⟩ ∈
        rules nameStatementTail := .tail _ (.tail _ (.head _))
      exact regular_of_mem_lookaheads halone ⟨k, by simp [← hw], hassign⟩ (hfits _ halone) h

/-! ### Conditionals -/

namespace Branches

variable {e f e₂ f₂ : List Kind}

theorem of_readable (he : Readable elseIfBlocks e) (hf : Readable elseBlock f) : Branches e f :=
  ⟨he.1, hf.1, he.2, hf.2⟩

theorem readable (h : Branches e f) : Readable elseIfBlocks e ∧ Readable elseBlock f :=
  ⟨⟨h.starts_elseIfs, h.prepend⟩, ⟨h.starts_else, h.reads_else⟩⟩

theorem reads_elseIfs (h : Branches e f) (hrest : f = [] → ahead rest ∈ conditionalFollow) :
    Reads [elseIfBlocks] (e ++ (f ++ rest)) (f ++ rest) := by
  refine h.readable.1.regular (by decide) _ (ahead_append_mem (fun k hk ↦ ?_) fun hf ↦ ?_)
  · have hall : first elseBlock ⊆ follow elseIfBlocks := by decide
    exact hall (h.starts_else.mem_first_of_cons k hk)
  · have hall : conditionalFollow ⊆ follow elseIfBlocks := by decide
    exact hall (hrest hf)

theorem reads_last (h : Branches e f) (hrest : f = [] → ahead rest ∈ conditionalFollow) :
    Reads [elseBlock] (f ++ rest) rest := by
  cases f with
  | nil =>
    have hall : conditionalFollow ⊆ follow elseBlock := by decide
    exact h.readable.2.regular (by decide) _ (hall (hrest rfl))
  | cons k f => exact h.reads_else (List.cons_ne_nil k f) rest

/-- Further branches are read before what may follow a conditional, and with a last one among them
before anything. -/
theorem reads (h : Branches e f) (hrest : f = [] → ahead rest ∈ conditionalFollow) :
    Reads [elseIfBlocks, elseBlock] (e ++ (f ++ rest)) rest :=
  (h.reads_elseIfs hrest).cons (h.reads_last hrest)

/-- Statements end before further branches. -/
theorem vanish_statements (h : Branches e f) (hrest : ahead rest = rightBrace) :
    Reads [statements] (e ++ (f ++ rest)) (e ++ (f ++ rest)) := by
  have hall : ∀ k ∈ first elseIfBlocks ++ first elseBlock ++ [rightBrace],
      production statements k = some [] := by
    decide
  refine .vanish (hall _ (ahead_append_mem (fun k hk ↦ ?_) fun _ ↦ ahead_append_mem (fun k hk ↦ ?_)
    fun _ ↦ ?_))
  · simp [h.starts_elseIfs.mem_first_of_cons k hk]
  · simp [h.starts_else.mem_first_of_cons k hk]
  · simp [hrest]

/-- Branches, statements that vanish and further branches are read in a row: without a last
branch of the first conditional, it takes the further ones. -/
theorem reads_dangling (h₂ : Branches e₂ f₂) (h : Branches e f) (hrest : ahead rest = rightBrace) :
    Reads [elseIfBlocks, elseBlock, statements, elseIfBlocks, elseBlock]
      (e₂ ++ (f₂ ++ (e ++ (f ++ rest)))) rest := by
  have hfollow : ahead rest ∈ conditionalFollow := by
    rw [hrest]
    decide
  cases f₂ with
  | nil =>
    have helseIfs : Reads [elseIfBlocks] (e₂ ++ (e ++ (f ++ rest))) (f ++ rest) :=
      h₂.prepend _ _ (h.reads_elseIfs fun _ ↦ hfollow)
    have hvanish : ∀ A ∈ [statements, elseIfBlocks, elseBlock],
        Reads [.nonterminal A] rest rest := by
      have hall : ∀ A ∈ [statements, elseIfBlocks, elseBlock],
          production A rightBrace = some [] := by
        decide
      exact fun A hA ↦ .vanish (hrest ▸ hall A hA)
    exact helseIfs.cons ((h.reads_last fun _ ↦ hfollow).cons ((hvanish _ (by simp)).cons
      ((hvanish _ (by simp)).cons (hvanish _ (by simp)))))
  | cons k f₂ =>
    have hown : Reads [elseIfBlocks, elseBlock] _ (e ++ (f ++ rest)) := h₂.reads nofun
    exact hown.append ((h.vanish_statements hrest).cons (h.reads fun _ ↦ hfollow))

end Branches

/-- Statements are read with further branches behind them: the last conditional may take some. -/
theorem dangling_statements (hr : r ∈ rules statements) (h : RowIn Readable r.body w) :
    Dangling [statements] w := by
  intro e f rest hbranches hrest
  -- behind a statement may stand anything, unless it is a conditional
  have hbodies : ∀ r ∈ rules statements, r.body = [] ∨ ∃ X,
      r.body = [.nonterminal X, .nonterminal statements] ∧ ¬ nullable X ∧
        (X = conditional ∨ follow X = Kind.all ∧ X ∉ [switchBody, cases, moreCases]) := by
    intro r hr
    simp only [rules, List.mem_cons, List.not_mem_nil, or_false] at hr
    obtain rfl | rfl | rfl | rfl | rfl | rfl | rfl | rfl | rfl | rfl := hr
    any_goals exact .inr ⟨_, rfl, by decide, .inr ⟨rfl, by decide⟩⟩
    · exact .inr ⟨conditional, rfl, by decide, .inl rfl⟩
    · exact .inl rfl
  obtain hbody | ⟨X, hbody, hnil, hX⟩ := hbodies r hr
  · rw [hbody] at h
    obtain rfl : w = [] := h
    have hfollow : ahead rest ∈ conditionalFollow := by
      rw [hrest]
      decide
    exact (hbranches.vanish_statements hrest).cons (hbranches.reads fun _ ↦ hfollow)
  · have hstarts := (h.mono fun _ _ h ↦ h.1).starts
    rw [hbody] at h
    obtain ⟨x, _, rfl, hx, s, _, rfl, hs, rfl⟩ := h
    simp only [List.append_nil, List.append_assoc] at hstarts ⊢
    obtain ⟨k, x, rfl⟩ : ∃ k x', x = k :: x' := by
      refine List.exists_cons_of_ne_nil fun hempty ↦ hnil (hx.1.nullable_of_nil hempty)
    have hk : k ∈ r.lookaheads := mem_lookaheads rfl hr (hstarts.2 k rfl)
    refine .expand (hbody ▸ production_of_mem hr hk) ?_
    have hrest' : Reads [statements, elseIfBlocks, elseBlock] (s ++ (e ++ (f ++ rest))) rest :=
      hs.2.2 e f rest hbranches hrest
    obtain rfl | ⟨hall, hX⟩ := hX
    · cases s with
      | nil => exact hx.2.2 e f rest hbranches hrest
      | cons j s =>
        have hfirst : first statements ⊆ follow conditional := by decide
        have hj : j ∈ follow conditional := hfirst (hs.1.mem_first_of_cons j rfl)
        exact (hx.2.1 (j :: s ++ (e ++ (f ++ rest))) hj).cons hrest'
    · exact (hx.regular hX _ (hall ▸ Kind.mem_all _)).cons hrest'

/-- A switch that has no case before its default, or none at all. -/
def BareSwitch (w : List Kind) : Prop :=
  ∃ k ∈ [defaultWord, rightBrace],
    [switchWord, leftParen, identifier, rightParen, leftBrace, k] <:+: w

theorem BareSwitch.of_infix (h : BareSwitch u) (huv : u <:+: w) : BareSwitch w := by
  obtain ⟨k, hk, h⟩ := h
  exact ⟨k, hk, h.trans huv⟩

/-- The pieces of a word without bare switches have none. -/
theorem RowIn.narrow {S T : Nonterminal → List Kind → Prop}
    (h : RowIn (fun A w ↦ S A w ∧ (¬ BareSwitch w → T A w)) α w) (hw : ¬ BareSwitch w) :
    RowIn (fun A w ↦ S A w ∧ T A w) α w := by
  induction α generalizing w with
  | nil => exact h
  | cons s α ih =>
    cases s with
    | terminal k =>
      obtain ⟨v, rfl, hv⟩ := h
      exact ⟨v, rfl, ih hv fun hbare ↦ hw (hbare.of_infix (List.infix_cons (List.infix_refl v)))⟩
    | nonterminal A =>
      obtain ⟨u, v, rfl, ⟨hS, hT⟩, hv⟩ := h
      refine ⟨u, v, rfl, ⟨hS, hT fun hbare ↦ hw ?_⟩, ih hv fun hbare ↦ hw ?_⟩
      · exact hbare.of_infix (List.prefix_append u v).isInfix
      · exact hbare.of_infix (List.suffix_append u v).isInfix

/-- A conditional with blocks is read up to its further branches. -/
theorem predicted_if (h : RowIn Readable [ifWord, leftParen, condition, rightParen, leftBrace,
      statements, elseIfBlocks, elseBlock, rightBrace, elseIfBlocks, elseBlock] w) :
    Predicted conditional w := by
  obtain ⟨front, _, rfl, hfront, s, _, rfl, hs, e₁, _, rfl, he₁, f₁, _, rfl, hf₁, _, rfl,
    e, _, rfl, he, f, _, rfl, hf, rfl⟩ := RowIn.of_append
      [ifWord, leftParen, condition, rightParen, leftBrace] h
  have hinner : Branches e₁ f₁ := .of_readable he₁ hf₁
  have hown : Branches e f := .of_readable he hf
  -- What stands inside the braces ends at the closing one, whoever takes the branches there.
  have hblock : ∀ x, Reads [ifWord, leftParen, condition, rightParen, leftBrace,
      statements, elseIfBlocks, elseBlock, rightBrace]
      (front ++ (s ++ (e₁ ++ (f₁ ++ rightBrace :: x)))) x := by
    intro x
    have hopen : Reads _ _ (s ++ (e₁ ++ (f₁ ++ rightBrace :: x))) :=
      reads_front (by decide) hfront
    have hinside : Reads _ (s ++ (e₁ ++ (f₁ ++ rightBrace :: x))) (rightBrace :: x) :=
      hs.2.2 e₁ f₁ (rightBrace :: x) hinner rfl
    exact hopen.append (hinside.append (.terminal rightBrace (.nil x)))
  obtain ⟨front, rfl, -⟩ := hfront
  constructor
  · intro rest hrest
    refine .of_production rfl ?_
    simpa using (hblock _).append (hown.reads fun _ ↦ hrest)
  · intro e' f' rest hbranches hrest
    refine .expand rfl ?_
    simpa using (hblock _).append (hown.reads_dangling hbranches hrest)

/-- A switch with a case is read, and no branches belong to it. -/
theorem predicted_switch (hbare : ¬ BareSwitch w)
    (h : RowIn Readable [switchWord, leftParen, identifier, rightParen, leftBrace, switchBody,
      rightBrace] w) : Predicted conditional w := by
  obtain ⟨_, rfl, _, rfl, _, rfl, _, rfl, _, rfl, b, _, rfl, ⟨hstarts, hb⟩, _, rfl, rfl⟩ := h
  have hcase : ahead b = caseWord := by
    cases b with
    | nil => exact absurd ⟨rightBrace, by simp, List.infix_refl _⟩ hbare
    | cons k b =>
      have hk : k = caseWord ∨ k = defaultWord := List.mem_pair.1 (hstarts.mem_first_of_cons k rfl)
      refine hk.resolve_right fun hk ↦ hbare ⟨k, by simp [hk], ?_⟩
      exact (List.prefix_append [switchWord, leftParen, identifier, rightParen, leftBrace, k]
        (b ++ [rightBrace])).isInfix
  have hreads : ∀ x, Reads [conditional] (switchWord :: leftParen :: identifier :: rightParen ::
      leftBrace :: (b ++ rightBrace :: x)) x := by
    intro x
    have hend : rightBrace ∈ follow switchBody := by decide
    have hbody : Reads [switchBody] (b ++ rightBrace :: x) (rightBrace :: x) :=
      hb hcase (rightBrace :: x) hend
    exact .of_production rfl (.terminal _ (.terminal _ (.terminal _ (.terminal _ (.terminal _
      (hbody.append (.terminal rightBrace (.nil x))))))))
  constructor
  · intro rest _
    simpa using hreads rest
  · intro e f rest hbranches hrest
    have hfollow : ahead rest ∈ conditionalFollow := by
      rw [hrest]
      decide
    have hbehind := (hbranches.vanish_statements hrest).cons (hbranches.reads fun _ ↦ hfollow)
    simpa using (hreads _).cons hbehind

/-! ### Cases -/

theorem predicted_cases (hr : r ∈ rules cases) (h : RowIn Readable r.body w) :
    Predicted cases w := by
  intro hw v x hx hv
  obtain rfl | rfl := List.mem_pair.1 hr
  · obtain ⟨front, _, rfl, hfront, s, _, rfl, hs, m, _, rfl, hm, rfl⟩ := RowIn.of_append
      [caseWord, caseLabel, colon] h
    have hmore : Reads [moreCases] (m ++ v) x := hm.2 v x hx hv
    -- the cases behind begin as cases do, or there are none
    have hahead : ahead (m ++ v) ∈ follow statements := by
      have hall : ∀ k ∈ Kind.all, (production moreCases k).isSome → k ∈ follow statements := by
        decide
      exact hall _ (Kind.mem_all _) hmore.isSome_production
    have hlabel : Reads _ _ (s ++ (m ++ v)) := reads_front (by decide) hfront
    obtain ⟨front, rfl, -⟩ := hfront
    refine .of_production rfl ?_
    simpa using hlabel.append ((hs.2.1 _ hahead).cons hmore)
  · exact absurd h hw

theorem predicted_moreCases (hr : r ∈ rules moreCases) (h : RowIn Readable r.body w) :
    Predicted moreCases w := by
  intro v x hx hv
  obtain rfl | rfl := List.mem_pair.1 hr
  · obtain ⟨c, _, rfl, hc, m, _, rfl, hm, rfl⟩ := h
    simp only [List.append_nil, List.append_assoc]
    have hmore : Reads [moreCases] (m ++ v) x := hm.2 v x hx hv
    cases c with
    | nil => exact hmore
    | cons k c =>
      obtain rfl : k = caseWord := List.mem_singleton.1 (hc.1.mem_first_of_cons k rfl)
      -- all the cases are taken as one, and no more are left
      have hall : Reads [cases] (caseWord :: c ++ (m ++ v)) x :=
        hc.2 (List.cons_ne_nil _ _) _ x hx hmore
      have hnone : ∀ k ∈ casesFollow, production moreCases k = some [] := by decide
      exact .of_production rfl (hall.cons (.vanish (hnone _ hx)))
  · obtain rfl : w = [] := h
    exact hv

theorem predicted_switchBody (hr : r ∈ rules switchBody) (h : RowIn Readable r.body w) :
    Predicted switchBody w := by
  intro hcase rest hrest
  obtain rfl : r = ⟨[caseWord], [cases, defaultCase]⟩ := List.mem_singleton.1 hr
  obtain ⟨c, _, rfl, hc, d, _, rfl, hd, rfl⟩ := h
  simp only [List.append_nil, List.append_assoc] at hcase ⊢
  have hdefault : Reads [defaultCase] (d ++ rest) rest := hd.regular (by decide) rest hrest
  have hfirst : first defaultCase ⊆ casesFollow := by decide
  have hahead : ahead (d ++ rest) ∈ casesFollow := by
    refine ahead_append_mem (fun k hk ↦ hfirst (hd.1.mem_first_of_cons k hk)) fun _ ↦ ?_
    have hend : follow switchBody ⊆ casesFollow := by decide
    exact hend hrest
  have hnone : Reads [moreCases] (d ++ rest) (d ++ rest) := by
    have hall : ∀ k ∈ casesFollow, production moreCases k = some [] := by decide
    exact .vanish (hall _ hahead)
  cases c with
  | nil =>
    -- a body that begins with `cs` does not begin with its default
    have hno : caseWord ∉ first defaultCase := by decide
    cases d with
    | nil => exact absurd hcase (by decide)
    | cons k d => exact absurd (hcase ▸ hd.1.mem_first_of_cons k rfl) hno
  | cons k c =>
    have hcases : Reads [cases] (k :: c ++ (d ++ rest)) (d ++ rest) :=
      hc.2 (List.cons_ne_nil k c) _ _ hahead hnone
    exact .of_production (hcase ▸ rfl) (hcases.cons hdefault)

/-! ### Every category -/

theorem predicted_of_regular
    (hA : A ∉ [statements, conditional, elseIfBlocks, elseBlock, switchBody, cases, moreCases])
    (h : Regular A w) : Predicted A w := by
  cases A
  case statements | conditional | elseIfBlocks | elseBlock | switchBody | cases | moreCases =>
    simp at hA
  all_goals exact h

/-- A word without bare switches is read as its category. -/
theorem respected_predicted :
    Respected fun A w ↦ Starts A w ∧ (¬ BareSwitch w → Predicted A w) := by
  intro A r hr w h
  refine ⟨respected_starts A r hr w (h.mono fun _ _ h ↦ h.1), fun hbare ↦ ?_⟩
  have hrow : RowIn Readable r.body w := h.narrow hbare
  by_cases hA : A ∈ [statements, conditional, elseIfBlocks, elseBlock, switchBody, cases, moreCases]
  · simp only [List.mem_cons, List.not_mem_nil, or_false] at hA
    obtain rfl | rfl | rfl | rfl | rfl | rfl | rfl := hA
    · exact ⟨regular_of_row rfl hr hrow, dangling_statements hr hrow⟩
    · obtain rfl | rfl := List.mem_pair.1 hr
      · exact predicted_if hrow
      · exact predicted_switch hbare hrow
    · exact predicted_elseIfBlocks hr hrow
    · exact predicted_elseBlock hr hrow
    · exact predicted_switchBody hr hrow
    · exact predicted_cases hr hrow
    · exact predicted_moreCases hr hrow
  · refine predicted_of_regular hA ?_
    by_cases hname : A = nameStatementTail
    · subst hname
      exact regular_nameStatementTail hr hrow
    · have hplain : isPlain A := by simp_all [isPlain]
      exact regular_of_row hplain hr hrow

/-! ### Bare switches are not read -/

/-- Whether every switch of a row has its body behind it. -/
def headsSwitches : List GrammarSymbol → Bool
  | [] => true
  | .terminal k :: α => headsSwitches α && (k != switchWord ||
      [.terminal leftParen, .terminal identifier, .terminal rightParen, .terminal leftBrace,
        .nonterminal switchBody] <+: α)
  | .nonterminal _ :: α => headsSwitches α

theorem headsSwitches_rules (A : Nonterminal) : (rules A).all fun r ↦ headsSwitches r.body := by
  cases A with
  | element p => cases p <;> rfl
  | constantValue p => cases p <;> rfl
  | _ => rfl

/-- The body of a switch is only read if it begins with a case. -/
theorem exists_of_production_switchBody {body : List GrammarSymbol}
    (h : production switchBody (ahead u) = some body) : ∃ v, u = caseWord :: v := by
  have honly : ∀ k ∈ Kind.all, (production switchBody k).isSome → k = caseWord := by
    decide
  have hcase : ahead u = caseWord := honly _ (Kind.mem_all _) (by rw [h]; rfl)
  cases u with
  | nil => exact absurd hcase (by decide)
  | cons k u =>
    obtain rfl : k = caseWord := hcase
    exact ⟨u, rfl⟩

theorem Guided.caseWord_of_switchBody {rs : List Rewrite}
    (h : Guided ([.terminal leftParen, .terminal identifier, .terminal rightParen,
      .terminal leftBrace, .nonterminal switchBody] ++ α) u v rs) :
    [leftParen, identifier, rightParen, leftBrace, caseWord] <+: u := by
  obtain _ | ⟨_, _ | ⟨_, _ | ⟨_, _ | ⟨_, h⟩⟩⟩⟩ := h
  cases h with
  | nonterminal hprod _ _ =>
    obtain ⟨u, rfl⟩ := exists_of_production_switchBody hprod
    exact ⟨u, rfl⟩

/-- What is read begins the body of every switch with a case. -/
theorem Guided.caseWord_of_switchWord {rs : List Rewrite} (h : Guided α u v rs)
    (hα : headsSwitches α) : ∃ w, u = w ++ v ∧ ∀ x y, w = x ++ switchWord :: y →
      [leftParen, identifier, rightParen, leftBrace, caseWord] <+: y ++ v := by
  induction h with
  | nil => exact ⟨[], rfl, by simp⟩
  | @terminal k α u v rs h ih =>
    simp only [headsSwitches, Bool.and_eq_true, Bool.or_eq_true] at hα
    obtain ⟨w, rfl, hw⟩ := ih hα.1
    refine ⟨k :: w, rfl, fun x y hxy ↦ ?_⟩
    cases x with
    | cons j x =>
      exact hw x y (List.cons.inj hxy).2
    | nil =>
      obtain ⟨rfl, rfl⟩ := List.cons.inj hxy
      obtain ⟨γ, rfl⟩ := of_decide_eq_true (hα.2.resolve_left (by decide))
      exact h.caseWord_of_switchBody
  | @nonterminal A body α u v x rs ss hprod _ _ ihbody ih =>
    have hbody : headsSwitches body := by
      obtain ⟨r, hr, -, rfl⟩ := exists_rule_of_production hprod
      exact List.all_eq_true.1 (headsSwitches_rules A) r hr
    obtain ⟨w₁, rfl, h₁⟩ := ihbody hbody
    obtain ⟨w₂, rfl, h₂⟩ := ih hα
    refine ⟨w₁ ++ w₂, (List.append_assoc w₁ w₂ x).symm, fun y z hyz ↦ ?_⟩
    obtain ⟨y', rfl, hz⟩ | ⟨z', rfl, hz⟩ := List.append_eq_append_iff.1 hyz
    · exact h₂ y' z hz
    · cases z' with
      | nil => exact h₂ [] z hz.symm
      | cons k z' =>
        obtain ⟨rfl, rfl⟩ := List.cons.inj hz
        simpa using h₁ y z' rfl

/-- A word of the grammar is read to its end if and only if every switch in it has a case. -/
theorem reads_iff_of_mem_language (hw : w ∈ contextFree.language) :
    Reads [program] w [] ↔ ¬ BareSwitch w := by
  constructor
  · rintro ⟨rs, h⟩ ⟨k, hk, x, y, hxy⟩
    obtain ⟨_, rfl, hcase⟩ := h.caseWord_of_switchWord rfl
    rw [List.append_nil] at hxy
    subst hxy
    have hprefix := hcase x ([leftParen, identifier, rightParen, leftBrace, k] ++ y) (by simp)
    obtain rfl : caseWord = k := by simpa using hprefix
    simp at hk
  · intro hbare
    obtain ⟨-, hpredicted⟩ := (mem_language_iff.1 hw).interpret_one respected_predicted
    have hend : eof ∈ follow program := by decide
    simpa using hpredicted hbare [] hend

end FrontEnd.Grammar
