import FrontEnd.Proofs.Check.Phrase
import Mathlib.Tactic.MkIffOfInductiveProp
import Mathlib.Tactic.SplitIfs

/-!
# What a reader of a text sees

The reference for lexical scoping.  A reader goes through a text from left to right and keeps in mind
the blocks that are open and the names that were declared in each of them so far: the `View` at an index.
It depends on the kinds of the tokens alone, and names are kept as the indices where they stand.

A block is opened by a brace and closed by its brace; the blocks of the cases of a switch take each
other's place.  A name is declared in the innermost block where its declarator ends, initializer
included.  The body of a function has the parameters from the start.  The names of functions and structs
are declared in the outermost block before anything is read, wherever they stand (`globalNames`).

What a name stands for at an index is then the first declaration of that spelling in the innermost block
that has one: `Context.declared?`.  Unless it is known in advance it was read in front of the index, with
all of its declarator (`Context.declared?_eq_some`).
-/

namespace FrontEnd

/-- What a reader is in the middle of. -/
inductive Mode where
  /-- A statement starts. -/
  | start
  /-- A statement that declares nothing, or the head of one in front of its block. -/
  | inside
  /-- The label of a case. -/
  | label
  /-- The head of a counted loop, in which no semicolon ends a statement. -/
  | loop
  /-- The head of a function in front of its parameters. -/
  | function
  /-- The parameters of a function, with the names of those that were read. -/
  | parameters (names : List Nat)
  /-- The name of a struct that is defined. -/
  | structName
  /-- The name of the struct that is instantiated. -/
  | instanceOf
  /-- A name that is declared. -/
  | name
  /-- What stands behind a name that is declared, with the number of open brackets. -/
  | declarator (name depth : Nat)

/-- What a reader keeps in mind. -/
structure View where
  mode : Mode
  /-- The names declared in the open blocks, oldest first, the innermost block in front. -/
  blocks : List (List Nat)

/-- What the first token of a statement makes of it. -/
def Mode.first : Kind → Mode
  | .intWord | .doubleWord | .stringWord | .boolWord | .charWord => .name
  | .constWord | .semicolon => .start
  | .instanceWord => .instanceOf
  | .functionWord | .mainWord => .function
  | .structWord => .structName
  | .caseWord | .defaultWord => .label
  | .forWord => .loop
  | _ => .inside

/-- Whether a name that stands here is used, and not declared. -/
def Mode.uses : Mode → Bool
  | .function | .parameters _ | .structName | .name => false
  | _ => true

/-- One more name in the innermost block. -/
def declareIn (name : Nat) : List (List Nat) → List (List Nat)
  | [] => []
  | block :: blocks => (block ++ [name]) :: blocks

namespace View

/-- The same blocks in another mode. -/
def turn (v : View) (mode : Mode) : View := { v with mode := mode }

/-- A new block with some names. -/
def enter (v : View) (names : List Nat) : View := ⟨.start, names :: v.blocks⟩

/-- The innermost block is left. -/
def leave (v : View) : View := ⟨.start, v.blocks.tail⟩

/-- What is seen behind a token of a kind at an index. -/
def next (v : View) (k : Kind) (i : Nat) : View :=
  match v.mode with
  | .start =>
    if k = .leftBrace then v.enter [] else if k = .rightBrace then v.leave else v.turn (.first k)
  | .inside =>
    if k = .leftBrace then v.enter []
    else if k = .rightBrace then v.leave
    else if k = .semicolon then v.turn .start
    else v
  | .label => if k = .colon then v.leave.enter [] else v
  | .loop => if k = .leftBrace then v.enter [] else v
  | .function => if k = .leftParen then v.turn (.parameters []) else v
  | .parameters names =>
    if k = .identifier then v.turn (.parameters (names ++ [i]))
    else if k = .leftBrace then v.enter names
    else v
  | .structName => v.turn .inside
  | .instanceOf => v.turn .name
  | .name => v.turn (if k = .identifier then .declarator i 0 else .inside)
  | .declarator name depth =>
    if k.isOpener then v.turn (.declarator name (depth + 1))
    else if k.isCloser then v.turn (.declarator name (depth - 1))
    else if depth = 0 ∧ k = .comma then ⟨.name, declareIn name v.blocks⟩
    else if depth = 0 ∧ k = .semicolon then ⟨.start, declareIn name v.blocks⟩
    else v

end View

/-! ### Global names -/

/-- How many braces are open in front of an index. -/
def braceDepth (kind : Nat → Kind) : Nat → Nat
  | 0 => 0
  | i + 1 =>
    if kind i = .leftBrace then braceDepth kind i + 1
    else if kind i = .rightBrace then braceDepth kind i - 1
    else braceDepth kind i

/-- Where the name of a function or struct stands whose word is at an index, outside of all braces.  The
entry point has its word for a name. -/
def globalName? (kind : Nat → Kind) (i : Nat) : Option Nat :=
  if braceDepth kind i ≠ 0 then none
  else match kind i with
    | .functionWord => some (i + 2)
    | .mainWord => some i
    | .structWord => some (i + 1)
    | _ => none

/-- The names of the functions and structs whose words stand in front of an index. -/
def globalNames (kind : Nat → Kind) (i : Nat) : List Nat :=
  (List.range i).filterMap (globalName? kind)

/-! ### What is declared -/

/-- What is seen in front of an index in a text of a number of tokens. -/
def viewAt (kind : Nat → Kind) (size : Nat) : Nat → View
  | 0 => ⟨.start, [globalNames kind size]⟩
  | i + 1 => (viewAt kind size i).next (kind i) i

namespace Context

variable (c : Context)

/-- What is seen in front of an index. -/
def view (i : Nat) : View :=
  viewAt c.kindAt c.tokens.size i

/-- Where the declaration stands that a name stands for at an index. -/
def declared? (i : Nat) (name : String) : Option Nat :=
  (c.view i).blocks.findSome? fun block ↦ block.find? fun k ↦ (c.tokenAt k).lexeme == name

/-- A name stands at an index that is no declaration, no member and no part of a header. -/
@[mk_iff]
structure IsUse (i : Nat) : Prop where
  kind : c.kindAt i = .identifier
  mode : (c.view i).mode.uses
  alone : ∀ j, j + 1 = i → c.kindAt j ≠ .dot

/-- The name at an index is declared there, or it is the name of a built-in function that is called. -/
def Answered (i : Nat) : Prop :=
  (c.declared? i (c.tokenAt i).lexeme).isSome ∨
    c.kindAt (i + 1) = .leftParen ∧ (Builtin.ofName? (c.tokenAt i).lexeme).isSome

end Context

/-! ### Where nothing is declared -/

/-- A reader in the mode declares nothing before a semicolon or a brace; `commas` says whether a comma
makes no difference either. -/
def Mode.Settled (commas : Bool) : Mode → Prop
  | .inside | .loop => True
  | .declarator _ depth => commas → 0 < depth
  | _ => False

section

variable {v : View} {k closing : Kind} {commas : Bool} {c : Context} {i j m : Nat}

theorem Mode.settled_declarator (name depth : Nat) : (Mode.declarator name depth).Settled false :=
  fun h ↦ absurd h Bool.false_ne_true

theorem Mode.Settled.withoutCommas {mode : Mode} (h : mode.Settled true) : mode.Settled commas := by
  cases mode with
  | declarator name depth => exact fun _ ↦ h rfl
  | inside | loop => trivial
  | _ => exact h.elim

/-- The word of a type is no name, and it opens nothing. -/
theorem DataType.word_ne {type : DataType} (h : DataType.ofWord? k = some type) :
    k ≠ .identifier ∧ k ≠ .eof ∧ k ≠ .leftParen ∧ k ≠ .leftBrace := by
  cases k <;> first | decide | cases h

theorem Context.view_succ (i : Nat) : c.view (i + 1) = (c.view i).next (c.kindAt i) i :=
  rfl

namespace View

/-- A name that is read makes no difference to what is declared. -/
theorem blocks_next_identifier (v : View) (i : Nat) : (v.next .identifier i).blocks = v.blocks := by
  obtain ⟨mode, blocks⟩ := v
  cases mode <;> simp [next, turn, Kind.isOpener, Kind.closer?, Kind.isCloser]

/-- Behind the word of a primitive type a name is declared. -/
theorem next_typeWord {type : DataType}
    (h : (DataType.ofWord? k).filter DataType.isPrimitive = some type) (blocks : List (List Nat))
    (i : Nat) : next ⟨.start, blocks⟩ k i = ⟨.name, blocks⟩ := by
  obtain ⟨hword, hprimitive⟩ := Option.filter_eq_some_iff.1 h
  cases k <;> cases hword <;> first | rfl | cases hprimitive

theorem next_of_isPlain (h : v.mode.Settled commas) (hk : k.isPlain) (i : Nat) : v.next k i = v := by
  obtain ⟨hopener, hcloser, -, hsemicolon, hcomma, -⟩ := Kind.isPlain_iff.1 hk
  have hopen : k ≠ .leftBrace := fun heq ↦ by simp [heq, Kind.closer?] at hopener
  have hclose : k ≠ .rightBrace := fun heq ↦ by simp [heq, Kind.isCloser] at hcloser
  obtain ⟨mode, blocks⟩ := v
  cases mode with
  | inside => simp [next, hopen, hclose, hsemicolon]
  | loop => simp [next, hopen]
  | declarator name depth => simp [next, Kind.isOpener, hopener, hcloser, hsemicolon, hcomma]
  | _ => exact h.elim

theorem next_comma (h : v.mode.Settled true) (i : Nat) : v.next .comma i = v := by
  obtain ⟨mode, blocks⟩ := v
  cases mode with
  | inside | loop => simp [next]
  | declarator name depth =>
    have hdepth : depth ≠ 0 := Nat.ne_of_gt (h rfl)
    simp [next, Kind.isOpener, Kind.closer?, Kind.isCloser, hdepth]
  | _ => exact h.elim

/-- Brackets are counted in a declarator. -/
theorem next_opener {name depth : Nat} (h : v.mode = .declarator name depth)
    (hk : k.closer? = some closing) (i : Nat) :
    v.next k i = v.turn (.declarator name (depth + 1)) := by
  simp [next, h, Kind.isOpener, hk]

theorem next_closer {name depth : Nat} (h : v.mode = .declarator name (depth + 1))
    (hk : k.closer? = some closing) (i : Nat) :
    v.next closing i = v.turn (.declarator name depth) := by
  rcases Kind.closer?_eq_some hk with ⟨-, rfl⟩ | ⟨-, rfl⟩ | ⟨-, rfl⟩ <;>
    simp [next, h, Kind.isOpener, Kind.closer?, Kind.isCloser]

/-- Inside of brackets nothing is declared at commas, and behind them all is as it was. -/
theorem next_brackets (h : v.mode.Settled commas) (hk : k.closer? = some closing)
    (hbrace : k ≠ .leftBrace) (i m : Nat) :
    (v.next k i).mode.Settled true ∧ (v.next k i).blocks = v.blocks ∧
      (v.next k i).next closing m = v := by
  obtain ⟨mode, blocks⟩ := v
  cases mode with
  | inside | loop =>
    rcases Kind.closer?_eq_some hk with ⟨rfl, rfl⟩ | ⟨rfl, rfl⟩ | ⟨rfl, -⟩
    · simp [next, Mode.Settled]
    · simp [next, Mode.Settled]
    · exact absurd rfl hbrace
  | declarator name depth =>
    rw [next_opener rfl hk]
    exact ⟨fun _ ↦ Nat.succ_pos depth, rfl, next_closer rfl hk m⟩
  | _ => exact h.elim

end View

/-- What is seen behind a phrase is what was seen in front of it. -/
theorem Phrase.view_eq (h : Phrase c.kindAt commas i j) (hs : (c.view i).mode.Settled commas) :
    c.view j = c.view i := by
  induction h with
  | nil => rfl
  | @plain b i j hi _ ih =>
    have hnext : c.view (i + 1) = c.view i := View.next_of_isPlain hs hi i
    exact (ih (hnext ▸ hs)).trans hnext
  | @comma i j hi _ ih =>
    have hnext : c.view (i + 1) = c.view i := by
      rw [Context.view_succ, hi]
      exact View.next_comma hs i
    exact (ih (hnext ▸ hs)).trans hnext
  | @group b i m j closing hi hbrace _ hm _ ihinner ih =>
    obtain ⟨hinside, -, hbehind⟩ := View.next_brackets hs hi hbrace i m
    have hnext : c.view (m + 1) = c.view i := by
      rw [Context.view_succ, ihinner hinside, hm]
      exact hbehind
    exact (ih (hnext ▸ hs)).trans hnext

end

/-! ### What a name may stand for -/

/-- The names that were read and are not declared yet. -/
def Mode.pending : Mode → List Nat
  | .parameters names => names
  | .declarator declared _ => [declared]
  | _ => []

/-- A name is known in advance, or in front of an index the declarator or the parameters it is in ended. -/
def Visible (kind : Nat → Kind) (known : List Nat) (i k : Nat) : Prop :=
  k ∈ known ∨ ∃ m, k < m ∧ m < i ∧ kind m ∈ [.comma, .semicolon, .leftBrace]

/-- What a reader has in mind in front of an index was read there, apart from what is known in advance. -/
structure View.Past (kind : Nat → Kind) (known : List Nat) (i : Nat) (v : View) : Prop where
  pending : ∀ k ∈ v.mode.pending, k < i
  declared : ∀ block ∈ v.blocks, ∀ k ∈ block, Visible kind known i k

section

variable {kind : Nat → Kind} {known names : List Nat} {i k name size : Nat} {v : View}
  {blocks : List (List Nat)} {mode : Mode}

theorem Visible.succ (h : Visible kind known i k) : Visible kind known (i + 1) k :=
  h.imp_right fun ⟨m, hk, hm, hend⟩ ↦ ⟨m, hk, Nat.lt_succ_of_lt hm, hend⟩

namespace View.Past

variable (h : v.Past kind known i)

include h

theorem declared_succ : ∀ block ∈ v.blocks, ∀ k ∈ block, Visible kind known (i + 1) k :=
  fun block hblock k hk ↦ (h.declared block hblock k hk).succ

theorem turn (hmode : ∀ k ∈ mode.pending, k < i + 1) : (v.turn mode).Past kind known (i + 1) :=
  ⟨hmode, h.declared_succ⟩

theorem stay : v.Past kind known (i + 1) :=
  h.turn fun k hk ↦ Nat.lt_succ_of_lt (h.pending k hk)

theorem enter (hnames : ∀ k ∈ names, k < i) (hopen : kind i = .leftBrace) :
    (v.enter names).Past kind known (i + 1) := by
  refine ⟨fun _ hk ↦ absurd hk List.not_mem_nil, List.forall_mem_cons.2 ⟨fun k hk ↦ ?_, h.declared_succ⟩⟩
  exact .inr ⟨i, hnames k hk, Nat.lt_succ_self i, by simp [hopen]⟩

theorem enter_nil : (v.enter []).Past kind known i :=
  ⟨fun _ hk ↦ absurd hk List.not_mem_nil,
    List.forall_mem_cons.2 ⟨fun _ hk ↦ absurd hk List.not_mem_nil, h.declared⟩⟩

theorem leave : (v.leave).Past kind known (i + 1) :=
  ⟨fun _ hk ↦ absurd hk List.not_mem_nil,
    fun block hblock ↦ h.declared_succ block (List.mem_of_mem_tail hblock)⟩

theorem declare (hpending : name ∈ v.mode.pending) (hmode : mode.pending = [])
    (hend : kind i = .comma ∨ kind i = .semicolon) :
    View.Past kind known (i + 1) ⟨mode, declareIn name v.blocks⟩ := by
  have hlater := h.declared_succ
  refine ⟨fun _ hk ↦ absurd (hmode ▸ hk) List.not_mem_nil, ?_⟩
  show ∀ block ∈ declareIn name v.blocks, ∀ k ∈ block, Visible kind known (i + 1) k
  generalize v.blocks = blocks at hlater
  cases blocks with
  | nil => exact hlater
  | cons first rest =>
    obtain ⟨hfirst, hrest⟩ := List.forall_mem_cons.1 hlater
    refine List.forall_mem_cons.2 ⟨fun k hk ↦ ?_, hrest⟩
    rcases List.mem_append.1 hk with hk | hk
    · exact hfirst k hk
    · obtain rfl := List.mem_singleton.1 hk
      exact .inr ⟨i, h.pending k hpending, Nat.lt_succ_self i, by simpa using hend.imp_right .inl⟩

theorem next : (v.next (kind i) i).Past kind known (i + 1) := by
  have hfirst : (Mode.first (kind i)).pending = [] := by
    cases kind i <;> rfl
  have hblank {mode : Mode} (hmode : mode.pending = []) : (v.turn mode).Past kind known (i + 1) :=
    h.turn fun _ hk ↦ absurd (hmode ▸ hk) List.not_mem_nil
  unfold View.next
  split
  next =>
    split_ifs
    · exact h.stay.enter_nil
    · exact h.leave
    · exact hblank hfirst
  next =>
    split_ifs
    · exact h.stay.enter_nil
    · exact h.leave
    · exact hblank rfl
    · exact h.stay
  next =>
    split_ifs
    · exact h.leave.enter_nil
    · exact h.stay
  next =>
    split_ifs
    · exact h.stay.enter_nil
    · exact h.stay
  next =>
    split_ifs
    · exact hblank rfl
    · exact h.stay
  next names hmode =>
    have hnames : ∀ k ∈ names, k < i := fun k hk ↦ h.pending k (hmode ▸ hk)
    split_ifs
    next =>
      refine h.turn fun k hk ↦ ?_
      rcases List.mem_append.1 hk with hk | hk
      · exact Nat.lt_succ_of_lt (hnames k hk)
      · exact Nat.lt_succ_of_le (Nat.le_of_eq (List.mem_singleton.1 hk))
    next hopen => exact h.enter hnames hopen
    next => exact h.stay
  next => exact hblank rfl
  next => exact hblank rfl
  next =>
    refine h.turn fun k hk ↦ ?_
    split_ifs at hk
    · exact Nat.lt_succ_of_le (Nat.le_of_eq (List.mem_singleton.1 hk))
    · cases hk
  next name depth hmode =>
    have hpending : name ∈ v.mode.pending := by simp [hmode, Mode.pending]
    have hstay {depth : Nat} : (v.turn (.declarator name depth)).Past kind known (i + 1) :=
      h.turn fun k hk ↦ Nat.lt_succ_of_lt (h.pending k (hmode ▸ hk))
    split_ifs
    next => exact hstay
    next => exact hstay
    next hmark => exact h.declare hpending rfl (.inl hmark.2)
    next hmark => exact h.declare hpending rfl (.inr hmark.2)
    next => exact h.stay

end View.Past

theorem past_globalNames (kind : Nat → Kind) (size : Nat) :
    ∀ i, (viewAt kind size i).Past kind (globalNames kind size) i
  | 0 => ⟨fun _ hk ↦ absurd hk List.not_mem_nil, List.forall_mem_singleton.2 fun _ ↦ .inl⟩
  | i + 1 => (past_globalNames kind size i).next

/-- What a name stands for is a declaration of that spelling: it is known in advance, or it ended in front
of the name. -/
theorem Context.declared?_eq_some {c : Context} {spelling : String} (h : c.declared? i spelling = some k) :
    (c.tokenAt k).lexeme = spelling ∧ Visible c.kindAt (globalNames c.kindAt c.tokens.size) i k := by
  obtain ⟨block, hblock, hfound⟩ := List.exists_of_findSome?_eq_some h
  have hname := List.find?_some hfound
  exact ⟨eq_of_beq hname, (past_globalNames _ _ i).declared block hblock k (List.mem_of_find?_eq_some hfound)⟩

end

end FrontEnd
