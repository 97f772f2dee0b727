import FrontEnd.Proofs.Check.Operands
import FrontEnd.Proofs.Check.Upholds
import FrontEnd.Proofs.Lexical.View
import FrontEnd.Proofs.Scope.Around

/-!
# The walk beside a reader

A walk is `Abreast` of a reader when the scopes around it declare what the reader has in the open blocks,
row by row and name by name.  Then whatever name is looked up is found where the reader has it declared
(`Abreast.found`), and one that is not found is not declared.

So a check `Resolves` names if all of its lookups are those of a reader, and it reports a name as undefined
only where the reader knows of none.  Whether a walk has answered for the names it passed is `AnsweredTo`.
-/

namespace FrontEnd

open Check

/-- The declaration of a symbol is the name at an index. -/
@[mk_iff]
structure Symbol.NamedAt (c : Context) (symbol : Symbol) (k : Nat) : Prop where
  name : symbol.name = (c.tokenAt k).lexeme
  position : symbol.position = (c.tokenAt k).position

/-- A scope has the symbols of some names, in their order. -/
def Scope.Lists (c : Context) (scope : Scope) (block : List Nat) : Prop :=
  List.Forall₂ (Symbol.NamedAt c) scope.symbols block

/-- The scopes around a walk are some blocks of names. -/
@[mk_iff]
structure InBlocks (c : Context) (s : State) (blocks : List (List Nat)) : Prop where
  live : c.scope < s.arena.size
  rows : List.Forall₂ (Scope.Lists c) (s.arena.around c.scope) blocks

/-- The scopes around a walk are the blocks that a reader has open. -/
abbrev Abreast (c : Context) (s : State) : Prop :=
  InBlocks c s (c.view s.position).blocks

/-- A walk is abreast of a reader who is in the middle of something. -/
@[mk_iff]
structure At (mode : Mode) (c : Context) (s : State) : Prop where
  mode : (c.view s.position).mode = mode
  abreast : Abreast c s

/-- A walk is abreast of a reader who has a view and declares nothing before a semicolon. -/
structure Sees (v : View) (commas : Bool) (c : Context) (s : State) : Prop where
  view : c.view s.position = v
  settled : v.mode.Settled commas
  abreast : Abreast c s

/-- A name stands at an index that a walk is in front of or right behind. -/
@[mk_iff]
structure LooksAt (c : Context) (s : State) (i : Nat) : Prop where
  kind : c.kindAt i = .identifier
  place : s.position = i ∨ s.position = i + 1

/-- The lookups that find what a reader of a text has declared: of a name where it stands, and of the struct
of an instance behind a member. -/
@[mk_iff]
inductive Context.Lexical (c d : Context) (s : State) : String → Prop
  | name {i : Nat} (hat : LooksAt c s i) (found : Option.Rel (Symbol.NamedAt c)
      (s.arena.lookup d.scope (c.tokenAt i).lexeme) (c.declared? i (c.tokenAt i).lexeme)) :
      Lexical c d s (c.tokenAt i).lexeme
  | struct {i : Nat} {name : String} (dot : c.kindAt i = .dot) (place : s.position = i + 2)
      (found : Option.Rel (Symbol.NamedAt c) (s.arena.lookup d.scope name) (c.declared? s.position name)) :
      Lexical c d s name

/-- Who reports a name as undefined points to a name of that spelling of which no declaration is known;
a function that is not known is not built in, either. -/
def Context.Blames (c : Context) (e : SemanticError) : Prop :=
  ∀ name, e.violation.undefined? = some name →
    ∃ i, c.kindAt i = .identifier ∧ (c.tokenAt i).lexeme = name ∧ (c.tokenAt i).position = e.position ∧
      c.declared? i name = none ∧
        (e.violation = .undefinedFunction name → Builtin.ofName? name = none)

/-- A check finds what a reader has declared, and reports nothing else as undefined. -/
abbrev Resolves {α : Type} (x : Check α) (c : Context) (s : State) (Q : α → State → Prop) : Prop :=
  Upholds c.Lexical x c s c.Blames Q

/-- The names used from one index up to another are declared there or built in. -/
def AnsweredTo (c : Context) (i j : Nat) : Prop :=
  ∀ k, i ≤ k → k < j → c.IsUse k → c.Answered k

/-- A walk from one state to the other answered for the names it passed, and came to a state of a sort. -/
structure Arrives (P : Context → State → Prop) (c : Context) (s after : State) : Prop where
  answered : AnsweredTo c s.position after.position
  there : P c after

/-- Contexts of the same text. -/
structure Context.SameText (d c : Context) : Prop where
  tokens : d.tokens = c.tokens
  last : d.last = c.last

section

variable {c : Context} {s after later : State} {v : View} {mode : Mode} {commas : Bool}
  {symbol : Symbol} {name : String} {i j k : Nat} {scope : Scope}
  {block : List Nat} {scopes : List Scope} {blocks : List (List Nat)}

/-! ### Lookups -/

theorem Scope.Lists.find? (h : scope.Lists c block) (name : String) :
    Option.Rel (Symbol.NamedAt c) (scope.find? name)
      (block.find? fun k ↦ (c.tokenAt k).lexeme == name) :=
  rel_find? h fun _ _ hnamed ↦ by rw [hnamed.name]

/-- A name stands for what a reader has declared under it. -/
theorem Abreast.found (h : Abreast c s) (name : String) :
    Option.Rel (Symbol.NamedAt c) (s.arena.lookup c.scope name) (c.declared? s.position name) := by
  unfold Context.declared?
  rw [Arena.lookup_around]
  exact rel_findSome? h.rows fun _ _ hlists ↦ hlists.find? name

theorem Context.declared?_succ (hi : c.kindAt i = .identifier) (name : String) :
    c.declared? (i + 1) name = c.declared? i name := by
  unfold Context.declared?
  rw [Context.view_succ, hi, View.blocks_next_identifier]

theorem LooksAt.declared?_eq (h : LooksAt c s i) (name : String) :
    c.declared? s.position name = c.declared? i name := by
  rcases h.place with hplace | hplace
  · rw [hplace]
  · rw [hplace, Context.declared?_succ h.kind]

theorem Abreast.lexical (h : Abreast c s) (hat : LooksAt c s i) :
    c.Lexical c s (c.tokenAt i).lexeme :=
  .name hat (hat.declared?_eq _ ▸ h.found _)

/-- A name that was found is declared. -/
theorem Abreast.answered (h : Abreast c s) (hat : LooksAt c s i)
    (hfound : s.arena.lookup c.scope (c.tokenAt i).lexeme = some symbol) : c.Answered i := by
  have hrel := h.found (c.tokenAt i).lexeme
  rw [hfound, hat.declared?_eq] at hrel
  refine .inl ?_
  generalize c.declared? i (c.tokenAt i).lexeme = found at hrel
  cases hrel with
  | some _ => rfl

theorem Abreast.declared?_eq_none (h : Abreast c s) (hat : LooksAt c s i)
    (hmissed : s.arena.lookup c.scope (c.tokenAt i).lexeme = none) :
    c.declared? i (c.tokenAt i).lexeme = none := by
  have hrel := h.found (c.tokenAt i).lexeme
  rw [hmissed, hat.declared?_eq] at hrel
  generalize c.declared? i (c.tokenAt i).lexeme = found at hrel
  cases hrel with
  | none => rfl

/-! ### Reports -/

theorem Context.blames_of_undefined? {e : SemanticError} (h : e.violation.undefined? = none) :
    c.Blames e :=
  fun name hname ↦ by cases h.symm.trans hname

@[simp]
theorem Context.blames_mk {v : Violation} {p : Position} : c.Blames ⟨v, p⟩ ↔
    ∀ name, v.undefined? = some name →
      ∃ i, c.kindAt i = .identifier ∧ (c.tokenAt i).lexeme = name ∧ (c.tokenAt i).position = p ∧
        c.declared? i name = none ∧ (v = .undefinedFunction name → Builtin.ofName? name = none) :=
  Iff.rfl

@[simp]
theorem Context.blames_expected (i : Nat) (wanted : Wanted) : c.Blames (c.expected i wanted) := by
  refine Context.blames_of_undefined? ?_
  show (if (c.tokenAt i).kind = .eof then Violation.unexpectedEnd
    else .expectedToken wanted (c.tokenAt i).lexeme).undefined? = none
  split <;> rfl

/-- A name that was not found may be reported as a variable. -/
theorem Abreast.blames_variable (h : Abreast c s) (hat : LooksAt c s i)
    (hmissed : s.arena.lookup c.scope (c.tokenAt i).lexeme = none) :
    c.Blames ⟨.undefinedVariable (c.tokenAt i).lexeme, (c.tokenAt i).position⟩ := by
  rintro _ ⟨⟩
  exact ⟨i, hat.kind, rfl, rfl, h.declared?_eq_none hat hmissed, fun h ↦ by cases h⟩

theorem Abreast.blames_function (h : Abreast c s) (hat : LooksAt c s i)
    (hmissed : s.arena.lookup c.scope (c.tokenAt i).lexeme = none)
    (hbuiltin : Builtin.ofName? (c.tokenAt i).lexeme = none) :
    c.Blames ⟨.undefinedFunction (c.tokenAt i).lexeme, (c.tokenAt i).position⟩ := by
  rintro _ ⟨⟩
  exact ⟨i, hat.kind, rfl, rfl, h.declared?_eq_none hat hmissed, fun _ ↦ hbuiltin⟩

/-- A calm check resolves names whatever it leads to, for it looks up none. -/
theorem Calm.resolves {α : Type} {x : Check α} {E : SemanticError → Prop} {Q : α → State → Prop}
    (hx : Calm x) (h : Ensures x c s E Q) : Resolves x c s Q :=
  hx.upholds h fun _ he ↦ Context.blames_of_undefined? he

/-! ### What was passed -/

namespace AnsweredTo

theorem refl (c : Context) (i : Nat) : AnsweredTo c i i :=
  fun _ hi hj ↦ absurd hj (Nat.not_lt.2 hi)

theorem trans (h : AnsweredTo c i j) (h' : AnsweredTo c j k) : AnsweredTo c i k := by
  intro m hi hk
  by_cases hm : m < j
  · exact h m hi hm
  · exact h' m (Nat.le_of_not_lt hm) hk

theorem next (h : c.IsUse i → c.Answered i) : AnsweredTo c i (i + 1) := by
  intro k hi hk
  obtain rfl : k = i := Nat.le_antisymm (Nat.le_of_lt_succ hk) hi
  exact h

/-- One token is passed, or none at the end of the input. -/
theorem one (h : c.IsUse i → c.Answered i) : AnsweredTo c i (c.after i) := by
  unfold Context.after
  split
  · exact next h
  · exact refl c i

theorem token {k : Kind} (hi : c.kindAt i = k) (hk : k ≠ .identifier) : AnsweredTo c i (c.after i) :=
  one fun huse ↦ absurd (hi.symm.trans huse.kind) hk

/-- A member is no name that is used. -/
theorem member (hdot : c.kindAt i = .dot) : AnsweredTo c i (c.after (c.after i)) := by
  refine (token hdot (by decide)).trans (one fun huse ↦ ?_)
  rw [Context.after_of_kindAt hdot (by decide)] at huse
  exact absurd hdot (huse.alone i rfl)

end AnsweredTo

namespace Arrives

variable {P P' : Context → State → Prop}

theorem refl (h : P c s) : Arrives P c s s :=
  ⟨.refl c _, h⟩

theorem trans (h : Arrives P c s after) (h' : Arrives P' c after later) : Arrives P' c s later :=
  ⟨h.answered.trans h'.answered, h'.there⟩

/-- A token that is no name. -/
theorem token {k : Kind} (hk : c.kindAt s.position = k) (hname : k ≠ .identifier)
    (h : P c (s.movedTo (c.after s.position))) : Arrives P c s (s.movedTo (c.after s.position)) :=
  ⟨.token hk hname, h⟩

end Arrives

/-! ### Keeping abreast -/

/-- A walk that declares nothing stays abreast of a reader who sees the same blocks. -/
theorem Abreast.of_eq (h : Abreast c s) (harena : after.arena = s.arena)
    (hblocks : (c.view after.position).blocks = (c.view s.position).blocks) : Abreast c after :=
  ⟨harena ▸ h.live, by rw [harena, hblocks]; exact h.rows⟩

theorem At.sees (h : At mode c s) (hmode : mode.Settled commas) :
    Sees (c.view s.position) commas c s :=
  ⟨rfl, h.mode ▸ hmode, h.abreast⟩

namespace Sees

theorem withoutCommas (h : Sees v true c s) : Sees v commas c s :=
  ⟨h.view, h.settled.withoutCommas, h.abreast⟩

theorem toAt (h : Sees v commas c s) (hmode : v.mode = mode) : At mode c s :=
  ⟨h.view ▸ hmode, h.abreast⟩

theorem of_view_eq (h : Sees v commas c s) (harena : after.arena = s.arena)
    (hview : c.view after.position = c.view s.position) : Sees v commas c after :=
  ⟨hview.trans h.view, h.settled, h.abreast.of_eq harena (congrArg View.blocks hview)⟩

theorem took (h : Sees v commas c s) (htook : Took commas c s after) : Sees v commas c after :=
  h.of_view_eq htook.tables.arena (htook.phrase.view_eq (h.view ▸ h.settled))

/-- Behind a bracket that opens. -/
theorem opened (h : Sees v commas c s) {closing : Kind}
    (hopen : (c.kindAt s.position).closer? = some closing) (hbrace : c.kindAt s.position ≠ .leftBrace) :
    Sees (v.next (c.kindAt s.position) s.position) true c (s.movedTo (c.after s.position)) := by
  have hafter := Context.after_of_ne_eof (Kind.closer?_ne_eof hopen).1
  obtain ⟨hsettled, hblocks, -⟩ := View.next_brackets h.settled hopen hbrace s.position 0
  have hview : c.view (s.movedTo (c.after s.position)).position =
      v.next (c.kindAt s.position) s.position := by
    rw [State.position_movedTo, hafter, Context.view_succ, h.view]
  exact ⟨hview, hsettled, h.abreast.of_eq rfl (by rw [hview, hblocks, h.view])⟩

end Sees

/-! ### Changes of symbols -/

theorem Scope.Lists.modify {f : Symbol → Symbol} (h : scope.Lists c block)
    (hf : ∀ symbol, (f symbol).name = symbol.name ∧ (f symbol).position = symbol.position)
    (name : String) : (scope.modify name f).Lists c block := by
  refine List.forall₂_map_left_iff.2 (h.imp fun symbol k hnamed ↦ ?_)
  split
  · exact ⟨(hf symbol).1.trans hnamed.name, (hf symbol).2.trans hnamed.position⟩
  · exact hnamed

theorem lists_changeFirst {f : Symbol → Symbol} (h : List.Forall₂ (Scope.Lists c) scopes blocks)
    (hf : ∀ symbol, (f symbol).name = symbol.name ∧ (f symbol).position = symbol.position)
    (name : String) : List.Forall₂ (Scope.Lists c) (changeFirst name f scopes) blocks := by
  induction h with
  | nil => exact .nil
  | cons hfirst hrest ih =>
    rw [changeFirst]
    split
    · exact .cons (hfirst.modify hf name) hrest
    · exact .cons hfirst ih

/-- What changes a symbol and keeps what it is known by makes no difference. -/
theorem Abreast.modify {f : Symbol → Symbol} (h : Abreast c s)
    (hf : ∀ symbol, (f symbol).name = symbol.name ∧ (f symbol).position = symbol.position)
    (name : String) : Abreast c { s with arena := s.arena.modify c.scope name f } := by
  refine ⟨?_, ?_⟩
  · rw [Arena.size_modify]
    exact h.live
  · rw [Arena.around_modify]
    exact lists_changeFirst h.rows hf name

/-! ### Contexts of the same text -/

namespace Context.SameText

variable {d : Context} (h : d.SameText c)

include h

theorem kindAt_eq : d.kindAt = c.kindAt := by
  unfold kindAt
  rw [h.tokens]

theorem tokenAt_eq : d.tokenAt = c.tokenAt := by
  unfold tokenAt
  rw [h.tokens, h.last]

theorem view_eq : d.view = c.view := by
  unfold Context.view
  rw [h.kindAt_eq, h.tokens]

theorem declared?_eq : d.declared? = c.declared? := by
  unfold declared?
  rw [h.view_eq, h.tokenAt_eq]

theorem namedAt_eq : Symbol.NamedAt d = Symbol.NamedAt c := by
  funext symbol k
  rw [Symbol.namedAt_iff, Symbol.namedAt_iff, h.tokenAt_eq]

theorem lists_eq : Scope.Lists d = Scope.Lists c := by
  unfold Scope.Lists
  rw [h.namedAt_eq]

theorem answered_eq : d.Answered = c.Answered := by
  unfold Answered
  rw [h.declared?_eq, h.tokenAt_eq, h.kindAt_eq]

theorem answeredTo_eq : AnsweredTo d = AnsweredTo c := by
  funext i j
  unfold AnsweredTo
  simp only [isUse_iff, h.kindAt_eq, h.view_eq, h.answered_eq]

/-- What resolves the names of a text in one context does so seen from another. -/
theorem resolves {α : Type} {x : Check α} {Q : α → State → Prop} (hx : Resolves x d s Q) :
    Upholds c.Lexical x d s c.Blames Q := by
  have hlexical : d.Lexical = c.Lexical := by
    funext e t name
    simp only [lexical_iff, looksAt_iff, h.kindAt_eq, h.tokenAt_eq, h.namedAt_eq, h.declared?_eq]
  have hblames : d.Blames = c.Blames := by
    unfold Blames
    rw [h.kindAt_eq, h.tokenAt_eq, h.declared?_eq]
  rw [← hlexical, ← hblames]
  exact hx

/-- In the same scope a text has the same blocks around. -/
theorem inBlocks_eq (hscope : d.scope = c.scope) : InBlocks d = InBlocks c := by
  funext s blocks
  rw [inBlocks_iff, inBlocks_iff, h.lists_eq, hscope]

theorem at_eq (hscope : d.scope = c.scope) : At mode d = At mode c := by
  funext s
  rw [at_iff, at_iff, Abreast, Abreast, h.inBlocks_eq hscope, h.view_eq]

end Context.SameText

end

end FrontEnd
