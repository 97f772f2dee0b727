import FrontEnd.Proofs.Check.Operands
import FrontEnd.Proofs.Typing.Expression

/-!
# Expressions among the tokens

`Expression.PrintedAt` says that a stretch of tokens is a guarded printing of an expression over
literals and visible scalars that were given a value.  For each form of an expression one equation
takes such a stretch apart, so a walk over the tokens can follow the tree and a tree can be put
together along a walk.

A printed expression is a phrase (`Expression.PrintedAt.phrase`), which is why searches for its
closing parenthesis pass over it.
-/

namespace FrontEnd

/-- The token at an index as it is printed. -/
def Context.pieceAt (c : Context) (index : Nat) : Piece :=
  (c.kindAt index, if (c.kindAt index).bearsText then some (c.tokenAt index).lexeme else none)

/-- The tokens from one index up to another are the given ones. -/
def Spells (c : Context) : Nat → List Piece → Nat → Prop
  | i, [], j => i = j
  | i, p :: ps, j => c.pieceAt i = p ∧ Spells c (i + 1) ps j

/-- The type of a visible scalar that was given a value. -/
def Context.scalar? (c : Context) (s : State) (name : String) : Option DataType :=
  ((s.arena.lookup c.scope name).filter fun symbol ↦ symbol.isScalar && symbol.initialized).map
    Symbol.type

/-- The tokens from where a state is up to an index are a printed expression over literals and
scalars. -/
structure Expression.PrintedAt (e : Expression) (c : Context) (s : State) (stop : Nat) : Prop where
  leaves : e.Over (c.scalar? s)
  guarded : e.Guarded
  spells : Spells c s.position e.print stop

section

variable {c : Context} {s : State} {i j : Nat}

theorem exists_symbol_of_scalar? {name : String} {type : DataType}
    (h : c.scalar? s name = some type) :
    ∃ symbol, s.arena.lookup c.scope name = some symbol ∧ symbol.isScalar ∧ symbol.initialized ∧
      symbol.type = type := by
  obtain ⟨symbol, hfilter, htype⟩ := Option.map_eq_some_iff.1 h
  obtain ⟨hlookup, hsymbol⟩ := Option.filter_eq_some_iff.1 hfilter
  obtain ⟨hscalar, hinitialized⟩ := Bool.and_eq_true_iff.1 hsymbol
  exact ⟨symbol, hlookup, hscalar, hinitialized, htype⟩

/-! ### Single tokens and stretches of them -/

theorem Context.pieceAt_eq_mark {k : Kind} (hk : k.bearsText = false) :
    c.pieceAt i = (k, none) ↔ c.kindAt i = k := by
  unfold Context.pieceAt
  constructor
  · exact fun h ↦ congrArg Prod.fst h
  · rintro rfl
    simp [hk]

theorem Context.pieceAt_eq_text {k : Kind} {lexeme : String} (hk : k.bearsText) :
    c.pieceAt i = (k, some lexeme) ↔ c.kindAt i = k ∧ (c.tokenAt i).lexeme = lexeme := by
  unfold Context.pieceAt
  constructor
  · intro h
    obtain rfl : c.kindAt i = k := congrArg Prod.fst h
    simpa [hk] using h
  · rintro ⟨rfl, rfl⟩
    simp [hk]

theorem spells_append {ps qs : List Piece} :
    Spells c i (ps ++ qs) j ↔ ∃ m, Spells c i ps m ∧ Spells c m qs j := by
  induction ps generalizing i with
  | nil => simp [Spells]
  | cons p ps ih => simp [Spells, ih, and_assoc]

theorem Spells.add_length {ps : List Piece} (h : Spells c i ps j) : i + ps.length = j := by
  induction ps generalizing i with
  | nil => exact h
  | cons p ps ih =>
    rw [List.length_cons, ← ih h.2]
    omega

namespace Expression

/-! ### The forms of an expression -/

variable {e left right : Expression} {op : Operator}

theorem printedAt_literal {kind : Kind} {lexeme : String} :
    (literal kind lexeme).PrintedAt c s j ↔ c.kindAt s.position = kind ∧
      (DataType.ofLiteral? kind).isSome ∧ (c.tokenAt s.position).lexeme = lexeme ∧
      s.position + 1 = j := by
  have hpiece : (DataType.ofLiteral? kind).isSome → (c.pieceAt s.position = (kind, some lexeme) ↔
      c.kindAt s.position = kind ∧ (c.tokenAt s.position).lexeme = lexeme) :=
    fun h ↦ Context.pieceAt_eq_text (by simp [Kind.bearsText, h])
  constructor
  · rintro ⟨hleaves, -, hfirst, hend⟩
    obtain ⟨hkind, hlexeme⟩ := (hpiece hleaves).1 hfirst
    exact ⟨hkind, hleaves, hlexeme, hend⟩
  · rintro ⟨hkind, hleaves, hlexeme, hend⟩
    exact ⟨hleaves, trivial, (hpiece hleaves).2 ⟨hkind, hlexeme⟩, hend⟩

theorem printedAt_name {lexeme : String} :
    (name lexeme).PrintedAt c s j ↔ c.kindAt s.position = .identifier ∧
      (c.scalar? s lexeme).isSome ∧ (c.tokenAt s.position).lexeme = lexeme ∧
      s.position + 1 = j := by
  have hpiece : c.pieceAt s.position = (.identifier, some lexeme) ↔
      c.kindAt s.position = .identifier ∧ (c.tokenAt s.position).lexeme = lexeme :=
    Context.pieceAt_eq_text rfl
  constructor
  · rintro ⟨hleaves, -, hfirst, hend⟩
    obtain ⟨hkind, hlexeme⟩ := hpiece.1 hfirst
    exact ⟨hkind, hleaves, hlexeme, hend⟩
  · rintro ⟨hkind, hleaves, hlexeme, hend⟩
    exact ⟨hleaves, trivial, hpiece.2 ⟨hkind, hlexeme⟩, hend⟩

theorem printedAt_negation :
    (negation e).PrintedAt c s j ↔ c.kindAt s.position = .negation ∧
      e.PrintedAt c (s.movedTo (s.position + 1)) j ∧ Operator.maxPrecedence < e.precedence := by
  constructor
  · rintro ⟨hleaves, ⟨hguarded, htight⟩, hfirst, hrest⟩
    exact ⟨(Context.pieceAt_eq_mark rfl).1 hfirst, ⟨hleaves, hguarded, hrest⟩, htight⟩
  · rintro ⟨hfirst, ⟨hleaves, hguarded, hrest⟩, htight⟩
    exact ⟨hleaves, ⟨hguarded, htight⟩, (Context.pieceAt_eq_mark rfl).2 hfirst, hrest⟩

theorem printedAt_binary :
    (binary op left right).PrintedAt c s j ↔ ∃ m, left.PrintedAt c s m ∧ c.kindAt m = op.kind ∧
      right.PrintedAt c (s.movedTo (m + 1)) j ∧ op.precedence ≤ left.precedence ∧
      op.precedence < right.precedence := by
  constructor
  · rintro ⟨⟨hl, hr⟩, ⟨hgl, hgr, hle, hlt⟩, hspells⟩
    obtain ⟨m, hleft, hmark, hright⟩ := spells_append.1 hspells
    exact ⟨m, ⟨hl, hgl, hleft⟩, (Context.pieceAt_eq_mark op.bearsText_kind).1 hmark,
      ⟨hr, hgr, hright⟩, hle, hlt⟩
  · rintro ⟨m, ⟨hl, hgl, hleft⟩, hmark, ⟨hr, hgr, hright⟩, hle, hlt⟩
    exact ⟨⟨hl, hr⟩, ⟨hgl, hgr, hle, hlt⟩, spells_append.2
      ⟨m, hleft, (Context.pieceAt_eq_mark op.bearsText_kind).2 hmark, hright⟩⟩

theorem printedAt_parens :
    (parens e).PrintedAt c s j ↔ c.kindAt s.position = .leftParen ∧
      ∃ m, e.PrintedAt c (s.movedTo (s.position + 1)) m ∧ c.kindAt m = .rightParen ∧
        m + 1 = j := by
  constructor
  · rintro ⟨hleaves, hguarded, hfirst, hrest⟩
    obtain ⟨m, hinner, hlast, hend⟩ := spells_append.1 hrest
    exact ⟨(Context.pieceAt_eq_mark rfl).1 hfirst, m, ⟨hleaves, hguarded, hinner⟩,
      (Context.pieceAt_eq_mark rfl).1 hlast, hend⟩
  · rintro ⟨hfirst, m, ⟨hleaves, hguarded, hinner⟩, hlast, hend⟩
    exact ⟨hleaves, hguarded, (Context.pieceAt_eq_mark rfl).2 hfirst,
      spells_append.2 ⟨m, hinner, (Context.pieceAt_eq_mark rfl).2 hlast, hend⟩⟩

theorem PrintedAt.add_length (h : e.PrintedAt c s j) : s.position + e.print.length = j :=
  h.spells.add_length

theorem PrintedAt.lt (h : e.PrintedAt c s j) : s.position < j := by
  have := e.length_print_pos
  have := h.add_length
  omega

/-- A printed expression is a phrase. -/
theorem PrintedAt.phrase (h : e.PrintedAt c s j) : Phrase c.kindAt false s.position j := by
  induction e generalizing s j with
  | literal kind lexeme =>
    obtain ⟨rfl, hliteral, -, rfl⟩ := printedAt_literal.1 h
    obtain ⟨type, htype⟩ := Option.isSome_iff_exists.1 hliteral
    exact .one (isPlain_of_literal htype)
  | name lexeme =>
    obtain ⟨hkind, -, -, rfl⟩ := printedAt_name.1 h
    exact .one (by rw [hkind]; rfl)
  | negation e ih =>
    obtain ⟨hkind, hinner, -⟩ := printedAt_negation.1 h
    exact .plain (by rw [hkind]; rfl) (ih hinner)
  | binary op left right ihleft ihright =>
    obtain ⟨m, hleft, hkind, hright, -, -⟩ := printedAt_binary.1 h
    exact (ihleft hleft).trans (.plain (isPlain_of_operator (hkind ▸ op.ofKind?_kind))
      (ihright hright))
  | parens e ih =>
    obtain ⟨hopen, m, hinner, hclose, rfl⟩ := printedAt_parens.1 h
    exact .brackets (by rw [hopen]; rfl) (by simp [hopen]) (ih hinner).withCommas hclose

end Expression

end

end FrontEnd
