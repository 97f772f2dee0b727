import FrontEnd.Proofs.Check.Careful
import FrontEnd.Proofs.Check.HeaderText
import FrontEnd.Proofs.Check.TypedExpression

/-!
# Attentive checks

Every name in a text is used in one of a few ways: `NameUse`.  It is declared, names a member, a
struct, a function that is called or a part of a header, or it is looked up and found to be no array;
or it is the name of an array, with an index in bounds for each of its dimensions (`Access`) or alone
between the parentheses of the built-in length.

A check is `Attentive` if it passes names and opening brackets only where they are `Used` as they may
be.  What the rules for types say of an index needs the names at the place, so the lookups of the run
are taken to be made where an arena shows its names (`Lookups.Shown`).  As for careful checks, what is
known of the kind of the token a check starts at is a parameter.
-/

namespace FrontEnd

open Check

/-! ### Lookups -/

/-- Lookups are made where the arena shows names. -/
def Lookups.Shown (M : Lookups) : Prop :=
  ∀ c s name, M c s name → ∃ names, c.Shows s names

/-- The name at an index is looked up there, and stands for a symbol; what other names stand for there
is given, too. -/
def Lookups.FindsAt (M : Lookups) (text : Text) (b : Nat) (names : Names) (symbol : Symbol) : Prop :=
  ∃ c s, M c s (text.token b).lexeme ∧ (s.position = b ∨ s.position = b + 1) ∧
    s.arena.names c.scope = names ∧ s.arena.lookup c.scope (text.token b).lexeme = some symbol

/-- The name at an index is looked up there and stands for nothing. -/
def Lookups.MissesAt (M : Lookups) (text : Text) (b : Nat) : Prop :=
  ∃ c s, M c s (text.token b).lexeme ∧ (s.position = b ∨ s.position = b + 1) ∧
    s.arena.lookup c.scope (text.token b).lexeme = none

/-! ### Accesses -/

/-- An index that is a single literal is within a dimension of literal size. -/
def WithinSize (text : Text) (size : Dimension) (i j : Nat) : Prop :=
  ∀ n, size = .literal n → j = i + 1 → text.kind i = .intLit ∨ text.kind i = .negIntLit →
    ∀ v, Text.integer? (text.token i).lexeme = some v → 0 ≤ v ∧ v < n

/-- Indices in their brackets, one for each dimension: each is an integer, and within the dimension
where that can be told from literals. -/
inductive IndexedBy (text : Text) (names : Names) : List Dimension → Nat → Nat → Prop
  | nil {i : Nat} : IndexedBy text names [] i i
  | cons {size : Dimension} {sizes : List Dimension} {i m j : Nat} : text.kind i = .leftBracket →
    Typed text names (.value .int) (i + 1) m → text.kind m = .rightBracket →
      WithinSize text size (i + 1) m → IndexedBy text names sizes (m + 1) j →
        IndexedBy text names (size :: sizes) i j

/-- The name at an index is looked up there and found to be an array, and has an index for each of its
dimensions behind it and no more. -/
def Access (M : Lookups) (text : Text) (b : Nat) : Prop :=
  ∃ names symbol sizes j, M.FindsAt text b names symbol ∧ symbol.array = some sizes ∧
    text.kind (b + 1) = .leftBracket ∧ IndexedBy text names sizes (b + 1) j ∧
      text.kind j ≠ .leftBracket

/-- The name at an index is looked up there and found to be an array, and it is the sole argument of a
call of the built-in length. -/
structure WholeArgument (M : Lookups) (text : Text) (a : Nat) : Prop where
  callee : text.kind a = .identifier
  builtin : Builtin.ofName? (text.token a).lexeme = some .len
  unhidden : M.MissesAt text a
  opens : text.kind (a + 1) = .leftParen
  array : ∃ names symbol, M.FindsAt text (a + 2) names symbol ∧ symbol.isArray
  closes : text.kind (a + 3) = .rightParen

/-- The name at an index is looked up there and found to be a function, or nothing is found and it is
the name of a built-in function. -/
inductive CalledName (M : Lookups) (text : Text) (b : Nat) : Prop
  | declared {names : Names} {symbol : Symbol} {info : FunctionInfo}
    (h : M.FindsAt text b names symbol) (hinfo : symbol.functionInfo? = some info)
  | builtin {f : Builtin} (h : M.MissesAt text b)
    (hname : Builtin.ofName? (text.token b).lexeme = some f)

/-! ### Names -/

/-- An instance of a struct is declared at an index: behind the name of the struct or behind another
instance. -/
inductive InstantiatesFrom (kind : Nat → Kind) : Nat → Prop
  | first {i : Nat} : kind i = .instanceWord → InstantiatesFrom kind (i + 2)
  | next {i : Nat} : InstantiatesFrom kind i → kind (i + 1) = .comma → InstantiatesFrom kind (i + 2)

/-- How the name at an index is used. -/
inductive NameUse (M : Lookups) (text : Text) (b : Nat) : Prop
  /-- It is declared, as a variable or a constant. -/
  | declared (h : DeclaresFrom text.kind b)
  /-- It is declared, as an instance of a struct. -/
  | instantiated (h : InstantiatesFrom text.kind b)
  /-- It names the struct of the instances that are declared behind it. -/
  | struct {i : Nat} (hi : b = i + 1) (h : text.kind i = .instanceWord)
  /-- It names a member. -/
  | member {i : Nat} (hi : b = i + 1) (h : text.kind i = .dot)
  /-- It names a function that is called. -/
  | called (h : text.kind (b + 1) = .leftParen) (hcallee : CalledName M text b)
  /-- It is a part of the header of a function. -/
  | header {c : Context} (hc : c.text = text) {i : Nat} {name : Token} {info : FunctionInfo}
    (h : HeaderAt c i name info) (hi : i < b) (hb : b < info.body.start)
  /-- It is a part of a struct. -/
  | inStruct {c : Context} (hc : c.text = text) {i stop : Nat} {name : Token}
    {members : List TypedName} (h : StructAt c i name members stop) (hi : i < b) (hb : b < stop)
  /-- It is looked up and no array. -/
  | single {names : Names} {symbol : Symbol} (h : M.FindsAt text b names symbol)
    (hsymbol : symbol.array = none)
  /-- It is looked up and an instance, of which a member is named behind it. -/
  | selected {names : Names} {symbol : Symbol} (h : M.FindsAt text b names symbol)
    {structName : String} {given : List String}
    (hsymbol : symbol.kind = .structInstance structName given) (hdot : text.kind (b + 1) = .dot)
  /-- It is looked up and an array, of which an element is meant. -/
  | element (h : Access M text b)
  /-- It is looked up and an array, of which the length is taken. -/
  | whole {a : Nat} (ha : b = a + 2) (h : WholeArgument M text a)

/-- The token at an index is used as it may be, if it is a name or a bracket that opens. -/
structure Used (M : Lookups) (text : Text) (k : Nat) : Prop where
  name : text.kind k = .identifier → NameUse M text k
  opening : text.kind k = .leftBracket → ∀ b, k = b + 1 → text.kind b = .identifier →
    DeclaresFrom text.kind b ∨ Access M text b

/-- All tokens from one index up to another are used as they may be. -/
structure UsedTo (M : Lookups) (text : Text) (i j : Nat) : Prop where
  le : i ≤ j
  used : ∀ k, i ≤ k → k < j → Used M text k

/-- Whether a token of the kind is neither a name nor a bracket that opens. -/
def Kind.isBystander (k : Kind) : Bool :=
  !(k == .identifier || k == .leftBracket)

/-- A check that passes only tokens that are used as they may be, from a token of a given sort on. -/
def Attentive {α : Type} (M : Lookups) (P : Kind → Prop) (x : Check α) : Prop :=
  ∀ ⦃c s⦄, c.Closed → P (c.kindAt s.position) → Secures M x c s (fun _ ↦ True) fun _ after ↦
    UsedTo M c.text s.position after.position

section

variable {α β : Type} {M : Lookups} {P : Kind → Prop} {text : Text} {c : Context} {s : State}
  {i j k : Nat} {x y : Check α}

theorem Kind.isBystander_iff {k : Kind} : k.isBystander ↔ k ≠ .identifier ∧ k ≠ .leftBracket := by
  cases k <;> decide

theorem Used.of_bystander (h : (text.kind k).isBystander) : Used M text k := by
  obtain ⟨hname, hopening⟩ := Kind.isBystander_iff.1 h
  exact ⟨fun h ↦ absurd h hname, fun h ↦ absurd h hopening⟩

theorem Used.of_name (h : text.kind k = .identifier) (huse : NameUse M text k) : Used M text k :=
  ⟨fun _ ↦ huse, fun hopening ↦ by rw [h] at hopening; cases hopening⟩

namespace UsedTo

theorem refl (M : Lookups) (text : Text) (i : Nat) : UsedTo M text i i :=
  ⟨Nat.le_refl i, fun k hi hj ↦ by omega⟩

theorem one (h : Used M text i) : UsedTo M text i (i + 1) := by
  refine ⟨Nat.le_succ i, fun k hi hj ↦ ?_⟩
  obtain rfl : k = i := by omega
  exact h

theorem trans (h : UsedTo M text i j) (h' : UsedTo M text j k) : UsedTo M text i k := by
  refine ⟨Nat.le_trans h.le h'.le, fun m hm hlt ↦ ?_⟩
  by_cases hmiddle : m < j
  · exact h.used m hm hmiddle
  · exact h'.used m (Nat.le_of_not_lt hmiddle) hlt

/-- Nothing is passed at the end of the input. -/
theorem after (h : Used M c.text i) : UsedTo M c.text i (c.after i) := by
  unfold Context.after
  split
  · exact one h
  · exact refl M c.text i

theorem bystander (h : (c.kindAt i).isBystander) : UsedTo M c.text i (c.after i) :=
  after (.of_bystander h)

/-- A token of a known kind that is neither a name nor a bracket that opens. -/
theorem token {k : Kind} (hi : text.kind i = k) (hk : k.isBystander) : UsedTo M text i (i + 1) :=
  one (.of_bystander (hi ▸ hk))

/-- A name. -/
theorem name (hi : text.kind i = .identifier) (h : NameUse M text i) : UsedTo M text i (i + 1) :=
  one (.of_name hi h)

end UsedTo

theorem Lookups.Shown.shows (hM : M.Shown) {name : String} (h : M c s name) :
    c.Shows s (s.arena.names c.scope) := by
  obtain ⟨names, hshows⟩ := hM c s name h
  exact hshows.names_eq ▸ hshows

/-! ### What attentive checks are made of -/

namespace Attentive

theorem of_still (hx : Still x) : Attentive M P x := by
  intro c s _ _
  refine .of_ensures ((hx c s).imp (fun _ _ ↦ trivial) fun _ after hafter ↦ ?_)
  exact hafter ▸ .refl M c.text s.position

theorem pure (a : α) : Attentive M P (pure a : Check α) :=
  of_still (.pure a)

theorem violateAt {v : Violation} {t : Token} (hv : v ≠ .divisionByZero) :
    Attentive M P (Check.violateAt v t : Check α) :=
  of_still (.violateAt hv)

theorem violate {v : Violation} (hv : v ≠ .divisionByZero) :
    Attentive M P (Check.violate v : Check α) :=
  of_still (.violate hv)

/-- What is known of a token may be more than is needed. -/
theorem weaken {P' : Kind → Prop} (hx : Attentive M P' x) (h : ∀ k, P k → P' k) :
    Attentive M P x :=
  fun _ _ hc hP ↦ hx hc (h _ hP)

theorem bind {f : α → Check β} (hx : Attentive M P x) (hf : ∀ a, Attentive M (fun _ ↦ True) (f a)) :
    Attentive M P (x >>= f) := by
  intro c s hc hP
  rw [secures_bind]
  refine (hx hc hP).mono fun a after hafter ↦ ?_
  exact (hf a hc trivial).mono fun _ _ hlater ↦ hafter.trans hlater

/-- After a check that stays where it is, the token at hand is the same. -/
theorem after {f : α → Check β} (hx : Still x) (hf : ∀ a, Attentive M P (f a)) :
    Attentive M P (x >>= f) := by
  intro c s hc hP
  rw [secures_bind]
  refine .of_ensures ((hx c s).imp (fun _ _ ↦ trivial) fun a after hafter ↦ ?_)
  have hrest := hf a (s := after) hc (hafter ▸ hP)
  rwa [hafter] at hrest

theorem ite {p : Prop} [Decidable p] (hx : Attentive M P x) (hy : Attentive M P y) :
    Attentive M P (if p then x else y) := by
  split
  · exact hx
  · exact hy

/-- A check that may come before another one. -/
theorem guard {p : Prop} [Decidable p] (hx : Still x) {z : Check β} (hz : Attentive M P z) :
    Attentive M P (if p then x >>= fun _ ↦ z else z) :=
  ite (after hx fun _ ↦ hz) hz

theorem otherwise {p : Prop} [Decidable p] (hx : Still x) {z : Check β} (hz : Attentive M P z) :
    Attentive M P (if p then z else x >>= fun _ ↦ z) :=
  ite hz (after hx fun _ ↦ hz)

theorem discard (hx : Attentive M P x) : Attentive M P (discard x) :=
  fun _ _ hc hP ↦ secures_discard.2 (hx hc hP)

/-! ### The token at hand -/

theorem peek {f : Token → Check β} (hf : ∀ t, Attentive M (fun k ↦ P k ∧ k = t.kind) (f t)) :
    Attentive M P (Check.peek >>= f) := by
  intro c s hc hP
  rw [secures_bind, secures_peek]
  exact hf _ hc ⟨hP, (hc.kind_tokenAt _).symm⟩

theorem peekKind {f : Kind → Check β}
    (hf : ∀ k, Attentive M (fun other ↦ P other ∧ other = k) (f k)) :
    Attentive M P (Check.peekKind >>= f) := by
  intro c s hc hP
  rw [secures_bind, secures_peekKind]
  exact hf _ hc ⟨hP, rfl⟩

/-- Whether a token of a kind is at hand. -/
theorem next? {f : Bool → Check β} {k : Kind} (hyes : Attentive M (· = k) (f true))
    (hno : Attentive M P (f false)) : Attentive M P (Check.next? k >>= f) := by
  intro c s hc hP
  rw [secures_bind, secures_next?]
  by_cases hk : c.kindAt s.position = k
  · rw [beq_iff_eq.2 hk]
    exact hyes hc hk
  · rw [beq_eq_false_iff_ne.2 hk]
    exact hno hc hP

/-- One of two checks by the kind of the token at hand. -/
theorem nextIte {k : Kind} (hyes : Attentive M (· = k) x) (hno : Attentive M P y) :
    Attentive M P (Check.next? k >>= fun yes ↦ if yes = true then x else y) :=
  next? hyes hno

/-- A token is read and refused if it is a name or a bracket that opens. -/
theorem advanceThen {f : Token → Check β}
    (hf : ∀ t, t.kind.isBystander → Attentive M (fun _ ↦ True) (f t))
    (hother : ∀ t, t.kind.isBystander = false → Refuses (f t)) :
    Attentive M P (Check.advance >>= f) := by
  intro c s hc _
  rw [secures_bind, secures_advance]
  by_cases hbystander : (c.tokenAt s.position).kind.isBystander
  · have hfirst : UsedTo M c.text s.position (c.after s.position) :=
      .bystander (hc.kind_tokenAt _ ▸ hbystander)
    exact (hf _ hbystander hc trivial).mono fun _ _ hlater ↦ hfirst.trans hlater
  · have hlost := hother _ (Bool.eq_false_iff.2 hbystander)
    exact .of_ensures ((hlost c _).imp (fun _ _ ↦ trivial) fun _ _ h ↦ h.elim)

theorem advance (h : ∀ k, P k → k.isBystander) : Attentive M P Check.advance :=
  fun _ _ _ hP ↦ secures_advance.2 (.bystander (h _ hP))

/-- A token of a known kind. -/
theorem word {k : Kind} (hk : k.isBystander) : Attentive M (· = k) Check.advance :=
  advance fun _ h ↦ h ▸ hk

theorem expect {k : Kind} (hk : k.isBystander) (wanted : Wanted) :
    Attentive M P (Check.expect k wanted) :=
  fun _ _ _ _ ↦ secures_expect.2 ⟨fun hkind ↦ .bystander (hkind ▸ hk), fun _ ↦ trivial⟩

theorem expectMark {k : Kind} (hk : k.isBystander) : Attentive M P (Check.expectMark k) :=
  expect hk (.mark k)

/-- A mark that ends what was read. -/
theorem mark {k : Kind} (hk : k.isBystander) :
    Attentive M P (Functor.discard (Check.expectMark k)) :=
  (expectMark hk).discard

/-! ### Blocks and loops -/

theorem inScope (label : String) (hx : Attentive M (fun _ ↦ True) x) :
    Attentive M P (Check.inScope label x) :=
  fun c s hc _ ↦ (secures_inScope label).2
    (hx (c := c.entering s) (s := s.entered c label) hc trivial)

theorem inBlock (kind : BlockKind) (hx : Attentive M P x) : Attentive M P (Check.inBlock kind x) :=
  fun c _ hc hP ↦ (secures_inBlock kind).2 (hx (c := { c with blocks := kind :: c.blocks }) hc hP)

variable {σ : Type}

theorem roundsWhile {due : Check Bool} {round : σ → Check (ForInStep σ)} {value : σ}
    (hdue : Still due) (hround : ∀ value, Attentive M (fun _ ↦ True) (round value)) :
    Attentive M P (Check.roundsWhile due round value) := by
  intro c s hc _
  refine secures_roundsWhile (fun _ ↦ trivial)
    (I := fun _ after ↦ UsedTo M c.text s.position after.position) (.refl M c.text s.position) ?_
  intro value t ht
  refine .of_ensures ((hdue c t).imp (fun _ _ ↦ trivial) fun more after hafter ↦ ?_)
  refine ⟨fun _ ↦ ?_, fun _ ↦ hafter ▸ ht⟩
  refine (hround value hc trivial).mono fun r later hlater ↦ ?_
  have hboth : UsedTo M c.text s.position later.position := ht.trans (hafter ▸ hlater)
  cases r <;> exact hboth

theorem rounds {round : σ → Check (ForInStep σ)} {value : σ}
    (hround : ∀ value, Attentive M (fun _ ↦ True) (round value)) :
    Attentive M P (Check.rounds round value) :=
  roundsWhile (.pure true) hround

/-- Rounds that each start at a token of a kind. -/
theorem roundsWhileNext {k : Kind} {round : σ → Check (ForInStep σ)} {value : σ}
    (hround : ∀ value, Attentive M (· = k) (round value)) :
    Attentive M P (Check.roundsWhile (Check.next? k) round value) := by
  intro c s hc _
  refine secures_roundsWhile (fun _ ↦ trivial)
    (I := fun _ after ↦ UsedTo M c.text s.position after.position) (.refl M c.text s.position) ?_
  intro value t ht
  refine secures_next?.2 ⟨fun hmore ↦ ?_, fun _ ↦ ht⟩
  refine (hround value hc (beq_iff_eq.1 hmore)).mono fun r later hlater ↦ ?_
  cases r <;> exact ht.trans hlater

end Attentive

end

end FrontEnd
