import FrontEnd.Proofs.Check.Balanced
import FrontEnd.Proofs.Check.Operands
import FrontEnd.Proofs.Check.Secures
import FrontEnd.Proofs.Typing.Values

/-!
# Careful checks

Some tokens are more than a part of the text: an operator that divides, a sign that writes to what
stands beside it, and the word that makes names constant.  `Sound` says when such a token is used as
it may be: there is no literal zero to divide by, the name that is written to was looked up and stands
for a variable or an instance, and constants have initializers.

A check is `Careful` if it passes only sound tokens where it succeeds, and refuses a division only
because of a literal zero.  What is known of the kind of the token it starts at is a parameter, since
that is what tells which tokens it may pass unseen.  Checks that stay where they are (`Still`) are
careful and keep what is known.
-/

namespace FrontEnd

open Check

/-! ### Tokens -/

/-- Whether a token of the kind divides by what follows it. -/
def Kind.isDivision : Kind → Bool
  | .slash | .percent | .slashAssign | .percentAssign => true
  | _ => false

/-- Whether a token of the kind writes to a name beside it or gives one its first value. -/
def Kind.isWriting : Kind → Bool
  | .assign | .plusAssign | .minusAssign | .starAssign | .slashAssign | .percentAssign
  | .increment | .decrement => true
  | _ => false

/-- Whether a token of the kind neither divides nor writes nor makes names constant, and is not in
front of a member. -/
def Kind.isHarmless (k : Kind) : Bool :=
  !(k.isDivision || k.isWriting || k == .constWord || k == .dot)

/-- No dot stands in front of an index, so a name there is no member. -/
def Fresh (kind : Nat → Kind) (i : Nat) : Prop :=
  ∀ j, i = j + 1 → kind j ≠ .dot

/-- A name that is no member stands at an index, with what may follow it up to another one: indices or
a member. -/
inductive PlaceText (kind : Nat → Kind) (b : Nat) : Nat → Prop
  | name : Fresh kind b → kind b = .identifier → PlaceText kind b (b + 1)
  | element {i j : Nat} : PlaceText kind b i → kind i = .leftBracket → Phrase kind true (i + 1) j →
    kind j = .rightBracket → PlaceText kind b (j + 1)
  | member : Fresh kind b → kind b = .identifier → kind (b + 1) = .dot →
    kind (b + 2) = .identifier → PlaceText kind b (b + 3)

/-- Whether a symbol may be written to: it is a variable or an instance of a struct. -/
def Symbol.isWritable (symbol : Symbol) : Bool :=
  match symbol.kind with
  | .var | .structInstance _ _ => true
  | .const | .function _ | .struct _ => false

/-- The name at an index is looked up there, and stands for what may be written to. -/
def Lookups.Writable (M : Lookups) (text : Text) (b : Nat) : Prop :=
  ∃ c s symbol, M c s (text.token b).lexeme ∧ (s.position = b ∨ s.position = b + 1) ∧
    s.arena.lookup c.scope (text.token b).lexeme = some symbol ∧ symbol.isWritable

/-- The sign at an index writes to the name at another one, from behind or from in front of it. -/
def WritesTo (text : Text) (b k : Nat) : Prop :=
  PlaceText text.kind b k ∨ (b = k + 1 ∧ text.kind b = .identifier ∧ text.CountAt k)

/-- What may be given to a name stands on a stretch of tokens: an expression, input, or elements
between braces. -/
def InitializerText (kind : Nat → Kind) (i j : Nat) : Prop :=
  (i < j ∧ Phrase kind false i j) ∨
    ∃ m, kind i = .leftBrace ∧ Balanced kind (i + 1) m ∧ kind m = .rightBrace ∧ j = m + 1

/-- A declarator with its initializer. -/
def GivenText (kind : Nat → Kind) (i j : Nat) : Prop :=
  ∃ m, PlaceText kind i m ∧ kind m = .assign ∧ InitializerText kind (m + 1) j

/-- A declarator; that of a constant has an initializer. -/
def DeclaratorText (kind : Nat → Kind) (isConstant : Bool) (i j : Nat) : Prop :=
  GivenText kind i j ∨ (isConstant = false ∧ PlaceText kind i j)

/-- A declarator may start at an index: behind the word of a type or behind another declarator. -/
inductive DeclaresFrom (kind : Nat → Kind) : Nat → Prop
  | first {i : Nat} : (kind i).isPrimitiveType → DeclaresFrom kind (i + 1)
  | next {i j : Nat} {isConstant : Bool} : DeclaresFrom kind i →
    DeclaratorText kind isConstant i j → kind j = .comma → DeclaresFrom kind (j + 1)

/-- The sign at an index stands behind the name of a declarator, in front of its initializer. -/
def Initializes (text : Text) (k : Nat) : Prop :=
  text.kind k = .assign ∧ ∃ i, DeclaresFrom text.kind i ∧ PlaceText text.kind i k

/-- Declarators with commas between them, each with its initializer. -/
inductive GivenTexts (kind : Nat → Kind) (i : Nat) : Nat → Prop
  | first {j : Nat} : GivenText kind i j → GivenTexts kind i j
  | next {m j : Nat} : GivenTexts kind i m → kind m = .comma → GivenText kind (m + 1) j →
    GivenTexts kind i j

/-- The token at an index is used as it may be. -/
structure Sound (M : Lookups) (text : Text) (k : Nat) : Prop where
  division : (text.kind k).isDivision → (text.token (k + 1)).isZeroLiteral = false
  writing : (text.kind k).isWriting →
    Initializes text k ∨ ∃ b, WritesTo text b k ∧ M.Writable text b
  constant : text.kind k = .constWord → (text.kind (k + 1)).isPrimitiveType ∧
    ∃ j, GivenTexts text.kind (k + 2) j ∧ text.kind j = .semicolon

/-- All tokens from one index up to another are used as they may be. -/
structure SoundTo (M : Lookups) (text : Text) (i j : Nat) : Prop where
  le : i ≤ j
  sound : ∀ k, i ≤ k → k < j → Sound M text k
  fresh : Fresh text.kind i → Fresh text.kind j

/-- A division is refused only because of a literal zero behind it. -/
def Justified (text : Text) (e : SemanticError) : Prop :=
  e.violation = .divisionByZero → ∃ k, (text.kind k).isDivision ∧
    (text.token (k + 1)).isZeroLiteral ∧ e.position = (text.token (k + 1)).position

/-- A check that stays where it is and refuses no division. -/
def Still {α : Type} (x : Check α) : Prop :=
  ∀ c s, Ensures x c s (fun e ↦ e.violation ≠ .divisionByZero) fun _ after ↦
    after.position = s.position

/-- A check that never succeeds and refuses no division. -/
def Refuses {α : Type} (x : Check α) : Prop :=
  ∀ c s, Ensures x c s (fun e ↦ e.violation ≠ .divisionByZero) fun _ _ ↦ False

/-- A check that passes only sound tokens, from a token of a given sort on. -/
def Careful {α : Type} (M : Lookups) (P : Kind → Prop) (x : Check α) : Prop :=
  ∀ ⦃c s⦄, c.Closed → Fresh c.kindAt s.position → P (c.kindAt s.position) → Secures M x c s (Justified c.text) fun _ after ↦
    SoundTo M c.text s.position after.position

section

variable {α β : Type} {M : Lookups} {P : Kind → Prop} {text : Text} {c : Context} {i j k : Nat}
  {x y : Check α}

theorem Kind.isHarmless_iff {k : Kind} : k.isHarmless ↔
    k.isDivision = false ∧ k.isWriting = false ∧ k ≠ .constWord ∧ k ≠ .dot := by
  cases k <;> decide

theorem Symbol.isWritable_iff {symbol : Symbol} :
    symbol.isWritable ↔ symbol.isValue ∧ symbol.isConstant = false := by
  unfold isWritable isValue isConstant
  cases symbol.kind <;> simp

theorem fresh_zero (kind : Nat → Kind) : Fresh kind 0 :=
  fun _ h ↦ absurd h (Nat.zero_ne_add_one _)

theorem fresh_succ {kind : Nat → Kind} (h : kind i ≠ .dot) : Fresh kind (i + 1) :=
  fun _ hj ↦ Nat.succ.inj hj ▸ h

/-- A token that neither divides nor writes nor makes names constant. -/
theorem Sound.of_harmless (h : (text.kind k).isHarmless) : Sound M text k := by
  obtain ⟨hdivision, hwriting, hconstant, -⟩ := Kind.isHarmless_iff.1 h
  exact ⟨fun h ↦ absurd h (by simp [hdivision]), fun h ↦ absurd h (by simp [hwriting]),
    fun h ↦ absurd h hconstant⟩

/-- A sign that writes and does not divide. -/
theorem Sound.of_writing (hdivision : (text.kind k).isDivision = false)
    (hwriting : Initializes text k ∨ ∃ b, WritesTo text b k ∧ M.Writable text b)
    (hconstant : text.kind k ≠ .constWord) : Sound M text k :=
  ⟨fun h ↦ absurd h (by simp [hdivision]), fun _ ↦ hwriting, fun h ↦ absurd h hconstant⟩

namespace SoundTo

theorem refl (M : Lookups) (text : Text) (i : Nat) : SoundTo M text i i :=
  ⟨Nat.le_refl i, fun k hi hj ↦ by omega, id⟩

theorem one (h : Sound M text i) (hdot : text.kind i ≠ .dot) : SoundTo M text i (i + 1) := by
  refine ⟨Nat.le_succ i, fun k hi hj ↦ ?_, fun _ ↦ fresh_succ hdot⟩
  obtain rfl : k = i := by omega
  exact h

theorem trans (h : SoundTo M text i j) (h' : SoundTo M text j k) : SoundTo M text i k := by
  refine ⟨Nat.le_trans h.le h'.le, fun m hm hlt ↦ ?_, fun hfresh ↦ h'.fresh (h.fresh hfresh)⟩
  by_cases hmiddle : m < j
  · exact h.sound m hm hmiddle
  · exact h'.sound m (Nat.le_of_not_lt hmiddle) hlt

/-- Nothing is passed at the end of the input. -/
theorem after (h : Sound M c.text i) (hdot : c.kindAt i ≠ .dot) :
    SoundTo M c.text i (c.after i) := by
  unfold Context.after
  split
  · exact one h hdot
  · exact refl M c.text i

theorem harmless (h : (c.kindAt i).isHarmless) : SoundTo M c.text i (c.after i) :=
  after (.of_harmless h) (Kind.isHarmless_iff.1 h).2.2.2

/-- A harmless token of a known kind. -/
theorem token {k : Kind} (hi : c.kindAt i = k) (hk : k.isHarmless) :
    SoundTo M c.text i (i + 1) := by
  have hharmless : (c.kindAt i).isHarmless := hi ▸ hk
  exact one (.of_harmless hharmless) (Kind.isHarmless_iff.1 hharmless).2.2.2

/-- The sign of an assignment or in front of an initializer. -/
theorem assign (hi : c.kindAt i = .assign)
    (h : Initializes c.text i ∨ ∃ b, WritesTo c.text b i ∧ M.Writable c.text b) :
    SoundTo M c.text i (i + 1) := by
  have hkind : c.text.kind i = .assign := hi
  exact one (.of_writing (hkind ▸ rfl) h (by simp [hi])) (by simp [hi])

end SoundTo

theorem DeclaresFrom.fresh {kind : Nat → Kind} (h : DeclaresFrom kind i) : Fresh kind i := by
  cases h with
  | first hword =>
    refine fresh_succ fun hdot ↦ ?_
    rw [hdot] at hword
    cases hword
  | next _ _ hcomma => exact fresh_succ (by simp [hcomma])

theorem Justified.of_ne {e : SemanticError} (h : e.violation ≠ .divisionByZero) :
    Justified text e :=
  fun hzero ↦ absurd hzero h

theorem justified_expected (i : Nat) (wanted : Wanted) : Justified text (c.expected i wanted) := by
  refine .of_ne ?_
  unfold Context.expected
  dsimp only
  split <;> nofun

/-! ### Checks that stay where they are -/

namespace Still

theorem pure (a : α) : Still (pure a : Check α) :=
  fun _ _ ↦ rfl

theorem read : Still (read : Check Context) :=
  fun _ _ ↦ rfl

theorem get : Still (get : Check State) :=
  fun _ _ ↦ rfl

theorem here : Still Check.here :=
  fun _ _ ↦ rfl

theorem peek : Still Check.peek :=
  fun _ _ ↦ rfl

theorem peekKind : Still Check.peekKind :=
  fun _ _ ↦ rfl

theorem secondKind : Still Check.secondKind :=
  fun _ _ ↦ rfl

theorem next? (k : Kind) : Still (Check.next? k) :=
  fun _ _ ↦ rfl

theorem resolve (name : String) : Still (Check.resolve name) :=
  fun _ _ ↦ rfl

theorem warn (name : String) (t : Token) : Still (Check.warn name t) :=
  fun _ _ ↦ rfl

theorem modify {f : State → State} (hf : ∀ s, (f s).position = s.position) :
    Still (modify f : Check Unit) :=
  fun _ s ↦ hf s

theorem violateAt {v : Violation} {t : Token} (hv : v ≠ .divisionByZero) :
    Still (Check.violateAt v t : Check α) :=
  fun _ _ ↦ hv

theorem violate {v : Violation} (hv : v ≠ .divisionByZero) :
    Still (Check.violate v : Check α) :=
  fun _ _ ↦ hv

theorem bind {f : α → Check β} (hx : Still x) (hf : ∀ a, Still (f a)) : Still (x >>= f) := by
  intro c s
  rw [ensures_bind]
  refine (hx c s).mono fun a after hafter ↦ ?_
  exact (hf a c after).mono fun _ _ hlater ↦ hlater.trans hafter

theorem ite {p : Prop} [Decidable p] (hx : Still x) (hy : Still y) :
    Still (if p then x else y) := by
  split
  · exact hx
  · exact hy

theorem guard {p : Prop} [Decidable p] (hx : Still x) {z : Check β} (hz : Still z) :
    Still (if p then x >>= fun _ ↦ z else z) :=
  ite (hx.bind fun _ ↦ hz) hz

theorem otherwise {p : Prop} [Decidable p] (hx : Still x) {z : Check β} (hz : Still z) :
    Still (if p then z else x >>= fun _ ↦ z) :=
  ite hz (hx.bind fun _ ↦ hz)

theorem matchingClose (opening : Nat) : Still (Check.matchingClose opening) := by
  refine read.bind fun c ↦ ?_
  split
  · exact violate (by simp)
  · split
    · exact pure _
    · exact violateAt (by simp)
    · exact violate (by simp)

theorem expressionEnd (terminators : List Kind) : Still (Check.expressionEnd terminators) := by
  refine read.bind fun c ↦ here.bind fun i ↦ ?_
  split
  · exact pure _
  · exact violate (by simp)

end Still

/-! ### Checks that never succeed -/

namespace Refuses

theorem violateAt {v : Violation} {t : Token} (hv : v ≠ .divisionByZero) :
    Refuses (Check.violateAt v t : Check α) :=
  fun _ _ ↦ hv

theorem bind {f : α → Check β} (hx : Refuses x) : Refuses (x >>= f) := by
  intro c s
  rw [ensures_bind]
  exact (hx c s).mono fun _ _ h ↦ h.elim

end Refuses

/-! ### What careful checks are made of -/

namespace Careful

theorem of_still (hx : Still x) : Careful M P x := by
  intro c s _ _ _
  refine .of_ensures ((hx c s).imp (fun _ ↦ .of_ne) fun _ after hafter ↦ ?_)
  exact hafter ▸ .refl M c.text s.position

theorem pure (a : α) : Careful M P (pure a : Check α) :=
  of_still (.pure a)

theorem violateAt {v : Violation} {t : Token} (hv : v ≠ .divisionByZero) :
    Careful M P (Check.violateAt v t : Check α) :=
  of_still (.violateAt hv)

theorem violate {v : Violation} (hv : v ≠ .divisionByZero) :
    Careful M P (Check.violate v : Check α) :=
  of_still (.violate hv)

/-- What is known of a token may be more than is needed. -/
theorem weaken {P' : Kind → Prop} (hx : Careful M P' x) (h : ∀ k, P k → P' k) : Careful M P x :=
  fun _ _ hc hfresh hP ↦ hx hc hfresh (h _ hP)

theorem bind {f : α → Check β} (hx : Careful M P x) (hf : ∀ a, Careful M (fun _ ↦ True) (f a)) :
    Careful M P (x >>= f) := by
  intro c s hc hfresh hP
  rw [secures_bind]
  refine (hx hc hfresh hP).mono fun a after hafter ↦ ?_
  exact (hf a hc (hafter.fresh hfresh) trivial).mono fun _ _ hlater ↦ hafter.trans hlater

/-- After a check that stays where it is, the token at hand is the same. -/
theorem after {f : α → Check β} (hx : Still x) (hf : ∀ a, Careful M P (f a)) :
    Careful M P (x >>= f) := by
  intro c s hc hfresh hP
  rw [secures_bind]
  refine .of_ensures ((hx c s).imp (fun _ ↦ .of_ne) fun a after hafter ↦ ?_)
  have hrest := hf a (s := after) hc (hafter ▸ hfresh) (hafter ▸ hP)
  rwa [hafter] at hrest

theorem ite {p : Prop} [Decidable p] (hx : Careful M P x) (hy : Careful M P y) :
    Careful M P (if p then x else y) := by
  split
  · exact hx
  · exact hy

/-- A check that may come before another one. -/
theorem guard {p : Prop} [Decidable p] (hx : Still x) {z : Check β} (hz : Careful M P z) :
    Careful M P (if p then x >>= fun _ ↦ z else z) :=
  ite (after hx fun _ ↦ hz) hz

theorem otherwise {p : Prop} [Decidable p] (hx : Still x) {z : Check β} (hz : Careful M P z) :
    Careful M P (if p then z else x >>= fun _ ↦ z) :=
  ite hz (after hx fun _ ↦ hz)

theorem discard (hx : Careful M P x) : Careful M P (discard x) :=
  fun _ _ hc hfresh hP ↦ secures_discard.2 (hx hc hfresh hP)

/-! ### The token at hand -/

theorem peek {f : Token → Check β} (hf : ∀ t, Careful M (fun k ↦ P k ∧ k = t.kind) (f t)) :
    Careful M P (Check.peek >>= f) := by
  intro c s hc hfresh hP
  rw [secures_bind, secures_peek]
  exact hf _ hc hfresh ⟨hP, (hc.kind_tokenAt _).symm⟩

theorem peekKind {f : Kind → Check β} (hf : ∀ k, Careful M (fun other ↦ P other ∧ other = k) (f k)) :
    Careful M P (Check.peekKind >>= f) := by
  intro c s hc hfresh hP
  rw [secures_bind, secures_peekKind]
  exact hf _ hc hfresh ⟨hP, rfl⟩

/-- Whether a token of a kind is at hand. -/
theorem next? {f : Bool → Check β} {k : Kind} (hyes : Careful M (· = k) (f true))
    (hno : Careful M P (f false)) : Careful M P (Check.next? k >>= f) := by
  intro c s hc hfresh hP
  rw [secures_bind, secures_next?]
  by_cases hk : c.kindAt s.position = k
  · rw [beq_iff_eq.2 hk]
    exact hyes hc hfresh hk
  · rw [beq_eq_false_iff_ne.2 hk]
    exact hno hc hfresh hP

/-- One of two checks by the kind of the token at hand. -/
theorem nextIte {k : Kind} (hyes : Careful M (· = k) x) (hno : Careful M P y) :
    Careful M P (Check.next? k >>= fun yes ↦ if yes = true then x else y) :=
  next? hyes hno

/-- A token is read and refused if it is no harmless one. -/
theorem advanceThen {f : Token → Check β}
    (hf : ∀ t, t.kind.isHarmless → Careful M (fun _ ↦ True) (f t))
    (hother : ∀ t, t.kind.isHarmless = false → Refuses (f t)) :
    Careful M P (Check.advance >>= f) := by
  intro c s hc hfresh _
  rw [secures_bind, secures_advance]
  by_cases hharmless : (c.tokenAt s.position).kind.isHarmless
  · have hfirst : SoundTo M c.text s.position (c.after s.position) :=
      .harmless (hc.kind_tokenAt _ ▸ hharmless)
    exact (hf _ hharmless hc (hfirst.fresh hfresh) trivial).mono fun _ _ hlater ↦ hfirst.trans hlater
  · have hlost := hother _ (Bool.eq_false_iff.2 hharmless)
    exact .of_ensures ((hlost c _).imp (fun _ ↦ .of_ne) fun _ _ h ↦ h.elim)

theorem advance (h : ∀ k, P k → k.isHarmless) : Careful M P Check.advance :=
  fun _ _ _ _ hP ↦ secures_advance.2 (.harmless (h _ hP))

theorem expect {k : Kind} (hk : k.isHarmless) (wanted : Wanted) :
    Careful M P (Check.expect k wanted) :=
  fun _ _ _ _ _ ↦ secures_expect.2
    ⟨fun hkind ↦ .harmless (hkind ▸ hk), fun _ ↦ justified_expected _ _⟩

theorem expectMark {k : Kind} (hk : k.isHarmless) : Careful M P (Check.expectMark k) :=
  expect hk (.mark k)

/-- A bracket at hand that has one that closes it. -/
theorem bracket {f : Nat → Check β} (hf : ∀ close, Careful M (fun k ↦ k.isHarmless) (f close)) :
    Careful M P (Check.here >>= fun i ↦ Check.matchingClose i >>= f) := by
  intro c s hc hfresh _
  simp only [secures_bind, secures_here]
  cases hcloser : (c.kindAt s.position).closer? with
  | none =>
    have hlost : Ensures (Check.matchingClose s.position) c s (Justified c.text)
        fun _ _ ↦ False := by
      simp only [Check.matchingClose, ensures_bind, ensures_read, hcloser, ensures_violate]
      exact .of_ne (by simp)
    exact .of_ensures (hlost.mono fun _ _ h ↦ h.elim)
  | some closing =>
    have hharmless : (c.kindAt s.position).isHarmless := by
      cases hk : c.kindAt s.position <;> first | rfl | (rw [hk] at hcloser; cases hcloser)
    refine .of_ensures (((Still.matchingClose s.position c s).and
      (ensures_matchingClose (s := s) hcloser)).imp (fun _ ↦ .of_ne) ?_)
    rintro close _ ⟨-, rfl, -⟩
    exact hf close hc hfresh hharmless

/-! ### Blocks and loops -/

theorem inScope (label : String) (hx : Careful M (fun _ ↦ True) x) :
    Careful M P (Check.inScope label x) :=
  fun c s hc hfresh _ ↦ (secures_inScope label).2
    (hx (c := c.entering s) (s := s.entered c label) hc hfresh trivial)

theorem inBlock (kind : BlockKind) (hx : Careful M P x) : Careful M P (Check.inBlock kind x) :=
  fun c _ hc hfresh hP ↦ (secures_inBlock kind).2
    (hx (c := { c with blocks := kind :: c.blocks }) hc hfresh hP)

variable {σ : Type}

theorem roundsWhile {due : Check Bool} {round : σ → Check (ForInStep σ)} {value : σ}
    (hdue : Still due) (hround : ∀ value, Careful M (fun _ ↦ True) (round value)) :
    Careful M P (Check.roundsWhile due round value) := by
  intro c s hc hfresh _
  refine secures_roundsWhile (fun _ ↦ .of_ne (by simp))
    (I := fun _ after ↦ SoundTo M c.text s.position after.position) (.refl M c.text s.position) ?_
  intro value t ht
  refine .of_ensures ((hdue c t).imp (fun _ ↦ .of_ne) fun more after hafter ↦ ?_)
  refine ⟨fun _ ↦ ?_, fun _ ↦ hafter ▸ ht⟩
  refine (hround value hc (hafter ▸ ht.fresh hfresh) trivial).mono fun r later hlater ↦ ?_
  have hboth : SoundTo M c.text s.position later.position := ht.trans (hafter ▸ hlater)
  cases r <;> exact hboth

theorem rounds {round : σ → Check (ForInStep σ)} {value : σ}
    (hround : ∀ value, Careful M (fun _ ↦ True) (round value)) :
    Careful M P (Check.rounds round value) :=
  roundsWhile (.pure true) hround

/-- Rounds that each start at a token of a kind. -/
theorem roundsWhileNext {k : Kind} {round : σ → Check (ForInStep σ)} {value : σ}
    (hround : ∀ value, Careful M (· = k) (round value)) :
    Careful M P (Check.roundsWhile (Check.next? k) round value) := by
  intro c s hc hfresh _
  refine secures_roundsWhile (fun _ ↦ .of_ne (by simp))
    (I := fun _ after ↦ SoundTo M c.text s.position after.position) (.refl M c.text s.position) ?_
  intro value t ht
  refine secures_next?.2 ⟨fun hmore ↦ ?_, fun _ ↦ ht⟩
  refine (hround value hc (ht.fresh hfresh) (beq_iff_eq.1 hmore)).mono fun r later hlater ↦ ?_
  cases r <;> exact ht.trans hlater

end Careful

end

end FrontEnd
