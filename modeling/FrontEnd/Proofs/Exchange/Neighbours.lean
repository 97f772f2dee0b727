import FrontEnd.Proofs.Check.Underway
import FrontEnd.Proofs.Exchange.Passage

/-!
# Neighbouring functions

The tokens of a function are those from its word to the brace that closes the first one behind the word:
`IsFunction`.  This is said of kinds alone, but in a program that is accepted it is what the header and
the body of a function take up (`Occupies.stop_eq`).

When two functions that are neighbours change places, the text falls into four stretches that both texts
have: what comes before with the word that follows, either of the functions, and what comes behind them.
`Exchanged c d p q r` says this of two contexts, where the functions start at `p` and `q` of the first
text and end in front of `r`.
-/

namespace FrontEnd

open Check

/-- Kinds of tokens with balanced braces. -/
inductive Braces : List Kind → Prop
  | nil : Braces []
  | other {k : Kind} {ks : List Kind} (hopen : k ≠ .leftBrace) (hclose : k ≠ .rightBrace)
    (hrest : Braces ks) : Braces (k :: ks)
  | braces {inner ks : List Kind} (hinner : Braces inner) (hrest : Braces ks) :
    Braces (.leftBrace :: (inner ++ .rightBrace :: ks))

/-- The kinds of the tokens of a function. -/
def functionKinds (header body : List Kind) : List Kind :=
  .functionWord :: (header ++ .leftBrace :: (body ++ [.rightBrace]))

/-- The tokens of a function: its word, its header, and its body in braces. -/
def IsFunction (ts : List Token) : Prop :=
  ∃ header body, ts.map Token.kind = functionKinds header body ∧ .leftBrace ∉ header ∧ Braces body

/-- Tokens of these kinds stand from an index on. -/
def StandsAt (kind : Nat → Kind) : Nat → List Kind → Prop
  | _, [] => True
  | i, k :: ks => kind i = k ∧ StandsAt kind (i + 1) ks

/-- The tokens from one index up to another are those of a function. -/
def Occupies (kind : Nat → Kind) (i j : Nat) : Prop :=
  ∃ header body, StandsAt kind i (functionKinds header body) ∧ .leftBrace ∉ header ∧ Braces body ∧
    j = i + (functionKinds header body).length

/-- No brace is opened from one index up to another. -/
def Braceless (kind : Nat → Kind) (i j : Nat) : Prop :=
  ∀ k, i ≤ k → k < j → kind k ≠ .leftBrace

/-- The second text is the first one but for two functions that change places. -/
structure Exchanged (c d : Context) (p q r : Nat) : Prop where
  first : Occupies c.kindAt p q
  second : Occupies c.kindAt q r
  before : ∀ i ≤ p, d.tokens[i]? = c.tokens[i]?
  moved : ∀ n, p + n < q → d.tokens[p + (r - q) + n]? = c.tokens[p + n]?
  moved' : ∀ n, q + n < r → d.tokens[p + n]? = c.tokens[q + n]?
  after : ∀ i, r ≤ i → d.tokens[i]? = c.tokens[i]?
  around : d = { c with tokens := d.tokens }
  more : ∀ i < r, c.kindAt i ≠ .eof
  closed : c.Closed
  worded : c.Worded
  worded' : d.Worded

variable {kind : Nat → Kind} {i j k : Nat} {ks ls : List Kind}

/-! ### Kinds from an index on -/

theorem standsAt_append :
    StandsAt kind i (ks ++ ls) ↔ StandsAt kind i ks ∧ StandsAt kind (i + ks.length) ls := by
  induction ks generalizing i with
  | nil => exact (true_and _).symm.to_iff
  | cons k ks ih =>
    have hplace : i + (k :: ks).length = i + 1 + ks.length := by
      rw [List.length_cons]
      omega
    rw [List.cons_append, StandsAt, StandsAt, ih, hplace, and_assoc]

theorem StandsAt.mem (h : StandsAt kind i ks) (hi : i ≤ k) (hk : k < i + ks.length) :
    kind k ∈ ks := by
  induction ks generalizing i with
  | nil => exact absurd hk (Nat.not_lt.2 hi)
  | cons first ks ih =>
    obtain ⟨hfirst, hrest⟩ := h
    obtain rfl | hlt := Nat.eq_or_lt_of_le hi
    · exact hfirst ▸ List.mem_cons_self
    · refine List.mem_cons_of_mem first (ih hrest hlt ?_)
      rw [List.length_cons] at hk
      omega

/-- Braces that are closed end where a balanced stretch does. -/
theorem Braces.eq_of_balanced (h : Braces ks) {i j : Nat} (hks : StandsAt kind i ks)
    (hclose : kind (i + ks.length) = .rightBrace) (hbalanced : Balanced kind i j)
    (hj : kind j = .rightBrace) : j = i + ks.length := by
  induction h generalizing i j with
  | nil =>
    cases hbalanced with
    | nil => rfl
    | ordinary hi => exact absurd hclose (Kind.isOrdinary_iff.1 hi).2.1
    | braces hi => exact absurd (hi.symm.trans hclose) (by decide)
  | @other k ks hopen hnot _ ih =>
    obtain ⟨hk, hks⟩ := hks
    have hlength : i + (k :: ks).length = i + 1 + ks.length := by
      rw [List.length_cons]
      omega
    rw [hlength] at hclose ⊢
    cases hbalanced with
    | nil => exact absurd (hk.symm.trans hj) hnot
    | ordinary _ hrest => exact ih hks hclose hrest hj
    | braces hi => exact absurd (hk.symm.trans hi) hopen
  | @braces inner ks _ _ ihinner ih =>
    obtain ⟨hopen, hinside⟩ := hks
    obtain ⟨hinner, hmiddle, hks⟩ := standsAt_append.1 hinside
    have hlength : i + (Kind.leftBrace :: (inner ++ .rightBrace :: ks)).length =
        i + 1 + inner.length + 1 + ks.length := by
      simp only [List.length_cons, List.length_append]
      omega
    rw [hlength] at hclose ⊢
    cases hbalanced with
    | nil => exact absurd (hopen.symm.trans hj) (by decide)
    | ordinary hi => exact absurd hopen (Kind.isOrdinary_iff.1 hi).1
    | braces _ hinside hm hbehind =>
      obtain rfl := ihinner hinner hmiddle hinside hm
      exact ih hks hclose hbehind hj

/-! ### Headers -/

namespace Braceless

theorem trans (h : Braceless kind i j) (h' : Braceless kind j k) : Braceless kind i k := by
  intro m hi hk
  by_cases hm : m < j
  · exact h m hi hm
  · exact h' m (Nat.le_of_not_lt hm) hk

theorem nil : Braceless kind i i :=
  fun _ hi hlt ↦ absurd hi (Nat.not_le.2 hlt)

theorem one (h : kind i ≠ .leftBrace) : Braceless kind i (i + 1) := by
  intro m hi hlt
  obtain rfl : m = i := Nat.le_antisymm (Nat.le_of_lt_succ hlt) hi
  exact h

end Braceless

section

variable {c d : Context} {mark : Kind} {name : Token} {info : FunctionInfo}

theorem TypedNameAt.braceless {n : TypedName} (h : TypedNameAt c i n) :
    Braceless c.kindAt i (i + 2) := by
  obtain ⟨hword, -⟩ := Option.filter_eq_some_iff.1 h.type
  have htype := (Kind.isOrdinary_iff.1 (isOrdinary_of_typeWord hword)).1
  exact (Braceless.one htype).trans (.one (h.kind ▸ by decide))

theorem TypedNamesAt.braceless {ns : List TypedName} (h : TypedNamesAt c mark i ns j)
    (hmark : mark ≠ .leftBrace) : Braceless c.kindAt i j := by
  induction h with
  | nil => exact .nil
  | snoc _ hname hafter ih => exact (ih.trans hname.braceless).trans (.one (hafter ▸ hmark))

theorem ParametersAt.braceless {ns : List TypedName} (h : ParametersAt c i ns j) :
    Braceless c.kindAt i j := by
  cases h with
  | none => exact .nil
  | some h hname => exact (h.braceless (by decide)).trans hname.braceless

/-- Between the word of a function and its body no brace is opened. -/
theorem HeaderAt.braceless (h : HeaderAt c i name info) {opening : Nat}
    (hstart : info.body.start = opening + 1) : Braceless c.kindAt (i + 1) opening := by
  have hone {k : Kind} {i : Nat} (hi : c.kindAt i = k) (hk : k ≠ .leftBrace) :
      Braceless c.kindAt i (i + 1) := .one (hi ▸ hk)
  cases h with
  | @function j _ returns hkind _ opens parameters closes start =>
    obtain rfl : opening = j + 1 := by omega
    have htype : Braceless c.kindAt (i + 1) (i + 2) :=
      .one (Kind.isOrdinary_iff.1 (isOrdinary_of_typeWord returns)).1
    exact (((htype.trans (hone hkind (by decide))).trans (hone opens (by decide))).trans
      parameters.braceless).trans (hone closes (by decide))
  | entryPoint _ _ opens closes _ _ start =>
    obtain rfl : opening = i + 3 := by omega
    exact (hone opens (by decide)).trans (hone closes (by decide))

namespace Occupies

theorem startsWith (h : Occupies kind i j) : kind i = .functionWord := by
  obtain ⟨header, body, hstands, -⟩ := h
  exact hstands.1

theorem lt (h : Occupies kind i j) : i < j := by
  obtain ⟨header, body, -, -, -, rfl⟩ := h
  exact Nat.lt_add_of_pos_right (Nat.succ_pos _)

/-- What a function takes up in a text that is accepted is what its tokens say. -/
theorem stop_eq (h : Occupies c.kindAt i j) (hheader : HeaderAt c i name info)
    (hbody : IsBody c info.body) (hbalanced : Balanced c.kindAt info.body.start info.body.stop)
    (hcloses : c.kindAt info.body.stop = .rightBrace) : info.body.stop + 1 = j := by
  obtain ⟨header, body, ⟨hword, hstands⟩, hnone, hbraces, rfl⟩ := h
  obtain ⟨opening, hstart, hbraced⟩ := hbody
  obtain ⟨hheader', hopen, hinside⟩ := standsAt_append.1 hstands
  obtain ⟨hbody', hclose, -⟩ := standsAt_append.1 hinside
  -- the first brace is the one behind the header
  have hopening : opening = i + 1 + header.length := by
    obtain hlt | heq | hgt := Nat.lt_trichotomy opening (i + 1 + header.length)
    · have hle := hheader.lt_start
      have hne : opening ≠ i := fun heq ↦
        absurd (hword.symm.trans (heq ▸ hbraced.opens)) (by decide)
      have hmem := hheader'.mem (k := opening) (by omega) hlt
      exact absurd (hbraced.opens ▸ hmem) hnone
    · exact heq
    · exact absurd hopen (hheader.braceless hstart _ (by omega) hgt)
  rw [hstart, hopening] at hbalanced
  have hstop := hbraces.eq_of_balanced hbody' hclose hbalanced hcloses
  simp only [functionKinds, List.length_cons, List.length_append, List.length_nil]
  omega

end Occupies

namespace Exchanged

variable {p q r : Nat}

theorem last (h : Exchanged c d p q r) : d.last = c.last := by
  rw [h.around]

theorem limits (h : Exchanged c d p q r) : d.limits = c.limits := by
  rw [h.around]

/-- What comes before, with the word that follows in both texts. -/
def leading (h : Exchanged c d p q r) : Stretch :=
  ⟨c.tokens, d.tokens, c.last, 0, 0, p, fun n hn ↦ by
    rw [Nat.zero_add] at hn ⊢
    exact h.before n hn, h.closed⟩

/-- The function that is the first one in the first text. -/
def ofFirst (h : Exchanged c d p q r) : Stretch :=
  ⟨c.tokens, d.tokens, c.last, p, p + (r - q), q - 1, fun n hn ↦
    h.moved n (by have := h.first.lt; omega), h.closed⟩

/-- The function that is the second one in the first text. -/
def ofSecond (h : Exchanged c d p q r) : Stretch :=
  ⟨c.tokens, d.tokens, c.last, q, p, r - 1, fun n hn ↦
    h.moved' n (by have := h.second.lt; omega), h.closed⟩

/-- What comes behind both, up to an index. -/
def trailing (h : Exchanged c d p q r) (stop : Nat) : Stretch :=
  ⟨c.tokens, d.tokens, c.last, r, r, stop, fun n _ ↦ h.after (r + n) (Nat.le_add_right r n), h.closed⟩

theorem closed' (h : Exchanged c d p q r) : d.Closed := by
  have hclosed := h.closed
  unfold Context.Closed at hclosed ⊢
  rwa [h.last]

end Exchanged

end

end FrontEnd
