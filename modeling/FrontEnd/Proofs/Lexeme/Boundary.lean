import FrontEnd.Lexeme.Read
import FrontEnd.Text.Blank
import Mathlib.Data.List.TakeWhile

/-!
# Where lexemes end

A blank and the start of a comment end every lexeme that is not quoted: neither continues a word, a
number, a run of signs or an operator.  `Stops rest` says that a text is empty or goes on with one
of them, and the lemmas here say that reading does not look into such a rest
(`Stops.takeWhile_eq_nil`).

The second half turns the order of the tests in `Lexeme.read` into one equation for each class of
first characters, so that later proofs do not open the definition.
-/

namespace FrontEnd

/-- The characters that end every lexeme that is not quoted. -/
def EndsLexeme (c : Char) : Prop :=
  Text.isBlank c ∨ c = '#'

instance : DecidablePred EndsLexeme := fun c ↦
  inferInstanceAs (Decidable (Text.isBlank c = true ∨ c = '#'))

/-- Nothing follows, or a blank or a comment. -/
def Stops (rest : List Char) : Prop :=
  ∀ c ∈ rest.head?, EndsLexeme c

@[simp] theorem stops_nil : Stops [] := by simp [Stops]

@[simp]
theorem stops_cons {c : Char} {rest : List Char} : Stops (c :: rest) ↔ EndsLexeme c := by
  simp [Stops]

/-! ### Classes of characters by code point -/

theorem isBlank_iff {c : Char} :
    Text.isBlank c ↔ (9 ≤ c.toNat ∧ c.toNat ≤ 13) ∨ c.toNat = 32 ∨ c.toNat = 133 ∨
      c.toNat = 160 ∨ c.toNat = 5760 ∨ (8192 ≤ c.toNat ∧ c.toNat ≤ 8202) ∨
      (8232 ≤ c.toNat ∧ c.toNat ≤ 8233) ∨ c.toNat = 8239 ∨ c.toNat = 8287 ∨ c.toNat = 12288 := by
  simp only [Text.isBlank, Text.blankRanges, List.any_cons, List.any_nil, Bool.or_false,
    Bool.or_eq_true, Bool.and_eq_true, decide_eq_true_eq]
  omega

theorem isAlpha_iff_toNat {c : Char} :
    c.isAlpha ↔ (65 ≤ c.toNat ∧ c.toNat ≤ 90) ∨ (97 ≤ c.toNat ∧ c.toNat ≤ 122) := by
  have hupper : c.isUpper ↔ 65 ≤ c.toNat ∧ c.toNat ≤ 90 := by
    show decide (c.val ≥ 'A'.val ∧ c.val ≤ 'Z'.val) = true ↔ _
    simp [UInt32.le_iff_toNat_le, ← Char.toNat_val]
  have hlower : c.isLower ↔ 97 ≤ c.toNat ∧ c.toNat ≤ 122 := by
    show (decide (c.val ≥ 'a'.val) && decide (c.val ≤ 'z'.val)) = true ↔ _
    simp [UInt32.le_iff_toNat_le, ← Char.toNat_val]
  rw [← hupper, ← hlower, ← Bool.or_eq_true]
  exact Iff.rfl

theorem EndsLexeme.toNat {c : Char} (h : EndsLexeme c) :
    c.toNat ≤ 13 ∨ c.toNat = 32 ∨ c.toNat = 35 ∨ 133 ≤ c.toNat := by
  rcases h with h | rfl
  · have := isBlank_iff.1 h
    omega
  · decide

theorem EndsLexeme.not_isDigit {c : Char} (h : EndsLexeme c) : c.isDigit = false := by
  have hc := h.toNat
  rw [Bool.eq_false_iff, ne_eq, Char.isDigit_iff_toNat]
  simp only [show '0'.toNat = 48 from rfl, show '9'.toNat = 57 from rfl]
  omega

theorem EndsLexeme.not_isWordChar {c : Char} (h : EndsLexeme c) :
    Lexeme.isWordChar c = false := by
  have hc := h.toNat
  have hunder : c ≠ '_' := by
    rintro rfl
    revert hc
    decide
  have halpha : ¬ c.isAlpha := by
    rw [isAlpha_iff_toNat]
    omega
  simp [Lexeme.isWordChar, Char.isAlphanum, halpha, h.not_isDigit, hunder]

/-! ### Reading up to a boundary -/

namespace Stops

variable {rest : List Char} {p : Char → Bool}

theorem takeWhile_eq_nil (h : Stops rest) (hp : ∀ c, EndsLexeme c → p c = false) :
    rest.takeWhile p = [] := by
  cases rest with
  | nil => rfl
  | cons c rest => simp [hp c (stops_cons.1 h)]

/-- A mark is no prefix of a text through the boundary unless it is one before it. -/
theorem isPrefixOf_append (h : Stops rest) :
    ∀ {mark : List Char}, (∀ d ∈ mark, ¬ EndsLexeme d) →
      ∀ w, mark.isPrefixOf (w ++ rest) = mark.isPrefixOf w
  | [], _, w => by simp
  | d :: mark, hd, [] => by
    cases rest with
    | nil => rfl
    | cons c rest =>
      have hne : d ≠ c := fun hdc ↦ hd d List.mem_cons_self (hdc ▸ stops_cons.1 h)
      simp [List.isPrefixOf, hne]
  | d :: mark, hd, c :: w => by
    have ih := h.isPrefixOf_append (fun e he ↦ hd e (List.mem_cons_of_mem _ he)) w
    simp [List.isPrefixOf, ih]

theorem head?_ne_equals (h : Stops rest) : rest.head? ≠ some '=' :=
  fun hhead ↦ absurd (h '=' hhead) (by decide)

end Stops

/-! ### The tests of the first character -/

namespace Lexeme

variable {limit : Nat} {c : Char} {cs : List Char}

theorem isDigit_ne {c d : Char} (h : c.isDigit) (hd : d.isDigit = false) : c ≠ d := by
  rintro rfl
  simp [h] at hd

theorem read_quote : read limit '"' cs = stringLiteral cs := rfl

theorem read_apostrophe : read limit '\'' cs = characterLiteral cs := rfl

theorem read_digit (h : c.isDigit) : read limit c cs = numeral false c cs := by
  have h₁ : c ≠ '"' := isDigit_ne h rfl
  have h₂ : c ≠ '\'' := isDigit_ne h rfl
  exact (if_neg h₁).trans ((if_neg h₂).trans (if_pos h))

theorem read_letter (h : c.isAlpha) : read limit c cs = word limit c cs := by
  have h₁ : c ≠ '"' := by rintro rfl; simp at h
  have h₂ : c ≠ '\'' := by rintro rfl; simp at h
  have h₃ : ¬ c.isDigit := by
    rw [isAlpha_iff_toNat] at h
    rw [Char.isDigit_iff_toNat]
    simp only [show '0'.toNat = 48 from rfl, show '9'.toNat = 57 from rfl]
    omega
  have hfirst : c.isAlpha || c == '_' := by simp [h]
  exact (if_neg h₁).trans ((if_neg h₂).trans ((if_neg h₃).trans (if_pos hfirst)))

/-- The first characters that only operators and marks have. -/
def isMark (c : Char) : Bool :=
  !(c.isAlphanum || ['"', '\'', '_', '+', '-', '~'].contains c)

theorem read_mark (h : isMark c) : read limit c cs = operator c cs := by
  simp only [isMark, Char.isAlphanum, List.contains_cons, List.contains_nil, Bool.or_false,
    Bool.not_eq_true', Bool.or_eq_false_iff, beq_eq_false_iff_ne] at h
  obtain ⟨⟨halpha, hdigit⟩, hquote, happ, hunder, hplus, hminus, htilde⟩ := h
  have hsign : signKinds? c = none := by
    unfold signKinds?
    split
    · exact absurd rfl hplus
    · exact absurd rfl hminus
    · rfl
  simp [read, hquote, happ, hdigit, halpha, hunder, hsign, htilde]

theorem read_tilde {d : Char} (h : d.isDigit) :
    read limit '~' (d :: cs) = (numeral true d cs).shifted 1 := by
  show (if d.isDigit then (numeral true d cs).shifted 1 else refused 0 (.illegalCharacter '~')) = _
  exact if_pos h

theorem read_plus : read limit '+' cs = signRun ⟨.plus, .increment, .plusAssign⟩ '+' cs :=
  rfl

theorem read_minus : read limit '-' cs = signRun ⟨.minus, .decrement, .minusAssign⟩ '-' cs :=
  rfl

end Lexeme

end FrontEnd
