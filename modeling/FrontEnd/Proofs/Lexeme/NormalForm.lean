import FrontEnd.Lexeme.Numeral
import Mathlib.Data.List.DropRight

/-!
# Normal forms of numbers

Normalizing a number decides on its significant digits: the leading zeros of the whole part and the
trailing zeros of the fraction play no part.  So the digits of a normal form, normalized again, give
that normal form (`normalInteger_wholePart`, `normalDouble_wholePart_fractionPart`), and
a successful normalization is the digits in normal form with at most a sign in front
(`normalInteger_eq_ok`, `normalDouble_eq_ok`).

Zero loses its sign.  What came out without a sign would therefore have come out of the digits
alone, and this is what lets a printed literal be read back.
-/

namespace FrontEnd.Lexeme

variable {digits whole fraction : List Char} {negative : Bool}

/-! ### Leading zeros -/

theorem stripLeadingZeros_stripLeadingZeros (digits : List Char) :
    stripLeadingZeros (stripLeadingZeros digits) = stripLeadingZeros digits :=
  List.dropWhile_idempotent _ _

/-- Digits that are all zeros keep one. -/
theorem wholePart_of_eq_nil (h : stripLeadingZeros digits = []) : wholePart digits = ['0'] := by
  rw [wholePart, h]
  rfl

theorem wholePart_of_ne_nil (h : stripLeadingZeros digits ≠ []) :
    wholePart digits = stripLeadingZeros digits := by
  simp [wholePart, h]

theorem stripLeadingZeros_wholePart (digits : List Char) :
    stripLeadingZeros (wholePart digits) = stripLeadingZeros digits := by
  by_cases h : stripLeadingZeros digits = []
  · rw [wholePart_of_eq_nil h, h]
    rfl
  · rw [wholePart_of_ne_nil h, stripLeadingZeros_stripLeadingZeros]

theorem wholePart_wholePart (digits : List Char) :
    wholePart (wholePart digits) = wholePart digits := by
  rw [wholePart, stripLeadingZeros_wholePart]
  rfl

theorem wholePart_ne_nil (digits : List Char) : wholePart digits ≠ [] := by
  by_cases h : stripLeadingZeros digits = []
  · simp [wholePart_of_eq_nil h]
  · rwa [wholePart_of_ne_nil h]

theorem isDigit_of_mem_wholePart (h : ∀ c ∈ digits, c.isDigit) :
    ∀ c ∈ wholePart digits, c.isDigit := by
  by_cases hs : stripLeadingZeros digits = []
  · simp [wholePart_of_eq_nil hs]
  · rw [wholePart_of_ne_nil hs]
    exact fun c hc ↦ h c ((List.dropWhile_sublist _).subset hc)

/-! ### Trailing zeros -/

theorem stripTrailingZeros_eq_rdropWhile (digits : List Char) :
    stripTrailingZeros digits = digits.rdropWhile (· == '0') := rfl

theorem stripTrailingZeros_append_zeros (digits : List Char) (n : Nat) :
    stripTrailingZeros (digits ++ List.replicate n '0') = stripTrailingZeros digits := by
  induction n with
  | zero => simp
  | succ n ih =>
    rw [List.replicate_succ', ← List.append_assoc, stripTrailingZeros_eq_rdropWhile,
      List.rdropWhile_concat_pos _ _ _ rfl, ← stripTrailingZeros_eq_rdropWhile, ih]

theorem stripTrailingZeros_fractionPart (digits : List Char) :
    stripTrailingZeros (fractionPart digits) = stripTrailingZeros digits := by
  rw [fractionPart, stripTrailingZeros_append_zeros]
  exact List.rdropWhile_idempotent _ _

theorem fractionPart_fractionPart (digits : List Char) :
    fractionPart (fractionPart digits) = fractionPart digits := by
  rw [fractionPart, stripTrailingZeros_fractionPart]
  rfl

theorem fractionPart_ne_nil (digits : List Char) : fractionPart digits ≠ [] := by
  rcases h : stripTrailingZeros digits with - | ⟨c, cs⟩ <;> simp [fractionPart, h]

theorem isDigit_of_mem_fractionPart (h : ∀ c ∈ digits, c.isDigit) :
    ∀ c ∈ fractionPart digits, c.isDigit := by
  intro c hc
  rcases List.mem_append.1 hc with hc | hc
  · exact h c ((List.rdropWhile_prefix _ _).subset hc)
  · rw [List.eq_of_mem_replicate hc]
    rfl

/-! ### Integers -/

/-- The digits of a normal form are normal. -/
theorem normalInteger_wholePart (digits : List Char) (negative : Bool) :
    normalInteger (wholePart digits) negative = normalInteger digits negative := by
  rw [normalInteger, stripLeadingZeros_wholePart]
  rfl

/-- The two forms of a normal integer; the one without a sign does not depend on whether a sign was
written. -/
theorem normalInteger_eq_ok {k : Kind} {s : String}
    (h : normalInteger digits negative = .ok (k, s)) :
    (k = .intLit ∧ s = String.ofList (wholePart digits) ∧
      normalInteger digits false = .ok (.intLit, s)) ∨
    (k = .negIntLit ∧ s = String.ofList ('-' :: wholePart digits) ∧
      normalInteger digits true = .ok (.negIntLit, s)) := by
  by_cases hlong : (stripLeadingZeros digits).length > maxWholeDigits
  · simp [normalInteger, hlong] at h
  have hform : ∀ b, normalInteger digits b =
      if (stripLeadingZeros digits).isEmpty then .ok (.intLit, "0")
      else if b then .ok (.negIntLit, String.ofList ('-' :: stripLeadingZeros digits))
      else .ok (.intLit, String.ofList (stripLeadingZeros digits)) := fun b ↦ if_neg hlong
  by_cases hs : stripLeadingZeros digits = []
  · rw [hform, if_pos (by simp [hs])] at h
    rw [hform, if_pos (by simp [hs]), wholePart_of_eq_nil hs]
    cases h
    exact .inl ⟨rfl, rfl, rfl⟩
  · simp only [hform, List.isEmpty_iff, if_neg hs] at h ⊢
    rw [wholePart_of_ne_nil hs]
    cases negative <;> cases h
    · exact .inl ⟨rfl, rfl, rfl⟩
    · exact .inr ⟨rfl, rfl, rfl⟩

/-! ### Doubles -/

theorem normalDouble_wholePart_fractionPart (h : fraction ≠ []) (whole : List Char)
    (negative : Bool) :
    normalDouble (wholePart whole) (fractionPart fraction) negative =
      normalDouble whole fraction negative := by
  have hempty : (fractionPart fraction).isEmpty = fraction.isEmpty := by
    rw [List.isEmpty_eq_false_iff.2 (fractionPart_ne_nil _), List.isEmpty_eq_false_iff.2 h]
  rw [normalDouble, wholePart_wholePart, fractionPart_fractionPart,
    stripTrailingZeros_fractionPart, hempty]
  rfl

theorem normalDouble_eq_ok {k : Kind} {s : String}
    (h : normalDouble whole fraction negative = .ok (k, s)) :
    fraction ≠ [] ∧
    ((k = .doubleLit ∧ s = String.ofList (wholePart whole ++ '.' :: fractionPart fraction) ∧
      normalDouble whole fraction false = .ok (.doubleLit, s)) ∨
    (k = .negDoubleLit ∧
      s = String.ofList ('-' :: (wholePart whole ++ '.' :: fractionPart fraction)) ∧
      normalDouble whole fraction true = .ok (.negDoubleLit, s))) := by
  have hf : fraction ≠ [] := by
    rintro rfl
    simp [normalDouble] at h
  have hw : ¬ (wholePart whole).length > maxWholeDigits := by
    intro hw
    simp [normalDouble, hf, hw] at h
  have hl : ¬ (stripTrailingZeros fraction).length > maxFractionDigits := by
    intro hl
    simp [normalDouble, hf, hw, hl] at h
  have hform : ∀ b, normalDouble whole fraction b =
      if b && !(wholePart whole == ['0'] && (stripTrailingZeros fraction).isEmpty) then
        .ok (.negDoubleLit,
          String.ofList ('-' :: (wholePart whole ++ '.' :: fractionPart fraction)))
      else .ok (.doubleLit, String.ofList (wholePart whole ++ '.' :: fractionPart fraction)) :=
    fun b ↦ by rw [normalDouble, if_neg (by simpa using hf), if_neg hw, if_neg hl]
  refine ⟨hf, ?_⟩
  rw [hform] at h
  split at h
  next hneg =>
    obtain rfl : negative = true := ((Bool.and_eq_true _ _).mp hneg).1
    cases h
    exact .inr ⟨rfl, rfl, by rw [hform, if_pos hneg]⟩
  next hneg =>
    cases h
    exact .inl ⟨rfl, rfl, by rw [hform]; rfl⟩

end FrontEnd.Lexeme
