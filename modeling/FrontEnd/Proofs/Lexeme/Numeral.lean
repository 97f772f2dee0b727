import FrontEnd.Proofs.Lexeme.Constant
import FrontEnd.Proofs.Lexeme.Respell
import Mathlib.Data.Rat.Floor
import Mathlib.Tactic.FieldSimp
import Mathlib.Tactic.Positivity

/-!
# The values of numerals

A numeral is a row of digits, perhaps with a mark for negative numbers in front and with a point and
further digits behind; it stands for a rational number (`Numeral.value`).  Its lexeme is a text in
decimal notation, which denotes a rational number of its own (`Text.rational?`).

The normal form keeps the value and forgets everything else.  That it keeps the value is a fact about
zeros: those in front of a whole number and those behind a fraction add nothing to it.  That it forgets
everything else is the converse: the digits of a normal form are determined by the value, those of the
whole part by its integral part (`Text.wholePart_eq_toDigits`) and those of the fraction by the rest
(`stripTrailingZeros_inj`), since rows of digits that are filled up to one length are told apart by
their values.
-/

namespace FrontEnd

/-- A number as it is written. -/
structure Numeral where
  /-- Whether the mark for negative numbers stands in front. -/
  negative : Bool
  /-- The digits before the point. -/
  whole : List Char
  /-- The digits after the point, if there is a point. -/
  fraction : Option (List Char)
  whole_ne_nil : whole ≠ []
  isDigit_of_mem_whole : ∀ c ∈ whole, c.isDigit
  isDigit_of_mem_fraction : ∀ f ∈ fraction, ∀ c ∈ f, c.isDigit

namespace Text

/-! ### Decimal notation -/

/-- The number that a decimal fraction is. -/
def Decimal.value (d : Decimal) : ℚ :=
  digitsValue d.digits * 10 ^ (d.exponent - d.places)

/-- The number that a text in decimal notation denotes; a sign may stand in front. -/
def rational? : List Char → Option ℚ
  | '-' :: cs => (unsignedDecimal? cs).map fun d ↦ -d.value
  | cs => (unsignedDecimal? cs).map Decimal.value

/-- What digits after a point add to a number. -/
def fractionValue (digits : List Char) : ℚ :=
  digitsValue digits / 10 ^ digits.length

section

variable {digits whole fraction : List Char}

/-! ### The value of digits -/

theorem digitsValue_append (a b : List Char) :
    digitsValue (a ++ b) = digitsValue a * 10 ^ b.length + digitsValue b := by
  induction b using List.reverseRecOn with
  | nil => simp [digitsValue]
  | append_singleton b c ih =>
    rw [← List.append_assoc, digitsValue_concat, digitsValue_concat, ih, List.length_append,
      List.length_singleton, Nat.pow_succ]
    ring

theorem digitsValue_zeros (n : Nat) : digitsValue (List.replicate n '0') = 0 :=
  (digitsValue_eq_zero_iff fun _ hc ↦ List.eq_of_mem_replicate hc ▸ rfl).2
    fun _ hc ↦ List.eq_of_mem_replicate hc

/-- Zeros in front of a whole number add nothing. -/
theorem digitsValue_stripLeadingZeros (digits : List Char) :
    digitsValue (Lexeme.stripLeadingZeros digits) = digitsValue digits := by
  have hzeros : digits.takeWhile (· == '0') =
      List.replicate (digits.takeWhile (· == '0')).length '0' :=
    List.eq_replicate_of_mem fun _ hc ↦ by simpa using List.mem_takeWhile_imp hc
  conv_rhs => rw [← List.takeWhile_append_dropWhile (p := (· == '0')) (l := digits), hzeros,
    digitsValue_append, digitsValue_zeros, Nat.zero_mul, Nat.zero_add]
  rfl

theorem digitsValue_wholePart (digits : List Char) :
    digitsValue (Lexeme.wholePart digits) = digitsValue digits := by
  rw [← digitsValue_stripLeadingZeros, Lexeme.stripLeadingZeros_wholePart,
    digitsValue_stripLeadingZeros]

theorem fractionValue_nonneg (digits : List Char) : 0 ≤ fractionValue digits := by
  unfold fractionValue
  positivity

theorem fractionValue_lt_one (h : ∀ c ∈ digits, c.isDigit) : fractionValue digits < 1 := by
  rw [fractionValue, div_lt_one (by positivity)]
  exact_mod_cast digitsValue_lt h

/-- Zeros behind a fraction add nothing. -/
theorem fractionValue_append_zeros (digits : List Char) (n : Nat) :
    fractionValue (digits ++ List.replicate n '0') = fractionValue digits := by
  rw [fractionValue, fractionValue, digitsValue_append, digitsValue_zeros, List.length_append,
    List.length_replicate, Nat.add_zero, pow_add]
  push_cast
  field_simp

theorem exists_stripTrailingZeros_append (digits : List Char) :
    ∃ n, digits = Lexeme.stripTrailingZeros digits ++ List.replicate n '0' := by
  induction digits using List.reverseRecOn with
  | nil => exact ⟨0, rfl⟩
  | append_singleton digits c ih =>
    rw [Lexeme.stripTrailingZeros_eq_rdropWhile] at ih ⊢
    by_cases hc : c = '0'
    · obtain ⟨n, hn⟩ := ih
      refine ⟨n + 1, ?_⟩
      rw [List.rdropWhile_concat_pos _ _ _ (by simp [hc]), List.replicate_succ', ← List.append_assoc,
        ← hn, hc]
    · exact ⟨0, by rw [List.rdropWhile_concat_neg _ _ _ (by simp [hc])]; simp⟩

theorem fractionValue_stripTrailingZeros (digits : List Char) :
    fractionValue (Lexeme.stripTrailingZeros digits) = fractionValue digits := by
  obtain ⟨n, hn⟩ := exists_stripTrailingZeros_append digits
  conv_rhs => rw [hn, fractionValue_append_zeros]

theorem fractionValue_fractionPart (digits : List Char) :
    fractionValue (Lexeme.fractionPart digits) = fractionValue digits := by
  rw [Lexeme.fractionPart, fractionValue_append_zeros, fractionValue_stripTrailingZeros]

/-! ### Digits told from values -/

/-- Rows of digits of one length are told apart by their values. -/
theorem eq_of_digitsValue_eq {a b : List Char} (ha : ∀ c ∈ a, c.isDigit) (hb : ∀ c ∈ b, c.isDigit)
    (hlength : a.length = b.length) (hvalue : digitsValue a = digitsValue b) : a = b := by
  induction a using List.reverseRecOn generalizing b with
  | nil => exact (List.length_eq_zero_iff.1 hlength.symm).symm
  | append_singleton a c ih =>
    obtain ⟨b, d, rfl⟩ : ∃ b' d, b = b' ++ [d] := by
      rcases List.eq_nil_or_concat b with rfl | ⟨b', d, rfl⟩
      · simp at hlength
      · exact ⟨b', d, List.concat_eq_append⟩
    rw [List.forall_mem_append, List.forall_mem_singleton] at ha hb
    rw [digitsValue_concat, digitsValue_concat] at hvalue
    have hc := digit_lt_ten ha.2
    have hd := digit_lt_ten hb.2
    have hinit : a = b := ih ha.1 hb.1 (by simpa using hlength) (by omega)
    have hlast : [c] = [d] := by
      rw [← toDigits_digit ha.2, ← toDigits_digit hb.2]
      congr 1
      omega
    rw [hinit, hlast]

/-- Fractions of one value are one but for the zeros behind them. -/
theorem stripTrailingZeros_inj {a b : List Char} (ha : ∀ c ∈ a, c.isDigit)
    (hb : ∀ c ∈ b, c.isDigit) (h : fractionValue a = fractionValue b) :
    Lexeme.stripTrailingZeros a = Lexeme.stripTrailingZeros b := by
  have hfilled {digits : List Char} (hdigits : ∀ c ∈ digits, c.isDigit) (n : Nat) :
      ∀ c ∈ digits ++ List.replicate n '0', c.isDigit :=
    List.forall_mem_append.2 ⟨hdigits, fun _ hc ↦ List.eq_of_mem_replicate hc ▸ rfl⟩
  have hlength : (a ++ List.replicate b.length '0').length =
      (b ++ List.replicate a.length '0').length := by
    simp [Nat.add_comm]
  have hvalue : digitsValue (a ++ List.replicate b.length '0') =
      digitsValue (b ++ List.replicate a.length '0') := by
    rw [← fractionValue_append_zeros a b.length, ← fractionValue_append_zeros b a.length,
      fractionValue, fractionValue, hlength, div_left_inj' (by positivity)] at h
    exact_mod_cast h
  rw [← Lexeme.stripTrailingZeros_append_zeros a b.length,
    ← Lexeme.stripTrailingZeros_append_zeros b a.length,
    eq_of_digitsValue_eq (hfilled ha _) (hfilled hb _) hlength hvalue]

/-! ### Reading decimal notation -/

theorem unsignedDecimal?_whole (h : ∀ c ∈ digits, c.isDigit) (hne : digits ≠ []) :
    unsignedDecimal? digits = some ⟨digits, 0, 0⟩ := by
  have htake : digits.takeWhile Char.isDigit = digits := List.takeWhile_eq_self_iff.2 h
  simp [unsignedDecimal?, htake, hne, exponent?]

theorem value_whole (digits : List Char) : (Decimal.mk digits 0 0).value = digitsValue digits := by
  simp [Decimal.value]

theorem value_fraction (whole fraction : List Char) :
    (Decimal.mk (whole ++ fraction) fraction.length 0).value =
      digitsValue whole + fractionValue fraction := by
  rw [Decimal.value, fractionValue, digitsValue_append, Int.zero_sub, zpow_neg, zpow_natCast]
  push_cast
  field_simp

end

end Text

namespace Numeral

/-! ### What a numeral is -/

/-- How a numeral is written. -/
def text (n : Numeral) : List Char :=
  (if n.negative then ['~'] else []) ++ (n.whole ++ n.fraction.elim [] ('.' :: ·))

/-- The value without the sign. -/
def magnitude (n : Numeral) : ℚ :=
  Text.digitsValue n.whole + n.fraction.elim 0 Text.fractionValue

/-- The number a numeral stands for. -/
def value (n : Numeral) : ℚ :=
  if n.negative then -n.magnitude else n.magnitude

/-- The significant digits are not too many, and if there is a point there are digits behind it. -/
def Fits (n : Numeral) : Prop :=
  (Lexeme.stripLeadingZeros n.whole).length ≤ 16 ∧
    ∀ f ∈ n.fraction, f ≠ [] ∧ (Lexeme.stripTrailingZeros f).length ≤ 8

/-- The normal form of a numeral, or why it has none. -/
def normal (n : Numeral) : Except Fault (Kind × String) :=
  match n.fraction with
  | none => Lexeme.normalInteger n.whole n.negative
  | some fraction => Lexeme.normalDouble n.whole fraction n.negative

/-- Whether the number is below zero: the mark alone does not make it so. -/
def isNegative (n : Numeral) : Bool :=
  decide (n.negative ∧ n.value ≠ 0)

/-- The kind of a numeral: with or without a point, below zero or not. -/
def kind (n : Numeral) : Kind :=
  match n.fraction.isSome, n.isNegative with
  | false, false => .intLit
  | false, true => .negIntLit
  | true, false => .doubleLit
  | true, true => .negDoubleLit

/-- The digits of the normal form, with the point. -/
def normalDigits (n : Numeral) : List Char :=
  Lexeme.wholePart n.whole ++ n.fraction.elim [] fun f ↦ '.' :: Lexeme.fractionPart f

/-- The lexeme of the normal form. -/
def lexeme (n : Numeral) : String :=
  String.ofList ((if n.isNegative then ['-'] else []) ++ n.normalDigits)

section

variable {m n : Numeral}

theorem magnitude_nonneg (n : Numeral) : 0 ≤ n.magnitude := by
  unfold magnitude
  cases n.fraction with
  | none => simp
  | some f => exact add_nonneg (by positivity) (Text.fractionValue_nonneg f)

theorem abs_value (n : Numeral) : |n.value| = n.magnitude := by
  unfold value
  split
  · rw [abs_neg, abs_of_nonneg n.magnitude_nonneg]
  · exact abs_of_nonneg n.magnitude_nonneg

theorem value_eq_zero_iff_magnitude : n.value = 0 ↔ n.magnitude = 0 := by
  rw [← abs_value, abs_eq_zero]

theorem isNegative_eq (n : Numeral) : n.isNegative = decide (n.value < 0) := by
  refine decide_eq_decide.2 ?_
  have hmagnitude := n.magnitude_nonneg
  rw [ne_eq, value_eq_zero_iff_magnitude, value]
  split
  next hnegative => simp [hnegative, lt_iff_le_and_ne, hmagnitude, eq_comm]
  next hnegative => simp [hnegative, not_lt.2 hmagnitude]

/-- The value is the magnitude, with a sign if it is below zero. -/
theorem value_eq (n : Numeral) : n.value = if n.isNegative then -n.magnitude else n.magnitude := by
  rw [isNegative, value]
  by_cases hnegative : n.negative
  · by_cases hzero : n.magnitude = 0
    · simp [hnegative, hzero]
    · simp [hnegative, hzero]
  · simp [hnegative]

/-- A numeral is zero if all of its digits are. -/
theorem value_eq_zero_iff :
    n.value = 0 ↔ (∀ c ∈ n.whole, c = '0') ∧ ∀ f ∈ n.fraction, ∀ c ∈ f, c = '0' := by
  rw [value_eq_zero_iff_magnitude, magnitude, ← Text.digitsValue_eq_zero_iff n.isDigit_of_mem_whole]
  cases hf : n.fraction with
  | none => simp
  | some f =>
    have hzero : Text.fractionValue f = 0 ↔ ∀ c ∈ f, c = '0' := by
      rw [← Text.digitsValue_eq_zero_iff (n.isDigit_of_mem_fraction f hf), Text.fractionValue]
      simp
    rw [Option.elim_some, add_eq_zero_iff_of_nonneg (by positivity) (Text.fractionValue_nonneg f),
      hzero]
    simp

/-! ### Normalizing -/

theorem length_wholePart_le_iff {digits : List Char} {bound : Nat} (h : 1 ≤ bound) :
    (Lexeme.wholePart digits).length ≤ bound ↔
      (Lexeme.stripLeadingZeros digits).length ≤ bound := by
  by_cases hs : Lexeme.stripLeadingZeros digits = []
  · rw [Lexeme.wholePart_of_eq_nil hs, hs]
    simpa using h
  · rw [Lexeme.wholePart_of_ne_nil hs]

theorem normal_of_fits (hfits : n.Fits) : n.normal = .ok (n.kind, n.lexeme) := by
  obtain ⟨hwhole, hfraction⟩ := hfits
  cases hf : n.fraction with
  | none =>
    have hshort : ¬ (Lexeme.stripLeadingZeros n.whole).length > Lexeme.maxWholeDigits :=
      Nat.not_lt.2 hwhole
    have hzero : Lexeme.stripLeadingZeros n.whole = [] ↔ n.value = 0 := by
      rw [Lexeme.stripLeadingZeros_eq_nil_iff, value_eq_zero_iff]
      simp [hf]
    simp only [normal, hf, Lexeme.normalInteger, if_neg hshort, List.isEmpty_iff, hzero, kind, lexeme,
      normalDigits, Lexeme.wholePart, Option.elim_none, List.append_nil, isNegative]
    by_cases hvalue : n.value = 0
    · simp [hvalue]
    · by_cases hnegative : n.negative <;> simp [hvalue, hnegative]
  | some f =>
    obtain ⟨hne, hplaces⟩ := hfraction f hf
    have hshort : ¬ (Lexeme.wholePart n.whole).length > Lexeme.maxWholeDigits :=
      Nat.not_lt.2 ((length_wholePart_le_iff (by decide)).2 hwhole)
    have hprecise : ¬ (Lexeme.stripTrailingZeros f).length > Lexeme.maxFractionDigits :=
      Nat.not_lt.2 hplaces
    have hzero : n.value = 0 ↔
        Lexeme.wholePart n.whole = ['0'] ∧ Lexeme.stripTrailingZeros f = [] := by
      rw [Lexeme.wholePart_eq_zero_iff, Lexeme.stripTrailingZeros_eq_nil_iff, value_eq_zero_iff]
      simp [hf]
    have hsign : (n.negative && !(Lexeme.wholePart n.whole == ['0'] &&
        (Lexeme.stripTrailingZeros f).isEmpty)) = n.isNegative := by
      rw [Bool.eq_iff_iff, isNegative, decide_eq_true_eq, ne_eq, hzero]
      simp [imp_iff_not_or]
    simp only [normal, hf, Lexeme.normalDouble, List.isEmpty_iff, if_neg hne, if_neg hshort,
      if_neg hprecise, hsign, kind, lexeme, normalDigits, Option.elim_some, Option.isSome_some]
    cases n.isNegative <;> rfl

theorem exists_error_of_not_fits (hfits : ¬ n.Fits) : ∃ cause, n.normal = .error cause := by
  rw [normal]
  cases hf : n.fraction with
  | none =>
    have hlong : (Lexeme.stripLeadingZeros n.whole).length > Lexeme.maxWholeDigits := by
      simpa [Fits, hf, Lexeme.maxWholeDigits] using hfits
    exact ⟨_, if_pos hlong⟩
  | some f =>
    simp only [Lexeme.normalDouble]
    by_cases hne : f.isEmpty
    · exact ⟨_, if_pos hne⟩
    by_cases hlong : (Lexeme.wholePart n.whole).length > Lexeme.maxWholeDigits
    · exact ⟨_, by rw [if_neg hne, if_pos hlong]⟩
    by_cases hplaces : (Lexeme.stripTrailingZeros f).length > Lexeme.maxFractionDigits
    · exact ⟨_, by rw [if_neg hne, if_neg hlong, if_pos hplaces]⟩
    refine absurd ⟨(length_wholePart_le_iff (by decide)).1 (Nat.not_lt.1 hlong), ?_⟩ hfits
    intro g hg
    obtain rfl : f = g := Option.some.inj (hf.symm.trans hg)
    exact ⟨by simpa using hne, Nat.not_lt.1 hplaces⟩

/-- Normalizing succeeds on the numerals that fit, with one kind and one lexeme for each. -/
theorem normal_eq_ok_iff {t : Kind × String} :
    n.normal = .ok t ↔ n.Fits ∧ t = (n.kind, n.lexeme) := by
  by_cases hfits : n.Fits
  · rw [normal_of_fits hfits]
    simp [hfits, eq_comm]
  · obtain ⟨cause, hcause⟩ := exists_error_of_not_fits hfits
    simp [hcause, hfits]

/-- The lexeme of a normal form denotes the number that was written. -/
theorem rational?_lexeme (n : Numeral) : Text.rational? n.lexeme.toList = some n.value := by
  have hwhole := Lexeme.isDigit_of_mem_wholePart n.isDigit_of_mem_whole
  -- Without its sign the lexeme is a decimal of the same magnitude.
  have hdigits : (Text.unsignedDecimal? n.normalDigits).map Text.Decimal.value =
      some n.magnitude := by
    unfold normalDigits magnitude
    cases hf : n.fraction with
    | none =>
      rw [Option.elim_none, List.append_nil,
        Text.unsignedDecimal?_whole hwhole (Lexeme.wholePart_ne_nil _), Option.map_some,
        Text.value_whole, Text.digitsValue_wholePart, Option.elim_none, add_zero]
    | some f =>
      rw [Option.elim_some, Text.unsignedDecimal?_digits hwhole
        (Lexeme.isDigit_of_mem_fractionPart (n.isDigit_of_mem_fraction f hf)) (Lexeme.wholePart_ne_nil _),
        Option.map_some, Text.value_fraction, Text.digitsValue_wholePart,
        Text.fractionValue_fractionPart, Option.elim_some]
  rw [lexeme, String.toList_ofList, value_eq]
  cases n.isNegative with
  | true =>
    have hsigned (cs : List Char) : Text.rational? ('-' :: cs) =
        ((Text.unsignedDecimal? cs).map Text.Decimal.value).map (- ·) := by
      simp [Text.rational?, Function.comp_def]
    simpa [hdigits] using hsigned n.normalDigits
  | false =>
    -- A lexeme without a sign begins with a digit.
    have hhead : ∀ cs, n.normalDigits ≠ '-' :: cs := by
      obtain ⟨d, ds, hds⟩ := List.exists_cons_of_ne_nil (Lexeme.wholePart_ne_nil n.whole)
      have hd := hwhole d (by simp [hds])
      rintro cs heq
      rw [normalDigits, hds] at heq
      cases heq
      cases hd
    rw [if_neg (by decide), if_neg (by decide), List.nil_append, ← hdigits]
    unfold Text.rational?
    split
    next cs heq => exact absurd heq (hhead cs)
    next => rfl

/-! ### Reading numerals -/

/-- A numeral is read as one number, up to what cannot be a part of it. -/
theorem read_text (limit : Nat) (n : Numeral) {rest : List Char} (hrest : Lexeme.EndsNumeral rest) :
    ∃ c cs, n.text ++ rest = c :: cs ∧
      Lexeme.read limit c cs = Lexeme.ofNormal (n.text.length - 1) n.normal := by
  obtain ⟨d, ds, hds⟩ := List.exists_cons_of_ne_nil n.whole_ne_nil
  obtain ⟨hd, hdigits⟩ := List.forall_mem_cons.1 (hds ▸ n.isDigit_of_mem_whole)
  have hnumeral : Lexeme.numeral n.negative d (ds ++ n.fraction.elim [] ('.' :: ·) ++ rest) =
      Lexeme.ofNormal (ds ++ n.fraction.elim [] ('.' :: ·)).length n.normal := by
    rw [normal, hds]
    cases hf : n.fraction with
    | none => simpa using Lexeme.numeral_append_whole hdigits hrest
    | some f =>
      simpa using Lexeme.numeral_append_fraction hdigits (n.isDigit_of_mem_fraction f hf) hrest
  rw [text, hds]
  cases hnegative : n.negative with
  | false =>
    refine ⟨d, ds ++ n.fraction.elim [] ('.' :: ·) ++ rest, by simp, ?_⟩
    rw [Lexeme.read_digit hd, ← hnegative, hnumeral]
    simp [hnegative]
  | true =>
    refine ⟨'~', d :: (ds ++ n.fraction.elim [] ('.' :: ·) ++ rest), by simp, ?_⟩
    rw [Lexeme.read_tilde hd, ← hnegative, hnumeral]
    cases n.normal <;>
      simp [hnegative, Lexeme.ofNormal, Lexeme.shifted, Lexeme.token, Lexeme.refused]

/-! ### Numerals of one value -/

/-- The digits before the point write the integral part. -/
theorem digitsValue_whole_eq_floor (n : Numeral) : Text.digitsValue n.whole = ⌊n.magnitude⌋ := by
  rw [magnitude, Int.floor_natCast_add]
  suffices ⌊n.fraction.elim 0 Text.fractionValue⌋ = 0 by rw [this, add_zero]
  cases hf : n.fraction with
  | none => simp
  | some f =>
    exact Int.floor_eq_zero_iff.2
      ⟨Text.fractionValue_nonneg f, Text.fractionValue_lt_one (n.isDigit_of_mem_fraction f hf)⟩

/-- The magnitude determines the digits of the normal form. -/
theorem normalDigits_inj (hpoint : m.fraction.isSome = n.fraction.isSome) (hmagnitude : m.magnitude = n.magnitude) :
    m.normalDigits = n.normalDigits := by
  -- The whole part of the magnitude is its floor, and what remains is the fraction.
  have hvalue : Text.digitsValue m.whole = Text.digitsValue n.whole := by
    have := digitsValue_whole_eq_floor m
    rw [hmagnitude, ← digitsValue_whole_eq_floor n] at this
    exact_mod_cast this
  have hwhole : Lexeme.wholePart m.whole = Lexeme.wholePart n.whole := by
    rw [Text.wholePart_eq_toDigits m.isDigit_of_mem_whole,
      Text.wholePart_eq_toDigits n.isDigit_of_mem_whole, hvalue]
  rw [normalDigits, normalDigits, hwhole]
  rw [magnitude, magnitude, hvalue] at hmagnitude
  cases hfm : m.fraction with
  | none =>
    cases hfn : n.fraction with
    | none => rfl
    | some g => simp [hfm, hfn] at hpoint
  | some f =>
    cases hfn : n.fraction with
    | none => simp [hfm, hfn] at hpoint
    | some g =>
      have hfraction : Text.fractionValue f = Text.fractionValue g := by
        simpa [hfm, hfn] using hmagnitude
      rw [Option.elim_some, Option.elim_some, Lexeme.fractionPart, Lexeme.fractionPart,
        Text.stripTrailingZeros_inj (m.isDigit_of_mem_fraction f hfm)
          (n.isDigit_of_mem_fraction g hfn) hfraction]

/-- Numerals of one value, both with a point or both without one, have one normal form. -/
theorem normal_form_inj (hpoint : m.fraction.isSome = n.fraction.isSome) (hvalue : m.value = n.value) :
    m.kind = n.kind ∧ m.lexeme = n.lexeme := by
  have hsign : m.isNegative = n.isNegative := by rw [isNegative_eq, isNegative_eq, hvalue]
  have hmagnitude : m.magnitude = n.magnitude := by rw [← abs_value, ← abs_value, hvalue]
  exact ⟨by rw [kind, kind, hpoint, hsign],
    by rw [lexeme, lexeme, hsign, normalDigits_inj hpoint hmagnitude]⟩

/-- A numeral has a normal form exactly if it fits.  The normal form denotes the number that was
written, its kind is a negative one exactly if there is a mark and the number is not zero, and numerals
that both have a point or both have none share a normal form exactly if they stand for one number. -/
theorem normal_form_canonical (limit : Nat) (n : Numeral) :
    (∀ rest, Lexeme.EndsNumeral rest → ∃ c cs, n.text ++ rest = c :: cs ∧
      Lexeme.read limit c cs = Lexeme.ofNormal (n.text.length - 1) n.normal) ∧
    ((∃ t, n.normal = .ok t) ↔ (Lexeme.stripLeadingZeros n.whole).length ≤ 16 ∧
      ∀ f ∈ n.fraction, f ≠ [] ∧ (Lexeme.stripTrailingZeros f).length ≤ 8) ∧
    (∀ k s, n.normal = .ok (k, s) → Text.rational? s.toList = some n.value ∧
      k = match n.fraction.isSome, decide (n.negative ∧ n.value ≠ 0) with
        | false, false => .intLit
        | false, true => .negIntLit
        | true, false => .doubleLit
        | true, true => .negDoubleLit) ∧
    ∀ m : Numeral, m.fraction.isSome = n.fraction.isSome →
      ∀ t u, m.normal = .ok t → n.normal = .ok u → (t = u ↔ m.value = n.value) := by
  refine ⟨fun rest hrest ↦ read_text limit n hrest, ?_, ?_, ?_⟩
  · simp only [normal_eq_ok_iff]
    exact ⟨fun ⟨_, hfits, _⟩ ↦ hfits, fun hfits ↦ ⟨_, hfits, rfl⟩⟩
  · intro k s hnormal
    obtain ⟨-, ht⟩ := normal_eq_ok_iff.1 hnormal
    cases ht
    exact ⟨rational?_lexeme n, rfl⟩
  · intro m hpoint t u ht hu
    obtain ⟨-, rfl⟩ := normal_eq_ok_iff.1 ht
    obtain ⟨-, rfl⟩ := normal_eq_ok_iff.1 hu
    constructor
    · intro hsame
      have hlexeme : m.lexeme = n.lexeme := congrArg Prod.snd hsame
      have hvalue := rational?_lexeme m
      rw [hlexeme, rational?_lexeme n] at hvalue
      exact (Option.some.inj hvalue).symm
    · intro hvalue
      obtain ⟨hkind, hlexeme⟩ := normal_form_inj hpoint hvalue
      rw [hkind, hlexeme]

/-- Zeros on either side add nothing, and zero has no sign. -/
example : Lexeme.normalDouble ['0', '0', '7'] ['5', '0', '0'] true = .ok (.negDoubleLit, "-7.50") ∧
    Lexeme.normalDouble ['0', '0'] ['0'] true = .ok (.doubleLit, "0.00") := by decide

end

end Numeral

end FrontEnd
