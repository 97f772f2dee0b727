import FrontEnd.Check.Expression
import FrontEnd.Lexeme.Segment
import FrontEnd.Proofs.Lexeme.Tokens

/-!
# Zeros

A number is zero if all of its digits are, however many there are, with a point among them and a mark
for negative numbers in front or not.  Normalizing gives all of these one form of each sort, which are
the forms that `isZeroForm` knows (`normalInteger_zero`, `normalDouble_zero`).  For a fraction it asks
whether the nearest double is zero; in normal form there are too few digits for a fraction other than
zero to be as small as that (`isZeroDecimal_iff`).

So a lexeme that is a number is zero in normal form exactly if its text has no other digit
(`numbers_read`).
-/

namespace FrontEnd

/-- Whether a token of the kind is a number. -/
def Kind.isNumber : Kind → Bool
  | .intLit | .negIntLit | .doubleLit | .negDoubleLit => true
  | _ => false

/-- Whether a kind and a normal form are those of zero. -/
def isZeroForm (t : Kind × String) : Bool :=
  (⟨t.1, t.2, .start⟩ : Token).isZeroLiteral

namespace Text

/-- Whether a text has no digit but zeros. -/
def writesZero (text : List Char) : Bool :=
  (text.filter Char.isDigit).all (· == '0')

section

variable {digits whole fraction : List Char}

theorem writesZero_append (a b : List Char) :
    writesZero (a ++ b) = (writesZero a && writesZero b) := by
  simp [writesZero]

theorem writesZero_cons_of_not_isDigit {c : Char} (hc : c.isDigit = false) (text : List Char) :
    writesZero (c :: text) = writesZero text := by
  simp [writesZero, hc]

theorem writesZero_iff (h : ∀ c ∈ digits, c.isDigit) : writesZero digits ↔ ∀ c ∈ digits, c = '0' := by
  rw [writesZero, List.filter_eq_self.2 h]
  simp

/-! ### The value of digits -/

theorem digitsValue_concat (digits : List Char) (c : Char) :
    digitsValue (digits ++ [c]) = 10 * digitsValue digits + (c.toNat - '0'.toNat) := by
  simp [digitsValue]

theorem toNat_sub_eq_zero_iff {c : Char} (hc : c.isDigit) : c.toNat - '0'.toNat = 0 ↔ c = '0' := by
  refine ⟨fun h ↦ ?_, fun h ↦ by simp [h]⟩
  have hlow : '0'.toNat ≤ c.toNat := by
    simp only [Char.isDigit, Bool.and_eq_true, decide_eq_true_eq] at hc
    exact hc.1
  exact Char.toNat_inj.1 (by omega)

/-- Digits have the value zero if all of them are zeros. -/
theorem digitsValue_eq_zero_iff (h : ∀ c ∈ digits, c.isDigit) :
    digitsValue digits = 0 ↔ ∀ c ∈ digits, c = '0' := by
  induction digits using List.reverseRecOn with
  | nil => simp [digitsValue]
  | append_singleton digits c ih =>
    have hc := toNat_sub_eq_zero_iff (h c (by simp))
    have hdigits := ih fun d hd ↦ h d (List.mem_append_left _ hd)
    rw [digitsValue_concat, List.forall_mem_append, List.forall_mem_singleton, ← hc, ← hdigits]
    omega

/-- A fraction of few places rounds to zero only if it is zero. -/
theorem roundsToZero_iff (hplaces : fraction.length ≤ 8) :
    (Decimal.mk (whole ++ fraction) fraction.length 0).roundsToZero ↔
      digitsValue (whole ++ fraction) = 0 := by
  simp only [Decimal.roundsToZero, Int.sub_zero, Int.toNat_natCast, List.length_append,
    Bool.or_eq_true, Bool.and_eq_true, beq_iff_eq, decide_eq_true_eq, or_iff_left_iff_imp]
  generalize hbound : 1075 = bound
  have hpower : 10 ^ fraction.length < 2 ^ bound :=
    calc 10 ^ fraction.length ≤ 10 ^ 8 := Nat.pow_le_pow_right (by decide) hplaces
      _ < 2 ^ 27 := by decide
      _ ≤ 2 ^ bound := Nat.pow_le_pow_right (by decide) (by omega)
  rintro ⟨-, hlong | hsmall⟩
  · omega
  · by_contra hne
    have hle := Nat.le_mul_of_pos_left (2 ^ bound) (Nat.pos_of_ne_zero hne)
    exact absurd (hle.trans hsmall) (Nat.not_le.2 hpower)

/-- Digits with a point among them are read as the fraction they write. -/
theorem unsignedDecimal?_digits (hwhole : ∀ c ∈ whole, c.isDigit)
    (hfraction : ∀ c ∈ fraction, c.isDigit) (hne : whole ≠ []) :
    unsignedDecimal? (whole ++ '.' :: fraction) =
      some ⟨whole ++ fraction, fraction.length, 0⟩ := by
  have htake : (whole ++ '.' :: fraction).takeWhile Char.isDigit = whole := by
    rw [List.takeWhile_append_of_pos hwhole, List.takeWhile_cons_of_neg (by decide),
      List.append_nil]
  have htail : fraction.takeWhile Char.isDigit = fraction := List.takeWhile_eq_self_iff.2 hfraction
  simp [unsignedDecimal?, htake, htail, hne, exponent?]

/-- A fraction of few places is one that rounds to zero only if its digits are zeros. -/
theorem isZeroDecimal_iff (hwhole : ∀ c ∈ whole, c.isDigit) (hfraction : ∀ c ∈ fraction, c.isDigit)
    (hne : whole ≠ []) (hplaces : fraction.length ≤ 8) :
    isZeroDecimal (String.ofList (whole ++ '.' :: fraction)) ↔
      ∀ c ∈ whole ++ fraction, c = '0' := by
  have hread : decimal? (String.ofList (whole ++ '.' :: fraction)) =
      unsignedDecimal? (whole ++ '.' :: fraction) := by
    obtain ⟨d, rest, rfl⟩ := List.exists_cons_of_ne_nil hne
    have hminus : d ≠ '-' := fun h ↦ absurd (hwhole d (by simp)) (by simp [h])
    have hplus : d ≠ '+' := fun h ↦ absurd (hwhole d (by simp)) (by simp [h])
    simp [decimal?, hminus, afterPlus, hplus]
  have hdigits : ∀ c ∈ whole ++ fraction, c.isDigit :=
    List.forall_mem_append.2 ⟨hwhole, hfraction⟩
  rw [isZeroDecimal, hread, unsignedDecimal?_digits hwhole hfraction hne, Option.any_some,
    roundsToZero_iff hplaces, digitsValue_eq_zero_iff hdigits]

end

end Text

namespace Lexeme

variable {digits whole fraction : List Char} {negative : Bool} {k : Kind} {s : String}

/-! ### Normal forms of zero -/

theorem stripLeadingZeros_eq_nil_iff :
    stripLeadingZeros digits = [] ↔ ∀ c ∈ digits, c = '0' := by
  simp [stripLeadingZeros, List.dropWhile_eq_nil_iff]

theorem stripTrailingZeros_eq_nil_iff :
    stripTrailingZeros digits = [] ↔ ∀ c ∈ digits, c = '0' := by
  simp [stripTrailingZeros_eq_rdropWhile, List.rdropWhile_eq_nil_iff]

theorem wholePart_zeros_iff :
    (∀ c ∈ wholePart digits, c = '0') ↔ ∀ c ∈ digits, c = '0' := by
  rw [← stripLeadingZeros_eq_nil_iff, stripLeadingZeros_wholePart, stripLeadingZeros_eq_nil_iff]

theorem fractionPart_zeros_iff :
    (∀ c ∈ fractionPart digits, c = '0') ↔ ∀ c ∈ digits, c = '0' := by
  rw [← stripTrailingZeros_eq_nil_iff, stripTrailingZeros_fractionPart,
    stripTrailingZeros_eq_nil_iff]

theorem wholePart_eq_zero_iff : wholePart digits = ['0'] ↔ ∀ c ∈ digits, c = '0' := by
  refine ⟨fun h ↦ wholePart_zeros_iff.1 (by simp [h]), fun h ↦ ?_⟩
  exact wholePart_of_eq_nil (stripLeadingZeros_eq_nil_iff.2 h)

/-- An integer is zero in normal form exactly if its digits are zeros. -/
theorem normalInteger_zero (hdigits : ∀ c ∈ digits, c.isDigit)
    (h : normalInteger digits negative = .ok (k, s)) :
    isZeroForm (k, s) = Text.writesZero digits := by
  rw [Bool.eq_iff_iff, Text.writesZero_iff hdigits, ← wholePart_eq_zero_iff]
  rcases normalInteger_eq_ok h with ⟨rfl, rfl, -⟩ | ⟨rfl, rfl, hneg⟩
  · have hzero : "0" = String.ofList ['0'] := rfl
    simp only [isZeroForm, Token.isZeroLiteral, beq_iff_eq, hzero, String.ofList_inj]
  · refine iff_of_false (by simp [isZeroForm, Token.isZeroLiteral]) fun hzeros ↦ ?_
    have hstrip := stripLeadingZeros_eq_nil_iff.2 (wholePart_eq_zero_iff.1 hzeros)
    simp [normalInteger, hstrip] at hneg

/-- A normal fraction keeps few places. -/
theorem length_fractionPart_le (h : normalDouble whole fraction negative = .ok (k, s)) :
    (fractionPart fraction).length ≤ 8 := by
  have hlength : (stripTrailingZeros fraction).length ≤ maxFractionDigits := by
    by_contra hlong
    unfold normalDouble at h
    simp only [gt_iff_lt, Nat.lt_of_not_le hlong, if_true] at h
    split at h
    · cases h
    · split at h <;> cases h
  have : maxFractionDigits = 8 := rfl
  simp only [fractionPart, List.length_append, List.length_replicate]
  omega

/-- A fraction is zero in normal form exactly if its digits are zeros. -/
theorem normalDouble_zero (hwhole : ∀ c ∈ whole, c.isDigit) (hfraction : ∀ c ∈ fraction, c.isDigit)
    (h : normalDouble whole fraction negative = .ok (k, s)) :
    isZeroForm (k, s) = Text.writesZero (whole ++ '.' :: fraction) := by
  have hzeros : Text.writesZero (whole ++ '.' :: fraction) ↔
      (∀ c ∈ whole, c = '0') ∧ ∀ c ∈ fraction, c = '0' := by
    rw [Text.writesZero_append, Text.writesZero_cons_of_not_isDigit rfl, Bool.and_eq_true,
      Text.writesZero_iff hwhole, Text.writesZero_iff hfraction]
  rw [Bool.eq_iff_iff, hzeros]
  obtain ⟨-, ⟨rfl, rfl, -⟩ | ⟨rfl, rfl, hneg⟩⟩ := normalDouble_eq_ok h
  · have hform := Text.isZeroDecimal_iff (isDigit_of_mem_wholePart hwhole)
      (isDigit_of_mem_fractionPart hfraction) (wholePart_ne_nil _) (length_fractionPart_le h)
    rw [List.forall_mem_append, wholePart_zeros_iff, fractionPart_zeros_iff] at hform
    exact hform
  · refine iff_of_false (by simp [isZeroForm, Token.isZeroLiteral]) fun ⟨hw, hf⟩ ↦ ?_
    rw [normalDouble, wholePart_eq_zero_iff.2 hw, stripTrailingZeros_eq_nil_iff.2 hf] at hneg
    split at hneg
    · cases hneg
    · simp [maxWholeDigits, maxFractionDigits] at hneg

/-! ### Reading numbers -/

/-- A number among the tokens of a lexeme with a text is the only one, and it is zero exactly if the
text writes zero. -/
def NumberOf (text : List Char) (l : Lexeme) : Prop :=
  ∀ group, l.meaning = .tokens group → ∀ t ∈ group, t.1.isNumber →
    group = [t] ∧ isZeroForm t = Text.writesZero text

section

variable {text : List Char} {extra : Nat}

theorem numberOf_of_all {l : Lexeme} (h : l.All fun t ↦ t.1.isNumber = false) : NumberOf text l := by
  intro group hgroup t ht hnumber
  simp [h group hgroup t ht] at hnumber

theorem numberOf_refused {cause : Fault} : NumberOf text (refused extra cause) :=
  numberOf_of_all (all_refused _ _)

theorem numberOf_ofNormal {result : Except Fault (Kind × String)}
    (h : ∀ k s, result = .ok (k, s) → isZeroForm (k, s) = Text.writesZero text) :
    NumberOf text (ofNormal extra result) := by
  cases result with
  | error cause => exact numberOf_refused
  | ok t =>
    intro group hgroup u hu _
    cases hgroup
    obtain rfl := List.mem_singleton.1 hu
    exact ⟨rfl, h t.1 t.2 rfl⟩

theorem take_of_numeralTail {rest : List Char} (h : numeralTail rest = .fraction fraction) :
    rest.take (fraction.length + 1) = '.' :: fraction := by
  unfold numeralTail at h
  split at h
  · simp only at h
    split at h
    · cases h
    · cases h
      rw [List.take_succ_cons, take_length_takeWhile]
  · cases h

theorem numberOf_numeral {d : Char} (hd : d.isDigit) (cs : List Char) :
    NumberOf (d :: cs.take (numeral negative d cs).extra) (numeral negative d cs) := by
  have hdigits : ∀ c ∈ d :: cs.takeWhile Char.isDigit, c.isDigit :=
    List.forall_mem_cons.2 ⟨hd, isDigit_of_mem_takeWhile⟩
  have hextra : ∀ extra result, (ofNormal extra result).extra = extra := by
    intro extra result
    cases result <;> rfl
  rw [numeral]
  simp only
  split
  next => exact numberOf_refused
  next fraction htail =>
    split
    · rw [hextra, List.take_add, take_length_takeWhile, take_of_numeralTail htail]
      exact numberOf_ofNormal fun k s ↦
        normalDouble_zero hdigits (isDigit_of_numeralTail htail)
    · exact numberOf_refused
  next =>
    split
    · rw [hextra, take_length_takeWhile]
      exact numberOf_ofNormal fun k s ↦ normalInteger_zero hdigits
    · exact numberOf_refused

end

/-- A number that is read is the only token of its lexeme, and it is zero in normal form exactly if
the text of the lexeme writes zero. -/
theorem numbers_read (limit : Nat) (c : Char) (cs : List Char) :
    NumberOf (c :: cs.take (read limit c cs).extra) (read limit c cs) := by
  have hkinds : ReadKinds fun k ↦ k.isNumber = false :=
    ⟨by decide, by decide, by decide, by decide, by decide, by decide⟩
  refine of_read (Q := fun c cs l ↦ NumberOf (c :: cs.take l.extra) l)
    (fun cs ↦ numberOf_of_all (hkinds.stringLiteral cs))
    (fun cs ↦ numberOf_of_all (hkinds.characterLiteral cs))
    (fun d cs hd ↦ numberOf_numeral hd cs) (fun d cs hd ↦ ?_)
    (fun c cs _ ↦ numberOf_of_all (hkinds.word c cs))
    (fun c cs kinds h ↦ numberOf_of_all (hkinds.signRun h cs))
    (fun c cs ↦ numberOf_of_all (hkinds.operator c cs)) (fun _ _ ↦ numberOf_refused) c cs
  have h : NumberOf (d :: cs.take (numeral true d cs).extra) (numeral true d cs) :=
    numberOf_numeral hd cs
  rwa [NumberOf, ← Text.writesZero_cons_of_not_isDigit (c := '~') rfl] at h

end Lexeme

end FrontEnd
