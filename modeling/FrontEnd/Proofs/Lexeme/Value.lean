import FrontEnd.Proofs.Lexeme.Zero
import FrontEnd.Proofs.Scan.Tokens
import Mathlib.Algebra.Group.Nat.Defs

/-!
# The value of integer literals

A whole number has at most sixteen digits in normal form, so its value is below `10 ^ 16` and a machine
integer holds it (`integer?_of_mem_scan`).  No literal in a scanned text is too large to be compared.
-/

namespace FrontEnd

namespace Text

variable {digits : List Char}

theorem digitsValue_lt (h : ∀ c ∈ digits, c.isDigit) : digitsValue digits < 10 ^ digits.length := by
  induction digits using List.reverseRecOn with
  | nil => exact Nat.one_pos
  | append_singleton digits c ih =>
    have hvalue := ih fun d hd ↦ h d (List.mem_append_left _ hd)
    have hdigit : c.toNat - '0'.toNat ≤ 9 := by
      have hc := h c (by simp)
      simp only [Char.isDigit, Bool.and_eq_true, decide_eq_true_eq] at hc
      have hhigh : c.toNat ≤ '9'.toNat := hc.2
      simp only [Char.reduceToNat] at hhigh ⊢
      omega
    rw [digitsValue_concat, List.length_append, List.length_singleton, Nat.pow_succ]
    omega

theorem digits?_of_isDigit (hne : digits ≠ []) (h : ∀ c ∈ digits, c.isDigit) :
    digits? digits = some (digitsValue digits) := by
  have hall : digits.all Char.isDigit := List.all_eq_true.2 h
  simp [digits?, hne, hall]

/-- Sixteen digits fit in a machine integer. -/
theorem digitsValue_lt_negativeCount (h : ∀ c ∈ digits, c.isDigit)
    (hlength : digits.length ≤ Lexeme.maxWholeDigits) : digitsValue digits < negativeCount :=
  calc digitsValue digits < 10 ^ digits.length := digitsValue_lt h
    _ ≤ 10 ^ Lexeme.maxWholeDigits := Nat.pow_le_pow_right (by decide) hlength
    _ < negativeCount := by decide

theorem integer?_digits (hne : digits ≠ []) (h : ∀ c ∈ digits, c.isDigit)
    (hlength : digits.length ≤ Lexeme.maxWholeDigits) :
    integer? (String.ofList digits) = some (digitsValue digits : Int) := by
  have hvalue := digitsValue_lt_negativeCount h hlength
  cases digits with
  | nil => exact absurd rfl hne
  | cons c cs =>
    have hc := h c (by simp)
    have hsign : c ≠ '-' := by
      rintro rfl
      cases hc
    have hplus : c ≠ '+' := by
      rintro rfl
      cases hc
    simp [integer?, afterPlus, hsign, hplus, digits?_of_isDigit hne h, Option.filter, hvalue]

theorem integer?_negative (hne : digits ≠ []) (h : ∀ c ∈ digits, c.isDigit)
    (hlength : digits.length ≤ Lexeme.maxWholeDigits) :
    integer? (String.ofList ('-' :: digits)) = some (-(digitsValue digits : Int)) := by
  have hvalue := Nat.le_of_lt (digitsValue_lt_negativeCount h hlength)
  simp [integer?, digits?_of_isDigit hne h, Option.filter, hvalue]

end Text

namespace Lexeme

variable {cs digits : List Char}

/-- A token has a value that a machine integer holds, if it is an integer literal. -/
def Valued (t : Kind × String) : Prop :=
  t.1 = .intLit ∨ t.1 = .negIntLit → ∃ v, Text.integer? t.2 = some v

theorem valued_normalInteger (hdigits : ∀ c ∈ digits, c.isDigit) (extra : Nat) (negative : Bool) :
    (ofNormal extra (normalInteger digits negative)).All Valued := by
  cases hresult : normalInteger digits negative with
  | error cause => exact all_refused _ _
  | ok t =>
    have hlength : (wholePart digits).length ≤ maxWholeDigits := by
      by_cases hlong : (stripLeadingZeros digits).length > maxWholeDigits
      · simp [normalInteger, hlong] at hresult
      · unfold wholePart
        simp only
        split
        · decide
        · exact Nat.le_of_not_lt hlong
    have hne := wholePart_ne_nil digits
    have hwhole := isDigit_of_mem_wholePart hdigits
    refine all_token fun _ ↦ ?_
    rcases normalInteger_eq_ok hresult with ⟨-, htext, -⟩ | ⟨-, htext, -⟩
    · exact ⟨_, htext ▸ Text.integer?_digits hne hwhole hlength⟩
    · exact ⟨_, htext ▸ Text.integer?_negative hne hwhole hlength⟩

theorem valued_numeral (negative : Bool) {d : Char} (hd : d.isDigit) (cs : List Char) :
    (numeral negative d cs).All Valued := by
  have hdigits : ∀ c ∈ d :: cs.takeWhile Char.isDigit, c.isDigit :=
    List.forall_mem_cons.2 ⟨hd, isDigit_of_mem_takeWhile⟩
  refine all_numeral (fun extra ↦ valued_normalInteger hdigits extra negative)
    fun extra fraction _ ↦ ?_
  cases hresult : normalDouble (d :: cs.takeWhile Char.isDigit) fraction negative with
  | error cause => exact all_refused _ _
  | ok t =>
    refine all_token fun hkind ↦ ?_
    obtain ⟨-, ⟨hdouble, -⟩ | ⟨hdouble, -⟩⟩ := normalDouble_eq_ok hresult <;> simp [hdouble] at hkind

theorem valued_read (limit : Nat) (c : Char) (cs : List Char) : (read limit c cs).All Valued := by
  have hkinds : ReadKinds fun k ↦ ¬(k = .intLit ∨ k = .negIntLit) :=
    ⟨by decide, by decide, by decide, by decide, by decide, by decide⟩
  have hother {l : Lexeme} (h : l.All fun t ↦ ¬(t.1 = .intLit ∨ t.1 = .negIntLit)) : l.All Valued :=
    h.mono fun _ hkind hinteger ↦ absurd hinteger hkind
  exact all_read (fun cs ↦ hother (hkinds.stringLiteral cs))
    (fun cs ↦ hother (hkinds.characterLiteral cs)) (fun negative d cs hd ↦ valued_numeral negative hd cs)
    (fun c cs _ ↦ hother (hkinds.word c cs)) (fun c cs kinds h ↦ hother (hkinds.signRun h cs))
    (fun c cs ↦ hother (hkinds.operator c cs)) c cs

end Lexeme

/-- In a scan, integer literals have values that machine integers hold. -/
theorem integer?_of_mem_scan {limit : Nat} {source : String} {t : Token}
    (h : t ∈ (scan limit source).tokens) (hk : t.kind = .intLit ∨ t.kind = .negIntLit) :
    ∃ v, Text.integer? t.lexeme = some v := by
  have hcases : t ∈ (scan limit source).tokens.dropLast ∨
      t = .endOfInput (Position.start.advance source.toList) := by
    simpa [scan] using h
  rcases hcases with h | rfl
  · exact all_of_mem_scan (Lexeme.valued_read limit) h hk
  · rcases hk with hk | hk <;> cases hk

end FrontEnd
