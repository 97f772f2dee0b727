import FrontEnd.Proofs.Check.CarefulProgram
import FrontEnd.Proofs.Scan.Spelling

/-!
# Divisions

In an accepted program nothing is divided by a zero that is written out, and the check refuses a
division for no other reason.  Zeros are told by how they are spelled in the text, which the check never
sees: scanning gives all spellings of zero the two normal forms the check knows.
-/

namespace FrontEnd

open Check

section

variable {limits : Limits} {tokens : List Token} {i : Nat} {t : Token}

theorem Context.tokenAt_top (h : tokens[i]? = some t) : (Context.top limits tokens).tokenAt i = t := by
  simp [Context.tokenAt, Context.top, h]

theorem Context.kindAt_top (h : tokens[i]? = some t) :
    (Context.top limits tokens).kindAt i = t.kind := by
  simp [Context.kindAt, Context.top, h]

/-- A token that does not end the input is one of the sequence. -/
theorem Context.getElem?_of_kindAt_top (h : (Context.top limits tokens).kindAt i ≠ .eof) :
    tokens[i]? = some ((Context.top limits tokens).tokenAt i) := by
  have hi : i < tokens.length := by simpa [Context.top] using Context.lt_size_of_ne_eof h
  simp [Context.tokenAt, Context.top, hi]

theorem Kind.ne_eof_of_isDivision {k : Kind} (h : k.isDivision) : k ≠ .eof := by
  rintro rfl
  cases h

theorem Token.isNumber_of_isZeroLiteral (h : t.isZeroLiteral) : t.kind.isNumber := by
  unfold Token.isZeroLiteral at h
  split at h
  next hk => rw [hk]; rfl
  next hk => rw [hk]; rfl
  next => cases h

end

/-- No division by a zero that is written out.

Take the tokens of any text, whether scanning it found errors or not.  If the check accepts them, then
a number that stands behind an operator that divides, plain or compound, is spelled with a digit other
than zero.  And if the check reports a division by zero, it is at a number that stands behind such an
operator and is spelled with no other digits than zeros. -/
theorem divisors_are_not_zero (limits : Limits) (wordLimit : Nat) (source : String) :
    let tokens := (scan wordLimit source).tokens
    ((analyze limits tokens).accepted → ∀ (i : Nat) (t u : Token),
      tokens[i]? = some t → t.kind.isDivision → tokens[i + 1]? = some u → u.kind.isNumber →
      (∃ spelling, Spelled wordLimit source u spelling) ∧
        ∀ spelling, Spelled wordLimit source u spelling → Text.writesZero spelling = false) ∧
    ∀ p, (analyze limits tokens).error = some ⟨.divisionByZero, p⟩ →
      ∃ (i : Nat) (t u : Token), tokens[i]? = some t ∧ t.kind.isDivision ∧
        tokens[i + 1]? = some u ∧ u.kind.isNumber ∧ u.position = p ∧
        (∃ spelling, Spelled wordLimit source u spelling) ∧
        ∀ spelling, Spelled wordLimit source u spelling → Text.writesZero spelling = true := by
  intro tokens
  set c := Context.top limits tokens with hcontext
  have hclosed : c.Closed := closed_scan limits wordLimit source
  have hrun := ensures_sound limits wordLimit source
  refine ⟨fun haccepted i t u ht hdivision hu hnumber ↦ ?_, fun p herror ↦ ?_⟩
  · have hkind : (c.kindAt i).isDivision := by rwa [Context.kindAt_top ht]
    refine ⟨exists_spelled (List.mem_of_getElem? hu) hnumber, fun spelling hspelled ↦ ?_⟩
    have hdivisor : c.tokenAt (i + 1) = u := Context.tokenAt_top hu
    rw [← hspelled.isZeroLiteral_eq hnumber, ← hdivisor]
    exact (hrun.of_accepted haccepted i).division hkind
  · obtain ⟨i, hdivision, hzero, hposition⟩ := hrun.of_analyze herror rfl
    have hnumber := Token.isNumber_of_isZeroLiteral hzero
    have hkind : (c.tokenAt (i + 1)).kind = c.kindAt (i + 1) := hclosed.kind_tokenAt _
    have hfirst := Context.getElem?_of_kindAt_top (Kind.ne_eof_of_isDivision hdivision)
    have hnext : tokens[i + 1]? = some (c.tokenAt (i + 1)) := by
      refine Context.getElem?_of_kindAt_top fun heof ↦ ?_
      rw [hkind, heof] at hnumber
      cases hnumber
    refine ⟨i, _, _, hfirst, ?_, hnext, hnumber, hposition.symm,
      exists_spelled (List.mem_of_getElem? hnext) hnumber, fun spelling hspelled ↦ ?_⟩
    · rwa [hclosed.kind_tokenAt]
    · rw [← hspelled.isZeroLiteral_eq hnumber]
      exact hzero

/-- A program that divides by numbers of every sort, some with zeros among their digits. -/
def dividingProgram : String :=
  "mn() \x7b dbl x = 7.5 / 00.50; nt a = 8 % 010, t[2]; x /= ~0.00000001; t[9 / 9] = a; " ++
    "a %= ~1; whl (a / 2 > 0) \x7b a--; \x7d end; \x7d"

/-- A program that divides by a zero, spelled with a mark for negative numbers. -/
def zeroDividingProgram : String :=
  "mn() \x7b dbl x = 7.5; x /= ~00.000; \x7d"

theorem divisors_are_not_zero_dividingProgram :
    (let tokens := (scan 64 dividingProgram).tokens
    (analyze .default tokens).accepted ∧ ∀ (i : Nat) (t u : Token),
      tokens[i]? = some t → t.kind.isDivision → tokens[i + 1]? = some u → u.kind.isNumber →
      (∃ spelling, Spelled 64 dividingProgram u spelling) ∧
        ∀ spelling, Spelled 64 dividingProgram u spelling → Text.writesZero spelling = false) ∧
    let tokens := (scan 64 zeroDividingProgram).tokens
    (analyze .default tokens).error = some ⟨.divisionByZero, ⟨1, 26⟩⟩ ∧
      ∃ (i : Nat) (t u : Token), tokens[i]? = some t ∧ t.kind.isDivision ∧
        tokens[i + 1]? = some u ∧ u.kind.isNumber ∧ u.position = ⟨1, 26⟩ ∧
        (∃ spelling, Spelled 64 zeroDividingProgram u spelling) ∧
        ∀ spelling, Spelled 64 zeroDividingProgram u spelling → Text.writesZero spelling = true := by
  have haccepted : (analyze .default (scan 64 dividingProgram).tokens).accepted := by
    decide +kernel
  have herror : (analyze .default (scan 64 zeroDividingProgram).tokens).error =
      some ⟨.divisionByZero, ⟨1, 26⟩⟩ := by
    decide +kernel
  exact ⟨⟨haccepted, (divisors_are_not_zero .default 64 dividingProgram).1 haccepted⟩,
    herror, (divisors_are_not_zero .default 64 zeroDividingProgram).2 _ herror⟩

end FrontEnd
