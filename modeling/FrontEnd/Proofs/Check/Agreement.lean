import FrontEnd.Proofs.Check.NeverLost
import FrontEnd.Proofs.Check.ReadingProgram
import FrontEnd.Proofs.Parse.Completeness

/-!
# The parser and the checks agree on the syntax

The checks know nothing of the grammar, but they can walk whatever the parser accepts: of the
violations that are about the shape of a program one is left, and it is at one place.  The rule for
further parameters lets nothing stand behind the comma, where every other list asks for another
element, and the checks ask for a type there too (`trailingComma_of_accepted`).
-/

namespace FrontEnd

open Grammar

/-- A rule about declarations, references, types or the flow of control, which a program of any
shape may break. -/
def Violation.isRule : Violation → Bool
  | scanLimit _ | nestingLimit _ | lost _ => false
  | v => !v.isStructural

theorem Violation.isRule_eq_true {v : Violation} (hscan : ∀ limit, v ≠ .scanLimit limit)
    (hnesting : ∀ limit, v ≠ .nestingLimit limit) (hlost : ∀ how, v ≠ .lost how)
    (hshape : v.isStructural = false) : v.isRule := by
  unfold Violation.isRule
  split
  · exact absurd rfl (hscan _)
  · exact absurd rfl (hnesting _)
  · exact absurd rfl (hlost _)
  · rw [hshape]; rfl

section

variable {limits : Limits} {tokens : List Token} {w : List Kind}

/-- Past the end of a word the input has ended, whether or not a token says so. -/
theorem spells_top (h : tokens.map Token.kind = w ++ [.eof]) :
    Grammar.Spells (Context.top limits tokens).kindAt 0 w := by
  intro n
  have hkind : (Context.top limits tokens).kindAt n = ((tokens.map Token.kind)[n]?).getD .eof := by
    simp [Context.kindAt, Context.top]
  rw [Nat.zero_add, hkind, h, List.getD_eq_getElem?_getD]
  rcases Nat.lt_trichotomy n w.length with hlt | rfl | hlt
  · rw [List.getElem?_append_left hlt]
  · simp
  · rw [List.getElem?_eq_none (by simpa using Nat.succ_le_of_lt hlt),
      List.getElem?_eq_none (Nat.le_of_lt hlt)]

theorem closed_top (h : tokens.map Token.kind = w ++ [.eof]) :
    (Context.top limits tokens).Closed := by
  have hlast : tokens.getLast?.map Token.kind = some .eof := by
    rw [← List.getLast?_map, h, List.getLast?_concat]
  obtain ⟨t, ht, hkind⟩ := Option.map_eq_some_iff.1 hlast
  show (tokens.getLast?.getD _).kind = .eof
  rw [ht]
  exact hkind

/-- What the check of an accepted program may report: a comma behind the last parameter of a
function, but nothing else about the shape of the program.  When the limits are not reached and no
name is the word for the entry point, everything else is a rule that is broken. -/
theorem trailingComma_of_accepted {limit : Nat} {e : SemanticError}
    (hacc : (parse limit tokens).accepted) (he : (analyze limits tokens).error = some e) :
    (e.violation.isStructural → TrailingComma (.top limits tokens) e) ∧
      ((Context.top limits tokens).Worded → (∀ n, e.violation ≠ .scanLimit n) →
        (∀ n, e.violation ≠ .nestingLimit n) →
          e.violation.isRule ∨ TrailingComma (.top limits tokens) e) := by
  have within : (parse limit tokens).error ≠ some (.stepLimit limit) := by
    rw [Option.isNone_iff_eq_none.1 hacc]
    exact nofun
  obtain ⟨w, hkinds, -, rs, hguided⟩ := (accepted_iff_guided within).1.1 hacc
  have hclosed : (Context.top limits tokens).Closed := closed_top hkinds
  have hnonempty : (Context.top limits tokens).tokens.isEmpty = false := by
    have hne : tokens ≠ [] := by
      rintro rfl
      simp at hkinds
    simpa [Context.top] using hne
  -- What the parser accepts is a row of pieces, and the walk over such a row stops in one way only.
  have htolerable : Tolerable (.top limits tokens) e :=
    (ensures_program_of_row hclosed (by decide) rfl hnonempty
      (topRow_of_guided (spells_top hkinds) hguided)).of_analyze he
  refine ⟨htolerable, fun hworded hscan hnesting ↦ ?_⟩
  have hunlost : Unlost e := (ensures_program hclosed hworded orderly_initial rfl).of_analyze he
  cases hshape : e.violation.isStructural with
  | true => exact .inr (htolerable hshape)
  | false => exact .inl (Violation.isRule_eq_true hscan hnesting hunlost hshape)

/-- The tokens of a program with a function whose one parameter has a comma behind it. -/
def trailingCommaProgram : List Token :=
  (scan 16 "fnctn vd g(nt a, ) \x7b \x7d mn() \x7b end; \x7d").tokens

/-- What the check of that program reports. -/
def trailingCommaError : SemanticError :=
  ⟨.expectedToken .parameterType ")", ⟨1, 18⟩⟩

/-- The parser accepts it and the check stops at the parenthesis. -/
theorem runs_trailingCommaProgram : (parse 64 trailingCommaProgram).accepted ∧
    (analyze .default trailingCommaProgram).error = some trailingCommaError := by
  decide +kernel

theorem trailingComma_trailingCommaProgram :
    (parse 64 trailingCommaProgram).accepted ∧
      (analyze .default trailingCommaProgram).error = some trailingCommaError ∧
        (Context.top .default trailingCommaProgram).Worded ∧
          (trailingCommaError.violation.isStructural ∧
            TrailingComma (.top .default trailingCommaProgram) trailingCommaError) ∧
          (trailingCommaError.violation.isRule ∨
            TrailingComma (.top .default trailingCommaProgram) trailingCommaError) := by
  obtain ⟨hacc, herror⟩ := runs_trailingCommaProgram
  have hworded : (Context.top .default trailingCommaProgram).Worded := worded_scan _ _ _
  have hreport := trailingComma_of_accepted hacc herror
  exact ⟨hacc, herror, hworded, ⟨rfl, hreport.1 rfl⟩, hreport.2 hworded nofun nofun⟩

/-- The parser accepts a program whose shape the checks refuse, and not for want of rounds. -/
theorem trailingCommaProgram_refused :
    (parse 64 trailingCommaProgram).accepted ∧
      ∃ e, (analyze .default trailingCommaProgram).error = some e ∧
        e.violation.isStructural ∧ e.violation = .expectedToken .parameterType ")" := by
  obtain ⟨hacc, herror⟩ := runs_trailingCommaProgram
  exact ⟨hacc, trailingCommaError, herror, rfl, rfl⟩

end

end FrontEnd
