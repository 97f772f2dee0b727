import FrontEnd.Proofs.Grammar.Prediction
import FrontEnd.Proofs.Parse.Exactness

/-!
# Which words of the grammar are accepted

The grammar of all right-hand sides derives a word however it is read; the machine has one terminal
to choose by.  It accepts a word of the grammar if and only if every switch in it has a case
(`accepted_iff_not_bareSwitch`): a body without a case, empty or with a default alone, is derived
by the one rule for bodies of switches, but the table has that rule before `cs` only.
-/

namespace FrontEnd

open Grammar

/-- Within its allowance of steps the machine accepts a word of the grammar, closed by the end of
the input, if and only if every switch in it has a case. -/
theorem accepted_iff_not_bareSwitch {limit : Nat} {tokens : List Token} {w : List Kind}
    (hw : w ∈ contextFree.language) (htokens : tokens.map Token.kind = w ++ [.eof])
    (within : (parse limit tokens).error ≠ some (.stepLimit limit)) :
    (parse limit tokens).accepted ↔ ¬ BareSwitch w := by
  rw [(accepted_iff_guided within).1, ← reads_iff_of_mem_language hw]
  constructor
  · rintro ⟨w', hw', -, hread⟩
    obtain rfl : w = w' := List.append_cancel_right (htokens.symm.trans hw')
    exact hread
  · rintro ⟨rs, hread⟩
    exact ⟨w, htokens, hread.eof_not_mem (by simp) (by simp), rs, hread⟩

/-- The terminals of a program that is one switch with the given body. -/
def switchProgram (body : List Kind) : List Kind :=
  [.mainWord, .leftParen, .rightParen, .leftBrace, .switchWord, .leftParen, .identifier,
    .rightParen, .leftBrace] ++ body ++ [.rightBrace, .endWord, .semicolon, .rightBrace]

/-- Tokens of the given kinds on one line, and the end of the input. -/
def tokensOf (w : List Kind) : List Token :=
  (w ++ [Kind.eof]).zipIdx.map fun (k, i) ↦ ⟨k, k.spelling, ⟨1, i + 1⟩⟩

/-- A switch with an empty case is accepted. -/
theorem accepted_switchProgram_case :
    let w := switchProgram [.caseWord, .intLit, .colon]
    w ∈ contextFree.language ∧ (tokensOf w).map Token.kind = w ++ [.eof] ∧
      (parse 64 (tokensOf w)).error ≠ some (.stepLimit 64) ∧
      ((parse 64 (tokensOf w)).accepted ↔ ¬ BareSwitch w) := by
  intro w
  have hkinds : (tokensOf w).map Token.kind = w ++ [.eof] := by decide +kernel
  have within : (parse 64 (tokensOf w)).error ≠ some (.stepLimit 64) := by decide +kernel
  have hacc : (parse 64 (tokensOf w)).accepted := by decide +kernel
  obtain ⟨w', hw', -, -, -, hlang⟩ := (accepted_iff_guided within).2 hacc
  obtain rfl : w = w' := List.append_cancel_right (hkinds.symm.trans hw')
  exact ⟨hlang, hkinds, within, accepted_iff_not_bareSwitch hlang hkinds within⟩

/-- A switch with nothing but a default is in the language of the grammar. -/
theorem switchProgram_default_mem_language :
    switchProgram [.defaultWord, .colon, .breakWord, .semicolon] ∈ contextFree.language := by
  refine mem_language_iff.2 ?_
  -- the cases before the default derive the empty word
  have hdefault : Yields [.nonterminal .switchBody]
      [.defaultWord, .colon, .breakWord, .semicolon] :=
    .expand ⟨.caseWord, rfl⟩ <| .expand ⟨.defaultWord, rfl⟩ <| .expand ⟨.defaultWord, rfl⟩ <|
      .terminal _ <| .terminal _ <| .expand ⟨.breakWord, rfl⟩ <| .expand ⟨.breakWord, rfl⟩ <|
      .terminal _ <| .terminal _ <| .expand ⟨.rightBrace, rfl⟩ .nil
  have hbehind : Yields [.terminal .rightBrace, .nonterminal .statements, .terminal .endWord,
      .terminal .semicolon, .terminal .rightBrace]
      [.rightBrace, .endWord, .semicolon, .rightBrace] :=
    .terminal _ <| .expand ⟨.endWord, rfl⟩ <| .terminal _ <| .terminal _ <| .terminal _ .nil
  exact .expand ⟨.mainWord, rfl⟩ <| .expand ⟨.mainWord, rfl⟩ <| .expand ⟨.mainWord, rfl⟩ <|
    .terminal _ <| .terminal _ <| .terminal _ <| .terminal _ <| .expand ⟨.identifier, rfl⟩ <|
    .expand ⟨.switchWord, rfl⟩ <| .expand ⟨.switchWord, rfl⟩ <| .terminal _ <| .terminal _ <|
    .terminal _ <| .terminal _ <| .terminal _ <| hdefault.append hbehind

/-- It is refused all the same, and not for want of steps. -/
theorem switchProgram_default_refused :
    let w := switchProgram [.defaultWord, .colon, .breakWord, .semicolon]
    w ∈ contextFree.language ∧ (tokensOf w).map Token.kind = w ++ [.eof] ∧
      (parse 64 (tokensOf w)).error ≠ some (.stepLimit 64) ∧
      ¬ (parse 64 (tokensOf w)).accepted := by
  refine ⟨switchProgram_default_mem_language, ?_, ?_, ?_⟩
  · decide +kernel
  · decide +kernel
  · decide +kernel

end FrontEnd
