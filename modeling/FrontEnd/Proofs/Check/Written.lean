import FrontEnd.Proofs.Check.CarefulProgram

/-!
# What is written to

In an accepted program every sign that writes stands in a declarator, where it gives the name declared
there its first value, or at a name that the run looked up and found to be a variable or an instance of
a struct.  And the declarators behind the word that makes names constant all have initializers.
-/

namespace FrontEnd

open Check

/-- Constants and what is no variable are never written to.

In an accepted program, take any sign of an assignment, plain or compound, and any sign that counts up
or down, wherever it stands.  It is the sign in front of the initializer of a declarator, or it writes
to a place that starts with a name, which stands beside it: in front, with its indices or its member if
it has them, or behind a count.  That name is looked up there, in the scope the run is in then, and
found to be a variable or an instance of a struct, so it is no constant, no constant array, no function
and no struct.

Behind the word that makes names constant stand the word of a primitive type and declarators up to a
semicolon, each with an initializer. -/
theorem written_names_are_variables (limits : Limits) (wordLimit : Nat) (source : String)
    (haccepted : (analyze limits (scan wordLimit source).tokens).accepted) :
    let tokens := (scan wordLimit source).tokens
    let text := (Context.top limits tokens).text
    (∀ k, (text.kind k).isWriting → Initializes text k ∨
      ∃ b, WritesTo text b k ∧ (lookupsOf limits tokens).Writable text b) ∧
    ∀ k, text.kind k = .constWord → (text.kind (k + 1)).isPrimitiveType ∧
      ∃ j, GivenTexts text.kind (k + 2) j ∧ text.kind j = .semicolon := by
  intro tokens text
  have hsound := (ensures_sound limits wordLimit source).of_accepted haccepted
  exact ⟨fun k ↦ (hsound k).writing, fun k ↦ (hsound k).constant⟩

/-- A program that writes to a variable, an element and a member, beside constants. -/
def writingProgram : String :=
  "strct p \x7b nt x; \x7d; cnst nt k = 3, t[2] = \x7b1, 2\x7d; mn() \x7b nt a = k; nt v[2]; " ++
    "dfstrct p q; a = npt(\"a\"); v[a++] = t[0]; q.x += 1; --q.x; " ++
    "fr (a = 0; a < k; ++a) \x7b v[0]++; \x7d end; \x7d"

theorem written_names_are_variables_writingProgram :
    let tokens := (scan 64 writingProgram).tokens
    let text := (Context.top .default tokens).text
    (analyze .default tokens).accepted ∧
      ∀ k, (text.kind k).isWriting → Initializes text k ∨
        ∃ b, WritesTo text b k ∧ (lookupsOf .default tokens).Writable text b := by
  intro tokens text
  have haccepted : (analyze .default tokens).accepted := by decide +kernel
  exact ⟨haccepted, (written_names_are_variables .default 64 writingProgram haccepted).1⟩

end FrontEnd
