import FrontEnd.Proofs.Check.InStep
import FrontEnd.Proofs.Scan.Tokens
import Mathlib.Data.Nat.PSub

/-!
# No scanned text leads a check astray

A scan ends with the end of the input and tells names and reserved words apart, which is all that a
check of a program needs to stay in step.  So the check of the tokens of any text, faulty or not,
ends without a violation or with one that is about the program or the limits.

The searches ahead lower the depth they count at closing brackets.  `Context.searchClose?` and
`Context.searchEnd?` are the same searches with a depth that cannot be lowered below zero: they
have no result where it would be.  From the places where a check begins them they always have one.
-/

namespace FrontEnd

open Check

/-! ### Counting with care -/

namespace Context

/-- `searchClose` with no result where a depth of zero would be lowered. -/
def searchClose? (c : Context) (opening closing : Kind) : Nat → Nat → Nat → Option Search
  | 0, _, _ => some .exhausted
  | left + 1, index, depth =>
    let k := c.kindAt index
    if k = .eof then some .ended
    else if k = opening then c.searchClose? opening closing left (index + 1) (depth + 1)
    else if k = closing then
      depth.ppred.bind fun lower ↦
        if lower = 0 then some (.found index)
        else c.searchClose? opening closing left (index + 1) lower
    else c.searchClose? opening closing left (index + 1) depth

/-- `searchEnd` with no result where a depth of zero would be lowered. -/
def searchEnd? (c : Context) (terminators : List Kind) : Nat → Nat → Nat → Option Search
  | 0, _, _ => some .exhausted
  | left + 1, index, depth =>
    let k := c.kindAt index
    if k = .eof ∨ k = .semicolon then some (.found index)
    else if k.isOpener then c.searchEnd? terminators left (index + 1) (depth + 1)
    else if k.isCloser then
      if depth = 0 then some (.found index)
      else depth.ppred.bind fun lower ↦ c.searchEnd? terminators left (index + 1) lower
    else if depth = 0 ∧ k ∈ terminators then some (.found index)
    else c.searchEnd? terminators left (index + 1) depth

/-- Inside of a bracket the depth is not lowered to zero without ending the search. -/
theorem searchClose?_of_pos (c : Context) (opening closing : Kind) (left : Nat) :
    ∀ index depth, 0 < depth → c.searchClose? opening closing left index depth =
      some (c.searchClose opening closing left index depth) := by
  induction left with
  | zero => exact fun _ _ _ ↦ rfl
  | succ left ih =>
    intro index depth hdepth
    simp only [searchClose?, searchClose]
    split
    · rfl
    split
    · exact ih _ _ (Nat.succ_pos depth)
    split
    -- At a closing bracket: the last one ends the search, the others leave a depth above zero.
    · rw [Nat.ppred_eq_pred hdepth, Option.bind_some, Nat.pred_eq_sub_one]
      by_cases hone : depth = 1
      · simp [hone]
      · have hlower : 0 < depth - 1 := by omega
        rw [if_neg hone, if_neg (Nat.ne_of_gt hlower)]
        exact ih _ _ hlower
    · exact ih _ _ hdepth

/-- A search that begins at the bracket to close never lowers a depth of zero. -/
theorem searchClose?_at {c : Context} {i : Nat} {closing : Kind}
    (h : (c.kindAt i).closer? = some closing) (left : Nat) :
    c.searchClose? (c.kindAt i) closing left i 0 =
      some (c.searchClose (c.kindAt i) closing left i 0) := by
  cases left with
  | zero => rfl
  | succ left =>
    have heof := (Kind.closer?_ne_eof h).1
    have hinside := searchClose?_of_pos c (c.kindAt i) closing left (i + 1) 1 Nat.one_pos
    simpa [searchClose?, searchClose, heof] using hinside

/-- A closing bracket outside of all brackets ends the search for the end of an expression. -/
theorem searchEnd?_eq (c : Context) (terminators : List Kind) (left : Nat) :
    ∀ index depth, c.searchEnd? terminators left index depth =
      some (c.searchEnd terminators left index depth) := by
  induction left with
  | zero => exact fun _ _ ↦ rfl
  | succ left ih =>
    intro index depth
    simp only [searchEnd?, searchEnd, ih]
    by_cases hzero : depth = 0
    · simp only [hzero, if_true]
      split_ifs <;> rfl
    · rw [Nat.ppred_eq_pred (Nat.pos_of_ne_zero hzero)]
      simp only [Option.bind_some, Nat.pred_eq_sub_one]
      split_ifs <;> rfl

end Context

/-! ### The tokens of a scan -/

section

variable (limits : Limits) (wordLimit : Nat) (source : String)

/-- The sequence of a scan ends the input. -/
theorem closed_scan : (Context.top limits (scan wordLimit source).tokens).Closed := by
  unfold Context.Closed Context.top
  rw [getLast?_scan]
  rfl

theorem Kind.eq_entryPointName_of_ofWord? {word : String}
    (h : Kind.ofWord? word = some .mainWord) : word = entryPointName := by
  have hmem := Kind.mem_words_of_ofWord? h
  simpa [Kind.words, entryPointName] using hmem

theorem Kind.ofWord?_entryPointName : Kind.ofWord? entryPointName = some .mainWord := by
  decide

/-- Words and names tell the entry point apart. -/
theorem Worded.entryPoint {t : Token} (h : Worded t.plain) :
    (t.kind = .mainWord → t.lexeme = entryPointName) ∧
      (t.kind = .identifier → t.lexeme ≠ entryPointName) := by
  obtain ⟨hname, hword⟩ := h
  constructor
  · intro hkind
    have hkeyword : t.plain.1.isKeyword := by
      show t.kind.isKeyword = true
      rw [hkind]
      rfl
    exact Kind.eq_entryPointName_of_ofWord? ((hword hkeyword).trans (congrArg some hkind))
  · intro hkind hentry
    have hnone : Kind.ofWord? t.lexeme = none := hname hkind
    rw [hentry, Kind.ofWord?_entryPointName] at hnone
    cases hnone

theorem worded_top {limits : Limits} {tokens : List Token}
    (h : ∀ t ∈ tokens, Worded t.plain) : (Context.top limits tokens).Worded := by
  intro i
  unfold Context.kindAt Context.tokenAt
  cases ht : (Context.top limits tokens).tokens[i]? with
  | none => simp
  | some t =>
    have hmem : t ∈ tokens := by
      rw [Context.top, List.getElem?_toArray] at ht
      exact List.mem_of_getElem? ht
    exact (h t hmem).entryPoint

/-- In a scan, no name is the word for the entry point. -/
theorem worded_scan : (Context.top limits (scan wordLimit source).tokens).Worded :=
  worded_top fun _ ↦ worded_of_mem_scan

/-- Before anything is read there is a global scope without an entry point. -/
theorem orderly_initial : Orderly State.initial :=
  ⟨.empty "global" none, rfl, fun h ↦ by simp [Scope.empty, Scope.contains] at h⟩

/-- What a check of a program ensures of the violation it stops at holds of what is reported. -/
theorem Ensures.of_analyze {limits : Limits} {tokens : List Token} {E : SemanticError → Prop}
    {Q : Unit → State → Prop} (h : Ensures program (.top limits tokens) .initial E Q)
    {e : SemanticError} (he : (analyze limits tokens).error = some e) : E e := by
  refine h.of_error ?_
  simp only [analyze] at he
  split at he
  next => cases he
  next hresult =>
    cases he
    exact hresult

/-- What a check of a program ensures of its end holds of an accepted program. -/
theorem Ensures.of_accepted {limits : Limits} {tokens : List Token} {E : SemanticError → Prop}
    {P : Prop} (h : Ensures program (.top limits tokens) .initial E fun _ _ ↦ P)
    (haccepted : (analyze limits tokens).accepted) : P := by
  unfold Ensures at h
  unfold Analysis.accepted analyze at haccepted
  split at h
  next => exact h
  next hrun =>
    rw [hrun] at haccepted
    cases haccepted

/-- The check of a scanned text never loses its way, whatever the text and the limits are, and the
searches that checks make ahead never lower a depth below zero. -/
theorem analyze_scan_ne_lost :
    (∀ how p, (analyze limits (scan wordLimit source).tokens).error ≠ some ⟨.lost how, p⟩) ∧
      (∀ (c : Context) (opening : Nat),
        ((c.kindAt opening).closer?.bind fun closing ↦
            c.searchClose? (c.kindAt opening) closing c.limits.scan opening 0) =
          (c.kindAt opening).closer?.map fun closing ↦
            c.searchClose (c.kindAt opening) closing c.limits.scan opening 0) ∧
      ∀ (c : Context) (terminators : List Kind) (index : Nat),
        c.searchEnd? terminators c.limits.scan index 0 =
          some (c.searchEnd terminators c.limits.scan index 0) := by
  refine ⟨fun how p herror ↦ ?_, fun c opening ↦ ?_, fun c terminators index ↦
    c.searchEnd?_eq terminators c.limits.scan index 0⟩
  · have hrun := ensures_program (closed_scan limits wordLimit source)
      (worded_scan limits wordLimit source) orderly_initial rfl
    exact hrun.of_analyze herror how rfl
  · cases hcloser : (c.kindAt opening).closer? with
    | none => rfl
    | some closing => exact Context.searchClose?_at hcloser c.limits.scan

end

end FrontEnd
