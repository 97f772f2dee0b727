import FrontEnd.Proofs.Check.Phrase
import FrontEnd.Proofs.Grammar.Yield

/-!
# The shape of a program

What the words of the grammar have in common, read off the rules: brackets of all sorts are nested,
the words that start a definition stand outside of all brackets and in front of the entry point, and
the labels of a switch stand between its braces.

`Shaped` says this of the words of a category, and every rule respects it (`respected_shaped`).  A
row is passed over with the brackets that are open in front of it: `Awaits awaited p` says that the
word `p` leaves open what the brackets `awaited` close.  What has to be known of the rules is decided
once for all of them (`checked_shape`); the only one that is looked at by itself is the rule of the
switch.
-/

namespace FrontEnd

open Grammar Nonterminal

/-- A word whose brackets are closed, each by its own sort and in the order in which they open. -/
inductive Nested : List Kind → Prop
  | nil : Nested []
  | single {k : Kind} {w : List Kind} :
    k.closer? = none → k.isCloser = false → Nested w → Nested (k :: w)
  | group {k closing : Kind} {u v : List Kind} :
    k.closer? = some closing → Nested u → Nested v → Nested (k :: (u ++ closing :: v))

/-- Nested words up to each of the awaited brackets and one behind them. -/
def NestedUpTo : List Kind → List Kind → Prop
  | [], w => Nested w
  | closing :: outer, w => ∃ u v, w = u ++ closing :: v ∧ Nested u ∧ NestedUpTo outer v

/-- The word leaves brackets open that the awaited ones close, innermost first. -/
def Awaits (awaited p : List Kind) : Prop :=
  ∀ w, NestedUpTo awaited w → Nested (p ++ w)

/-- The words that start a definition. -/
def definitionWords : List Kind := [.functionWord, .structWord]

/-- The words that start a branch of a switch. -/
def labelWords : List Kind := [.caseWord, .defaultWord]

/-- Every definition of a word starts outside of its brackets. -/
def AtTop (w : List Kind) : Prop :=
  ∀ a k b, w = a ++ k :: b → k ∈ definitionWords → Nested a

/-- The token `k`, with `front` and `behind` around it, stands between the braces of a switch. -/
def InSwitch (front : List Kind) (k : Kind) (behind : List Kind) : Prop :=
  ∃ a u v b, front = a ++ [.switchWord, .leftParen, .identifier, .rightParen, .leftBrace] ++ u ∧
    behind = v ++ .rightBrace :: b ∧ Nested (u ++ k :: v)

/-- Every label of a word stands in a switch of it. -/
def Labelled (w : List Kind) : Prop :=
  ∀ a k b, w = a ++ k :: b → k ∈ labelWords → InSwitch a k b

section

variable {awaited outer u v w p a b : List Kind} {k closing : Kind}

/-- An element of two lists in one is in the first or in the second. -/
theorem append_eq_append_cons {α : Type} {u v a b : List α} {k : α} (h : u ++ v = a ++ k :: b) :
    (∃ c, u = a ++ k :: c ∧ b = c ++ v) ∨ ∃ c, a = u ++ c ∧ v = c ++ k :: b := by
  rcases List.append_eq_append_iff.1 h with ⟨c, rfl, rfl⟩ | ⟨c, rfl, hc⟩
  · exact .inr ⟨c, rfl, rfl⟩
  · cases c with
    | nil => exact .inr ⟨[], by simp, by simpa using hc.symm⟩
    | cons j c =>
      obtain ⟨rfl, rfl⟩ := List.cons.inj hc
      exact .inl ⟨c, rfl, rfl⟩

theorem Kind.isCloser_of_closer? (h : k.closer? = some closing) : closing.isCloser := by
  rcases Kind.closer?_eq_some h with ⟨-, rfl⟩ | ⟨-, rfl⟩ | ⟨-, rfl⟩ <;> rfl

namespace Nested

theorem append (h : Nested u) (h' : Nested v) : Nested (u ++ v) := by
  induction h with
  | nil => exact h'
  | single hopen hclose _ ih => exact .single hopen hclose ih
  | group hopen hinner _ _ ih =>
    rw [List.cons_append, List.append_assoc, List.cons_append]
    exact .group hopen hinner ih

/-- Every bracket that opens in a nested word is closed in it. -/
theorem exists_closing (h : Nested w) (hw : w = a ++ k :: b) (hk : k.closer? = some closing) :
    ∃ u v, b = u ++ closing :: v ∧ Nested u := by
  induction h generalizing a b with
  | nil => exact absurd hw (by simp)
  | single hopen _ _ ih =>
    cases a with
    | nil =>
      obtain ⟨rfl, -⟩ := List.cons.inj hw
      cases hk.symm.trans hopen
    | cons i a => exact ih (List.cons.inj hw).2
  | @group j other u v hopen hinner _ ihinner ih =>
    cases a with
    | nil =>
      obtain ⟨rfl, rfl⟩ := List.cons.inj hw
      obtain rfl : other = closing := Option.some.inj (hopen.symm.trans hk)
      exact ⟨u, v, rfl, hinner⟩
    | cons i a =>
      rcases append_eq_append_cons (List.cons.inj hw).2 with ⟨c, hu, rfl⟩ | ⟨c, rfl, hv⟩
      · obtain ⟨x, y, rfl, hx⟩ := ihinner hu
        exact ⟨x, y ++ other :: v, by simp, hx⟩
      · cases c with
        | nil => exact absurd (List.cons.inj hv).1 (Kind.closer?_ne hopen hk)
        | cons i c => exact ih (List.cons.inj hv).2

/-- As many braces open as close. -/
theorem count_eq (h : Nested w) (hk : k.closer? = some closing) : w.count k = w.count closing := by
  induction h with
  | nil => rfl
  | @single j w hopen hclose _ ih =>
    have hk' : j ≠ k := by
      rintro rfl
      cases hk.symm.trans hopen
    have hclosing : j ≠ closing := by
      rintro rfl
      cases (Kind.isCloser_of_closer? hk).symm.trans hclose
    rw [List.count_cons_of_ne hk', List.count_cons_of_ne hclosing, ih]
  | @group j other u v hopen _ _ ihu ihv =>
    have hj : j = k ↔ other = closing := by
      constructor
      · rintro rfl
        exact Option.some.inj (hopen.symm.trans hk)
      · rintro rfl
        exact Kind.closer?_inj hopen hk
    have hne : other ≠ k ∧ j ≠ closing :=
      ⟨Kind.closer?_ne hopen hk, (Kind.closer?_ne hk hopen).symm⟩
    simp only [List.count_cons, List.count_append, ihu, ihv, beq_iff_eq, hj, hne, if_false]
    omega

end Nested

namespace NestedUpTo

theorem prepend (h : Nested u) (h' : NestedUpTo awaited w) : NestedUpTo awaited (u ++ w) := by
  cases awaited with
  | nil => exact Nested.append h h'
  | cons closing outer =>
    obtain ⟨x, y, rfl, hx, hy⟩ := h'
    exact ⟨u ++ x, y, by simp, h.append hx, hy⟩

end NestedUpTo

namespace Awaits

theorem nil : Awaits [] [] := fun _ h ↦ h

theorem nested (h : Awaits [] p) : Nested p := by
  simpa using h [] .nil

/-- What is nested may stand behind. -/
theorem append (h : Awaits awaited p) (hu : Nested u) : Awaits awaited (p ++ u) := by
  intro w hw
  rw [List.append_assoc]
  exact h _ (hw.prepend hu)

theorem opens (h : Awaits awaited p) (hk : k.closer? = some closing) :
    Awaits (closing :: awaited) (p ++ [k]) := by
  rintro w ⟨u, v, rfl, hu, hv⟩
  have hgroup : Nested (k :: (u ++ [closing])) := .group hk hu .nil
  simpa using h _ (hv.prepend hgroup)

theorem closes (h : Awaits (closing :: outer) p) : Awaits outer (p ++ [closing]) := by
  intro w hw
  rw [List.append_assoc]
  exact h _ ⟨[], w, rfl, .nil, hw⟩

end Awaits

/-! ### Rows -/

/-- The categories that hold definitions. -/
def Grammar.isTop : Nonterminal → Bool
  | program | globalDeclarations | functions | structDeclaration => true
  | _ => false

/-- The categories that stand between the braces of a switch and hold its labels. -/
def Grammar.isLabelled : Nonterminal → Bool
  | switchBody | cases | moreCases | defaultCase => true
  | _ => false

/-- The words that do not occur in the words of a category. -/
def Grammar.absent : Nonterminal → List Kind
  | program => []
  | globalDeclarations | functions | structDeclaration => [.mainWord, .endWord]
  | _ => [.mainWord, .endWord, .functionWord, .structWord]

/-- Whether a word does not occur in the words of a symbol. -/
def Grammar.avoids (k : Kind) : GrammarSymbol → Bool
  | .terminal j => j != k
  | .nonterminal A => (absent A).contains k

/-- Whether the words of a symbol have no label outside of a switch of their own. -/
def Grammar.keepsLabels : GrammarSymbol → Bool
  | .terminal k => !labelWords.contains k
  | .nonterminal A => !isLabelled A

/-- The brackets that are awaited behind a symbol, where others were awaited in front of it, unless
the symbol closes a bracket that is not the one awaited or is about definitions inside of brackets. -/
def Grammar.awaitedBehind (awaited : List Kind) : GrammarSymbol → Option (List Kind)
  | .nonterminal A => if isTop A && !awaited.isEmpty then none else some awaited
  | .terminal k =>
    if k ∈ definitionWords && !awaited.isEmpty then none
    else match k.closer? with
      | some closing => some (closing :: awaited)
      | none =>
        if !k.isCloser then some awaited
        else if awaited.head? = some k then some awaited.tail
        else none

/-- What the words of a category have in common. -/
structure Shaped (A : Nonterminal) (w : List Kind) : Prop where
  nested : Nested w
  not_mem : ∀ k ∈ absent A, k ∉ w
  atTop : isTop A → AtTop w
  labelled : isLabelled A = false → Labelled w

variable {A : Nonterminal} {α : List GrammarSymbol} {r : Rule}

theorem Shaped.not_definition (h : Shaped A w) (hA : isTop A = false) (hk : k ∈ definitionWords) :
    k ∉ w := by
  refine h.not_mem k ?_
  have hall : ∀ A ∈ Nonterminal.all, isTop A = false → ∀ k ∈ definitionWords, k ∈ absent A := by
    decide +kernel
  exact hall A A.mem_all hA k hk

theorem Awaits.terminal (h : Awaits awaited p)
    (hk : awaitedBehind awaited (.terminal k) = some outer) :
    Awaits outer (p ++ [k]) ∧ (k ∈ definitionWords → awaited = []) := by
  rw [awaitedBehind] at hk
  split at hk
  · cases hk
  next hplace =>
    refine ⟨?_, fun hdefinition ↦ by simpa [hdefinition] using hplace⟩
    split at hk
    next hopen =>
      cases hk
      exact h.opens hopen
    next hopen =>
      split at hk
      next hclose =>
        cases hk
        exact h.append (.single hopen (by simpa using hclose) .nil)
      · split at hk
        next hhead =>
          obtain ⟨inner, rfl⟩ := List.head?_eq_some_iff.1 hhead
          cases hk
          exact h.closes
        · cases hk

theorem Awaits.nonterminal (h : Awaits awaited p) (hu : Nested u)
    (hA : awaitedBehind awaited (.nonterminal A) = some outer) :
    Awaits outer (p ++ u) ∧ (isTop A → awaited = []) := by
  rw [awaitedBehind] at hA
  split at hA
  · cases hA
  next hplace =>
    cases hA
    exact ⟨h.append hu, fun htop ↦ by simpa [htop] using hplace⟩

/-- The words of a row, behind a word that leaves brackets open, leave those open that are awaited
behind the row, and every definition of the row starts outside of all brackets. -/
theorem Awaits.row (h : Awaits awaited p) (hrow : RowIn Shaped α w)
    (hα : α.foldlM awaitedBehind awaited = some outer) :
    Awaits outer (p ++ w) ∧ ∀ a k b, w = a ++ k :: b → k ∈ definitionWords → Nested (p ++ a) := by
  -- On the row; the word of its first part is added to the prefix for the others.
  induction α generalizing awaited p w with
  | nil =>
    obtain rfl : w = [] := hrow
    obtain rfl : awaited = outer := Option.some.inj hα
    exact ⟨by simpa using h, fun a k b hw ↦ absurd hw (by simp)⟩
  | cons s α ih =>
    rw [List.foldlM_cons] at hα
    obtain ⟨middle, hs, hbehind⟩ := Option.bind_eq_some_iff.1 hα
    cases s with
    | terminal j =>
      obtain ⟨v, rfl, hv⟩ := hrow
      obtain ⟨hj, hplace⟩ := h.terminal hs
      obtain ⟨hopened, hdefinitions⟩ := ih hj hv hbehind
      refine ⟨by rwa [List.append_cons], fun a k b hw hk ↦ ?_⟩
      cases a with
      | nil =>
        obtain ⟨rfl, -⟩ := List.cons.inj hw
        obtain rfl := hplace hk
        simpa using h.nested
      | cons i a =>
        obtain ⟨rfl, hv'⟩ := List.cons.inj hw
        rw [List.append_cons]
        exact hdefinitions a k b hv' hk
    | nonterminal A =>
      obtain ⟨u, v, rfl, hu, hv⟩ := hrow
      obtain ⟨hA, hplace⟩ := h.nonterminal hu.nested hs
      obtain ⟨hopened, hdefinitions⟩ := ih hA hv hbehind
      refine ⟨by rwa [← List.append_assoc], fun a k b hw hk ↦ ?_⟩
      rcases append_eq_append_cons hw with ⟨c, hsplit, -⟩ | ⟨c, rfl, hsplit⟩
      · cases htop : isTop A with
        | true =>
          obtain rfl := hplace htop
          exact h.nested.append (hu.atTop htop a k c hsplit hk)
        | false => exact absurd (by simp [hsplit]) (hu.not_definition htop hk)
      · rw [← List.append_assoc]
        exact hdefinitions c k b hsplit hk

/-- What the symbols of a row avoid does not occur in its words. -/
theorem not_mem_of_row (hrow : RowIn Shaped α w) (hα : ∀ s ∈ α, avoids k s) : k ∉ w := by
  induction α generalizing w with
  | nil =>
    obtain rfl : w = [] := hrow
    exact List.not_mem_nil
  | cons s α ih =>
    obtain ⟨hs, hrest⟩ := List.forall_mem_cons.1 hα
    cases s with
    | terminal j =>
      obtain ⟨v, rfl, hv⟩ := hrow
      have hj : k ≠ j := by
        rintro rfl
        simp [avoids] at hs
      exact List.not_mem_cons_of_ne_of_not_mem hj (ih hv hrest)
    | nonterminal A =>
      obtain ⟨u, v, rfl, hu, hv⟩ := hrow
      exact fun hmem ↦ (List.mem_append.1 hmem).elim
        (hu.not_mem k (List.contains_iff_mem.1 hs)) (ih hv hrest)

/-! ### Labels -/

theorem InSwitch.extend {front behind : List Kind} (h : InSwitch front k behind) (x y : List Kind) :
    InSwitch (x ++ front) k (behind ++ y) := by
  obtain ⟨a, u, v, b, rfl, rfl, hnested⟩ := h
  exact ⟨x ++ a, u, v, b ++ y, by simp, by simp, hnested⟩

namespace Labelled

theorem append (h : Labelled u) (h' : Labelled v) : Labelled (u ++ v) := by
  intro a k b hw hk
  rcases append_eq_append_cons hw with ⟨c, hu, rfl⟩ | ⟨c, rfl, hv⟩
  · simpa using (h a k c hu hk).extend [] v
  · simpa using (h' c k b hv hk).extend u []

theorem of_not_mem (h : ∀ k ∈ labelWords, k ∉ w) : Labelled w :=
  fun _ k _ hw hk ↦ absurd (by simp [hw]) (h k hk)

/-- The labels of a switch stand between its braces. -/
theorem switch (h : Nested u) : Labelled
    ([.switchWord, .leftParen, .identifier, .rightParen, .leftBrace] ++ (u ++ [.rightBrace])) := by
  intro a k b hw hk
  obtain ⟨hfront, hlast⟩ : k ∉ [Kind.switchWord, .leftParen, .identifier, .rightParen, .leftBrace] ∧
      k ∉ [Kind.rightBrace] := by
    have hall : ∀ k ∈ labelWords, k ∉ [Kind.switchWord, .leftParen, .identifier, .rightParen,
        .leftBrace] ∧ k ∉ [Kind.rightBrace] := by decide
    exact hall k hk
  rcases append_eq_append_cons hw with ⟨c, hc, -⟩ | ⟨c, rfl, hc⟩
  · exact absurd (by simp [hc]) hfront
  · rcases append_eq_append_cons hc with ⟨d, rfl, rfl⟩ | ⟨d, rfl, hd⟩
    · exact ⟨[], c, d, [], rfl, rfl, h⟩
    · exact absurd (by simp [hd]) hlast

/-- A row keeps its labels in switches, if its symbols do. -/
theorem row (hrow : RowIn Shaped α w) (hα : ∀ s ∈ α, keepsLabels s) : Labelled w := by
  induction α generalizing w with
  | nil =>
    obtain rfl : w = [] := hrow
    exact of_not_mem fun _ _ ↦ List.not_mem_nil
  | cons s α ih =>
    obtain ⟨hs, hrest⟩ := List.forall_mem_cons.1 hα
    cases s with
    | terminal j =>
      obtain ⟨v, rfl, hv⟩ := hrow
      refine append (u := [j]) (of_not_mem fun k hk hmem ↦ ?_) (ih hv hrest)
      obtain rfl := List.mem_singleton.1 hmem
      simp [keepsLabels, hk] at hs
    | nonterminal A =>
      obtain ⟨u, v, rfl, hu, hv⟩ := hrow
      exact (hu.labelled (by simpa [keepsLabels] using hs)).append (ih hv hrest)

end Labelled

/-! ### The rules -/

/-- The row of a switch. -/
def switchRow : List GrammarSymbol :=
  [.terminal .switchWord, .terminal .leftParen, .terminal .identifier, .terminal .rightParen,
    .terminal .leftBrace, .nonterminal switchBody, .terminal .rightBrace]

/-- What the rules are checked for: brackets, the words that do not occur, and labels. -/
theorem checked_shape : ∀ A ∈ Nonterminal.all, ∀ r ∈ rules A,
    r.body.foldlM awaitedBehind [] = some [] ∧
      (∀ k ∈ absent A, ∀ s ∈ r.body, avoids k s) ∧
      (isLabelled A = false → r.body = switchRow ∨ ∀ s ∈ r.body, keepsLabels s) := by
  decide +kernel

/-- Every rule respects the shape. -/
theorem respected_shaped : Respected Shaped := by
  intro A r hr w hrow
  obtain ⟨hbrackets, habsent, hlabels⟩ := checked_shape A A.mem_all r hr
  obtain ⟨hopened, hdefinitions⟩ := Awaits.nil.row hrow hbrackets
  refine ⟨hopened.nested, fun k hk ↦ not_mem_of_row hrow (habsent k hk), fun _ ↦ hdefinitions,
    fun hA ↦ ?_⟩
  obtain hswitch | hkeeps := hlabels hA
  · rw [hswitch] at hrow
    obtain ⟨_, rfl, _, rfl, _, rfl, _, rfl, _, rfl, u, _, rfl, hu, _, rfl, rfl⟩ := hrow
    exact Labelled.switch hu.nested
  · exact Labelled.row hrow hkeeps

/-- What the words of a row look like, if they are derived. -/
theorem Grammar.Yields.shaped (h : Grammar.Yields [.nonterminal A] w) : Shaped A w :=
  h.interpret_one respected_shaped

end

end FrontEnd
