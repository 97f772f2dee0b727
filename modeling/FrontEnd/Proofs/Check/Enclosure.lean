import FrontEnd.Proofs.Check.Agreement
import FrontEnd.Proofs.Check.Nesting

/-!
# Accepted programs are closed

What the parser accepts has the shape of a program: nested brackets, one entry point that closes the
sequence, definitions in front of it and outside of all brackets, labels between the braces of a
switch (`accepted_shape`).

The checks rely on it when they look ahead for a closing bracket, although they count brackets of one
sort only.  In a nested word the brackets of other sorts do not matter, so the search finds the one
that is paired with the bracket it began at (`Nested.searchClose_ne_ended`).
-/

namespace FrontEnd

open Grammar

section

variable {c : Context} {opening closing : Kind} {u v w : List Kind} {i left : Nat}

/-- What is spelled behind the front of a word. -/
theorem Grammar.Spells.behind {kind : Nat → Kind} (h : Grammar.Spells kind i (u ++ v)) :
    Grammar.Spells kind (i + u.length) v := by
  intro n
  rw [Nat.add_assoc, h (u.length + n), List.getD_eq_getElem?_getD,
    List.getElem?_append_right (Nat.le_add_right _ _), Nat.add_sub_cancel_left,
    List.getD_eq_getElem?_getD]

/-- A bracket that opens within a word. -/
theorem Grammar.Spells.exists_append {kind : Nat → Kind} (h : Grammar.Spells kind 0 w)
    (hi : (kind i).closer? = some closing) :
    ∃ a b, w = a ++ kind i :: b ∧ Grammar.Spells kind (i + 1) b := by
  have hkind : kind i = (w[i]?).getD .eof := by simpa using h i
  have hlt : i < w.length := by
    by_contra hge
    rw [hkind, List.getElem?_eq_none (Nat.not_lt.1 hge)] at hi
    cases hi
  rw [List.getElem?_eq_getElem hlt] at hkind
  have hsplit : w = w.take i ++ kind i :: w.drop (i + 1) := by
    rw [hkind, Option.getD_some, List.getElem_cons_drop, List.take_append_drop]
  have hlength : (w.take i).length = i := List.length_take_of_le (Nat.le_of_lt hlt)
  rw [hsplit] at h
  have hbehind := h.behind.tail
  rw [hlength, Nat.zero_add] at hbehind
  exact ⟨_, _, hsplit, hbehind⟩

/-- The search for a closing bracket passes over a nested word. -/
theorem Nested.goesOn_searchClose (h : Nested u) (hsort : opening.closer? = some closing) :
    ∀ {i depth : Nat} {v : List Kind}, Grammar.Spells c.kindAt i (u ++ v) → .eof ∉ u → 1 ≤ depth →
      GoesOn i (i + u.length) (c.searchClose opening closing · i depth)
        (c.searchClose opening closing · (i + u.length) depth) := by
  induction h with
  | nil => exact fun _ _ _ ↦ .refl _ _
  | @single k w hopen hclose _ ih =>
    intro i depth v hspells heof hdepth
    have hk : c.kindAt i = k := hspells.kind_eq
    obtain ⟨hend, hw⟩ := not_or.1 (mt List.mem_cons.2 heof)
    have hopening : k ≠ opening := by
      rintro rfl
      cases hsort.symm.trans hopen
    have hclosing : k ≠ closing := by
      rintro rfl
      cases (Kind.isCloser_of_closer? hsort).symm.trans hclose
    rw [List.length_cons, Nat.add_comm w.length, ← Nat.add_assoc]
    exact (goesOn_other (hk ▸ Ne.symm hend) (hk ▸ hopening) (hk ▸ hclosing)).trans
      (ih hspells.tail hw hdepth)
  | @group k other x y hopen _ _ ihx ihy =>
    intro i depth v hspells heof hdepth
    have hx : .eof ∉ x := fun hmem ↦ heof (by simp [hmem])
    have hy : .eof ∉ y := fun hmem ↦ heof (by simp [hmem])
    have hk : c.kindAt i = k := hspells.kind_eq
    have hinner : Grammar.Spells c.kindAt (i + 1) (x ++ (other :: (y ++ v))) := by
      simpa using hspells.tail
    have hother : c.kindAt (i + 1 + x.length) = other := hinner.behind.kind_eq
    have hlast : Grammar.Spells c.kindAt (i + 1 + x.length + 1) (y ++ v) := hinner.behind.tail
    have hend : i + (k :: (x ++ other :: y)).length = i + 1 + x.length + 1 + y.length := by
      simp
      omega
    rw [hend]
    -- Brackets of the sort that is searched for raise the depth and lower it again.
    by_cases hown : k = opening
    · have hclosing : other = closing := by simpa [hown, hsort] using hopen.symm
      exact (goesOn_opening hsort (hk.trans hown)).trans <|
        (ihx hinner hx (Nat.le_succ_of_le hdepth)).trans <|
          (goesOn_closing hsort (hother.trans hclosing) hdepth).trans (ihy hlast hy hdepth)
    · -- brackets of another sort are not counted
      have hclosing : other ≠ closing := fun h ↦ hown (Kind.closer?_inj hopen (h ▸ hsort))
      have hfirst : k ≠ .eof ∧ other ≠ .eof := Kind.closer?_ne_eof hopen
      exact (goesOn_other (hk ▸ hfirst.1) (hk ▸ hown)
          (hk ▸ (Kind.closer?_ne hsort hopen).symm)).trans <|
        (ihx hinner hx hdepth).trans <|
          (goesOn_other (hother ▸ hfirst.2) (hother ▸ Kind.closer?_ne hopen hsort)
            (hother ▸ hclosing)).trans (ihy hlast hy hdepth)

/-- In a nested word, the search for the bracket that closes another one does not run into the end
of the input. -/
theorem Nested.searchClose_ne_ended (h : Nested w) (heof : .eof ∉ w)
    (hspells : Grammar.Spells c.kindAt 0 w) (hi : (c.kindAt i).closer? = some closing) (left : Nat) :
    c.searchClose (c.kindAt i) closing left i 0 ≠ .ended := by
  obtain ⟨a, b, hw, hb⟩ := hspells.exists_append hi
  obtain ⟨u, v, rfl, hu⟩ := h.exists_closing hw hi
  have hmem : .eof ∉ u := fun hmem ↦ heof (by simp [hw, hmem])
  have hclosing : c.kindAt (i + 1 + u.length) = closing := hb.behind.kind_eq
  have hgoes := (goesOn_opening hi rfl).trans (hu.goesOn_searchClose hi hb hmem (Nat.le_refl 1))
  intro hended
  rcases hgoes.cases_left left with ⟨-, hlimit⟩ | ⟨rest, -, hrest⟩
  · cases hended.symm.trans hlimit
  · cases rest with
    | zero => cases hended.symm.trans hrest
    | succ rest =>
      have hfound : c.searchClose (c.kindAt i) closing (rest + 1) (i + 1 + u.length) 1 =
          .found (i + 1 + u.length) := by
        simp [Context.searchClose, hclosing, (Kind.closer?_ne_eof hi).2, Kind.closer?_ne hi hi]
      cases hended.symm.trans (hrest.trans hfound)

end

section

variable {limit : Nat} {limits : Limits} {tokens : List Token} {w : List Kind}

/-- A program is its definitions, the head of the entry point, what stands between its braces, and
the statement that ends it. -/
theorem Grammar.Yields.program_eq (h : Grammar.Yields [.nonterminal .program] w) :
    ∃ front body, w = front ++ ([.mainWord, .leftParen, .rightParen, .leftBrace] ++
        (body ++ [.endWord, .semicolon, .rightBrace])) ∧
      (∀ k ∈ [Kind.mainWord, .endWord], k ∉ front) ∧
        ∀ k ∈ [Kind.mainWord, .endWord] ++ definitionWords, k ∉ body := by
  cases h with
  | nonterminal hrule hbody hnil =>
    cases hnil
    obtain ⟨k, hk⟩ := hrule
    obtain ⟨r, hr, -, rfl⟩ := exists_rule_of_production hk
    obtain rfl := List.mem_singleton.1 hr
    have hrow := hbody.interpret respected_shaped
    obtain ⟨x, _, rfl, hx, y, _, rfl, hy, _, rfl, _, rfl, _, rfl, _, rfl, s, _, rfl, hs, t, _, rfl,
      ht, _, rfl, _, rfl, _, rfl, rfl⟩ := hrow
    refine ⟨x ++ y, s ++ t, by simp, fun k hk ↦ ?_, fun k hk ↦ ?_⟩
    · exact fun hmem ↦ (List.mem_append.1 hmem).elim (hx.not_mem k hk) (hy.not_mem k hk)
    · exact fun hmem ↦ (List.mem_append.1 hmem).elim (hs.not_mem k hk) (ht.not_mem k hk)

/-- The check of an accepted program reports nothing about its shape but a comma behind the last
parameter of a function. -/
theorem tolerable_of_guided {rs : List Rewrite} {e : SemanticError}
    (hkinds : tokens.map Token.kind = w ++ [.eof])
    (hguided : Guided [.nonterminal .program] w [] rs)
    (he : (analyze limits tokens).error = some e) : Tolerable (.top limits tokens) e := by
  have hnonempty : (Context.top limits tokens).tokens.isEmpty = false := by
    have hne : tokens ≠ [] := by
      rintro rfl
      simp at hkinds
    simpa [Context.top] using hne
  exact (ensures_program_of_row (closed_top hkinds) (by decide) rfl hnonempty
    (topRow_of_guided (spells_top hkinds) hguided)).of_analyze he

/-- An accepted program has nested brackets; one entry point and one `end`, which closes it;
definitions outside of all braces and in front of the entry point only; and labels between the
braces of a switch only.  So no search for the closing bracket of an open one runs into the end of
the input, and the check never reports that a bracket is not closed. -/
theorem accepted_shape (h : (parse limit tokens).accepted) :
    ∃ w, tokens.map Token.kind = w ++ [.eof] ∧ Nested w ∧
      w.count .mainWord = 1 ∧ w.count .endWord = 1 ∧
      [.endWord, .semicolon, .rightBrace] <:+ w ∧
      (∀ a k b, w = a ++ k :: b → k = .functionWord ∨ k = .structWord →
        a.count .leftBrace = a.count .rightBrace ∧ .mainWord ∉ a) ∧
      (∀ a k b, w = a ++ k :: b → k = .caseWord ∨ k = .defaultWord → InSwitch a k b) ∧
      (∀ limits i closing left, ((Context.top limits tokens).kindAt i).closer? = some closing →
        (Context.top limits tokens).searchClose ((Context.top limits tokens).kindAt i) closing
          left i 0 ≠ .ended) ∧
      ∀ limits e k, (analyze limits tokens).error = some e → e.violation ≠ .unclosed k := by
  have within : (parse limit tokens).error ≠ some (.stepLimit limit) := by
    rw [Option.isNone_iff_eq_none.1 h]
    exact nofun
  obtain ⟨w, hkinds, heof, rs, hguided⟩ := (accepted_iff_guided within).1.1 h
  have hyields : Grammar.Yields [.nonterminal .program] w := mem_language_iff.1 hguided.mem_language
  have hshaped : Shaped .program w := hyields.shaped
  obtain ⟨front, body, hw, hfront, hbody⟩ := hyields.program_eq
  have hcount : ∀ k ∈ [Kind.mainWord, .endWord], w.count k = 1 := by
    intro k hk
    have hfixed : ∀ k ∈ [Kind.mainWord, .endWord],
        [Kind.mainWord, .leftParen, .rightParen, .leftBrace].count k +
          [Kind.endWord, .semicolon, .rightBrace].count k = 1 := by
      decide
    rw [hw, List.count_append, List.count_append, List.count_append,
      List.count_eq_zero.2 (hfront k hk), List.count_eq_zero.2 (hbody k (List.mem_append_left _ hk)),
      ← hfixed k hk]
    omega
  refine ⟨w, hkinds, hshaped.nested, hcount _ (by simp), hcount _ (by simp), ?_, ?_, ?_, ?_, ?_⟩
  · exact ⟨front ++ ([.mainWord, .leftParen, .rightParen, .leftBrace] ++ body), by simp [hw]⟩
  · intro a k b hsplit hk
    have hnested : Nested a := hshaped.atTop rfl a k b hsplit (by simpa [definitionWords] using hk)
    refine ⟨hnested.count_eq rfl, ?_⟩
    rcases append_eq_append_cons (hw.symm.trans hsplit) with ⟨c, rfl, -⟩ | ⟨c, -, hc⟩
    · exact fun hmem ↦ hfront .mainWord (by simp) (List.mem_append_left _ hmem)
    · -- from the entry point on there are no definitions
      have hmem : k ∈ body := by
        have hmem : k ∈ c ++ k :: b := by simp
        rw [← hc] at hmem
        rcases hk with rfl | rfl <;> simpa using hmem
      exact absurd hmem (hbody k (by rcases hk with rfl | rfl <;> decide))
  · exact fun a k b hsplit hk ↦ hshaped.labelled rfl a k b hsplit (by simpa [labelWords] using hk)
  · exact fun limits i closing left hi ↦
      hshaped.nested.searchClose_ne_ended heof (spells_top hkinds) hi left
  · rintro limits e k he hunclosed
    obtain ⟨i, -, -, hcomma⟩ := tolerable_of_guided hkinds hguided he (by rw [hunclosed]; rfl)
    rw [hcomma] at hunclosed
    cases hunclosed

/-- The tokens of a program with a function and a switch. -/
def enclosedProgram : List Token :=
  tokensOf [.functionWord, .voidWord, .identifier, .leftParen, .rightParen, .leftBrace, .rightBrace,
    .mainWord, .leftParen, .rightParen, .leftBrace, .switchWord, .leftParen, .identifier,
    .rightParen, .leftBrace, .caseWord, .intLit, .colon, .breakWord, .semicolon, .rightBrace,
    .endWord, .semicolon, .rightBrace]

theorem accepted_shape_enclosedProgram : (parse 128 enclosedProgram).accepted ∧
    ∃ w, enclosedProgram.map Token.kind = w ++ [.eof] ∧ Nested w ∧
      w.count .mainWord = 1 ∧ w.count .endWord = 1 := by
  have hacc : (parse 128 enclosedProgram).accepted := by decide +kernel
  obtain ⟨w, hkinds, hnested, hmain, hend, -⟩ := accepted_shape hacc
  exact ⟨hacc, w, hkinds, hnested, hmain, hend⟩

end

end FrontEnd
