import FrontEnd.Check.Brackets
import FrontEnd.Proofs.Check.Ensures

/-!
# Stretches of an expression

A `Phrase` is a stretch of tokens as an expression can hold it: brackets are closed by their own
sort, braces, semicolons and the words of declarations do not occur, and commas only inside
brackets or, in a list of arguments, between them.

Both searches ahead pass over a phrase as if it were not there (`Phrase.searchClose`,
`Phrase.searchEnd`).  So the walk over an expression, which takes in a phrase, cannot run past an
end that was found by a search from where it started.
-/

namespace FrontEnd

/-- Kinds that a walk over an expression takes in one by one. -/
def Kind.isPlain (k : Kind) : Bool :=
  !(k.isOpener || k.isCloser ||
    [.eof, .semicolon, .comma, .functionWord, .mainWord, .structWord].contains k)

/-- Tokens from one index up to another with balanced brackets; `commas` says whether commas may
stand outside of them. -/
inductive Phrase (kind : Nat → Kind) : (commas : Bool) → Nat → Nat → Prop
  | nil {b : Bool} {i : Nat} : Phrase kind b i i
  | plain {b : Bool} {i j : Nat} :
    (kind i).isPlain → Phrase kind b (i + 1) j → Phrase kind b i j
  | comma {i j : Nat} : kind i = .comma → Phrase kind true (i + 1) j → Phrase kind true i j
  | group {b : Bool} {i m j : Nat} {closing : Kind} :
    (kind i).closer? = some closing → kind i ≠ .leftBrace → Phrase kind true (i + 1) m →
      kind m = closing → Phrase kind b (m + 1) j → Phrase kind b i j

namespace Phrase

variable {kind : Nat → Kind} {b : Bool} {i j k : Nat}

theorem one (h : (kind i).isPlain) : Phrase kind b i (i + 1) :=
  .plain h .nil

theorem brackets {m : Nat} {closing : Kind} (hi : (kind i).closer? = some closing)
    (hbrace : kind i ≠ .leftBrace) (h : Phrase kind true (i + 1) m) (hm : kind m = closing) :
    Phrase kind b i (m + 1) :=
  .group hi hbrace h hm .nil

theorem trans (h : Phrase kind b i j) (h' : Phrase kind b j k) : Phrase kind b i k := by
  induction h with
  | nil => exact h'
  | plain hi _ ih => exact .plain hi (ih h')
  | comma hi _ ih => exact .comma hi (ih h')
  | group hi hbrace hinner hm _ _ ih => exact .group hi hbrace hinner hm (ih h')

theorem le (h : Phrase kind b i j) : i ≤ j := by
  induction h with
  | nil => exact Nat.le_refl _
  | plain _ _ ih | comma _ _ ih => exact Nat.le_of_succ_le ih
  | group _ _ _ _ _ ihinner ih => omega

/-- Where commas may stand, none need to. -/
theorem withCommas (h : Phrase kind b i j) : Phrase kind true i j := by
  induction h with
  | nil => exact .nil
  | plain hi _ ih => exact .plain hi ih
  | comma hi _ ih => exact .comma hi ih
  | group hi hbrace hinner hm _ _ ih => exact .group hi hbrace hinner hm ih

end Phrase

/-! ### Kinds of brackets -/

namespace Kind

variable {k closing : Kind}

theorem closer?_eq_some (h : k.closer? = some closing) :
    (k = .leftParen ∧ closing = .rightParen) ∨ (k = .leftBracket ∧ closing = .rightBracket) ∨
      (k = .leftBrace ∧ closing = .rightBrace) := by
  cases k <;> simp_all [closer?]

theorem closer?_ne_eof (h : k.closer? = some closing) : k ≠ .eof ∧ closing ≠ .eof := by
  rcases closer?_eq_some h with ⟨rfl, rfl⟩ | ⟨rfl, rfl⟩ | ⟨rfl, rfl⟩ <;> decide

/-- No bracket both opens and closes. -/
theorem closer?_ne {other otherClosing : Kind} (h : k.closer? = some closing)
    (h' : other.closer? = some otherClosing) : closing ≠ other := by
  rcases closer?_eq_some h with ⟨-, rfl⟩ | ⟨-, rfl⟩ | ⟨-, rfl⟩ <;> rintro rfl <;> cases h'

/-- A closing bracket closes brackets of one sort. -/
theorem closer?_inj {other : Kind} (h : k.closer? = some closing)
    (h' : other.closer? = some closing) : k = other := by
  rcases closer?_eq_some h with ⟨rfl, rfl⟩ | ⟨rfl, rfl⟩ | ⟨rfl, rfl⟩ <;>
    rcases closer?_eq_some h' with ⟨rfl, h⟩ | ⟨rfl, h⟩ | ⟨rfl, h⟩ <;> first | rfl | cases h

theorem isPlain_iff : k.isPlain ↔ k.closer? = none ∧ k.isCloser = false ∧ k ≠ .eof ∧
    k ≠ .semicolon ∧ k ≠ .comma ∧ k ≠ .functionWord ∧ k ≠ .mainWord ∧ k ≠ .structWord := by
  cases k <;> decide

theorem not_mem_of_isPlain (h : k.isPlain) : k ∉ [.leftBrace, .rightBrace, .semicolon, .eof] := by
  revert h
  cases k <;> decide

/-- A kind that is no bracket and does not end the input is passed over by every search for a
closing bracket. -/
theorem isPlain_ne (h : k.isPlain) {opening : Kind} (hopening : opening.closer? = some closing) :
    k ≠ .eof ∧ k ≠ opening ∧ k ≠ closing := by
  refine ⟨?_, ?_, ?_⟩
  · rintro rfl
    cases h
  all_goals
    rintro rfl
    rcases closer?_eq_some hopening with ⟨rfl, rfl⟩ | ⟨rfl, rfl⟩ | ⟨rfl, rfl⟩ <;> cases h

end Kind

/-- No phrase begins with the end of the input. -/
theorem Phrase.ne_eof {kind : Nat → Kind} {b : Bool} {i j : Nat} (h : Phrase kind b i j) (hlt : i < j) :
    kind i ≠ .eof := by
  cases h with
  | nil => exact absurd hlt (Nat.lt_irrefl i)
  | plain hplain => exact (Kind.isPlain_iff.1 hplain).2.2.1
  | comma hcomma => simp [hcomma]
  | group hopen => exact (Kind.closer?_ne_eof hopen).1

/-- No token of a phrase is a brace or a semicolon or ends the input. -/
theorem Phrase.not_mem {kind : Nat → Kind} {b : Bool} {i j k : Nat} (h : Phrase kind b i j) (hi : i ≤ k)
    (hj : k < j) : kind k ∉ [.leftBrace, .rightBrace, .semicolon, .eof] := by
  induction h with
  | nil => omega
  | plain hplain _ ih =>
    obtain rfl | hlt := Nat.eq_or_lt_of_le hi
    · exact Kind.not_mem_of_isPlain hplain
    · exact ih hlt hj
  | comma hcomma _ ih =>
    obtain rfl | hlt := Nat.eq_or_lt_of_le hi
    · simp [hcomma]
    · exact ih hlt hj
  | @group b i m j closing hopen hbrace _ hclose _ ihinner ih =>
    have hsort : (kind i = .leftParen ∧ closing = .rightParen) ∨
        (kind i = .leftBracket ∧ closing = .rightBracket) := by
      rcases Kind.closer?_eq_some hopen with h | h | h
      · exact .inl h
      · exact .inr h
      · exact absurd h.1 hbrace
    obtain rfl | hlt := Nat.eq_or_lt_of_le hi
    · rcases hsort with ⟨h, -⟩ | ⟨h, -⟩ <;> simp [h]
    obtain hinside | rfl | hbehind := Nat.lt_trichotomy k m
    · exact ihinner hlt hinside
    · rcases hsort with ⟨-, h⟩ | ⟨-, h⟩ <;> simp [hclose, h]
    · exact ih hbehind hj

/-- A search from one index goes on as another one from a later index, with as many rounds less as
there are tokens between, unless it comes to its limit before. -/
def GoesOn (i j : Nat) (search later : Nat → Search) : Prop :=
  ∃ n, i + n = j ∧ (∀ left < n, search left = .exhausted) ∧ ∀ left, search (left + n) = later left

namespace GoesOn

variable {search later last : Nat → Search} {i j k : Nat}

theorem refl (i : Nat) (search : Nat → Search) : GoesOn i i search search :=
  ⟨0, rfl, fun _ h ↦ (Nat.not_lt_zero _ h).elim, fun _ ↦ rfl⟩

/-- One round. -/
theorem step (hzero : search 0 = .exhausted) (h : ∀ left, search (left + 1) = later left) :
    GoesOn i (i + 1) search later :=
  ⟨1, rfl, fun left hleft ↦ by rwa [Nat.lt_one_iff.1 hleft], h⟩

theorem trans (h : GoesOn i j search later) (h' : GoesOn j k later last) :
    GoesOn i k search last := by
  obtain ⟨n, rfl, hlimit, hgoes⟩ := h
  obtain ⟨m, rfl, hlimit', hgoes'⟩ := h'
  refine ⟨n + m, by omega, fun left hleft ↦ ?_, fun left ↦ ?_⟩
  · by_cases hshort : left < n
    · exact hlimit left hshort
    · obtain ⟨rest, rfl⟩ := Nat.exists_eq_add_of_le' (Nat.le_of_not_lt hshort)
      rw [hgoes]
      exact hlimit' rest (by omega)
  · rw [show left + (n + m) = left + m + n by omega, hgoes, hgoes']

/-- What a search with a given limit comes to. -/
theorem cases_left (h : GoesOn i j search later) (left : Nat) :
    (i + left < j ∧ search left = .exhausted) ∨
      ∃ rest, i + left = j + rest ∧ search left = later rest := by
  obtain ⟨n, rfl, hlimit, hgoes⟩ := h
  by_cases hshort : left < n
  · exact .inl ⟨by omega, hlimit left hshort⟩
  · obtain ⟨rest, rfl⟩ := Nat.exists_eq_add_of_le' (Nat.le_of_not_lt hshort)
    exact .inr ⟨rest, by omega, hgoes rest⟩

/-- What a search has found, it has found by going on. -/
theorem exists_found {left m : Nat} (h : GoesOn i j search later)
    (hfound : search left = .found m) : ∃ rest, later rest = .found m := by
  rcases h.cases_left left with ⟨-, hlimit⟩ | ⟨rest, -, hgoes⟩
  · cases hfound.symm.trans hlimit
  · exact ⟨rest, hgoes.symm.trans hfound⟩

end GoesOn

/-! ### Searching for a closing bracket -/

section

variable {c : Context} {opening closing : Kind} {left i j depth : Nat}

/-- A token that is neither of the two brackets is passed over. -/
theorem goesOn_other (heof : c.kindAt i ≠ .eof) (hopening : c.kindAt i ≠ opening)
    (hclosing : c.kindAt i ≠ closing) :
    GoesOn i (i + 1) (c.searchClose opening closing · i depth)
      (c.searchClose opening closing · (i + 1) depth) :=
  .step rfl fun left ↦ by simp [Context.searchClose, heof, hopening, hclosing]

theorem goesOn_opening (h : opening.closer? = some closing) (hi : c.kindAt i = opening) :
    GoesOn i (i + 1) (c.searchClose opening closing · i depth)
      (c.searchClose opening closing · (i + 1) (depth + 1)) :=
  .step rfl fun left ↦ by simp [Context.searchClose, hi, (Kind.closer?_ne_eof h).1]

theorem goesOn_closing (h : opening.closer? = some closing) (hi : c.kindAt i = closing)
    (hdepth : 1 ≤ depth) :
    GoesOn i (i + 1) (c.searchClose opening closing · i (depth + 1))
      (c.searchClose opening closing · (i + 1) depth) := by
  have hpos : depth ≠ 0 := Nat.ne_of_gt hdepth
  exact .step rfl fun left ↦ by
    simp [Context.searchClose, hi, (Kind.closer?_ne_eof h).2, Kind.closer?_ne h h, hpos]

/-- The search for a closing bracket passes over a phrase. -/
theorem Phrase.goesOn_searchClose {commas : Bool} (h : Phrase c.kindAt commas i j)
    (hsort : opening.closer? = some closing) :
    ∀ {depth : Nat}, 1 ≤ depth →
      GoesOn i j (c.searchClose opening closing · i depth)
        (c.searchClose opening closing · j depth) := by
  induction h with
  | nil => exact fun _ ↦ .refl _ _
  | plain hi _ ih =>
    intro depth hdepth
    obtain ⟨heof, hopening, hclosing⟩ := Kind.isPlain_ne hi hsort
    exact (goesOn_other heof hopening hclosing).trans (ih hdepth)
  | comma hi _ ih =>
    intro depth hdepth
    have hbracket : .comma ≠ opening ∧ .comma ≠ closing := by
      rcases Kind.closer?_eq_some hsort with ⟨rfl, rfl⟩ | ⟨rfl, rfl⟩ | ⟨rfl, rfl⟩ <;> decide
    refine (goesOn_other ?_ ?_ ?_).trans (ih hdepth)
    · simp [hi]
    · exact hi ▸ hbracket.1
    · exact hi ▸ hbracket.2
  | @group b i m j other hi hbrace _ hm _ ihinner ih =>
    intro depth hdepth
    by_cases hown : c.kindAt i = opening
    · have hclosing : other = closing := by simpa [hown, hsort] using hi.symm
      exact (goesOn_opening hsort hown).trans <| (ihinner (Nat.le_succ_of_le hdepth)).trans <|
        (goesOn_closing hsort (hm.trans hclosing) hdepth).trans (ih hdepth)
    · -- Brackets of another sort are not counted.
      have hother : other ≠ closing := fun h ↦ hown (Kind.closer?_inj hi (h ▸ hsort))
      refine (goesOn_other (Kind.closer?_ne_eof hi).1 hown ?_).trans <| (ihinner hdepth).trans <|
        (goesOn_other ?_ ?_ ?_).trans (ih hdepth)
      · exact fun h ↦ Kind.closer?_ne hsort hi h.symm
      · exact hm ▸ (Kind.closer?_ne_eof hi).2
      · exact hm ▸ Kind.closer?_ne hi hsort
      · exact hm ▸ hother

theorem le_of_searchClose {k : Nat} (h : c.searchClose opening closing left i depth = .found k) :
    i ≤ k ∧ c.kindAt k = closing := by
  fun_induction Context.searchClose c opening closing left i depth with
  | case1 => cases h
  | case2 => cases h
  | case3 _ _ _ _ _ _ ih => exact ⟨by have := (ih h).1; omega, (ih h).2⟩
  | case4 left i _ _ _ hk => cases h; exact ⟨Nat.le_refl _, hk⟩
  | case5 _ _ _ _ _ _ _ _ ih => exact ⟨by have := (ih h).1; omega, (ih h).2⟩
  | case6 _ _ _ _ _ _ _ ih => exact ⟨by have := (ih h).1; omega, (ih h).2⟩

/-! ### Searching for the end of an expression -/

variable {terminators : List Kind}

theorem goesOn_inside (hend : c.kindAt i ≠ .eof ∧ c.kindAt i ≠ .semicolon)
    (hopener : (c.kindAt i).closer? = none) (hcloser : (c.kindAt i).isCloser = false)
    (hdepth : depth = 0 → c.kindAt i ∉ terminators) :
    GoesOn i (i + 1) (c.searchEnd terminators · i depth)
      (c.searchEnd terminators · (i + 1) depth) := by
  refine .step rfl fun left ↦ ?_
  simp only [Context.searchEnd, hend, Kind.isOpener, hopener, hcloser]
  simpa using fun hzero hmem ↦ absurd hmem (hdepth hzero)

theorem goesOn_opener (h : (c.kindAt i).closer? = some closing) :
    GoesOn i (i + 1) (c.searchEnd terminators · i depth)
      (c.searchEnd terminators · (i + 1) (depth + 1)) := by
  have hsemicolon : c.kindAt i ≠ .semicolon := by
    intro hi
    simp [hi, Kind.closer?] at h
  exact .step rfl fun left ↦ by
    simp [Context.searchEnd, Kind.isOpener, h, hsemicolon, (Kind.closer?_ne_eof h).1]

theorem goesOn_closer (h : opening.closer? = some closing) (hi : c.kindAt i = closing) :
    GoesOn i (i + 1) (c.searchEnd terminators · i (depth + 1))
      (c.searchEnd terminators · (i + 1) depth) := by
  refine .step rfl fun left ↦ ?_
  rcases Kind.closer?_eq_some h with ⟨-, rfl⟩ | ⟨-, rfl⟩ | ⟨-, rfl⟩ <;>
    simp [Context.searchEnd, hi, Kind.isOpener, Kind.closer?, Kind.isCloser]

/-- The search for the end of an expression passes over a phrase. -/
theorem Phrase.goesOn_searchEnd {commas : Bool} (h : Phrase c.kindAt commas i j)
    (hterminators : ∀ k ∈ terminators, k.isPlain = false) :
    ∀ {depth : Nat}, (commas → 1 ≤ depth) →
      GoesOn i j (c.searchEnd terminators · i depth) (c.searchEnd terminators · j depth) := by
  induction h with
  | nil => exact fun _ ↦ .refl _ _
  | plain hi _ ih =>
    intro depth hdepth
    obtain ⟨hopener, hcloser, heof, hsemicolon, -⟩ := Kind.isPlain_iff.1 hi
    refine (goesOn_inside ⟨heof, hsemicolon⟩ hopener hcloser fun _ hmem ↦ ?_).trans (ih hdepth)
    simp [hterminators _ hmem] at hi
  | comma hi _ ih =>
    intro depth hdepth
    refine (goesOn_inside ?_ ?_ ?_ ?_).trans (ih hdepth)
    · simp [hi]
    · simp [hi, Kind.closer?]
    · simp [hi, Kind.isCloser]
    · have := hdepth rfl
      omega
  | group hi _ _ hm _ ihinner ih =>
    intro depth hdepth
    exact (goesOn_opener hi).trans <| (ihinner fun _ ↦ Nat.succ_pos depth).trans <|
      (goesOn_closer hi hm).trans (ih hdepth)

theorem le_of_searchEnd {k : Nat} (h : c.searchEnd terminators left i depth = .found k) :
    i ≤ k := by
  fun_induction Context.searchEnd c terminators left i depth with
  | case1 => cases h
  | case2 => cases h; exact Nat.le_refl _
  | case3 _ _ _ _ _ _ ih => have := ih h; omega
  | case4 => cases h; exact Nat.le_refl _
  | case5 _ _ _ _ _ _ _ _ ih => have := ih h; omega
  | case6 => cases h; exact Nat.le_refl _
  | case7 _ _ _ _ _ _ _ _ ih => have := ih h; omega

/-! ### Ends that a phrase does not run past -/

/-- No phrase from an index runs past the other one. -/
def Bounds (kind : Nat → Kind) (i stop : Nat) : Prop :=
  ∀ j, Phrase kind false i j → j ≤ stop

theorem Bounds.min {kind : Nat → Kind} {m n : Nat} (h : Bounds kind i m) (h' : Bounds kind i n) :
    Bounds kind i (min m n) :=
  fun j hj ↦ Nat.le_min.2 ⟨h j hj, h' j hj⟩

/-- The search from a bracket passes over a phrase behind it. -/
theorem Phrase.goesOn_behind (hi : (c.kindAt i).closer? = some closing)
    (h : Phrase c.kindAt true (i + 1) j) :
    GoesOn i j (c.searchClose (c.kindAt i) closing · i 0)
      (c.searchClose (c.kindAt i) closing · j 1) :=
  (goesOn_opening hi rfl).trans (h.goesOn_searchClose hi (Nat.le_refl 1))

/-- What stands between a bracket and the one found for it. -/
theorem Phrase.le_of_searchClose {k : Nat} (hi : (c.kindAt i).closer? = some closing)
    (h : Phrase c.kindAt true (i + 1) j)
    (hfound : c.searchClose (c.kindAt i) closing left i 0 = .found k) : j ≤ k := by
  obtain ⟨rest, hrest⟩ := (h.goesOn_behind hi).exists_found hfound
  exact (FrontEnd.le_of_searchClose hrest).1

/-- The bracket right behind a phrase is found for the one right in front of it, unless the limit
is too small for the stretch. -/
theorem Phrase.searchClose_eq (hi : (c.kindAt i).closer? = some closing)
    (h : Phrase c.kindAt true (i + 1) j) (hj : c.kindAt j = closing) (left : Nat) :
    (i + left ≤ j ∧ c.searchClose (c.kindAt i) closing left i 0 = .exhausted) ∨
      c.searchClose (c.kindAt i) closing left i 0 = .found j := by
  rcases (h.goesOn_behind hi).cases_left left with ⟨hlt, hlimit⟩ | ⟨rest, hleft, hgoes⟩
  · exact .inl ⟨Nat.le_of_lt hlt, hlimit⟩
  · cases rest with
    | zero => exact .inl ⟨Nat.le_of_eq hleft, hgoes⟩
    | succ rest =>
      refine .inr (hgoes.trans ?_)
      simp [Context.searchClose, hj, (Kind.closer?_ne_eof hi).2, Kind.closer?_ne hi hi]

theorem Phrase.le_of_searchEnd {k : Nat} (hterminators : ∀ k ∈ terminators, k.isPlain = false)
    (h : Phrase c.kindAt false i j)
    (hfound : c.searchEnd terminators left i 0 = .found k) : j ≤ k := by
  obtain ⟨rest, hrest⟩ := (h.goesOn_searchEnd hterminators (by simp)).exists_found hfound
  exact FrontEnd.le_of_searchEnd hrest

end

end FrontEnd
