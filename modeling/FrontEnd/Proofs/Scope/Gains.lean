import FrontEnd.Proofs.Scope.Distinct

/-!
# What scopes gain

A walk over the bodies declares variables, constants and instances, and nothing else.  `Arena.Gains`
says this of two arenas with the same scopes: each scope has kept its symbols where they stood, and
whatever it has beyond them holds values.  So a scope is what it has kept and what it has gained, and
its functions, its structs and the parameters it starts with are among the former
(`Scope.Gains.exists_append`).
-/

namespace FrontEnd

/-- A scope has kept its symbols, and what it has beyond them holds values. -/
structure Scope.Gains (s after : Scope) : Prop where
  follows : s.Follows Symbol.Later after
  values : ∀ (i : Nat) (symbol : Symbol), s.symbols.length ≤ i → after.symbols[i]? = some symbol →
    symbol.isValue

/-- The same scopes are there, and each has gained only what holds values. -/
structure Arena.Gains (a after : Arena) : Prop where
  size : after.size = a.size
  scopes : ∀ (id : Nat) (scope kept : Scope), a.scope? id = some scope →
    after.scope? id = some kept → scope.Gains kept

theorem Symbol.Later.isValue_eq {s after : Symbol} (h : s.Later after) :
    after.isValue = s.isValue := by
  obtain ⟨-, hkind, -, -, -, -⟩ := h
  unfold Symbol.isValue
  generalize s.kind = k at hkind ⊢
  generalize after.kind = l at hkind ⊢
  cases hkind <;> rfl

namespace Scope.Gains

variable {s after later : Scope}

theorem of_length (h : s.Follows Symbol.Later after)
    (hlength : after.symbols.length = s.symbols.length) : s.Gains after := by
  refine ⟨h, fun i symbol hi hsymbol ↦ ?_⟩
  rw [List.getElem?_eq_none (hlength ▸ hi)] at hsymbol
  cases hsymbol

theorem refl (s : Scope) : s.Gains s :=
  .of_length (.refl Symbol.Later.refl s) rfl

theorem trans (h : s.Gains after) (h' : after.Gains later) : s.Gains later := by
  refine ⟨h.follows.trans Symbol.Later.trans h'.follows, fun i symbol hi hsymbol ↦ ?_⟩
  cases hafter : after.symbols[i]? with
  | none => exact h'.values i symbol (List.getElem?_eq_none_iff.1 hafter) hsymbol
  | some found =>
    obtain ⟨kept, hkept, hlater⟩ := h'.follows.symbols i found hafter
    cases hkept.symm.trans hsymbol
    rw [hlater.isValue_eq]
    exact h.values i found hi hafter

theorem add (s : Scope) {symbol : Symbol} (hvalue : symbol.isValue) : s.Gains (s.add symbol) := by
  refine ⟨.add Symbol.Later.refl s symbol, fun i found hi hfound ↦ ?_⟩
  have hmem : found ∈ [symbol] := by
    have hfound : (s.symbols ++ [symbol])[i]? = some found := hfound
    rw [List.getElem?_append_right hi] at hfound
    exact List.mem_of_getElem? hfound
  exact List.mem_singleton.1 hmem ▸ hvalue

theorem length_le (h : s.Gains after) : s.symbols.length ≤ after.symbols.length := by
  refine Nat.le_of_not_lt fun hlt ↦ ?_
  obtain ⟨kept, hkept, -⟩ := h.follows.symbols after.symbols.length _ (List.getElem?_eq_getElem hlt)
  rw [List.getElem?_eq_none (Nat.le_refl _)] at hkept
  cases hkept

/-- A scope is what it has kept and what it has gained. -/
theorem exists_append (h : s.Gains after) : ∃ kept gained, after.symbols = kept ++ gained ∧
    List.Forall₂ Symbol.Later s.symbols kept ∧ ∀ symbol ∈ gained, symbol.isValue := by
  refine ⟨after.symbols.take s.symbols.length, after.symbols.drop s.symbols.length,
    (List.take_append_drop _ _).symm, ?_, fun symbol hsymbol ↦ ?_⟩
  · refine List.forall₂_iff_get.2 ⟨?_, fun i hi hkept ↦ ?_⟩
    · rw [List.length_take, Nat.min_eq_left h.length_le]
    · obtain ⟨kept, hthere, hlater⟩ := h.follows.symbols i _ (List.getElem?_eq_getElem hi)
      have hget : (after.symbols.take s.symbols.length).get ⟨i, hkept⟩ = kept := by
        rw [List.get_eq_getElem, List.getElem_take]
        exact List.getElem_of_getElem? hthere |>.2
      exact hget ▸ hlater
  · obtain ⟨i, hi⟩ := List.getElem?_of_mem hsymbol
    rw [List.getElem?_drop] at hi
    exact h.values _ symbol (Nat.le_add_right _ _) hi

end Scope.Gains

namespace Arena

variable {a after later : Arena} {id : Nat} {name : String}

/-- A change of symbols leaves as many as there were. -/
theorem length_modify (f : Symbol → Symbol) {other : Nat} {scope kept : Scope}
    (hscope : a.scope? other = some scope) (hkept : (a.modify id name f).scope? other = some kept) :
    kept.symbols.length = scope.symbols.length := by
  unfold Arena.modify at hkept
  split at hkept
  next owner _ =>
    have hkept : (a.scopes.modify owner fun scope ↦ scope.modify name f)[other]? = some kept := hkept
    have hscope : a.scopes[other]? = some scope := hscope
    rw [Array.getElem?_modify, hscope] at hkept
    split at hkept
    · cases hkept
      exact List.length_map _
    · cases hkept
      rfl
  next =>
    cases hscope.symm.trans hkept
    rfl

namespace Gains

theorem refl (a : Arena) : a.Gains a := by
  refine ⟨rfl, fun id scope kept hscope hkept ↦ ?_⟩
  cases hscope.symm.trans hkept
  exact .refl scope

/-- A scope that is there before is there behind. -/
theorem exists_scope (h : a.Gains after) {scope : Scope} (hscope : a.scope? id = some scope) :
    ∃ kept, after.scope? id = some kept ∧ scope.Gains kept := by
  have hlt : id < after.size := h.size ▸ scope?_isSome_iff.1 (hscope ▸ rfl)
  obtain ⟨kept, hkept⟩ := Option.isSome_iff_exists.1 (scope?_isSome_iff.2 hlt)
  exact ⟨kept, hkept, h.scopes id scope kept hscope hkept⟩

theorem trans (h : a.Gains after) (h' : after.Gains later) : a.Gains later := by
  refine ⟨h'.size.trans h.size, fun id scope last hscope hlast ↦ ?_⟩
  obtain ⟨kept, hkept, hgains⟩ := h.exists_scope hscope
  exact hgains.trans (h'.scopes id kept last hkept hlast)

theorem modify {f : Symbol → Symbol} (hf : a.Follows Symbol.Later (a.modify id name f)) :
    a.Gains (a.modify id name f) :=
  ⟨size_modify f, fun other scope kept hscope hkept ↦
    .of_length (hf other scope kept hscope hkept) (length_modify f hscope hkept)⟩

theorem insert {symbol : Symbol} (hvalue : symbol.isValue) (h : a.insert id symbol = some after) :
    a.Gains after := by
  obtain ⟨there, hthere, -, hadded, hothers⟩ := insert_eq_some h
  refine ⟨size_insert h, fun other scope kept hscope hkept ↦ ?_⟩
  by_cases hother : other = id
  · subst hother
    cases hscope.symm.trans hthere
    cases hkept.symm.trans hadded
    exact .add there hvalue
  · rw [hothers other hother] at hkept
    cases hscope.symm.trans hkept
    exact .refl scope

/-- What a block gained in its own scope is gone when that is released. -/
theorem released {parent : Nat} {label : String} (ha : 0 < a.size)
    (h : (a.push parent label).Gains after) : a.Gains (after.release a.size) := by
  have hsize : after.size = a.size + 1 := by
    rw [h.size]
    exact Array.size_push _
  refine ⟨?_, fun other scope kept hscope hkept ↦ ?_⟩
  · unfold release
    rw [if_neg (Nat.ne_of_gt ha)]
    show (after.scopes.take a.size).size = _
    rw [Array.take, Array.size_extract]
    show min a.size after.size - 0 = a.size
    omega
  · have hlt : other < a.size := scope?_isSome_iff.1 (hscope ▸ rfl)
    exact h.scopes other scope kept ((scope?_push_of_lt hlt parent label).trans hscope)
      ((scope?_release_of_lt hlt).symm.trans hkept)

end Gains

end Arena

end FrontEnd
