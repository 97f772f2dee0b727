import FrontEnd.Proofs.Scope.Global

/-!
# What scopes become while they live

A symbol that was declared keeps its name, kind, type, shape and place, and a function its signature,
scope and body.  What may change is that it was given a value, that more members of an instance were,
and that a body is known to return: `Symbol.Later`.

`Scope.Follows r` says that a scope has kept its symbols where they stood, each in the relation `r`
to what it was, with new ones behind them.  All operations of an arena keep to it, as far as a scope
is there before and after.
-/

namespace FrontEnd

/-- What a kind of symbol may become. -/
inductive SymbolKind.Later : SymbolKind → SymbolKind → Prop
  | var : Later .var .var
  | const : Later .const .const
  | function {info : FunctionInfo} {hasReturn : Bool} (h : info.hasReturn → hasReturn) :
    Later (.function info) (.function { info with hasReturn := hasReturn })
  | struct (members : List TypedName) : Later (.struct members) (.struct members)
  | structInstance (structName : String) {before after : List String} (h : before ⊆ after) :
    Later (.structInstance structName before) (.structInstance structName after)

/-- What a symbol may become. -/
structure Symbol.Later (s after : Symbol) : Prop where
  name : after.name = s.name
  kind : s.kind.Later after.kind
  type : after.type = s.type
  initialized : s.initialized → after.initialized
  array : after.array = s.array
  position : after.position = s.position

/-- What a symbol may become on a walk over statements: what is known of a function stays. -/
structure Symbol.Marked (s after : Symbol) : Prop extends s.Later after where
  functionInfo? : after.functionInfo? = s.functionInfo?

/-- A scope has kept its symbols where they stood, each related to what it was. -/
structure Scope.Follows (r : Symbol → Symbol → Prop) (s after : Scope) : Prop where
  label : after.label = s.label
  parent : after.parent = s.parent
  symbols : ∀ (i : Nat) (symbol : Symbol), s.symbols[i]? = some symbol →
    ∃ kept, after.symbols[i]? = some kept ∧ r symbol kept

/-- Every scope that is there before and after has kept its symbols. -/
def Arena.Follows (r : Symbol → Symbol → Prop) (a after : Arena) : Prop :=
  ∀ id scope kept, a.scope? id = some scope → after.scope? id = some kept →
    scope.Follows r kept

/-- All scopes are kept, and no scope but one has got new symbols. -/
structure Arena.AddsTo (id : Nat) (a after : Arena) : Prop where
  size : after.size = a.size
  follows : a.Follows Symbol.Marked after
  length : ∀ other scope kept, other ≠ id → a.scope? other = some scope →
    after.scope? other = some kept → kept.symbols.length = scope.symbols.length

/-! ### Symbols -/

theorem SymbolKind.Later.refl (k : SymbolKind) : k.Later k := by
  cases k with
  | var => exact .var
  | const => exact .const
  | function info => exact .function id
  | struct members => exact .struct members
  | structInstance structName members => exact .structInstance structName (List.Subset.refl members)

theorem SymbolKind.Later.trans {k l m : SymbolKind} (h : k.Later l) (h' : l.Later m) :
    k.Later m := by
  cases h with
  | var => exact h'
  | const => exact h'
  | function h =>
    cases h' with
    | function h' => exact .function (h' ∘ h)
  | struct => exact h'
  | structInstance structName h =>
    cases h' with
    | structInstance _ h' => exact .structInstance structName (List.Subset.trans h h')

namespace Symbol

variable {s after later : Symbol}

theorem Later.refl (s : Symbol) : s.Later s :=
  ⟨rfl, .refl s.kind, rfl, id, rfl, rfl⟩

theorem Later.trans (h : s.Later after) (h' : after.Later later) : s.Later later :=
  ⟨h'.name.trans h.name, h.kind.trans h'.kind, h'.type.trans h.type,
    h'.initialized ∘ h.initialized, h'.array.trans h.array, h'.position.trans h.position⟩

theorem Marked.refl (s : Symbol) : s.Marked s :=
  ⟨.refl s, rfl⟩

theorem Marked.trans (h : s.Marked after) (h' : after.Marked later) : s.Marked later :=
  ⟨h.toLater.trans h'.toLater, h'.functionInfo?.trans h.functionInfo?⟩

theorem marked_withValue (s : Symbol) : s.Marked s.withValue :=
  ⟨⟨rfl, .refl s.kind, rfl, fun _ ↦ rfl, rfl, rfl⟩, rfl⟩

theorem marked_withMember (member : String) (s : Symbol) : s.Marked (s.withMember member) := by
  unfold withMember
  split
  next structName members hkind =>
    have hmembers : members ⊆ members.insert member :=
      fun _ hmem ↦ List.mem_insert_of_mem hmem
    refine ⟨⟨rfl, ?_, rfl, id, rfl, rfl⟩, ?_⟩
    · rw [hkind]
      exact .structInstance structName hmembers
    · simp [Symbol.functionInfo?, hkind]
  next => exact marked_withValue s

/-- Whether a body returns may be recorded of a function of which it was not known before. -/
theorem later_withReturn {hasReturn : Bool}
    (h : ∀ info, s.functionInfo? = some info → info.hasReturn = false) :
    s.Later (s.withReturn hasReturn) := by
  unfold withReturn
  split
  next info hkind =>
    have hinfo : s.functionInfo? = some info := by simp [Symbol.functionInfo?, hkind]
    refine ⟨rfl, ?_, rfl, id, rfl, rfl⟩
    rw [hkind]
    exact .function fun htrue ↦ absurd htrue (by simp [h info hinfo])
  next => exact .refl s

end Symbol

/-! ### Scopes -/

namespace Scope

variable {r : Symbol → Symbol → Prop} {s after later : Scope} {name : String}

namespace Follows

theorem refl (hr : ∀ symbol, r symbol symbol) (s : Scope) : s.Follows r s :=
  ⟨rfl, rfl, fun _ symbol hi ↦ ⟨symbol, hi, hr symbol⟩⟩

theorem trans (hr : ∀ {s t u : Symbol}, r s t → r t u → r s u) (h : s.Follows r after)
    (h' : after.Follows r later) : s.Follows r later := by
  refine ⟨h'.label.trans h.label, h'.parent.trans h.parent, fun i symbol hi ↦ ?_⟩
  obtain ⟨kept, hkept, hrel⟩ := h.symbols i symbol hi
  obtain ⟨last, hlast, hrel'⟩ := h'.symbols i kept hkept
  exact ⟨last, hlast, hr hrel hrel'⟩

theorem mono {r' : Symbol → Symbol → Prop} (hr : ∀ s t, r s t → r' s t) (h : s.Follows r after) :
    s.Follows r' after :=
  ⟨h.label, h.parent, fun i symbol hi ↦ (h.symbols i symbol hi).imp fun _ ⟨hkept, hrel⟩ ↦
    ⟨hkept, hr _ _ hrel⟩⟩

theorem add (hr : ∀ symbol, r symbol symbol) (s : Scope) (symbol : Symbol) :
    s.Follows r (s.add symbol) := by
  refine ⟨rfl, rfl, fun i found hi ↦ ⟨found, ?_, hr found⟩⟩
  show (s.symbols ++ [symbol])[i]? = some found
  rw [List.getElem?_append_left (List.getElem?_eq_some_iff.1 hi).1, hi]

theorem modify (hr : ∀ symbol, r symbol symbol) {f : Symbol → Symbol}
    (hf : ∀ symbol ∈ s.symbols, symbol.name = name → r symbol (f symbol)) :
    s.Follows r (s.modify name f) := by
  refine ⟨rfl, rfl, fun i symbol hi ↦ ?_⟩
  have hkept : (s.modify name f).symbols[i]? =
      some (if symbol.name == name then f symbol else symbol) := by
    simp [Scope.modify, hi]
  refine ⟨_, hkept, ?_⟩
  split
  next hname => exact hf symbol (List.mem_of_getElem? hi) (by simpa using hname)
  next => exact hr symbol

/-- The symbol of a name stays the symbol of that name. -/
theorem find? (hname : ∀ s t, r s t → t.name = s.name) (h : s.Follows r after) {symbol : Symbol}
    (hfind : s.find? name = some symbol) :
    ∃ kept, after.find? name = some kept ∧ r symbol kept := by
  unfold Scope.find? at hfind
  obtain ⟨hmatch, i, hi, rfl, hbefore⟩ := List.find?_eq_some_iff_getElem.1 hfind
  obtain ⟨kept, hkept, hrel⟩ := h.symbols i _ (List.getElem?_eq_getElem hi)
  obtain ⟨hlt, hget⟩ := List.getElem?_eq_some_iff.1 hkept
  refine ⟨kept, List.find?_eq_some_iff_getElem.2 ⟨?_, i, hlt, hget, fun j hj ↦ ?_⟩, hrel⟩
  · rw [hname _ _ hrel]
    exact hmatch
  · obtain ⟨other, hother, hrel'⟩ := h.symbols j _ (List.getElem?_eq_getElem (Nat.lt_trans hj hi))
    rw [(List.getElem?_eq_some_iff.1 hother).2, hname _ _ hrel']
    exact hbefore j hj

end Follows

end Scope

/-! ### Arenas -/

namespace Arena

variable {r : Symbol → Symbol → Prop} {a after later : Arena} {id : Nat} {name : String}

/-! ### How many scopes there are -/

theorem size_modify (f : Symbol → Symbol) : (a.modify id name f).size = a.size := by
  unfold modify
  split
  · exact Array.size_modify
  · rfl

theorem size_insert {symbol : Symbol} (h : a.insert id symbol = some after) :
    after.size = a.size := by
  unfold insert at h
  split at h
  · cases h
  · split at h
    · cases h
    · cases h
      exact Array.size_modify

theorem size_release_pos (ha : 0 < a.size) (hid : id ≠ 0) : 0 < (a.release id).size := by
  unfold release
  rw [if_neg hid]
  show 0 < (a.scopes.take id).size
  rw [Array.take, Array.size_extract]
  show 0 < min id a.size - 0
  omega

theorem scope?_isSome_iff : (a.scope? id).isSome ↔ id < a.size := by
  unfold scope?
  rw [isSome_getElem?]
  exact Iff.rfl

/-! ### Scopes that stay -/

theorem release_push (ha : 0 < a.size) (parent : Nat) (label : String) :
    (a.push parent label).release a.size = a := by
  unfold release push
  rw [if_neg (Nat.ne_of_gt ha)]
  unfold size
  simp

theorem scope?_push_of_lt (hid : id < a.size) (parent : Nat) (label : String) :
    (a.push parent label).scope? id = a.scope? id := by
  unfold scope? Arena.push
  rw [Array.getElem?_push_lt hid]
  exact (Array.getElem?_eq_getElem hid).symm

theorem scope?_release (hid : id ≠ 0) {other : Nat} {scope : Scope}
    (h : (a.release id).scope? other = some scope) : a.scope? other = some scope := by
  unfold release scope? at h
  rw [if_neg hid] at h
  have h : (a.scopes.take id)[other]? = some scope := h
  rw [Array.take, Array.getElem?_extract] at h
  split at h
  next => simpa [scope?] using h
  next => cases h

namespace Follows

theorem refl (hr : ∀ symbol, r symbol symbol) (a : Arena) : a.Follows r a := by
  intro id scope kept hscope hkept
  cases hscope.symm.trans hkept
  exact .refl hr scope

theorem mono {r' : Symbol → Symbol → Prop} (hr : ∀ s t, r s t → r' s t) (h : a.Follows r after) :
    a.Follows r' after :=
  fun id scope kept hscope hkept ↦ (h id scope kept hscope hkept).mono hr

theorem push (hr : ∀ symbol, r symbol symbol) (a : Arena) (parent : Nat) (label : String) :
    a.Follows r (a.push parent label) := by
  intro id scope kept hscope hkept
  have hlt := (Array.getElem?_eq_some_iff.1 hscope).1
  exact refl hr a id scope kept hscope (scope?_push_of_lt hlt parent label ▸ hkept)

theorem release (hr : ∀ symbol, r symbol symbol) (a : Arena) (scope : Nat) :
    a.Follows r (a.release scope) := by
  by_cases hscope : scope = 0
  · have hsame : a.release scope = a := if_pos hscope
    rw [hsame]
    exact refl hr a
  · exact fun id before kept hbefore hkept ↦
      refl hr a id before kept hbefore (scope?_release hscope hkept)

theorem modify (hr : ∀ symbol, r symbol symbol) {f : Symbol → Symbol}
    (hf : ∀ scope, a.scope? ((a.owner? id name).getD 0) = some scope →
      ∀ symbol ∈ scope.symbols, symbol.name = name → r symbol (f symbol)) :
    a.Follows r (a.modify id name f) := by
  unfold Arena.modify
  split
  next owner howner =>
    intro other scope kept hscope hkept
    have hkept : (a.scopes.modify owner fun scope ↦ scope.modify name f)[other]? = some kept :=
      hkept
    have hscope' : a.scopes[other]? = some scope := hscope
    rw [Array.getElem?_modify, hscope'] at hkept
    split at hkept
    next heq =>
      cases hkept
      refine .modify hr (hf scope ?_)
      rw [howner, Option.getD_some, heq]
      exact hscope
    next =>
      cases hkept
      exact .refl hr _
  next => exact refl hr a

theorem insert (hr : ∀ symbol, r symbol symbol) {symbol : Symbol}
    (h : a.insert id symbol = some after) : a.Follows r after := by
  obtain ⟨there, hthere, -, hadded, hothers⟩ := insert_eq_some h
  intro other scope kept hscope hkept
  by_cases hid : other = id
  · subst hid
    cases hscope.symm.trans hthere
    cases hkept.symm.trans hadded
    exact .add hr _ symbol
  · rw [hothers other hid] at hkept
    exact refl hr a other scope kept hscope hkept

end Follows

theorem scope?_release_of_lt {other : Nat} (hother : other < id) :
    (a.release id).scope? other = a.scope? other := by
  unfold release scope?
  rw [if_neg (Nat.ne_of_gt (Nat.zero_lt_of_lt hother))]
  show (a.scopes.take id)[other]? = _
  rw [Array.take, Array.getElem?_extract, Nat.zero_add]
  split
  · rfl
  next hle => exact (Array.getElem?_eq_none (by omega)).symm

namespace AddsTo

theorem refl (id : Nat) (a : Arena) : a.AddsTo id a := by
  refine ⟨rfl, .refl Symbol.Marked.refl a, fun other scope kept _ hscope hkept ↦ ?_⟩
  cases hscope.symm.trans hkept
  rfl

/-- A scope that is there before is there behind. -/
theorem exists_scope (h : a.AddsTo id after) {other : Nat} {scope : Scope}
    (hscope : a.scope? other = some scope) :
    ∃ kept, after.scope? other = some kept ∧ scope.Follows Symbol.Marked kept ∧
      (other ≠ id → kept.symbols.length = scope.symbols.length) := by
  have hlt : other < after.size := by
    rw [h.size]
    exact scope?_isSome_iff.1 (hscope ▸ rfl)
  obtain ⟨kept, hkept⟩ := Option.isSome_iff_exists.1 (scope?_isSome_iff.2 hlt)
  exact ⟨kept, hkept, h.follows other scope kept hscope hkept,
    fun hne ↦ h.length other scope kept hne hscope hkept⟩

theorem trans (h : a.AddsTo id after) (h' : after.AddsTo id later) : a.AddsTo id later := by
  refine ⟨h'.size.trans h.size, fun other scope last hscope hlast ↦ ?_,
    fun other scope last hne hscope hlast ↦ ?_⟩
  · obtain ⟨kept, hkept, hfollows, -⟩ := h.exists_scope hscope
    exact hfollows.trans Symbol.Marked.trans (h'.follows other kept last hkept hlast)
  · obtain ⟨kept, hkept, -, hlength⟩ := h.exists_scope hscope
    exact (h'.length other kept last hne hkept hlast).trans (hlength hne)

theorem modify {f : Symbol → Symbol} (hf : ∀ symbol : Symbol, symbol.Marked (f symbol)) (a : Arena)
    (id scope : Nat) (name : String) : a.AddsTo id (a.modify scope name f) := by
  refine ⟨size_modify f, .modify Symbol.Marked.refl fun _ _ symbol _ _ ↦ hf symbol,
    fun other before kept _ hbefore hkept ↦ ?_⟩
  unfold Arena.modify at hkept
  split at hkept
  next owner _ =>
    have hkept : (a.scopes.modify owner fun scope ↦ scope.modify name f)[other]? = some kept := hkept
    have hbefore : a.scopes[other]? = some before := hbefore
    rw [Array.getElem?_modify, hbefore] at hkept
    split at hkept
    · cases hkept
      exact List.length_map _
    · cases hkept
      rfl
  next =>
    cases hbefore.symm.trans hkept
    rfl

theorem insert {symbol : Symbol} (h : a.insert id symbol = some after) : a.AddsTo id after := by
  obtain ⟨there, hthere, -, hadded, hothers⟩ := insert_eq_some h
  refine ⟨size_insert h, .insert Symbol.Marked.refl h, fun other scope kept hne hscope hkept ↦ ?_⟩
  rw [hothers other hne] at hkept
  cases hscope.symm.trans hkept
  rfl

/-- What a block added to its own scope is gone when that is released. -/
theorem released {parent : Nat} {label : String} (ha : 0 < a.size)
    (h : (a.push parent label).AddsTo a.size after) (id : Nat) :
    a.AddsTo id (after.release a.size) := by
  have hsize : after.size = a.size + 1 := by
    rw [h.size]
    exact Array.size_push _
  have hkept {other : Nat} {scope kept : Scope} (hscope : a.scope? other = some scope)
      (hkept : (after.release a.size).scope? other = some kept) : other < a.size ∧
        (a.push parent label).scope? other = some scope ∧ after.scope? other = some kept := by
    have hlt : other < a.size := scope?_isSome_iff.1 (hscope ▸ rfl)
    exact ⟨hlt, (scope?_push_of_lt hlt parent label).trans hscope,
      (scope?_release_of_lt hlt).symm.trans hkept⟩
  refine ⟨?_, fun other scope kept hscope hafter ↦ ?_, fun other scope kept _ hscope hafter ↦ ?_⟩
  · unfold release
    rw [if_neg (Nat.ne_of_gt ha)]
    show (after.scopes.take a.size).size = _
    rw [Array.take, Array.size_extract]
    show min a.size after.size - 0 = a.size
    omega
  · obtain ⟨-, hscope, hafter⟩ := hkept hscope hafter
    exact h.follows other scope kept hscope hafter
  · obtain ⟨hlt, hscope, hafter⟩ := hkept hscope hafter
    exact h.length other scope kept (Nat.ne_of_lt hlt) hscope hafter

end AddsTo

end Arena

end FrontEnd
