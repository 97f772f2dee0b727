import FrontEnd.Check.Names

/-!
# The global scope through the life of an arena

The global scope stands first and is its own owner, so a lookup there reads it alone
(`Arena.lookup_zero`).  New scopes, released scopes and declarations in other scopes leave it as it
is; a declaration in it and a change of one of its symbols keep what it declares.

What later proofs follow through an analysis is the body a global function was recorded with:
`Arena.body?`.
-/

namespace FrontEnd

/-- The body of a function. -/
def Symbol.body? (s : Symbol) : Option BodyRange :=
  s.functionInfo?.map FunctionInfo.body

/-- The index of the scope inside a function. -/
def Symbol.innerScope? (symbol : Symbol) : Option Nat :=
  symbol.functionInfo?.map FunctionInfo.scope

/-- A change of symbols that keeps names and bodies. -/
def KeepsBodies (f : Symbol → Symbol) : Prop :=
  ∀ s, (f s).name = s.name ∧ (f s).body? = s.body?

theorem keepsBodies_withValue : KeepsBodies Symbol.withValue :=
  fun _ ↦ ⟨rfl, rfl⟩

theorem keepsBodies_withMember (member : String) : KeepsBodies (Symbol.withMember member) := by
  intro s
  unfold Symbol.withMember
  split
  next hkind => simp [Symbol.body?, Symbol.functionInfo?, hkind]
  next => exact keepsBodies_withValue s

theorem keepsBodies_withReturn (hasReturn : Bool) : KeepsBodies (Symbol.withReturn hasReturn) := by
  intro s
  unfold Symbol.withReturn
  split
  next hkind => simp [Symbol.body?, Symbol.functionInfo?, hkind]
  next => exact ⟨rfl, rfl⟩

namespace Scope

variable {scope : Scope} {name : String}

theorem find?_eq_none_of_contains (h : scope.contains name = false) : scope.find? name = none := by
  simpa [find?, contains] using h

theorem isSome_find? (scope : Scope) (name : String) :
    (scope.find? name).isSome = scope.contains name := by
  rw [Bool.eq_iff_iff, find?, contains, List.find?_isSome, List.any_eq_true]

theorem find?_add (scope : Scope) (symbol : Symbol) (name : String) :
    (scope.add symbol).find? name =
      (scope.find? name).or (if symbol.name == name then some symbol else none) := by
  unfold find?
  rw [add, List.find?_append, List.find?_singleton]

theorem find?_modify {f : Symbol → Symbol} (hf : ∀ symbol, (f symbol).name = symbol.name)
    (scope : Scope) (changed name : String) : (scope.modify changed f).find? name =
      (scope.find? name).map fun symbol ↦ if symbol.name == changed then f symbol else symbol := by
  have hname (symbol : Symbol) :
      (if symbol.name == changed then f symbol else symbol).name = symbol.name := by
    split
    · exact hf symbol
    · rfl
  unfold find? modify
  simp only [List.find?_map, Function.comp_def, hname]

/-- The body of the function of a name. -/
def body? (scope : Scope) (name : String) : Option BodyRange :=
  (scope.find? name).bind Symbol.body?

theorem find?_add_self (symbol : Symbol) (hfree : scope.contains symbol.name = false) :
    (scope.add symbol).find? symbol.name = some symbol := by
  have hnone := find?_eq_none_of_contains hfree
  unfold find? at hnone ⊢
  simp [add, List.find?_append, hnone]

theorem find?_add_of_isSome (symbol : Symbol) {found : Symbol} (h : scope.find? name = some found) :
    (scope.add symbol).find? name = some found := by
  unfold find? at h ⊢
  simp [add, List.find?_append, h]

theorem contains_add (symbol : Symbol) :
    (scope.add symbol).contains name = (scope.contains name || symbol.name == name) := by
  simp [add, contains]

theorem body?_modify {f : Symbol → Symbol} (hf : KeepsBodies f) (changed : String) :
    (scope.modify changed f).body? name = scope.body? name := by
  have hname : ∀ s : Symbol, (if s.name == changed then f s else s).name = s.name := by
    intro s
    split
    · exact (hf s).1
    · rfl
  have hbody : ∀ s : Symbol, (if s.name == changed then f s else s).body? = s.body? := by
    intro s
    split
    · exact (hf s).2
    · rfl
  unfold body? find? modify
  simp only [List.find?_map, Function.comp_def, hname, Option.bind_map, hbody]

end Scope

namespace Arena

variable {a later : Arena} {id : Nat} {name : String}

/-- The body of the global function of a name. -/
def body? (a : Arena) (name : String) : Option BodyRange :=
  (a.lookup 0 name).bind Symbol.body?

theorem lookup_zero (a : Arena) (name : String) :
    a.lookup 0 name = (a.scope? 0).bind fun scope ↦ scope.find? name := by
  unfold lookup
  rw [owner?]
  unfold scope?
  cases hscope : a.scopes[0]? with
  | none => rfl
  | some scope =>
    by_cases hname : scope.contains name
    · simp [hname, hscope]
    · have hnone := Scope.find?_eq_none_of_contains (by simpa using hname)
      cases hparent : scope.parent <;> simp [hname, hnone, hparent]

theorem body?_eq (a : Arena) (name : String) :
    a.body? name = (a.scope? 0).bind fun scope ↦ scope.body? name := by
  simp only [body?, lookup_zero, Option.bind_assoc]
  rfl

theorem scope?_zero_push (parent : Nat) (label : String) (h : 0 < a.size) :
    (a.push parent label).scope? 0 = a.scope? 0 := by
  unfold scope? push size at *
  rw [Array.getElem?_push, if_neg (by omega)]

theorem scope?_zero_release (h : id ≠ 0) : (a.release id).scope? 0 = a.scope? 0 := by
  unfold release scope?
  rw [if_neg h]
  show (a.scopes.take id)[0]? = a.scopes[0]?
  rw [Array.take, Array.getElem?_extract]
  by_cases hsize : 0 < a.scopes.size
  · rw [if_pos (by omega)]
  · rw [if_neg (by omega), Array.getElem?_eq_none (by omega)]

theorem size_pos_of_body? {body : BodyRange} (h : a.body? name = some body) : 0 < a.size := by
  rw [body?_eq] at h
  obtain ⟨scope, hscope, -⟩ := Option.bind_eq_some_iff.1 h
  exact (Array.getElem?_eq_some_iff.1 hscope).1

theorem body?_push (parent : Nat) (label : String) {body : BodyRange}
    (h : a.body? name = some body) : (a.push parent label).body? name = some body := by
  rw [body?_eq, scope?_zero_push parent label (size_pos_of_body? h), ← body?_eq, h]

theorem body?_release (h : id ≠ 0) : (a.release id).body? name = a.body? name := by
  rw [body?_eq, scope?_zero_release h, ← body?_eq]

theorem insert_eq_some {symbol : Symbol} (h : a.insert id symbol = some later) :
    ∃ scope, a.scope? id = some scope ∧ scope.contains symbol.name = false ∧
      later.scope? id = some (scope.add symbol) ∧
      ∀ other, other ≠ id → later.scope? other = a.scope? other := by
  unfold insert at h
  split at h
  · cases h
  next scope hscope =>
    split at h
    · cases h
    next hfree =>
      cases h
      refine ⟨scope, hscope, by simpa using hfree, ?_, fun other hother ↦ ?_⟩
      · unfold scope? at hscope ⊢
        simp [Array.getElem?_modify, hscope]
      · unfold scope?
        simp [Array.getElem?_modify, hother.symm]

theorem insert_isSome {symbol : Symbol} {scope : Scope} (hscope : a.scope? id = some scope)
    (hfree : scope.contains symbol.name = false) : a.insert id symbol ≠ none := by
  simp [insert, hscope, hfree]

/-- A declaration keeps the bodies there are. -/
theorem body?_insert {symbol : Symbol} {body : BodyRange} (h : a.insert id symbol = some later)
    (hbody : a.body? name = some body) : later.body? name = some body := by
  obtain ⟨scope, hscope, -, hlater, hothers⟩ := insert_eq_some h
  rw [body?_eq] at hbody ⊢
  by_cases hzero : id = 0
  · subst hzero
    rw [hscope, Option.bind_some] at hbody
    rw [hlater, Option.bind_some]
    obtain ⟨found, hfound, hinfo⟩ := Option.bind_eq_some_iff.1 hbody
    unfold Scope.body?
    rw [Scope.find?_add_of_isSome symbol hfound, Option.bind_some, hinfo]
  · rwa [hothers 0 (Ne.symm hzero)]

theorem body?_modify {f : Symbol → Symbol} (hf : KeepsBodies f) (changed : String) :
    (a.modify id changed f).body? name = a.body? name := by
  unfold modify
  split
  next owner _ =>
    rw [body?_eq, body?_eq]
    unfold scope?
    rw [Array.getElem?_modify]
    split
    · cases a.scopes[0]? with
      | none => rfl
      | some scope => exact Scope.body?_modify hf changed
    · rfl
  next => rfl

end Arena

end FrontEnd
