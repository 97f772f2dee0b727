import FrontEnd.Proofs.Scope.Later
import Mathlib.Data.List.Nodup

/-!
# Scopes that declare no name twice

An arena keeps to this whatever is done with it (`Arena.Distinct`), so the symbol a scope has for a
name is the only one of that name.  From that follows what is needed where a change is meant for one
symbol but is made to all of its name: recording whether the body of a function returns changes that
function only, and only what is not known yet (`Arena.follows_recordReturn`).
-/

namespace FrontEnd

/-- No scope declares a name twice. -/
def Arena.Distinct (a : Arena) : Prop :=
  ∀ id scope, a.scope? id = some scope → (scope.symbols.map Symbol.name).Nodup

/-- What is known of the global function of a name. -/
def Arena.info? (a : Arena) (name : String) : Option FunctionInfo :=
  (a.lookup 0 name).bind Symbol.functionInfo?

namespace Arena

variable {a after : Arena} {id : Nat} {name : String}

/-! ### Names are declared once -/

namespace Distinct

theorem initial : Arena.initial.Distinct := by
  intro other scope hscope
  have hscope : #[Scope.empty "global" none][other]? = some scope := hscope
  obtain ⟨-, rfl⟩ := Array.getElem?_eq_some_iff.1 hscope
  simp [Scope.empty]

theorem push (h : a.Distinct) (parent : Nat) (label : String) : (a.push parent label).Distinct := by
  intro id scope hscope
  have hscope : (a.scopes.push (.empty label (some parent)))[id]? = some scope := hscope
  rw [Array.getElem?_push] at hscope
  split at hscope
  next =>
    cases hscope
    exact List.nodup_nil
  next => exact h id scope hscope

theorem release (h : a.Distinct) (hid : id ≠ 0) : (a.release id).Distinct :=
  fun other scope hscope ↦ h other scope (scope?_release hid hscope)

theorem modify (h : a.Distinct) {f : Symbol → Symbol} (hf : ∀ symbol, (f symbol).name = symbol.name) :
    (a.modify id name f).Distinct := by
  unfold Arena.modify
  split
  next owner _ =>
    intro other scope hscope
    have hscope : (a.scopes.modify owner fun scope ↦ scope.modify name f)[other]? = some scope :=
      hscope
    rw [Array.getElem?_modify] at hscope
    split at hscope
    next =>
      obtain ⟨before, hbefore, rfl⟩ := Option.map_eq_some_iff.1 hscope
      have hnames : (before.modify name f).symbols.map Symbol.name =
          before.symbols.map Symbol.name := by
        unfold Scope.modify
        rw [List.map_map]
        refine List.map_congr_left fun symbol _ ↦ ?_
        show (if symbol.name == name then f symbol else symbol).name = symbol.name
        split
        · exact hf symbol
        · rfl
      rw [hnames]
      exact h other before hbefore
    next => exact h other scope hscope
  next => exact h

theorem insert (h : a.Distinct) {symbol : Symbol} (hinsert : a.insert id symbol = some after) :
    after.Distinct := by
  obtain ⟨there, hthere, hfree, hadded, hothers⟩ := insert_eq_some hinsert
  intro other scope hscope
  by_cases hid : other = id
  · subst hid
    cases hadded.symm.trans hscope
    show ((there.symbols ++ [symbol]).map Symbol.name).Nodup
    rw [List.map_append, List.map_singleton, List.nodup_append]
    refine ⟨h _ there hthere, List.nodup_singleton _, fun name hname other hother ↦ ?_⟩
    rw [List.mem_singleton.1 hother]
    rintro rfl
    obtain ⟨same, hsame, hsameName⟩ := List.mem_map.1 hname
    have hcontains : there.contains symbol.name = true :=
      List.any_eq_true.2 ⟨same, hsame, by simpa using hsameName⟩
    rw [hcontains] at hfree
    cases hfree
  · exact h other scope (hothers other hid ▸ hscope)

/-- Where names are declared once, the symbol a name stands for is the only one of that name. -/
theorem eq_of_find? (h : a.Distinct) {scope : Scope} (hscope : a.scope? id = some scope)
    {symbol other : Symbol} (hfind : scope.find? name = some symbol) (hother : other ∈ scope.symbols)
    (hname : other.name = name) : other = symbol := by
  have hnodup := h id scope hscope
  have hmem := List.mem_of_find?_eq_some hfind
  have hsymbol : symbol.name = name := by
    have := List.find?_some hfind
    simpa using this
  exact List.inj_on_of_nodup_map hnodup hother hmem (hname.trans hsymbol.symm)

end Distinct

/-! ### What is known of functions -/

theorem info?_of_follows (h : a.Follows Symbol.Marked after) (hafter : 0 < after.size)
    {info : FunctionInfo} (hinfo : a.info? name = some info) : after.info? name = some info := by
  unfold info? at hinfo ⊢
  rw [lookup_zero] at hinfo ⊢
  obtain ⟨symbol, hsymbol, hinfo⟩ := Option.bind_eq_some_iff.1 hinfo
  obtain ⟨scope, hscope, hfind⟩ := Option.bind_eq_some_iff.1 hsymbol
  have hkept : after.scope? 0 = some after.scopes[0] := Array.getElem?_eq_getElem hafter
  obtain ⟨kept, hfound, hmarked⟩ :=
    (h 0 scope _ hscope hkept).find? (fun _ _ h ↦ h.name) hfind
  rw [hkept, Option.bind_some, hfound, Option.bind_some, hmarked.functionInfo?, hinfo]

theorem info?_push (ha : 0 < a.size) (parent : Nat) (label : String) :
    (a.push parent label).info? name = a.info? name := by
  unfold info?
  rw [lookup_zero, lookup_zero, scope?_zero_push parent label ha]

theorem info?_release (hid : id ≠ 0) : (a.release id).info? name = a.info? name := by
  unfold info?
  rw [lookup_zero, lookup_zero, scope?_zero_release hid]

/-- A change of the symbols of one name keeps what is known of the others. -/
theorem info?_modify_of_ne {other : String} (hne : other ≠ name) (g : Symbol → Symbol)
    (hg : ∀ symbol, (g symbol).name = symbol.name) :
    (a.modify 0 name g).info? other = a.info? other := by
  have hscope (scope : Scope) : (scope.modify name g).find? other = scope.find? other := by
    unfold Scope.find? Scope.modify
    rw [List.find?_map]
    have hname : ((fun symbol : Symbol ↦ symbol.name == other) ∘ fun symbol ↦
        if symbol.name == name then g symbol else symbol) = fun symbol ↦ symbol.name == other := by
      funext symbol
      show ((if symbol.name == name then g symbol else symbol).name == other) = _
      split
      · rw [hg]
      · rfl
    rw [hname]
    cases hfind : scope.symbols.find? fun symbol ↦ symbol.name == other with
    | none => rfl
    | some symbol =>
      have hother : symbol.name = other := by simpa using List.find?_some hfind
      simp [hother, hne]
  unfold info? Arena.modify
  split
  next owner _ =>
    rw [lookup_zero, lookup_zero]
    unfold scope?
    rw [Array.getElem?_modify]
    split
    · cases a.scopes[0]? with
      | none => rfl
      | some scope => exact congrArg (Option.bind · Symbol.functionInfo?) (hscope scope)
    · rfl
  next => rfl

/-- Whether a body returns may be recorded where this is not known yet. -/
theorem follows_recordReturn (ha : a.Distinct) {info : FunctionInfo}
    (hinfo : a.info? name = some info) (hunchecked : info.hasReturn = false) (sawReturn : Bool) :
    a.Follows Symbol.Later (a.modify 0 name (Symbol.withReturn sawReturn)) := by
  refine .modify Symbol.Later.refl fun scope hscope symbol hmem hname ↦
    Symbol.later_withReturn fun info' hinfo' ↦ ?_
  unfold info? at hinfo
  rw [lookup_zero] at hinfo
  obtain ⟨found, hfound, hinfo⟩ := Option.bind_eq_some_iff.1 hinfo
  obtain ⟨global, hglobal, hfind⟩ := Option.bind_eq_some_iff.1 hfound
  have howner : a.owner? 0 name = some 0 := by
    have hcontains : global.contains name = true := by
      obtain hcontains | hcontains := Bool.eq_false_or_eq_true (global.contains name)
      · exact hcontains
      · rw [Scope.find?_eq_none_of_contains hcontains] at hfind
        cases hfind
    have hglobal : a.scopes[0]? = some global := hglobal
    rw [owner?, hglobal]
    simp [hcontains]
  rw [howner, Option.getD_some, hglobal] at hscope
  cases hscope
  rw [ha.eq_of_find? hglobal hfind hmem hname] at hinfo'
  cases hinfo.symm.trans hinfo'
  exact hunchecked

end Arena

end FrontEnd
