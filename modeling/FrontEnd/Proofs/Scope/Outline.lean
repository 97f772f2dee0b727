import FrontEnd.Scope.Arena

/-!
# The outline of an arena

The labels and parents of the scopes, without what they declare.  New scopes are put behind it and
released ones cut off; declarations and changes of symbols do not show.
-/

namespace FrontEnd

/-- The labels and parents of the scopes of an arena. -/
def Arena.outline (a : Arena) : List (String × Option Nat) :=
  a.scopes.toList.map fun scope ↦ (scope.label, scope.parent)

namespace Arena

variable {a : Arena} {id : Nat} {name : String}

@[simp]
theorem length_outline (a : Arena) : a.outline.length = a.size := by
  simp [outline, size]

theorem outline_push (a : Arena) (parent : Nat) (label : String) :
    (a.push parent label).outline = a.outline ++ [(label, some parent)] := by
  simp [outline, push, Scope.empty]

theorem outline_release (a : Arena) (hid : id ≠ 0) :
    (a.release id).outline = a.outline.take id := by
  simp [outline, release, hid, List.map_take]

/-- A change inside one scope that keeps its label and parent does not show. -/
theorem outline_modifyScope (scopes : Array Scope) (owner : Nat) (f : Scope → Scope)
    (hf : ∀ scope, ((f scope).label, (f scope).parent) = (scope.label, scope.parent)) :
    (⟨scopes.modify owner f⟩ : Arena).outline = (⟨scopes⟩ : Arena).outline := by
  unfold outline
  rw [Array.toList_modify]
  refine List.ext_getElem? fun i ↦ ?_
  rw [List.getElem?_map, List.getElem?_map, List.getElem?_modify]
  cases scopes.toList[i]? with
  | none => rfl
  | some scope =>
    by_cases hi : owner = i <;> simp [hi, hf scope]

theorem outline_modify (f : Symbol → Symbol) : (a.modify id name f).outline = a.outline := by
  unfold modify
  cases a.owner? id name with
  | none => rfl
  | some owner => exact outline_modifyScope _ _ _ fun _ ↦ rfl

theorem outline_insert {symbol : Symbol} {a' : Arena} (h : a.insert id symbol = some a') :
    a'.outline = a.outline := by
  unfold insert at h
  split at h
  · cases h
  · split at h
    · cases h
    · cases h
      exact outline_modifyScope _ _ _ fun _ ↦ rfl

end Arena

end FrontEnd
