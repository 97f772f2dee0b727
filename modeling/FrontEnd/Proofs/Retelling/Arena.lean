import FrontEnd.Proofs.Retelling.Basic
import FrontEnd.Proofs.Scope.Around

/-!
# Arenas of retold texts

Corresponding arenas stay so under each of their operations, if it is made with names and symbols that
correspond; and a name that is looked up in the one is found exactly if the renamed name is found in the
other, in the scope with the same index.
-/

namespace FrontEnd.Retelling

variable {T : Retelling}

/-! ### Rows -/

section

variable {α : Type} {r : α → α → Prop} {as bs : List α} {p q : α → Bool}

theorem any_eq (h : List.Forall₂ r as bs) (hpq : ∀ a b, r a b → q b = p a) :
    bs.any q = as.any p := by
  induction h with
  | nil => rfl
  | cons hfirst _ ih => rw [List.any_cons, List.any_cons, hpq _ _ hfirst, ih]

end

/-! ### Scopes -/

section

variable {a b : Scope} {s u : Symbol} {f g : Symbol → Symbol}

theorem name_beq (h : T.Symbols s u) (name : String) :
    (u.name == T.rename name) = (s.name == name) := by
  rw [h.name, rename_beq]

theorem Scopes.find? (h : T.Scopes a b) (name : String) :
    Option.Rel T.Symbols (a.find? name) (b.find? (T.rename name)) :=
  rel_find? h.symbols fun _ _ hsymbol ↦ name_beq hsymbol name

theorem Scopes.contains_eq (h : T.Scopes a b) (name : String) :
    b.contains (T.rename name) = a.contains name :=
  any_eq h.symbols fun _ _ hsymbol ↦ name_beq hsymbol name

theorem Scopes.modify (h : T.Scopes a b) (name : String)
    (hf : ∀ {s u}, T.Symbols s u → T.Symbols (f s) (g u)) :
    T.Scopes (a.modify name f) (b.modify (T.rename name) g) := by
  refine ⟨h.label, h.parent, ?_⟩
  simp only [Scope.modify, List.forall₂_map_left_iff, List.forall₂_map_right_iff]
  refine h.symbols.imp fun s u hsymbol ↦ ?_
  rw [name_beq hsymbol]
  split
  · exact hf hsymbol
  · exact hsymbol

theorem Scopes.add (h : T.Scopes a b) (hsymbol : T.Symbols s u) : T.Scopes (a.add s) (b.add u) :=
  ⟨h.label, h.parent, List.rel_append h.symbols (.cons hsymbol .nil)⟩

end

/-! ### Arenas -/

namespace Arenas

variable {a b : Arena} {s u : Symbol} {f g : Symbol → Symbol} {id : Nat}

theorem size_eq (h : T.Arenas a b) : b.size = a.size := by
  have hlt (id : Nat) : id < b.size ↔ id < a.size := by
    rw [← Arena.scope?_isSome_iff, ← Arena.scope?_isSome_iff]
    have hscope := h id
    generalize a.scope? id = found, b.scope? id = found' at hscope
    cases hscope <;> simp
  have ha := hlt a.size
  have hb := hlt b.size
  omega

theorem owner?_eq (h : T.Arenas a b) (id : Nat) (name : String) :
    b.owner? id (T.rename name) = a.owner? id name := by
  induction id using Nat.strongRecOn with
  | _ id ih =>
    rw [Arena.owner?, Arena.owner?]
    have hscope := h id
    unfold Arena.scope? at hscope
    generalize a.scopes[id]? = found, b.scopes[id]? = found' at hscope
    cases hscope with
    | none => rfl
    | some hscope =>
      simp only [hscope.contains_eq, hscope.parent]
      split
      · rfl
      · split
        next => rfl
        next parent _ =>
          split
          next hlt => exact ih parent hlt
          next => rfl

theorem lookup (h : T.Arenas a b) (id : Nat) (name : String) :
    Option.Rel T.Symbols (a.lookup id name) (b.lookup id (T.rename name)) := by
  unfold Arena.lookup
  rw [h.owner?_eq]
  cases a.owner? id name with
  | none => exact .none
  | some owner =>
    simp only [Option.bind_some]
    have hscope := h owner
    generalize a.scope? owner = found, b.scope? owner = found' at hscope
    cases hscope with
    | none => exact .none
    | some hscope => exact hscope.find? name

theorem declaredHere_eq (h : T.Arenas a b) (id : Nat) (name : String) :
    b.declaredHere id (T.rename name) = a.declaredHere id name := by
  unfold Arena.declaredHere
  have hscope := h id
  generalize a.scope? id = found, b.scope? id = found' at hscope
  cases hscope with
  | none => rfl
  | some hscope => exact hscope.contains_eq name

/-- A scope changed alike in both arenas. -/
theorem modifyScope (h : T.Arenas a b) {f g : Scope → Scope} (id : Nat)
    (hf : ∀ {s u}, T.Scopes s u → T.Scopes (f s) (g u)) :
    T.Arenas ⟨a.scopes.modify id f⟩ ⟨b.scopes.modify id g⟩ := by
  intro other
  have hscope := h other
  unfold Arena.scope? at hscope ⊢
  rw [Array.getElem?_modify, Array.getElem?_modify]
  split
  · generalize a.scopes[other]? = found, b.scopes[other]? = found' at hscope
    cases hscope with
    | none => exact .none
    | some hscope => exact .some (hf hscope)
  · exact hscope

theorem modify (h : T.Arenas a b) (id : Nat) (name : String)
    (hf : ∀ {s u}, T.Symbols s u → T.Symbols (f s) (g u)) :
    T.Arenas (a.modify id name f) (b.modify id (T.rename name) g) := by
  unfold Arena.modify
  rw [h.owner?_eq]
  split
  · exact h.modifyScope _ fun hscope ↦ hscope.modify name hf
  · exact h

theorem insert (h : T.Arenas a b) (id : Nat) (hsymbol : T.Symbols s u) :
    Option.Rel T.Arenas (a.insert id s) (b.insert id u) := by
  unfold Arena.insert
  have hscope := h id
  generalize a.scope? id = found, b.scope? id = found' at hscope
  cases hscope with
  | none => exact .none
  | some hscope =>
    simp only [hsymbol.name, hscope.contains_eq]
    split
    · exact .none
    · exact .some (h.modifyScope id fun hscope ↦ hscope.add hsymbol)

theorem push (h : T.Arenas a b) (parent : Nat) {label label' : String}
    (hlabel : T.Labels label label') : T.Arenas (a.push parent label) (b.push parent label') := by
  intro id
  have hscope := h id
  have hsize : b.scopes.size = a.scopes.size := h.size_eq
  unfold Arena.scope? at hscope ⊢
  rw [Arena.push, Arena.push, Array.getElem?_push, Array.getElem?_push, hsize]
  split
  · exact .some ⟨hlabel, rfl, .nil⟩
  · exact hscope

theorem release (h : T.Arenas a b) {id id' : Nat} (hid : id' = id) :
    T.Arenas (a.release id) (b.release id') := by
  subst hid
  unfold Arena.release
  split
  · exact h
  · intro other
    have hscope := h other
    have hsize : b.scopes.size = a.scopes.size := h.size_eq
    unfold Arena.scope? at hscope ⊢
    simp only [Array.take_eq_extract, Array.getElem?_extract, hsize, Nat.zero_add]
    split
    · exact hscope
    · exact .none

theorem initial : T.Arenas .initial .initial := by
  intro id
  cases id with
  | zero => exact .some ⟨.plain (by decide), rfl, .nil⟩
  | succ id => exact .none

end Arenas

end FrontEnd.Retelling
