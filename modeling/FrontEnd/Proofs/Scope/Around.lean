import FrontEnd.Proofs.Scope.Names
import FrontEnd.Proofs.Scope.Outline
import Mathlib.Data.List.Forall2

/-!
# The scopes around a place

A place in a program sees the scope it is in, the scope around that one and so on outwards:
`Arena.around`.  A lookup goes through this row from its front, and what is declared or changed from a
place is declared in the first scope of the row or changed in the first that knows the name.  So the
row is all of an arena that a walk inside a scope depends on, whatever the indices of the scopes are.
-/

namespace FrontEnd

/-- The scopes around a place in a scope, innermost first.  Only older scopes count as parents. -/
def Arena.around (a : Arena) (id : Nat) : List Scope :=
  match a.scope? id with
  | none => []
  | some scope =>
    scope :: match scope.parent with
      | none => []
      | some parent => if parent < id then a.around parent else []
termination_by id

/-- The symbol of a name changed in the first scope of a row that declares the name. -/
def changeFirst (name : String) (f : Symbol → Symbol) : List Scope → List Scope
  | [] => []
  | scope :: scopes =>
    if scope.contains name then scope.modify name f :: scopes
    else scope :: changeFirst name f scopes

namespace Arena

variable {a after : Arena} {id other : Nat} {name : String} {scope : Scope} {f : Symbol → Symbol}

theorem around_eq_nil (h : a.scope? id = none) : a.around id = [] := by
  rw [around, h]

theorem around_eq (h : a.scope? id = some scope) :
    a.around id = scope :: (scope.outer? id).elim [] a.around := by
  rw [around, h]
  unfold Scope.outer?
  dsimp only
  cases scope.parent with
  | none => rfl
  | some parent => by_cases hlt : parent < id <;> simp [hlt, Option.filter]

/-- The row depends on the scopes up to the innermost one. -/
theorem around_congr (h : ∀ other ≤ id, after.scope? other = a.scope? other) :
    after.around id = a.around id := by
  induction id using Nat.strongRecOn with
  | ind id ih =>
    cases hscope : a.scope? id with
    | none => rw [around_eq_nil hscope, around_eq_nil ((h id (Nat.le_refl id)).trans hscope)]
    | some scope =>
      rw [around_eq hscope, around_eq ((h id (Nat.le_refl id)).trans hscope)]
      cases houter : scope.outer? id with
      | none => rfl
      | some outer =>
        have hlt := outer?_lt houter
        exact congrArg (scope :: ·) (ih outer hlt fun other hle ↦
          h other (Nat.le_of_lt (Nat.lt_of_le_of_lt hle hlt)))

/-- Changes of the innermost scope do not show in the row outside of it. -/
theorem around_of_changed {changed : Scope}
    (hchanged : after.scope? id = some changed) (hparent : changed.parent = scope.parent)
    (h : ∀ other < id, after.scope? other = a.scope? other) :
    after.around id = changed :: (scope.outer? id).elim [] a.around := by
  have houter : changed.outer? id = scope.outer? id := by
    unfold Scope.outer?
    rw [hparent]
  rw [around_eq hchanged, houter]
  cases hsome : scope.outer? id with
  | none => rfl
  | some outer =>
    exact congrArg (changed :: ·) (around_congr fun other hle ↦
      h other (Nat.lt_of_le_of_lt hle (outer?_lt hsome)))

theorem lookup_eq_none (h : a.scope? id = none) : a.lookup id name = none := by
  have hscope : a.scopes[id]? = none := h
  rw [lookup, owner?, hscope]
  rfl

/-- A name stands for the first symbol of that name in the row. -/
theorem lookup_around (a : Arena) (id : Nat) (name : String) :
    a.lookup id name = (a.around id).findSome? fun scope ↦ scope.find? name := by
  induction id using Nat.strongRecOn with
  | ind id ih =>
    cases hscope : a.scope? id with
    | none => rw [around_eq_nil hscope, lookup_eq_none hscope, List.findSome?_nil]
    | some scope =>
      rw [around_eq hscope, lookup_eq hscope, List.findSome?_cons]
      cases scope.find? name with
      | some symbol => rfl
      | none =>
        cases houter : scope.outer? id with
        | none => rfl
        | some outer => exact ih outer (outer?_lt houter)

theorem declaredHere_around (a : Arena) (id : Nat) (name : String) :
    a.declaredHere id name = (a.around id).head?.any fun scope ↦ scope.contains name := by
  unfold declaredHere
  cases hscope : a.scope? id with
  | none => rw [around_eq_nil hscope]; rfl
  | some scope => rw [around_eq hscope]; rfl

/-! ### New scopes and released ones -/

theorem around_push_of_lt (hid : id < a.size) (parent : Nat) (label : String) :
    (a.push parent label).around id = a.around id :=
  around_congr fun _ hle ↦ scope?_push_of_lt (Nat.lt_of_le_of_lt hle hid) parent label

theorem around_push (hid : id < a.size) (label : String) :
    (a.push id label).around a.size = .empty label (some id) :: a.around id := by
  have hscope : (a.push id label).scope? a.size = some (.empty label (some id)) :=
    Array.getElem?_push_size
  have houter : (Scope.empty label (some id)).outer? a.size = some id := by
    simpa [Scope.outer?, Scope.empty, Option.filter] using hid
  rw [around_eq hscope, houter]
  exact congrArg (_ :: ·) (around_push_of_lt hid id label)

theorem around_release (hother : other < id) : (a.release id).around other = a.around other :=
  around_congr fun _ hle ↦ scope?_release_of_lt (Nat.lt_of_le_of_lt hle hother)

/-- A scope whose parent is known stands in front of the row of that one. -/
theorem around_of_parent {parent : Nat} (hscope : a.scope? id = some scope)
    (hparent : scope.parent = some parent) (hlt : parent < id) :
    a.around id = scope :: a.around parent := by
  have houter : scope.outer? id = some parent := by
    simpa [Scope.outer?, hparent, Option.filter] using hlt
  rw [around_eq hscope, houter]
  rfl

/-- The row in front of which a scope stands can be read off the outline. -/
theorem around_of_outline {parent : Nat} {label : String}
    (h : a.outline[id]? = some (label, some parent)) (hlt : parent < id) :
    ∃ scope, a.around id = scope :: a.around parent := by
  rw [outline, List.getElem?_map, Array.getElem?_toList] at h
  obtain ⟨scope, hscope, hsame⟩ := Option.map_eq_some_iff.1 h
  exact ⟨scope, around_of_parent hscope (congrArg Prod.snd hsame) hlt⟩

theorem around_zero (hscope : a.scope? 0 = some scope) : a.around 0 = [scope] := by
  have houter : scope.outer? 0 = none := by
    cases hparent : scope.parent <;> simp [Scope.outer?, hparent, Option.filter]
  rw [around_eq hscope, houter]
  rfl

/-! ### Declarations and changes -/

theorem around_insert {symbol : Symbol} (h : a.insert id symbol = some after) :
    ∃ scope outside, a.around id = scope :: outside ∧ scope.contains symbol.name = false ∧
      after.around id = scope.add symbol :: outside := by
  obtain ⟨scope, hscope, hfree, hadded, hothers⟩ := insert_eq_some h
  exact ⟨scope, _, around_eq hscope, hfree,
    around_of_changed hadded rfl fun other hlt ↦ hothers other (Nat.ne_of_lt hlt)⟩

/-- A symbol whose name is free in the first scope of the row can be declared. -/
theorem exists_insert {symbol : Symbol} {outside : List Scope}
    (h : a.around id = scope :: outside) (hfree : scope.contains symbol.name = false) :
    ∃ after, a.insert id symbol = some after ∧ after.around id = scope.add symbol :: outside := by
  cases hscope : a.scope? id with
  | none =>
    rw [around_eq_nil hscope] at h
    cases h
  | some found =>
    have hfound : found = scope := by
      rw [around_eq hscope] at h
      exact (List.cons.inj h).1
    subst hfound
    obtain ⟨after, hafter⟩ := Option.ne_none_iff_exists'.1 (insert_isSome hscope hfree)
    obtain ⟨scope', outside', hbefore, -, haround⟩ := around_insert hafter
    obtain ⟨rfl, rfl⟩ := List.cons.inj (hbefore.symm.trans h)
    exact ⟨after, hafter, haround⟩

theorem owner?_le {owner : Nat} (h : a.owner? id name = some owner) : owner ≤ id := by
  induction id using Nat.strongRecOn with
  | ind id ih =>
    rw [owner?] at h
    split at h
    · cases h
    · split at h
      · cases h
        exact Nat.le_refl _
      · split at h
        · cases h
        · split at h
          next hlt => exact Nat.le_of_lt (Nat.lt_of_le_of_lt (ih _ hlt h) hlt)
          next => cases h

/-- A change from a place is one in the first scope of the row that declares the name. -/
theorem around_modify (a : Arena) (id : Nat) (name : String) (f : Symbol → Symbol) :
    (a.modify id name f).around id = changeFirst name f (a.around id) := by
  induction id using Nat.strongRecOn with
  | ind id ih =>
    cases hscope : a.scope? id with
    | none =>
      have hsame : a.modify id name f = a := by
        have hnone : a.scopes[id]? = none := hscope
        rw [modify, owner?, hnone]
      rw [hsame, around_eq_nil hscope]
      rfl
    | some scope =>
      have hscope' : a.scopes[id]? = some scope := hscope
      cases hcontains : scope.contains name with
      | true =>
        have hmodify : a.modify id name f = ⟨a.scopes.modify id fun scope ↦ scope.modify name f⟩ := by
          rw [modify, owner?, hscope']
          simp [hcontains]
        have hchanged : (a.modify id name f).scope? id = some (scope.modify name f) := by
          rw [hmodify]
          simp [scope?, Array.getElem?_modify, hscope']
        have hothers : ∀ other < id, (a.modify id name f).scope? other = a.scope? other := by
          intro other hlt
          rw [hmodify]
          simp [scope?, Array.getElem?_modify, (Nat.ne_of_lt hlt).symm]
        rw [around_eq hscope, changeFirst, hcontains, if_pos rfl]
        exact around_of_changed hchanged rfl hothers
      | false =>
        -- the scope that owns the name, if there is one, is further out
        have hmodify : a.modify id name f =
            (scope.outer? id).elim a fun outer ↦ a.modify outer name f := by
          rw [modify, owner?, hscope']
          unfold Scope.outer?
          dsimp only
          rw [hcontains, if_neg Bool.false_ne_true]
          cases scope.parent with
          | none => rfl
          | some parent => by_cases hlt : parent < id <;> simp [hlt, Option.filter, modify]
        rw [hmodify, around_eq hscope, changeFirst, hcontains, if_neg Bool.false_ne_true]
        cases houter : scope.outer? id with
        | none =>
          show a.around id = _
          rw [around_eq hscope, houter]
          rfl
        | some outer =>
          have hlt := outer?_lt houter
          have hsame : (a.modify outer name f).scope? id = some scope := by
            unfold modify
            split
            next owner howner =>
              have hne := Nat.ne_of_lt (Nat.lt_of_le_of_lt (owner?_le howner) hlt)
              simp [scope?, Array.getElem?_modify, hne, hscope']
            next => exact hscope
          show (a.modify outer name f).around id = _
          rw [around_eq hsame, houter]
          exact congrArg (scope :: ·) (ih outer hlt)

end Arena

/-! ### Rows that correspond -/

section

variable {α β γ δ : Type} {r : α → β → Prop} {as : List α} {bs : List β}

/-- What is found in the one row is found in the other. -/
theorem rel_find? {p : α → Bool} {q : β → Bool} (h : List.Forall₂ r as bs)
    (hpq : ∀ a b, r a b → q b = p a) : Option.Rel r (as.find? p) (bs.find? q) := by
  induction h with
  | nil => exact .none
  | cons hfirst _ ih =>
    rw [List.find?_cons, List.find?_cons, hpq _ _ hfirst]
    split
    · exact .some hfirst
    · exact ih

theorem rel_findSome? {t : γ → δ → Prop} {f : α → Option γ} {g : β → Option δ}
    (h : List.Forall₂ r as bs) (hfg : ∀ a b, r a b → Option.Rel t (f a) (g b)) :
    Option.Rel t (as.findSome? f) (bs.findSome? g) := by
  induction h with
  | nil => exact .none
  | @cons a b _ _ hfirst _ ih =>
    rw [List.findSome?_cons, List.findSome?_cons]
    have hrel := hfg a b hfirst
    revert hrel
    cases f a with
    | none =>
      cases g b with
      | none => exact fun _ ↦ ih
      | some _ => exact nofun
    | some _ =>
      cases g b with
      | none => exact nofun
      | some _ => exact id

end

end FrontEnd
