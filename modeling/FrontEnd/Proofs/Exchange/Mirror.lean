import FrontEnd.Proofs.Retelling.Arena
import FrontEnd.Proofs.Scope.Around

/-!
# Symbols of two runs

When functions change places in a text, the symbols that two runs have for the same declaration differ
in little: a function has its scope and its body elsewhere, and a name that was given a value in the one
run may not have been given it yet in the other.  `Symbol.Mirrors late` relates such symbols, where
`late` says which names may have got their value in the first run only, and `Scope.Mirrors` relates
scopes that have such symbols for the same names, in whatever order.

What is visible from a place is a row of scopes, so two rows of mirrored scopes stay so under the
operations of an arena, and a name looked up in the one stands for what it stands for in the other.
-/

namespace FrontEnd

/-- What the same name was declared as. -/
inductive SymbolKind.Mirrors : SymbolKind → SymbolKind → Prop
  | var : Mirrors .var .var
  | const : Mirrors .const .const
  | function {info info' : FunctionInfo} (returns : info'.returns = info.returns)
    (parameters : info'.parameters = info.parameters)
    (isEntryPoint : info'.isEntryPoint = info.isEntryPoint) :
    Mirrors (.function info) (.function info')
  | struct (members : List TypedName) : Mirrors (.struct members) (.struct members)
  | structInstance (structName : String) (members members' : List String) :
    Mirrors (.structInstance structName members) (.structInstance structName members')

/-- The symbols two runs have for a declaration.  Scalars whose names are `late` may have been given a
value in the first run only; of arrays it does not matter. -/
structure Symbol.Mirrors (late : String → Prop) (a b : Symbol) : Prop where
  name : b.name = a.name
  kind : a.kind.Mirrors b.kind
  type : b.type = a.type
  array : b.array = a.array
  initialized : a.isScalar → a.initialized → b.initialized ∨ late a.name

/-- Scopes in which the same names are declared alike. -/
def Scope.Mirrors (late : String → Prop) (a b : Scope) : Prop :=
  ∀ name, Option.Rel (Symbol.Mirrors late) (a.find? name) (b.find? name)

variable {late : String → Prop}

theorem SymbolKind.Mirrors.refl (k : SymbolKind) : k.Mirrors k := by
  cases k with
  | var => exact .var
  | const => exact .const
  | function info => exact .function rfl rfl rfl
  | struct members => exact .struct members
  | structInstance structName members => exact .structInstance structName members members

namespace Symbol.Mirrors

variable {a b : Symbol}

theorem refl (late : String → Prop) (a : Symbol) : a.Mirrors late a :=
  ⟨rfl, .refl a.kind, rfl, rfl, fun _ ↦ .inl⟩

theorem isValue_eq (h : a.Mirrors late b) : b.isValue = a.isValue := by
  have hkind := h.kind
  unfold Symbol.isValue
  generalize a.kind = k, b.kind = l at hkind
  cases hkind <;> rfl

theorem isArray_eq (h : a.Mirrors late b) : b.isArray = a.isArray := by
  rw [Symbol.isArray, h.array, Symbol.isArray]

theorem isScalar_eq (h : a.Mirrors late b) : b.isScalar = a.isScalar := by
  have hkind := h.kind
  unfold Symbol.isScalar
  rw [h.isArray_eq]
  generalize a.kind = k, b.kind = l at hkind
  cases hkind <;> rfl

theorem isConstant_eq (h : a.Mirrors late b) : b.isConstant = a.isConstant := by
  have hkind := h.kind
  unfold Symbol.isConstant
  generalize a.kind = k, b.kind = l at hkind
  cases hkind <;> simp

theorem withValue (h : a.Mirrors late b) : a.withValue.Mirrors late b.withValue :=
  ⟨h.name, h.kind, h.type, h.array, fun _ _ ↦ .inl rfl⟩

theorem withMember (member : String) (h : a.Mirrors late b) :
    (a.withMember member).Mirrors late (b.withMember member) := by
  obtain ⟨name, kind, type, initialized, array, position⟩ := a
  obtain ⟨name', kind', type', initialized', array', position'⟩ := b
  obtain ⟨hname, hkind, htype, harray, hinitialized⟩ := h
  replace hkind : kind.Mirrors kind' := hkind
  cases hkind with
  | structInstance structName members members' =>
    exact ⟨hname, .structInstance _ _ _, htype, harray, hinitialized⟩
  | function hreturns hparameters hisEntryPoint =>
    exact ⟨hname, .function hreturns hparameters hisEntryPoint, htype, harray, fun _ _ ↦ .inl rfl⟩
  | var | const | struct => exact ⟨hname, .refl _, htype, harray, fun _ _ ↦ .inl rfl⟩

theorem withReturn (sawReturn : Bool) (h : a.Mirrors late b) :
    (a.withReturn sawReturn).Mirrors late (b.withReturn sawReturn) := by
  obtain ⟨name, kind, type, initialized, array, position⟩ := a
  obtain ⟨name', kind', type', initialized', array', position'⟩ := b
  obtain ⟨hname, hkind, htype, harray, hinitialized⟩ := h
  replace hkind : kind.Mirrors kind' := hkind
  cases hkind with
  | function hreturns hparameters hisEntryPoint =>
    exact ⟨hname, .function hreturns hparameters hisEntryPoint, htype, harray, hinitialized⟩
  | structInstance => exact ⟨hname, .structInstance _ _ _, htype, harray, hinitialized⟩
  | var | const | struct => exact ⟨hname, .refl _, htype, harray, hinitialized⟩

end Symbol.Mirrors

/-! ### Scopes -/

namespace Scope

variable {a b : Scope} {name : String} {s u : Symbol} {f : Symbol → Symbol}

theorem rel_find?_add (h : Option.Rel (Symbol.Mirrors late) (a.find? name) (b.find? name))
    (hsymbol : s.Mirrors late u) :
    Option.Rel (Symbol.Mirrors late) ((a.add s).find? name) ((b.add u).find? name) := by
  rw [find?_add, find?_add, hsymbol.name]
  generalize a.find? name = found, b.find? name = found' at h
  cases h with
  | none =>
    rw [Option.none_or, Option.none_or]
    split
    · exact .some hsymbol
    · exact .none
  | some h => exact .some h

namespace Mirrors

theorem refl (late : String → Prop) (a : Scope) : a.Mirrors late a := by
  intro name
  cases a.find? name with
  | none => exact .none
  | some symbol => exact .some (.refl late symbol)

theorem empty (label label' : String) (parent parent' : Option Nat) :
    (Scope.empty label parent).Mirrors late (.empty label' parent') :=
  fun _ ↦ .none

/-- Scopes with the same declarations in the same order. -/
theorem of_symbols (h : List.Forall₂ (Symbol.Mirrors late) a.symbols b.symbols) : a.Mirrors late b :=
  fun _ ↦ rel_find? h fun _ _ hsymbol ↦ by rw [hsymbol.name]

theorem contains_eq (h : a.Mirrors late b) (name : String) : b.contains name = a.contains name := by
  rw [← isSome_find?, ← isSome_find?]
  have hname := h name
  generalize a.find? name = found, b.find? name = found' at hname
  cases hname <;> rfl

theorem add (h : a.Mirrors late b) (hsymbol : s.Mirrors late u) :
    (a.add s).Mirrors late (b.add u) :=
  fun name ↦ rel_find?_add (h name) hsymbol

theorem modify (h : a.Mirrors late b) (changed : String)
    (hname : ∀ symbol, (f symbol).name = symbol.name)
    (hf : ∀ {s u}, Symbol.Mirrors late s u → (f s).Mirrors late (f u)) :
    (a.modify changed f).Mirrors late (b.modify changed f) := by
  intro name
  rw [find?_modify hname, find?_modify hname]
  have hfound := h name
  generalize a.find? name = found, b.find? name = found' at hfound
  cases hfound with
  | none => exact .none
  | some hsymbol =>
    refine .some ?_
    dsimp only
    rw [hsymbol.name]
    split
    · exact hf hsymbol
    · exact hsymbol

end Mirrors

end Scope

/-! ### Rows of scopes -/

/-- Rows of scopes in which the same names are declared alike. -/
abbrev RowMirrors (late : String → Prop) : List Scope → List Scope → Prop :=
  List.Forall₂ (Scope.Mirrors late)

namespace RowMirrors

variable {as bs : List Scope} {f : Symbol → Symbol}

theorem findSome? (h : RowMirrors late as bs) (name : String) :
    Option.Rel (Symbol.Mirrors late) (as.findSome? fun scope ↦ scope.find? name)
      (bs.findSome? fun scope ↦ scope.find? name) := by
  induction h with
  | nil => exact .none
  | @cons a b as bs hscope _ ih =>
    rw [List.findSome?_cons, List.findSome?_cons]
    have hname := hscope name
    generalize a.find? name = found, b.find? name = found' at hname
    cases hname with
    | none => exact ih
    | some hsymbol => exact .some hsymbol

theorem changeFirst (h : RowMirrors late as bs) (name : String)
    (hname : ∀ symbol, (f symbol).name = symbol.name)
    (hf : ∀ {s u}, Symbol.Mirrors late s u → (f s).Mirrors late (f u)) :
    RowMirrors late (changeFirst name f as) (FrontEnd.changeFirst name f bs) := by
  induction h with
  | nil => exact .nil
  | cons hscope hrest ih =>
    rw [FrontEnd.changeFirst, FrontEnd.changeFirst, hscope.contains_eq]
    split
    · exact .cons (hscope.modify name hname hf) hrest
    · exact .cons hscope ih

end RowMirrors

/-! ### Arenas -/

namespace Arena

variable {a b : Arena} {i j : Nat}

theorem rel_lookup (h : RowMirrors late (a.around i) (b.around j)) (name : String) :
    Option.Rel (Symbol.Mirrors late) (a.lookup i name) (b.lookup j name) := by
  rw [lookup_around, lookup_around]
  exact h.findSome? name

theorem declaredHere_eq_of_mirrors (h : RowMirrors late (a.around i) (b.around j)) (name : String) :
    b.declaredHere j name = a.declaredHere i name := by
  rw [declaredHere_around, declaredHere_around]
  generalize a.around i = as, b.around j = bs at h
  cases h with
  | nil => rfl
  | cons hscope _ => exact hscope.contains_eq name

theorem mirrors_modify (h : RowMirrors late (a.around i) (b.around j)) (name : String)
    {f : Symbol → Symbol} (hname : ∀ symbol, (f symbol).name = symbol.name)
    (hf : ∀ {s u}, Symbol.Mirrors late s u → (f s).Mirrors late (f u)) :
    RowMirrors late ((a.modify i name f).around i) ((b.modify j name f).around j) := by
  rw [around_modify, around_modify]
  exact h.changeFirst name hname hf

/-- What can be declared in the one arena can be declared in the other. -/
theorem mirrors_insert (h : RowMirrors late (a.around i) (b.around j)) {s u : Symbol}
    (hsymbol : s.Mirrors late u) {after : Arena} (hinsert : a.insert i s = some after) :
    ∃ after', b.insert j u = some after' ∧ RowMirrors late (after.around i) (after'.around j) := by
  obtain ⟨scope, outside, haround, hfree, hafter⟩ := around_insert hinsert
  rw [haround] at h
  obtain ⟨scope', outside', hscope, houtside, haround'⟩ := List.forall₂_cons_left_iff.1 h
  have hfree' : scope'.contains u.name = false := by
    rw [hsymbol.name, hscope.contains_eq, hfree]
  obtain ⟨after', hinsert', hafter'⟩ := exists_insert haround' hfree'
  refine ⟨after', hinsert', ?_⟩
  rw [hafter, hafter']
  exact .cons (hscope.add hsymbol) houtside

theorem mirrors_push (h : RowMirrors late (a.around i) (b.around j)) (hi : i < a.size)
    (hj : j < b.size) (label : String) :
    RowMirrors late ((a.push i label).around a.size) ((b.push j label).around b.size) := by
  rw [around_push hi, around_push hj]
  exact .cons (.empty _ _ _ _) h

end Arena

end FrontEnd
