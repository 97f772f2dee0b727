import FrontEnd.Proofs.Scope.Later

/-!
# What names stand for

The symbols of an arena change while a walk goes on, but what they were declared as does not:
`Symbol.declared` leaves out what may still be added.  With it a place in a program has names that do
not depend on the walk, `Names`, and what the operations of an arena do to lookups is said in terms of
them: a new scope hides nothing, a released one takes its names with it, marks do not show, and a
declaration hides what its name stood for before.
-/

namespace FrontEnd

/-- What a kind of symbol is declared as. -/
def SymbolKind.declared : SymbolKind → SymbolKind
  | .function info => .function { info with hasReturn := false }
  | .structInstance structName _ => .structInstance structName []
  | k => k

/-- What a symbol is declared as: the symbol without what may be added later. -/
def Symbol.declared (s : Symbol) : Symbol :=
  { s with kind := s.kind.declared, initialized := false }

/-- What names stand for at a place of a program: the symbols as they are declared. -/
abbrev Names : Type :=
  String → Option Symbol

/-- The names at a place inside a block that declares some symbols, of which the first of a name
counts. -/
def Names.declaring (names : Names) (symbols : List Symbol) : Names :=
  fun name ↦ ((symbols.find? fun symbol ↦ symbol.name == name).map Symbol.declared).or (names name)

/-- The names in a scope. -/
def Arena.names (a : Arena) (id : Nat) : Names :=
  fun name ↦ (a.lookup id name).map Symbol.declared

/-- The index of the scope around a scope with an index.  Only older scopes count as parents. -/
def Scope.outer? (s : Scope) (id : Nat) : Option Nat :=
  s.parent.filter (· < id)

/-- The names around a scope. -/
def Arena.namesAround (a : Arena) (id : Nat) (scope : Scope) : Names :=
  fun name ↦ (scope.outer? id).bind fun outer ↦ a.names outer name

/-- The parent of a scope and what its symbols are declared as. -/
def Arena.shape? (a : Arena) (id : Nat) : Option (Option Nat × List Symbol) :=
  (a.scope? id).map fun scope ↦ (scope.parent, scope.symbols.map Symbol.declared)

/-! ### Symbols -/

namespace Symbol

variable {s after : Symbol}

@[simp]
theorem name_declared (s : Symbol) : s.declared.name = s.name :=
  rfl

@[simp]
theorem type_declared (s : Symbol) : s.declared.type = s.type :=
  rfl

@[simp]
theorem array_declared (s : Symbol) : s.declared.array = s.array :=
  rfl

@[simp]
theorem kind_declared (s : Symbol) : s.declared.kind = s.kind.declared :=
  rfl

theorem declared_withReturn (hasReturn : Bool) (s : Symbol) :
    (s.withReturn hasReturn).declared = s.declared := by
  unfold withReturn
  split
  next info hkind =>
    unfold declared
    rw [hkind]
    rfl
  next => rfl

@[simp]
theorem isValue_declared (s : Symbol) : s.declared.isValue = s.isValue := by
  unfold isValue
  rw [kind_declared]
  cases s.kind <;> rfl

@[simp]
theorem isArray_declared (s : Symbol) : s.declared.isArray = s.isArray :=
  rfl

@[simp]
theorem isScalar_declared (s : Symbol) : s.declared.isScalar = s.isScalar := by
  unfold isScalar
  rw [kind_declared, isArray_declared]
  cases s.kind <;> rfl

@[simp]
theorem isConstant_declared (s : Symbol) : s.declared.isConstant = s.isConstant := by
  unfold isConstant
  rw [kind_declared]
  cases s.kind <;> rfl

@[simp]
theorem functionInfo?_declared (s : Symbol) :
    s.declared.functionInfo? = s.functionInfo?.map fun info ↦ { info with hasReturn := false } := by
  unfold functionInfo?
  rw [kind_declared]
  cases s.kind <;> rfl

theorem Later.declared (h : s.Later after) : after.declared = s.declared := by
  have hkind : ∀ {k l : SymbolKind}, k.Later l → l.declared = k.declared := by
    intro k l h
    cases h <;> rfl
  unfold Symbol.declared
  rw [h.name, hkind h.kind, h.type, h.array, h.position]

end Symbol

theorem Scope.Follows.declared {r : Symbol → Symbol → Prop}
    (hr : ∀ s t, r s t → t.declared = s.declared) {s after : Scope} (h : s.Follows r after)
    (hlength : after.symbols.length = s.symbols.length) :
    after.symbols.map Symbol.declared = s.symbols.map Symbol.declared := by
  refine List.ext_getElem? fun i ↦ ?_
  rw [List.getElem?_map, List.getElem?_map]
  cases hi : s.symbols[i]? with
  | none =>
    rw [List.getElem?_eq_none_iff] at hi
    rw [List.getElem?_eq_none (hlength ▸ hi)]
  | some symbol =>
    obtain ⟨kept, hkept, hrel⟩ := h.symbols i symbol hi
    rw [hkept]
    exact congrArg some (hr _ _ hrel)

/-! ### Names -/

namespace Names

variable {names : Names} {symbols symbols' : List Symbol} {name : String}

@[simp]
theorem declaring_nil (names : Names) : names.declaring [] = names :=
  rfl

theorem declaring_congr (h : symbols'.map Symbol.declared = symbols.map Symbol.declared)
    (names : Names) : names.declaring symbols' = names.declaring symbols := by
  have hfind (symbols : List Symbol) (name : String) :
      (symbols.find? fun symbol ↦ symbol.name == name).map Symbol.declared =
        (symbols.map Symbol.declared).find? fun symbol ↦ symbol.name == name := by
    rw [List.find?_map]
    rfl
  funext name
  unfold declaring
  rw [hfind, hfind, h]

/-- A symbol whose name is new hides what is declared outside, wherever it stands in its block. -/
theorem declaring_concat {symbol : Symbol} (hfree : ∀ other ∈ symbols, other.name ≠ symbol.name)
    (names : Names) :
    names.declaring (symbols ++ [symbol]) = (names.declaring symbols).declaring [symbol] := by
  funext name
  unfold declaring
  rw [List.find?_append]
  by_cases hname : symbol.name = name
  · have hnone : (symbols.find? fun other ↦ other.name == name) = none := by
      rw [List.find?_eq_none]
      intro other hother
      simpa [← hname] using hfree other hother
    simp [hnone, hname]
  · simp [hname]

end Names

/-! ### Arenas -/

namespace Arena

variable {a after : Arena} {id : Nat} {name : String}

/-- A scope hides what the scope around it declares. -/
theorem lookup_eq {scope : Scope} (hscope : a.scope? id = some scope) :
    a.lookup id name = (scope.find? name).or
      ((scope.outer? id).bind fun outer ↦ a.lookup outer name) := by
  unfold lookup
  rw [owner?]
  have hscope' : a.scopes[id]? = some scope := hscope
  simp only [hscope']
  cases hcontains : scope.contains name with
  | true =>
    obtain ⟨symbol, hsymbol, hname⟩ := List.any_eq_true.1 hcontains
    have hfound : (scope.find? name).isSome := List.find?_isSome.2 ⟨symbol, hsymbol, hname⟩
    obtain ⟨found, hfound⟩ := Option.isSome_iff_exists.1 hfound
    simp [hscope, hfound]
  | false =>
    rw [Scope.find?_eq_none_of_contains hcontains]
    unfold Scope.outer?
    cases scope.parent with
    | none => rfl
    | some parent => by_cases hlt : parent < id <;> simp [hlt, Option.filter]

/-- The names in a scope are those around it, with what it declares. -/
theorem names_eq {scope : Scope} (hscope : a.scope? id = some scope) :
    a.names id = (a.namesAround id scope).declaring scope.symbols := by
  funext name
  unfold names namesAround Names.declaring
  rw [lookup_eq hscope]
  show ((scope.find? name).or _).map _ = ((scope.find? name).map _).or _
  cases scope.find? name with
  | some symbol => rfl
  | none => cases scope.outer? id <;> rfl

theorem outer?_lt {scope : Scope} {outer : Nat} (h : scope.outer? id = some outer) : outer < id := by
  simpa using (Option.filter_eq_some_iff.1 h).2

/-- The names around a scope depend on the scopes around it. -/
theorem namesAround_congr {scope kept : Scope} (hparent : kept.parent = scope.parent)
    (h : ∀ outer < id, after.names outer = a.names outer) :
    after.namesAround id kept = a.namesAround id scope := by
  have houter : kept.outer? id = scope.outer? id := by
    unfold Scope.outer?
    rw [hparent]
  funext name
  unfold namesAround
  rw [houter]
  cases hscope : scope.outer? id with
  | none => rfl
  | some outer => exact congrFun (h outer (outer?_lt hscope)) name

/-- The names in a scope depend on what is declared in it and around it only. -/
theorem names_congr (h : ∀ other ≤ id, after.shape? other = a.shape? other) :
    after.names id = a.names id := by
  induction id using Nat.strongRecOn with
  | ind id ih =>
    have hid := h id (Nat.le_refl id)
    unfold shape? at hid
    cases hscope : a.scope? id with
    | none =>
      rw [hscope, Option.map_none, Option.map_eq_none_iff] at hid
      have howner {b : Arena} (hb : b.scope? id = none) (name : String) : b.owner? id name = none := by
        rw [owner?]
        have hb : b.scopes[id]? = none := hb
        rw [hb]
      funext name
      unfold names lookup
      rw [howner hid, howner hscope]
      rfl
    | some scope =>
      rw [hscope, Option.map_some, Option.map_eq_some_iff] at hid
      obtain ⟨kept, hkept, hsame⟩ := hid
      obtain ⟨hparent, hsymbols⟩ := Prod.mk.inj hsame
      rw [names_eq hkept, names_eq hscope, Names.declaring_congr hsymbols,
        namesAround_congr hparent fun outer hlt ↦ ih outer hlt fun other hle ↦
          h other (Nat.le_of_lt (Nat.lt_of_le_of_lt hle hlt))]

/-- A new scope does not show in those that were there. -/
theorem names_push_of_lt (hid : id < a.size) (parent : Nat) (label : String) :
    (a.push parent label).names id = a.names id := by
  refine names_congr fun other hother ↦ ?_
  unfold shape?
  rw [scope?_push_of_lt (Nat.lt_of_le_of_lt hother hid)]

/-- A new scope has the names of the one around it. -/
theorem names_push (hid : id < a.size) (label : String) :
    (a.push id label).names a.size = a.names id := by
  have hscope : (a.push id label).scope? a.size = some (.empty label (some id)) :=
    Array.getElem?_push_size
  have houter : (Scope.empty label (some id)).outer? a.size = some id := by
    simpa [Scope.outer?, Scope.empty, Option.filter] using hid
  rw [names_eq hscope]
  funext name
  show ((Scope.outer? _ _).bind fun outer ↦ (a.push id label).names outer name) = a.names id name
  rw [houter, Option.bind_some, names_push_of_lt hid]

/-- What is added to another scope does not show in this one. -/
theorem AddsTo.shape? (h : a.AddsTo id after) {other : Nat} (hne : other ≠ id) :
    after.shape? other = a.shape? other := by
  unfold Arena.shape?
  cases hscope : a.scope? other with
  | none =>
    have hnone : after.scope? other = none := by
      rw [← Option.not_isSome_iff_eq_none, scope?_isSome_iff, h.size, ← scope?_isSome_iff, hscope]
      exact Bool.false_ne_true
    rw [hnone]
  | some scope =>
    obtain ⟨kept, hkept, hfollows, hlength⟩ := h.exists_scope hscope
    rw [hkept, Option.map_some, Option.map_some, hfollows.parent,
      hfollows.declared (fun _ _ h ↦ h.toLater.declared) (hlength hne)]

/-- What is added to another scope does not show in the ones around it. -/
theorem AddsTo.names (h : a.AddsTo id after) {other : Nat} (hother : other < id) :
    after.names other = a.names other :=
  names_congr fun _ hinner ↦ h.shape? (Nat.ne_of_lt (Nat.lt_of_le_of_lt hinner hother))

/-- A change that keeps what symbols are declared as does not show. -/
theorem shape?_modify {f : Symbol → Symbol} (hf : ∀ symbol, (f symbol).declared = symbol.declared)
    (a : Arena) (id : Nat) (name : String) (other : Nat) :
    (a.modify id name f).shape? other = a.shape? other := by
  have hsymbol (symbol : Symbol) :
      (if symbol.name == name then f symbol else symbol).declared = symbol.declared := by
    split
    · exact hf symbol
    · rfl
  have hscope (scope : Scope) :
      (scope.modify name f).symbols.map Symbol.declared = scope.symbols.map Symbol.declared := by
    show (scope.symbols.map _).map _ = _
    rw [List.map_map]
    exact List.map_congr_left fun symbol _ ↦ hsymbol symbol
  unfold Arena.modify
  split
  next owner _ =>
    show ((a.scopes.modify owner fun scope ↦ scope.modify name f)[other]?).map _ =
      (a.scopes[other]?).map _
    rw [Array.getElem?_modify]
    split
    · rw [Option.map_map]
      refine congrArg (Option.map · a.scopes[other]?) (funext fun scope ↦ ?_)
      exact Prod.ext rfl (hscope scope)
    · rfl
  next => rfl

/-- The names in a scope directly inside another one. -/
theorem names_of_shape? {outer : Nat} {symbols : List Symbol} (hlt : outer < id)
    (h : a.shape? id = some (some outer, symbols.map Symbol.declared)) :
    a.names id = (a.names outer).declaring symbols := by
  obtain ⟨scope, hscope, hsame⟩ := Option.map_eq_some_iff.1 h
  obtain ⟨hparent, hsymbols⟩ := Prod.mk.inj hsame
  have houter : scope.outer? id = some outer := by
    simpa [Scope.outer?, hparent, Option.filter] using hlt
  have haround : a.namesAround id scope = a.names outer := by
    funext name
    unfold namesAround
    rw [houter, Option.bind_some]
  rw [names_eq hscope, haround, Names.declaring_congr hsymbols]

/-- The names in the global scope are those that it declares. -/
theorem names_zero {scope : Scope} (hscope : a.scope? 0 = some scope) :
    a.names 0 = Names.declaring (fun _ ↦ none) scope.symbols := by
  have houter : scope.outer? 0 = none := by
    cases hparent : scope.parent <;> simp [Scope.outer?, hparent, Option.filter]
  have haround : a.namesAround 0 scope = fun _ ↦ none := by
    funext name
    unfold namesAround
    rw [houter, Option.bind_none]
  rw [names_eq hscope, haround]

/-- A declared symbol hides what its name stood for before. -/
theorem names_insert {symbol : Symbol} (h : a.insert id symbol = some after) :
    after.names id = (a.names id).declaring [symbol] := by
  obtain ⟨scope, hscope, hfree, hadded, hothers⟩ := insert_eq_some h
  have hnew : ∀ other ∈ scope.symbols, other.name ≠ symbol.name := by
    intro other hother hname
    have hcontains : scope.contains symbol.name = true :=
      List.any_eq_true.2 ⟨other, hother, by simpa using hname⟩
    rw [hcontains] at hfree
    cases hfree
  have haround : after.namesAround id (scope.add symbol) = a.namesAround id scope :=
    namesAround_congr rfl fun outer hlt ↦ (AddsTo.insert h).names hlt
  rw [names_eq hscope, names_eq hadded, haround]
  exact Names.declaring_concat hnew _

end Arena

end FrontEnd
