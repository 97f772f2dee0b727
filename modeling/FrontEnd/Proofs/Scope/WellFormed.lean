import FrontEnd.Check.Names
import FrontEnd.Check.Place
import FrontEnd.Proofs.Scope.Distinct
import FrontEnd.Scope.Table

/-!
# Well-formed symbol tables

What a symbol is declared as limits what else there can be about it: its type, its shape, whether it
has a value.  Only an instance of a struct needs the rest of the table for this, since its struct has
to be there and to have the members of it that were given a value (`Symbol.WellFormed`).

In a well-formed table (`SymbolTable.WellFormed`) all symbols are so, functions and structs are
declared in the global scope only, and the record of functions agrees with the global functions.  Each
operation of the arena keeps this as far as what it adds or changes fits in; the lemmas are stated on
which symbols the scopes have (`Arena.Holds`), not on the rows of scopes.
-/

namespace FrontEnd

/-- The members of a struct. -/
def Symbol.members? (s : Symbol) : Option (List TypedName) :=
  match s.kind with
  | .struct members => some members
  | _ => none

/-- A live scope declares a symbol. -/
def Arena.Holds (a : Arena) (id : Nat) (symbol : Symbol) : Prop :=
  ∃ scope, a.scope? id = some scope ∧ symbol ∈ scope.symbols

/-- A live scope declares a struct with some members. -/
def Arena.HasStruct (a : Arena) (id : Nat) (name : String) (members : List TypedName) : Prop :=
  ∃ symbol, a.Holds id symbol ∧ symbol.name = name ∧ symbol.members? = some members

/-- A struct with some members is declared somewhere. -/
def Arena.KnowsStruct (a : Arena) (name : String) (members : List TypedName) : Prop :=
  ∃ id, a.HasStruct id name members

/-- In a scope a name stands for something that has a part: any name has itself and its elements, an
instance the members of its struct. -/
def Arena.HasPart (a : Arena) (id : Nat) (name : String) : Part → Prop
  | .whole | .element => True
  | .member member => ∃ symbol structName given members, a.lookup id name = some symbol ∧
    symbol.kind = .structInstance structName given ∧ a.KnowsStruct structName members ∧
      member ∈ members.map TypedName.name

/-- What giving a part of a symbol a value does to it. -/
def Part.mark : Part → Symbol → Symbol
  | .member name => Symbol.withMember name
  | _ => Symbol.withValue

/-- What holds of a declared symbol, where it is known which structs there are. -/
structure Symbol.WellFormed (isStruct : String → List TypedName → Prop) (s : Symbol) : Prop where
  /-- Variables and constants are of a primitive type. -/
  primitive : s.kind = .var ∨ s.kind = .const → s.type.isPrimitive
  /-- Constants have a value. -/
  given : s.kind = .const → s.initialized
  /-- Arrays have one or two dimensions, and literal sizes are positive. -/
  shape : ∀ dimensions, s.array = some dimensions →
    (dimensions.length = 1 ∨ dimensions.length = 2) ∧ ∀ size, .literal size ∈ dimensions → 1 ≤ size
  /-- An instance has its struct as its type, and only members of it were given a value. -/
  ofStruct : ∀ structName given, s.kind = .structInstance structName given →
    s.type = .struct structName ∧
      ∃ members, isStruct structName members ∧ ∀ name ∈ given, name ∈ members.map TypedName.name

namespace SymbolTable

/-- The global scope declares a struct with some members. -/
def HasStruct (t : SymbolTable) (name : String) (members : List TypedName) : Prop :=
  t.arena.HasStruct 0 name members

/-- What holds of a symbol table. -/
structure WellFormed (t : SymbolTable) : Prop where
  symbols : ∀ id symbol, t.arena.Holds id symbol → symbol.WellFormed t.HasStruct
  /-- What a name may stand for in an expression has values, whatever scope the name is in. -/
  values : ∀ id name symbol, t.arena.lookup id name = some symbol → symbol.isValue →
    symbol.type ≠ .void
  /-- Functions and structs are global. -/
  global : ∀ id symbol, t.arena.Holds id symbol → symbol.isValue = false → id = 0
  /-- The functions on record are the global functions, with the scopes of their signatures. -/
  functions : ∀ name scope, t.functions.lookup name = some scope ↔
    ∃ symbol, t.arena.Holds 0 symbol ∧ symbol.name = name ∧ symbol.innerScope? = some scope

end SymbolTable

namespace Symbol

variable {isStruct isStruct' : String → List TypedName → Prop} {s : Symbol}

theorem WellFormed.mono (h : s.WellFormed isStruct)
    (himp : ∀ name members, isStruct name members → isStruct' name members) :
    s.WellFormed isStruct' where
  primitive := h.primitive
  given := h.given
  shape := h.shape
  ofStruct structName given hkind := by
    obtain ⟨htype, members, hstruct, hmembers⟩ := h.ofStruct structName given hkind
    exact ⟨htype, members, himp _ _ hstruct, hmembers⟩

/-- A value is of a primitive type or of the type of a struct. -/
theorem WellFormed.type_ne_void (h : s.WellFormed isStruct) (hvalue : s.isValue) :
    s.type ≠ .void := by
  intro hvoid
  have hprimitive (hkind : s.kind = .var ∨ s.kind = .const) : False := by
    have := h.primitive hkind
    rw [hvoid] at this
    cases this
  unfold isValue at hvalue
  split at hvalue
  next hkind => exact hprimitive (.inl hkind)
  next hkind => exact hprimitive (.inr hkind)
  next structName given hkind =>
    have htype := (h.ofStruct structName given hkind).1
    rw [hvoid] at htype
    cases htype
  all_goals cases hvalue

theorem WellFormed.withValue (h : s.WellFormed isStruct) : s.withValue.WellFormed isStruct :=
  ⟨h.primitive, fun _ ↦ rfl, h.shape, h.ofStruct⟩

/-- A member of an instance that is one of its struct may be given a value. -/
theorem WellFormed.withMember {member : String} (h : s.WellFormed isStruct)
    (hmember : ∀ structName given, s.kind = .structInstance structName given →
      ∀ members, isStruct structName members → member ∈ members.map TypedName.name) :
    (s.withMember member).WellFormed isStruct := by
  unfold Symbol.withMember
  split
  next structName given hkind =>
    obtain ⟨htype, members, hstruct, hgiven⟩ := h.ofStruct structName given hkind
    refine ⟨by simp, nofun, h.shape, ?_⟩
    rintro _ _ hsame
    cases hsame
    refine ⟨htype, members, hstruct, fun name hname ↦ ?_⟩
    obtain rfl | hname := List.mem_insert_iff.1 hname
    · exact hmember structName given hkind members hstruct
    · exact hgiven name hname
  next => exact h.withValue

theorem WellFormed.withReturn (h : s.WellFormed isStruct) (sawReturn : Bool) :
    (s.withReturn sawReturn).WellFormed isStruct := by
  unfold Symbol.withReturn
  split
  · exact ⟨by simp, nofun, h.shape, nofun⟩
  · exact h

theorem wellFormed_ofFunction (name : String) (info : FunctionInfo) (p : Position) :
    (ofFunction name info p).WellFormed isStruct :=
  ⟨by simp [ofFunction], nofun, nofun, nofun⟩

theorem wellFormed_ofStruct (name : String) (members : List TypedName) (p : Position) :
    (ofStruct name members p).WellFormed isStruct :=
  ⟨by simp [ofStruct], nofun, nofun, nofun⟩

/-- A variable, or a constant with a value. -/
theorem wellFormed_of_isPrimitive (hkind : s.kind = .var ∨ s.kind = .const ∧ s.initialized)
    (htype : s.type.isPrimitive) (hshape : ∀ dimensions, s.array = some dimensions →
      (dimensions.length = 1 ∨ dimensions.length = 2) ∧ ∀ size, .literal size ∈ dimensions → 1 ≤ size) :
    s.WellFormed isStruct := by
  refine ⟨fun _ ↦ htype, fun hconst ↦ ?_, hshape, fun _ _ hinstance ↦ ?_⟩
  · obtain hvar | hgiven := hkind
    · simp [hvar] at hconst
    · exact hgiven.2
  · obtain hvar | hgiven := hkind
    · simp [hvar] at hinstance
    · simp [hgiven.1] at hinstance

theorem wellFormed_ofInstance {structName : String} {members : List TypedName}
    (h : isStruct structName members) (name : String) (p : Position) :
    (ofInstance name structName p).WellFormed isStruct := by
  refine ⟨by simp [ofInstance], nofun, nofun, fun _ _ hkind ↦ ?_⟩
  cases hkind
  exact ⟨rfl, members, h, nofun⟩

end Symbol

namespace Arena

variable {a after : Arena} {id other : Nat} {name : String} {symbol : Symbol}

/-! ### Which symbols there are -/

theorem holds_of_lookup (h : a.lookup id name = some symbol) :
    ∃ owner, a.Holds owner symbol ∧ symbol.name = name := by
  obtain ⟨owner, -, h⟩ := Option.bind_eq_some_iff.1 h
  obtain ⟨scope, hscope, hfind⟩ := Option.bind_eq_some_iff.1 h
  exact ⟨owner, ⟨scope, hscope, List.mem_of_find?_eq_some hfind⟩, by
    simpa using List.find?_some hfind⟩

theorem holds_insert_iff (h : a.insert id symbol = some after) {found : Symbol} :
    after.Holds other found ↔ a.Holds other found ∨ (other = id ∧ found = symbol) := by
  obtain ⟨there, hthere, -, hadded, hothers⟩ := insert_eq_some h
  unfold Holds
  by_cases hother : other = id
  · subst hother
    simp [hthere, hadded, Scope.add]
  · simp [hothers other hother, hother]

theorem holds_push_iff {parent : Nat} {label : String} :
    (a.push parent label).Holds other symbol ↔ a.Holds other symbol := by
  have hpush : (a.push parent label).scope? other =
      if other = a.size then some (.empty label (some parent)) else a.scope? other :=
    Array.getElem?_push
  unfold Holds
  rw [hpush]
  split
  next hnew =>
    have hnone : a.scope? other = none := Array.getElem?_eq_none (Nat.le_of_eq hnew.symm)
    simp [hnone, Scope.empty]
  next => rfl

theorem KnowsStruct.insert {members : List TypedName} (h : a.KnowsStruct name members)
    (hinsert : a.insert id symbol = some after) : after.KnowsStruct name members := by
  obtain ⟨other, found, hholds, hfound⟩ := h
  exact ⟨other, found, (holds_insert_iff hinsert).2 (.inl hholds), hfound⟩

theorem Holds.of_release (hid : id ≠ 0) (h : (a.release id).Holds other symbol) :
    a.Holds other symbol := by
  obtain ⟨scope, hscope, hmem⟩ := h
  exact ⟨scope, scope?_release hid hscope, hmem⟩

/-- The global scope stays. -/
theorem holds_zero_release_iff (hid : id ≠ 0) :
    (a.release id).Holds 0 symbol ↔ a.Holds 0 symbol := by
  unfold Holds
  rw [scope?_zero_release hid]

/-- A change is made to what a name stands for, and all other symbols stay. -/
theorem holds_modify_iff {f : Symbol → Symbol} {found : Symbol} :
    (a.modify id name f).Holds other found ↔ ∃ before, a.Holds other before ∧ found =
      if a.owner? id name = some other ∧ before.name = name then f before else before := by
  have hscope : (a.modify id name f).scope? other =
      if a.owner? id name = some other then (a.scope? other).map fun scope ↦ scope.modify name f
      else a.scope? other := by
    unfold modify
    cases a.owner? id name with
    | none => rfl
    | some owner =>
      show (a.scopes.modify owner fun scope ↦ scope.modify name f)[other]? = _
      rw [Array.getElem?_modify]
      simp [scope?]
  unfold Holds
  rw [hscope]
  split
  next howner =>
    simp only [Option.map_eq_some_iff, howner, true_and]
    constructor
    · rintro ⟨-, ⟨scope, hthere, rfl⟩, hmem⟩
      obtain ⟨before, hbefore, rfl⟩ := List.mem_map.1 hmem
      exact ⟨before, ⟨scope, hthere, hbefore⟩, by simp⟩
    · rintro ⟨before, ⟨scope, hthere, hbefore⟩, rfl⟩
      exact ⟨_, ⟨scope, hthere, rfl⟩, List.mem_map.2 ⟨before, hbefore, by simp⟩⟩
  next howner => simp [howner]

/-- Where no name is declared twice, a symbol of a name is the one the name stands for. -/
theorem Distinct.lookup_eq (ha : a.Distinct) (howner : a.owner? id name = some other)
    (h : a.Holds other symbol) (hname : symbol.name = name) : a.lookup id name = some symbol := by
  obtain ⟨scope, hscope, hmem⟩ := h
  unfold lookup
  rw [howner, Option.bind_some, hscope, Option.bind_some]
  have hcontains : scope.contains name = true :=
    List.any_eq_true.2 ⟨symbol, hmem, beq_iff_eq.2 hname⟩
  obtain ⟨found, hfound⟩ := Option.isSome_iff_exists.1 ((scope.isSome_find? name).trans hcontains)
  rw [hfound, ha.eq_of_find? hscope hfound hmem hname]

theorem Distinct.eq_of_holds (ha : a.Distinct) {symbol' : Symbol} (h : a.Holds id symbol)
    (h' : a.Holds id symbol') (hname : symbol'.name = symbol.name) : symbol' = symbol := by
  obtain ⟨scope, hscope, hmem⟩ := h
  obtain ⟨_, hscope', hmem'⟩ := h'
  cases hscope.symm.trans hscope'
  exact List.inj_on_of_nodup_map (ha id scope hscope) hmem' hmem hname

end Arena

/-! ### What keeps a table well formed -/

/-- A symbol that is told from others as it was. -/
structure Symbol.SameRole (s after : Symbol) : Prop where
  name : after.name = s.name
  isValue : after.isValue = s.isValue
  members? : after.members? = s.members?
  innerScope? : after.innerScope? = s.innerScope?

namespace Symbol

theorem SameRole.refl (s : Symbol) : s.SameRole s :=
  ⟨rfl, rfl, rfl, rfl⟩

theorem sameRole_withValue (s : Symbol) : s.SameRole s.withValue :=
  ⟨rfl, rfl, rfl, rfl⟩

theorem sameRole_withMember (member : String) (s : Symbol) : s.SameRole (s.withMember member) := by
  unfold Symbol.withMember
  split
  next hkind =>
    constructor <;> simp [Symbol.isValue, members?, innerScope?, functionInfo?, hkind]
  next => exact s.sameRole_withValue

theorem sameRole_withReturn (sawReturn : Bool) (s : Symbol) : s.SameRole (s.withReturn sawReturn) := by
  unfold Symbol.withReturn
  split
  next hkind =>
    constructor <;> simp [Symbol.isValue, members?, innerScope?, functionInfo?, hkind]
  next => exact .refl s

end Symbol

namespace SymbolTable

/-- What a walk keeps of a symbol table, from which it follows that the table is well formed. -/
structure Coherent (t : SymbolTable) : Prop where
  distinct : t.arena.Distinct
  symbols : ∀ id symbol, t.arena.Holds id symbol → symbol.WellFormed t.HasStruct
  global : ∀ id symbol, t.arena.Holds id symbol → symbol.isValue = false → id = 0
  functions : ∀ name scope, t.functions.lookup name = some scope ↔
    ∃ symbol, t.arena.Holds 0 symbol ∧ symbol.name = name ∧ symbol.innerScope? = some scope

namespace Coherent

variable {t : SymbolTable} {id : Nat} {name : String} {symbol : Symbol} {after : Arena}

theorem wellFormed (ht : t.Coherent) : t.WellFormed where
  symbols := ht.symbols
  values id name symbol hlookup hvalue := by
    obtain ⟨owner, hholds, -⟩ := Arena.holds_of_lookup hlookup
    exact (ht.symbols owner symbol hholds).type_ne_void hvalue
  global := ht.global
  functions := ht.functions

theorem initial : Coherent ⟨.initial, []⟩ := by
  have hnone (id : Nat) (symbol : Symbol) : ¬Arena.initial.Holds id symbol := by
    rintro ⟨scope, hscope, hmem⟩
    have hscope : #[Scope.empty "global" none][id]? = some scope := hscope
    obtain ⟨hid, rfl⟩ := Array.getElem?_eq_some_iff.1 hscope
    obtain rfl : id = 0 := Nat.lt_one_iff.1 hid
    exact absurd hmem List.not_mem_nil
  refine ⟨.initial, fun id symbol h ↦ absurd h (hnone id symbol),
    fun id symbol h ↦ absurd h (hnone id symbol), fun name scope ↦ ?_⟩
  simp [hnone]

/-- A struct is global wherever it is found, and it is the only one of its name. -/
theorem hasStruct_of_holds (ht : t.Coherent) {members : List TypedName}
    (h : t.arena.HasStruct id name members) : t.HasStruct name members := by
  obtain ⟨symbol, hholds, hname, hmembers⟩ := h
  have hvalue : symbol.isValue = false := by
    unfold Symbol.members? at hmembers
    unfold Symbol.isValue
    split at hmembers
    next hkind => rw [hkind]
    next => cases hmembers
  obtain rfl := ht.global id symbol hholds hvalue
  exact ⟨symbol, hholds, hname, hmembers⟩

theorem eq_of_hasStruct (ht : t.Coherent) {members members' : List TypedName}
    (h : t.HasStruct name members) (h' : t.HasStruct name members') : members' = members := by
  obtain ⟨symbol, hholds, hname, hmembers⟩ := h
  obtain ⟨symbol', hholds', hname', hmembers'⟩ := h'
  rw [ht.distinct.eq_of_holds hholds hholds' (hname'.trans hname.symm), hmembers] at hmembers'
  exact (Option.some.inj hmembers').symm

/-! ### Opening and leaving scopes -/

theorem push (ht : t.Coherent) (parent : Nat) (label : String) :
    Coherent ⟨t.arena.push parent label, t.functions⟩ := by
  have hstruct : HasStruct ⟨t.arena.push parent label, t.functions⟩ = t.HasStruct := by
    unfold HasStruct Arena.HasStruct
    simp only [Arena.holds_push_iff]
  refine ⟨ht.distinct.push parent label, fun id symbol h ↦ ?_, fun id symbol h ↦ ?_, ?_⟩
  · rw [hstruct]
    exact ht.symbols id symbol (Arena.holds_push_iff.1 h)
  · exact ht.global id symbol (Arena.holds_push_iff.1 h)
  · simp only [Arena.holds_push_iff]
    exact ht.functions

theorem release (ht : t.Coherent) (hid : id ≠ 0) :
    Coherent ⟨t.arena.release id, t.functions⟩ := by
  have hstruct : HasStruct ⟨t.arena.release id, t.functions⟩ = t.HasStruct := by
    unfold HasStruct Arena.HasStruct
    simp only [Arena.holds_zero_release_iff hid]
  refine ⟨ht.distinct.release hid, fun other symbol h ↦ ?_, fun other symbol h ↦ ?_, ?_⟩
  · rw [hstruct]
    exact ht.symbols other symbol (h.of_release hid)
  · exact ht.global other symbol (h.of_release hid)
  · simp only [Arena.holds_zero_release_iff hid]
    exact ht.functions

/-! ### Declarations -/

/-- A symbol that fits in may be declared, with the record of functions brought up to date. -/
theorem insert (ht : t.Coherent) (h : t.arena.insert id symbol = some after)
    (hformed : symbol.WellFormed t.HasStruct) (hglobal : symbol.isValue = false → id = 0)
    {functions : List (String × Nat)} (hfunctions : ∀ name scope, functions.lookup name = some scope ↔
      t.functions.lookup name = some scope ∨
        (0 = id ∧ symbol.name = name ∧ symbol.innerScope? = some scope)) :
    Coherent ⟨after, functions⟩ := by
  have hstruct (name : String) (members : List TypedName) (hthere : t.HasStruct name members) :
      HasStruct ⟨after, functions⟩ name members := by
    obtain ⟨found, hholds, hfound⟩ := hthere
    exact ⟨found, (Arena.holds_insert_iff h).2 (.inl hholds), hfound⟩
  refine ⟨ht.distinct.insert h, fun other found hholds ↦ ?_, fun other found hholds ↦ ?_,
    fun name scope ↦ ?_⟩
  · obtain hold | ⟨-, rfl⟩ := (Arena.holds_insert_iff h).1 hholds
    · exact (ht.symbols other found hold).mono hstruct
    · exact hformed.mono hstruct
  · obtain hold | ⟨rfl, rfl⟩ := (Arena.holds_insert_iff h).1 hholds
    · exact ht.global other found hold
    · exact hglobal
  · rw [hfunctions, ht.functions]
    simp only [Arena.holds_insert_iff h]
    constructor
    · rintro (⟨found, hholds, hfound⟩ | ⟨hid, hnew⟩)
      · exact ⟨found, .inl hholds, hfound⟩
      · exact ⟨symbol, .inr ⟨hid, rfl⟩, hnew⟩
    · rintro ⟨found, hholds | ⟨hid, rfl⟩, hfound⟩
      · exact .inl ⟨found, hholds, hfound⟩
      · exact .inr ⟨hid, hfound⟩

/-- What is no function may be declared without any change to the record of functions. -/
theorem insert_of_innerScope? (ht : t.Coherent) (h : t.arena.insert id symbol = some after)
    (hformed : symbol.WellFormed t.HasStruct) (hglobal : symbol.isValue = false → id = 0)
    (hinner : symbol.innerScope? = none) : Coherent ⟨after, t.functions⟩ :=
  ht.insert h hformed hglobal fun name scope ↦ by simp [hinner]

theorem insert_of_isValue (ht : t.Coherent) (h : t.arena.insert id symbol = some after)
    (hvalue : symbol.isValue) (hformed : symbol.WellFormed t.arena.KnowsStruct) :
    Coherent ⟨after, t.functions⟩ := by
  refine ht.insert_of_innerScope? h (hformed.mono fun _ _ ⟨_, hthere⟩ ↦ ht.hasStruct_of_holds hthere)
    (by simp [hvalue]) ?_
  unfold Symbol.isValue at hvalue
  unfold Symbol.innerScope? Symbol.functionInfo?
  split at hvalue
  next hkind => rw [hkind]; rfl
  next hkind => rw [hkind]; rfl
  next hkind => rw [hkind]; rfl
  all_goals cases hvalue

/-- A function is declared with its record. -/
theorem record (ht : t.Coherent) {info : FunctionInfo} {p : Position}
    (h : t.arena.insert 0 (.ofFunction name info p) = some after) :
    Coherent ⟨after, (name, info.scope) :: t.functions⟩ := by
  refine ht.insert h (Symbol.wellFormed_ofFunction name info p) (fun _ ↦ rfl) fun other scope ↦ ?_
  have hinner : (Symbol.ofFunction name info p).innerScope? = some info.scope := rfl
  rw [List.lookup_cons, hinner]
  show _ ↔ _ ∨ 0 = 0 ∧ name = other ∧ _
  split
  next hsame =>
    obtain rfl : other = name := beq_iff_eq.1 hsame
    -- the name was free, so no function of this name was on record
    have hfree : t.functions.lookup other ≠ some scope := by
      rw [Ne, ht.functions]
      rintro ⟨found, ⟨global, hglobal, hmem⟩, hname, -⟩
      obtain ⟨_, hglobal', hcontains, -⟩ := Arena.insert_eq_some h
      cases hglobal.symm.trans hglobal'
      have : global.contains other = true := List.any_eq_true.2 ⟨found, hmem, beq_iff_eq.2 hname⟩
      exact Bool.false_ne_true (hcontains.symm.trans this)
    simp [hfree]
  next hother =>
    have hne : name ≠ other := fun hsame ↦ by simp [hsame] at hother
    simp [hne]

/-! ### Changes -/

/-- A symbol may be changed into one of the same role that is well formed too. -/
theorem modify (ht : t.Coherent) {f : Symbol → Symbol} (hrole : ∀ symbol : Symbol, symbol.SameRole (f symbol))
    (hformed : ∀ symbol, t.arena.lookup id name = some symbol →
      symbol.WellFormed t.HasStruct → (f symbol).WellFormed t.HasStruct) :
    Coherent ⟨t.arena.modify id name f, t.functions⟩ := by
  -- A symbol of the new arena comes from one of the old, in the same role, and the other way round.
  have hchanged {other : Nat} {found : Symbol} (h : (t.arena.modify id name f).Holds other found) :
      ∃ before, t.arena.Holds other before ∧ before.SameRole found ∧
        (before.WellFormed t.HasStruct → found.WellFormed t.HasStruct) := by
    obtain ⟨before, hholds, rfl⟩ := Arena.holds_modify_iff.1 h
    refine ⟨before, hholds, ?_⟩
    split
    next hmeant =>
      exact ⟨hrole before, hformed before (ht.distinct.lookup_eq hmeant.1 hholds hmeant.2)⟩
    next => exact ⟨.refl before, fun hbefore ↦ hbefore⟩
  have hkept {other : Nat} {before : Symbol} (h : t.arena.Holds other before) :
      ∃ found, (t.arena.modify id name f).Holds other found ∧ before.SameRole found := by
    refine ⟨_, Arena.holds_modify_iff.2 ⟨before, h, rfl⟩, ?_⟩
    split
    · exact hrole before
    · exact .refl before
  have hstruct (name' : String) (members : List TypedName) (hthere : t.HasStruct name' members) :
      HasStruct ⟨t.arena.modify id name f, t.functions⟩ name' members := by
    obtain ⟨before, hholds, hname, hmembers⟩ := hthere
    obtain ⟨found, hfound, hsame⟩ := hkept hholds
    exact ⟨found, hfound, hsame.name.trans hname, hsame.members?.trans hmembers⟩
  refine ⟨ht.distinct.modify fun symbol ↦ (hrole symbol).name, fun other found h ↦ ?_,
    fun other found h hvalue ↦ ?_, fun name' scope ↦ ?_⟩
  · obtain ⟨before, hholds, -, himp⟩ := hchanged h
    exact (himp (ht.symbols other before hholds)).mono hstruct
  · obtain ⟨before, hholds, hsame, -⟩ := hchanged h
    exact ht.global other before hholds (hsame.isValue.symm.trans hvalue)
  · rw [ht.functions]
    constructor
    · rintro ⟨before, hholds, hname, hscope⟩
      obtain ⟨found, hfound, hsame⟩ := hkept hholds
      exact ⟨found, hfound, hsame.name.trans hname, hsame.innerScope?.trans hscope⟩
    · rintro ⟨found, hfound, hname, hscope⟩
      obtain ⟨before, hholds, hsame, -⟩ := hchanged hfound
      exact ⟨before, hholds, hsame.name.symm.trans hname, hsame.innerScope?.symm.trans hscope⟩

/-- A part that is there may be given a value. -/
theorem mark (ht : t.Coherent) {part : Part} (hpart : t.arena.HasPart id name part) :
    Coherent ⟨t.arena.modify id name part.mark, t.functions⟩ := by
  cases part with
  | whole | element =>
    exact ht.modify Symbol.sameRole_withValue fun symbol _ hformed ↦ hformed.withValue
  | member member =>
    refine ht.modify (Symbol.sameRole_withMember member) fun symbol hlookup hformed ↦
      hformed.withMember fun structName given hkind members hstruct ↦ ?_
    obtain ⟨found, _, _, members', hlookup', hkind', ⟨other, hknown⟩, hmember⟩ := hpart
    cases hlookup.symm.trans hlookup'
    cases hkind.symm.trans hkind'
    rwa [ht.eq_of_hasStruct hstruct (ht.hasStruct_of_holds hknown)] at hmember

/-- It may be recorded of a function whether its body returns. -/
theorem recordReturn (ht : t.Coherent) (name : String) (sawReturn : Bool) :
    Coherent ⟨t.arena.modify 0 name (Symbol.withReturn sawReturn), t.functions⟩ :=
  ht.modify (Symbol.sameRole_withReturn sawReturn) fun _ _ hformed ↦ hformed.withReturn sawReturn

end Coherent

end SymbolTable

end FrontEnd
