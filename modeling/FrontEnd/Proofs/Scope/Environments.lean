import FrontEnd.Proofs.Scope.Around
import FrontEnd.Proofs.Scope.Distinct
import FrontEnd.Proofs.Scope.Outline
import Mathlib.Logic.Function.Basic

/-!
# The arena as a tree of environments

An environment is a table of symbols under their names and, beside it, the names in the order of their
declaration.  `Environments.Step` says what is done to a tree of environments, each with the index of
the one around it, without any guard: where a name is looked up from an environment outwards, the way
goes along the parents wherever these lead (`Environments.Path`).

The arena keeps a row of symbols for each scope instead, and its lookups stop at a parent that is not
older.  Read as environments, every operation of the arena is that of the tree
(`Arena.step_environments`).  As long as scopes are opened under live ones, parents are older
(`Arena.Rooted`), so all ways outwards end and the guard is never met (`Environments.Path.owner?_eq`).
-/

namespace FrontEnd

/-! ### Environments -/

/-- The symbols of a block under their names, and the names in the order of their declaration. -/
structure Environment where
  /-- What the block is. -/
  label : String
  /-- The index of the environment around it. -/
  parent : Option Nat
  /-- The symbols, each under its key. -/
  table : String → Option Symbol
  /-- The keys, oldest first. -/
  order : List String

namespace Environment

/-- An environment without symbols. -/
def empty (label : String) (parent : Option Nat) : Environment :=
  ⟨label, parent, fun _ ↦ none, []⟩

/-- A symbol put under its name, the newest. -/
def add (env : Environment) (symbol : Symbol) : Environment :=
  { env with
    table := Function.update env.table symbol.name (some symbol)
    order := env.order ++ [symbol.name] }

/-- The symbol under a key changed. -/
def change (name : String) (f : Symbol → Symbol) (env : Environment) : Environment :=
  { env with table := Function.update env.table name ((env.table name).map f) }

/-- The order lists the keys of the table, each once, and every symbol is under its name. -/
structure WellFormed (env : Environment) : Prop where
  nodup : env.order.Nodup
  mem_order_iff : ∀ name, name ∈ env.order ↔ (env.table name).isSome
  name_eq : ∀ name symbol, env.table name = some symbol → symbol.name = name

end Environment

/-- What can be done with scopes.  A change of a symbol, such as that it was given a value, keeps its
name. -/
inductive ArenaOp where
  | push (parent : Nat) (label : String)
  | release (id : Nat)
  | insert (id : Nat) (symbol : Symbol)
  | update (id : Nat) (name : String) (f : Symbol → Symbol)
    (keepsName : ∀ symbol, (f symbol).name = symbol.name)

/-- The live environments, the global one first. -/
abbrev Environments : Type := List Environment

namespace Environments

/-- The global environment alone. -/
def initial : Environments := [.empty "global" none]

/-- The way from an environment outwards along the parents, as far as these are live. -/
inductive Path (e : Environments) : Nat → List Nat → Prop
  | gone {id : Nat} (h : e[id]? = none) : Path e id []
  | outermost {id : Nat} {env : Environment} (h : e[id]? = some env) (hparent : env.parent = none) :
    Path e id [id]
  | inside {id parent : Nat} {env : Environment} {path : List Nat} (h : e[id]? = some env)
    (hparent : env.parent = some parent) (hpath : Path e parent path) : Path e id (id :: path)

/-- The symbol that an environment has under a name. -/
def symbol? (e : Environments) (name : String) (id : Nat) : Option Symbol :=
  e[id]?.bind fun env ↦ env.table name

/-- The first environment on a way that declares a name. -/
def nearest? (e : Environments) (path : List Nat) (name : String) : Option Nat :=
  path.find? fun id ↦ (e.symbol? name id).isSome

/-- What an operation does. -/
inductive Step (e : Environments) : ArenaOp → Environments → Prop
  | push (parent : Nat) (label : String) :
    Step e (.push parent label) (e ++ [.empty label (some parent)])
  | release (id : Nat) : Step e (.release id) (if id = 0 then e else e.take id)
  | insert {id : Nat} {env : Environment} {symbol : Symbol} (h : e[id]? = some env)
    (hfree : env.table symbol.name = none) : Step e (.insert id symbol) (e.set id (env.add symbol))
  | refuse {id : Nat} {symbol : Symbol}
    (h : ∀ env, e[id]? = some env → (env.table symbol.name).isSome) : Step e (.insert id symbol) e
  | update {id : Nat} {path : List Nat} (hpath : e.Path id path) (name : String)
    (f : Symbol → Symbol) (keepsName : ∀ symbol, (f symbol).name = symbol.name) :
    Step e (.update id name f keepsName)
      ((e.nearest? path name).elim e fun owner ↦ e.modify owner (Environment.change name f))

/-- What operations do one after the other. -/
inductive Runs : Environments → List ArenaOp → Environments → Prop
  | nil (e : Environments) : Runs e [] e
  | cons {e e' e'' : Environments} {op : ArenaOp} {ops : List ArenaOp} (h : e.Step op e')
    (hrest : Runs e' ops e'') : Runs e (op :: ops) e''

theorem bind_nearest? (e : Environments) (path : List Nat) (name : String) :
    (e.nearest? path name).bind (e.symbol? name) = path.findSome? (e.symbol? name) := by
  induction path with
  | nil => rfl
  | cons id path ih =>
    unfold nearest? at ih ⊢
    rw [List.find?_cons, List.findSome?_cons]
    cases hsymbol : e.symbol? name id with
    | none => exact ih
    | some symbol => exact hsymbol

theorem symbol?_modify (e : Environments) (owner : Nat) (name : String) (f : Symbol → Symbol)
    (id : Nat) : Environments.symbol? (e.modify owner (Environment.change name f)) name id =
      if owner = id then (e.symbol? name id).map f else e.symbol? name id := by
  unfold symbol?
  rw [List.getElem?_modify]
  by_cases hid : owner = id
  · rw [if_pos hid]
    cases e[id]? with
    | none => rfl
    | some env => simp [Environment.change, hid]
  · cases e[id]? <;> simp [hid]

/-- A change of a symbol that is there hides no name and shows none. -/
theorem nearest?_modify (e : Environments) (owner : Nat) (path : List Nat) (name : String)
    (f : Symbol → Symbol) :
    Environments.nearest? (e.modify owner (Environment.change name f)) path name =
      e.nearest? path name := by
  unfold nearest?
  congr 1
  funext id
  rw [symbol?_modify]
  split
  · exact Option.isSome_map
  · rfl

end Environments

/-! ### Scopes and arenas as environments -/

/-- A scope as an environment. -/
def Scope.environment (s : Scope) : Environment :=
  ⟨s.label, s.parent, s.find?, s.symbols.map Symbol.name⟩

/-- The scopes of an arena as environments. -/
def Arena.environments (a : Arena) : Environments :=
  a.scopes.toList.map Scope.environment

namespace Scope

variable {s : Scope} {symbol : Symbol} {name : String}

theorem environment_add (hfree : s.contains symbol.name = false) :
    (s.add symbol).environment = s.environment.add symbol := by
  have htable : (s.add symbol).find? = Function.update s.find? symbol.name (some symbol) := by
    funext name
    rw [find?_add, Function.update_apply]
    by_cases hname : name = symbol.name
    · subst hname
      rw [if_pos rfl, find?_eq_none_of_contains hfree, Option.none_or, if_pos (beq_self_eq_true _)]
    · rw [if_neg hname, if_neg (by simpa using Ne.symm hname), Option.or_none]
  show Environment.mk _ _ _ ((s.symbols ++ [symbol]).map Symbol.name) = _
  rw [htable, List.map_append]
  rfl

theorem name_of_find? (h : s.find? name = some symbol) : symbol.name = name := by
  simpa using List.find?_some h

theorem environment_modify {f : Symbol → Symbol} (hf : ∀ symbol, (f symbol).name = symbol.name) :
    (s.modify name f).environment = s.environment.change name f := by
  have htable : (s.modify name f).find? =
      Function.update s.find? name ((s.find? name).map f) := by
    funext other
    rw [find?_modify hf, Function.update_apply]
    by_cases hother : other = name
    · subst hother
      rw [if_pos rfl]
      refine Option.map_congr fun found hfound ↦ ?_
      rw [if_pos (by simpa using name_of_find? hfound)]
    · rw [if_neg hother]
      refine (Option.map_congr fun found hfound ↦ ?_).trans Option.map_id'
      rw [if_neg (by rw [name_of_find? hfound]; simpa using hother)]
  have horder : (s.modify name f).symbols.map Symbol.name = s.symbols.map Symbol.name := by
    show (s.symbols.map _).map _ = _
    rw [List.map_map]
    refine List.map_congr_left fun found _ ↦ ?_
    show (if found.name == name then f found else found).name = found.name
    split
    · exact hf found
    · rfl
  show Environment.mk _ _ _ _ = Environment.mk _ _ _ _
  rw [htable, horder]
  rfl

/-- A scope that declares no name twice is a well-formed environment. -/
theorem wellFormed_environment (h : (s.symbols.map Symbol.name).Nodup) :
    s.environment.WellFormed := by
  refine ⟨h, fun name ↦ ?_, fun name symbol hsymbol ↦ name_of_find? hsymbol⟩
  show name ∈ s.symbols.map Symbol.name ↔ (s.find? name).isSome
  rw [isSome_find?, contains, List.any_eq_true, List.mem_map]
  exact exists_congr fun found ↦ and_congr_right fun _ ↦ beq_iff_eq.symm

end Scope

namespace Arena

variable {a after : Arena} {id : Nat} {name : String}

theorem getElem?_environments (a : Arena) (id : Nat) :
    a.environments[id]? = (a.scope? id).map Scope.environment := by
  unfold environments scope?
  rw [List.getElem?_map, Array.getElem?_toList]

theorem getElem?_environments_eq_none : a.environments[id]? = none ↔ a.scope? id = none := by
  rw [getElem?_environments, Option.map_eq_none_iff]

theorem exists_scope_of_environment {env : Environment} (h : a.environments[id]? = some env) :
    ∃ scope, a.scope? id = some scope ∧ scope.environment = env := by
  rw [getElem?_environments] at h
  exact Option.map_eq_some_iff.1 h

theorem environments_modifyScope (scopes : Array Scope) (owner : Nat) {f : Scope → Scope}
    {g : Environment → Environment}
    (hf : ∀ scope, scopes[owner]? = some scope → (f scope).environment = g scope.environment) :
    (⟨scopes.modify owner f⟩ : Arena).environments =
      (⟨scopes⟩ : Arena).environments.modify owner g := by
  refine List.ext_getElem? fun i ↦ ?_
  rw [List.getElem?_modify, getElem?_environments, getElem?_environments]
  show Option.map _ (scopes.modify owner f)[i]? = _ <$> Option.map _ scopes[i]?
  rw [Array.getElem?_modify]
  by_cases hi : owner = i
  · subst hi
    rw [if_pos rfl]
    cases hscope : scopes[owner]? with
    | none => rfl
    | some scope => simp [hf scope hscope]
  · rw [if_neg hi]
    cases scopes[i]? <;> simp [hi]

theorem environments_push (parent : Nat) (label : String) : (a.push parent label).environments =
    a.environments ++ [.empty label (some parent)] := by
  simp only [environments, push, Array.toList_push, List.map_append]
  rfl

theorem environments_release : (a.release id).environments =
    if id = 0 then a.environments else a.environments.take id := by
  unfold environments release
  split
  · rfl
  · simp [List.map_take]

theorem environments_insert {symbol : Symbol} (h : a.insert id symbol = some after) :
    ∃ env, a.environments[id]? = some env ∧ env.table symbol.name = none ∧
      after.environments = a.environments.set id (env.add symbol) := by
  obtain ⟨scope, hscope, hfree, hadded, hothers⟩ := insert_eq_some h
  have henv : a.environments[id]? = some scope.environment := by
    rw [getElem?_environments, hscope, Option.map_some]
  have hlt : id < a.environments.length := (List.getElem?_eq_some_iff.1 henv).1
  refine ⟨scope.environment, henv, Scope.find?_eq_none_of_contains hfree,
    List.ext_getElem? fun i ↦ ?_⟩
  rw [List.getElem?_set, getElem?_environments, getElem?_environments]
  by_cases hi : id = i
  · subst hi
    rw [if_pos rfl, if_pos hlt, hadded, Option.map_some, Scope.environment_add hfree]
  · rw [if_neg hi, hothers i (Ne.symm hi)]

theorem insert_eq_none_iff {symbol : Symbol} : a.insert id symbol = none ↔
    ∀ env, a.environments[id]? = some env → (env.table symbol.name).isSome := by
  rw [getElem?_environments]
  unfold insert
  cases a.scope? id with
  | none => simp
  | some scope =>
    have hcontains : (scope.environment.table symbol.name).isSome = scope.contains symbol.name :=
      scope.isSome_find? symbol.name
    simp [hcontains]

end Arena

/-! ### Ways outwards -/

namespace Environments.Path

variable {a after : Arena} {e : Environments} {id : Nat} {path : List Nat} {name : String}

/-- Ways depend on the parents only. -/
theorem congr {e' : Environments} (h : ∀ i : Nat, e'[i]?.map Environment.parent =
    e[i]?.map Environment.parent) (hpath : e.Path id path) : e'.Path id path := by
  induction hpath with
  | @gone id hid =>
    have hid' := h id
    rw [hid, Option.map_none, Option.map_eq_none_iff] at hid'
    exact .gone hid'
  | @outermost id env hid hparent =>
    have hid' := h id
    rw [hid, Option.map_some, hparent] at hid'
    obtain ⟨env', henv', hparent'⟩ := Option.map_eq_some_iff.1 hid'
    exact .outermost henv' hparent'
  | @inside id parent env path hid hparent _ ih =>
    have hid' := h id
    rw [hid, Option.map_some, hparent] at hid'
    obtain ⟨env', henv', hparent'⟩ := Option.map_eq_some_iff.1 hid'
    exact .inside henv' hparent' ih

/-- There is but one way outwards. -/
theorem unique {path' : List Nat} (h : e.Path id path) (h' : e.Path id path') : path = path' := by
  induction h generalizing path' with
  | gone hid =>
    cases h' with
    | gone => rfl
    | outermost hid' | inside hid' => cases hid.symm.trans hid'
  | outermost hid hparent =>
    cases h' with
    | gone hid' => cases hid.symm.trans hid'
    | outermost => rfl
    | inside hid' hparent' =>
      cases hid.symm.trans hid'
      cases hparent.symm.trans hparent'
  | inside hid hparent _ ih =>
    cases h' with
    | gone hid' => cases hid.symm.trans hid'
    | outermost hid' hparent' =>
      cases hid.symm.trans hid'
      cases hparent.symm.trans hparent'
    | inside hid' hparent' hpath' =>
      cases hid.symm.trans hid'
      cases hparent.symm.trans hparent'
      rw [ih hpath']

end Environments.Path

/-- The global scope is there, the parents of scopes are older, and no scope declares a name twice. -/
structure Arena.Rooted (a : Arena) : Prop where
  size_pos : 0 < a.size
  parent_lt : ∀ (id : Nat) (label : String) (parent : Nat),
    a.outline[id]? = some (label, some parent) → parent < id
  distinct : a.Distinct

namespace Arena

variable {a after : Arena} {id : Nat} {name : String}

theorem getElem?_outline (a : Arena) (id : Nat) :
    a.outline[id]? = (a.scope? id).map fun scope ↦ (scope.label, scope.parent) := by
  unfold outline scope?
  rw [List.getElem?_map, Array.getElem?_toList]

namespace Rooted

theorem parent_lt_of_environment (h : a.Rooted) {env : Environment} {parent : Nat}
    (henv : a.environments[id]? = some env) (hparent : env.parent = some parent) : parent < id := by
  obtain ⟨scope, hscope, rfl⟩ := exists_scope_of_environment henv
  have hparent : scope.parent = some parent := hparent
  refine h.parent_lt id scope.label parent ?_
  rw [getElem?_outline, hscope, Option.map_some, hparent]

theorem initial : Arena.initial.Rooted := by
  refine ⟨Nat.zero_lt_one, fun id label parent h ↦ ?_, .initial⟩
  have h : [("global", none)][id]? = some (label, some parent) := h
  obtain ⟨hid, h⟩ := List.getElem?_eq_some_iff.1 h
  rw [List.getElem_singleton] at h
  cases h

theorem push (h : a.Rooted) {parent : Nat} (hparent : parent < a.size) (label : String) :
    (a.push parent label).Rooted := by
  refine ⟨by simp [Arena.push, Arena.size], fun id label' parent' hid ↦ ?_,
    h.distinct.push parent label⟩
  rw [outline_push] at hid
  by_cases hlt : id < a.outline.length
  · rw [List.getElem?_append_left hlt] at hid
    exact h.parent_lt id label' parent' hid
  · rw [List.getElem?_append_right (Nat.le_of_not_lt hlt)] at hid
    cases List.mem_singleton.1 (List.mem_of_getElem? hid)
    rw [length_outline] at hlt
    omega

theorem release (h : a.Rooted) (id : Nat) : (a.release id).Rooted := by
  by_cases hid : id = 0
  · rwa [Arena.release, if_pos hid]
  · refine ⟨size_release_pos h.size_pos hid, fun other label parent hother ↦ ?_,
      h.distinct.release hid⟩
    rw [outline_release _ hid, List.getElem?_take] at hother
    split at hother
    · exact h.parent_lt other label parent hother
    · cases hother

theorem modify (h : a.Rooted) {f : Symbol → Symbol} (hf : ∀ symbol, (f symbol).name = symbol.name) :
    (a.modify id name f).Rooted :=
  ⟨(size_modify f).symm ▸ h.size_pos, (outline_modify f).symm ▸ h.parent_lt, h.distinct.modify hf⟩

theorem insert (h : a.Rooted) {symbol : Symbol} (hinsert : a.insert id symbol = some after) :
    after.Rooted :=
  ⟨(size_insert hinsert).symm ▸ h.size_pos, (outline_insert hinsert).symm ▸ h.parent_lt,
    h.distinct.insert hinsert⟩

/-- Every way outwards ends: it leads to older scopes. -/
theorem exists_path (h : a.Rooted) (id : Nat) :
    ∃ path, a.environments.Path id path ∧ path.Pairwise (· > ·) ∧ ∀ outer ∈ path, outer ≤ id := by
  induction id using Nat.strongRecOn with
  | ind id ih =>
    cases henv : a.environments[id]? with
    | none => exact ⟨[], .gone henv, .nil, by simp⟩
    | some env =>
      cases hparent : env.parent with
      | none => exact ⟨[id], .outermost henv hparent, List.pairwise_singleton _ _, by simp⟩
      | some parent =>
        have hlt := h.parent_lt_of_environment henv hparent
        obtain ⟨path, hpath, hpairwise, hle⟩ := ih parent hlt
        refine ⟨id :: path, .inside henv hparent hpath, .cons (fun outer houter ↦ ?_) hpairwise, ?_⟩
        · exact Nat.lt_of_le_of_lt (hle outer houter) hlt
        · simp only [List.mem_cons, forall_eq_or_imp]
          exact ⟨Nat.le_refl id, fun outer houter ↦
            Nat.le_of_lt (Nat.lt_of_le_of_lt (hle outer houter) hlt)⟩

end Rooted

theorem owner?_of_scope {scope : Scope} (hscope : a.scope? id = some scope) :
    a.owner? id name = if scope.contains name then some id
      else (scope.outer? id).bind fun outer ↦ a.owner? outer name := by
  have hscope : a.scopes[id]? = some scope := hscope
  rw [owner?, hscope]
  unfold Scope.outer?
  dsimp only
  cases scope.parent with
  | none => rfl
  | some parent => by_cases hlt : parent < id <;> simp [hlt, Option.filter]

theorem symbol?_environments (a : Arena) (name : String) (id : Nat) :
    a.environments.symbol? name id = (a.scope? id).bind fun scope ↦ scope.find? name := by
  rw [Environments.symbol?, getElem?_environments, Option.bind_map]
  rfl

/-- The scope that owns a name is the first on the way outwards that declares it. -/
theorem Rooted.owner?_eq (h : a.Rooted) {path : List Nat} (hpath : a.environments.Path id path)
    (name : String) : a.owner? id name = a.environments.nearest? path name := by
  have hsymbol {id : Nat} {scope : Scope} (hscope : a.scope? id = some scope) :
      (a.environments.symbol? name id).isSome = scope.contains name := by
    rw [symbol?_environments, hscope]
    exact scope.isSome_find? name
  -- On the path outward: a scope without the name leaves it to the scopes around.
  induction hpath with
  | gone hid =>
    have hid : a.scopes[_]? = none := getElem?_environments_eq_none.1 hid
    rw [owner?, hid]
    rfl
  | @outermost id _ hid hparent =>
    obtain ⟨scope, hscope, rfl⟩ := exists_scope_of_environment hid
    have houter : scope.outer? id = none := by
      rw [Scope.outer?, show scope.parent = none from hparent]
      rfl
    rw [owner?_of_scope hscope, houter, Environments.nearest?, List.find?_singleton, hsymbol hscope]
    rfl
  | @inside id parent _ _ hid hparent _ ih =>
    obtain ⟨scope, hscope, rfl⟩ := exists_scope_of_environment hid
    have houter : scope.outer? id = some parent := by
      rw [Scope.outer?, show scope.parent = some parent from hparent]
      exact Option.filter_some_pos (by simpa using h.parent_lt_of_environment hid hparent)
    rw [owner?_of_scope hscope, houter, Environments.nearest?, List.find?_cons, hsymbol hscope]
    cases scope.contains name with
    | true => rfl
    | false => exact ih

theorem environments_modify {f : Symbol → Symbol}
    (hf : ∀ symbol, (f symbol).name = symbol.name) : (a.modify id name f).environments =
      (a.owner? id name).elim a.environments fun owner ↦
        a.environments.modify owner (Environment.change name f) := by
  unfold modify
  cases a.owner? id name with
  | none => rfl
  | some owner => exact environments_modifyScope _ _ fun _ _ ↦ Scope.environment_modify hf

theorem parents_eq (a : Arena) (i : Nat) :
    a.environments[i]?.map Environment.parent = a.outline[i]?.map Prod.snd := by
  rw [getElem?_environments, getElem?_outline, Option.map_map, Option.map_map]
  rfl

theorem parents_modify {f : Symbol → Symbol} (i : Nat) :
    (a.modify id name f).environments[i]?.map Environment.parent =
      a.environments[i]?.map Environment.parent := by
  rw [parents_eq, parents_eq, outline_modify]

/-! ### Runs of operations -/

/-- What an operation leaves of an arena. -/
def apply (a : Arena) : ArenaOp → Arena
  | .push parent label => a.push parent label
  | .release id => a.release id
  | .insert id symbol => (a.insert id symbol).getD a
  | .update id name f _ => a.modify id name f

/-- Operations done one after the other, each allowed where it is done. -/
inductive Runs (may : Arena → ArenaOp → Prop) : Arena → List ArenaOp → Arena → Prop
  | nil (a : Arena) : Runs may a [] a
  | cons {a b : Arena} {op : ArenaOp} {ops : List ArenaOp} (h : may a op)
    (hrest : Runs may (a.apply op) ops b) : Runs may a (op :: ops) b

/-- Scopes are opened under live ones; everything else may be done at any time. -/
def MayOpen (a : Arena) : ArenaOp → Prop
  | .push parent _ => parent < a.size
  | _ => True

theorem Rooted.apply (h : a.Rooted) {op : ArenaOp} (hop : a.MayOpen op) : (a.apply op).Rooted := by
  cases op with
  | push parent label => exact h.push hop label
  | release id => exact h.release id
  | insert id symbol =>
    show ((a.insert id symbol).getD a).Rooted
    cases hinsert : a.insert id symbol with
    | none => exact h
    | some after => exact h.insert hinsert
  | update id name f keepsName => exact h.modify keepsName

theorem Runs.rooted {ops : List ArenaOp} {b : Arena} (h : Runs MayOpen a ops b) (ha : a.Rooted) :
    b.Rooted := by
  induction h with
  | nil => exact ha
  | cons hop _ ih => exact ih (ha.apply hop)

/-- Every operation of the arena is that of the tree of environments. -/
theorem Rooted.step_environments (h : a.Rooted) (op : ArenaOp) :
    a.environments.Step op (a.apply op).environments := by
  cases op with
  | push parent label =>
    rw [Arena.apply, environments_push]
    exact .push parent label
  | release id =>
    rw [Arena.apply, environments_release]
    exact .release id
  | insert id symbol =>
    rw [Arena.apply]
    cases hinsert : a.insert id symbol with
    | none => exact .refuse (insert_eq_none_iff.1 hinsert)
    | some after =>
      obtain ⟨env, henv, hfree, hafter⟩ := environments_insert hinsert
      rw [Option.getD_some, hafter]
      exact .insert henv hfree
  | update id name f keepsName =>
    obtain ⟨path, hpath, -⟩ := h.exists_path id
    rw [Arena.apply, environments_modify keepsName, h.owner?_eq hpath]
    exact .update hpath name f keepsName

theorem Runs.environments {ops : List ArenaOp} {b : Arena} (h : Runs MayOpen a ops b)
    (ha : a.Rooted) : a.environments.Runs ops b.environments := by
  induction h with
  | nil a => exact .nil a.environments
  | @cons a b op ops hop _ ih => exact .cons (ha.step_environments op) (ih (ha.apply hop))

/-- A name stands for the symbol of the first scope on the way outwards that declares it. -/
theorem Rooted.lookup_eq_nearest (h : a.Rooted) {path : List Nat}
    (hpath : a.environments.Path id path) (name : String) : a.lookup id name =
      (a.environments.nearest? path name).bind (a.environments.symbol? name) := by
  rw [lookup, h.owner?_eq hpath]
  exact congrArg _ (funext fun owner ↦ (a.symbol?_environments name owner).symm)

/-- The symbol that is changed is the one the name stands for. -/
theorem Rooted.lookup_modify (h : a.Rooted) (id : Nat) (name : String) {f : Symbol → Symbol}
    (hf : ∀ symbol, (f symbol).name = symbol.name) :
    (a.modify id name f).lookup id name = (a.lookup id name).map f := by
  obtain ⟨path, hpath, -⟩ := h.exists_path id
  have hpath' : (a.modify id name f).environments.Path id path := hpath.congr parents_modify
  rw [(h.modify hf).lookup_eq_nearest hpath', h.lookup_eq_nearest hpath, environments_modify hf,
    h.owner?_eq hpath]
  cases hnearest : a.environments.nearest? path name with
  | none =>
    show (a.environments.nearest? path name).bind _ = none
    rw [hnearest, Option.bind_none]
  | some owner =>
    rw [Option.elim_some, Environments.nearest?_modify, hnearest, Option.bind_some,
      Option.bind_some, Environments.symbol?_modify, if_pos rfl]

end Arena

variable {a : Arena}

/-- The arena is a tree of environments.

Whatever is done with scopes, as long as they are opened under live ones, the arena reads as the tree
of environments on which the same was done.  In each environment the order lists the keys of the table
once and every key is the name of its symbol.  Parents are older, so that every way outwards ends.  A
name stands for the symbol of the first environment on the way that declares it, for nothing if none
does or the scope is gone, and a change from there is one of that symbol and of no other. -/
theorem arena_refines_environments {ops : List ArenaOp} (h : Arena.Runs Arena.MayOpen .initial ops a) :
    Environments.initial.Runs ops a.environments ∧
    (∀ (id : Nat) (env : Environment), a.environments[id]? = some env →
      env.WellFormed ∧ ∀ parent, env.parent = some parent → parent < id) ∧
    ∀ id, ∃ path, a.environments.Path id path ∧ path.Pairwise (· > ·) ∧ ∀ name,
      let nearest := a.environments.nearest? path name
      a.lookup id name = nearest.bind (a.environments.symbol? name) ∧
      ∀ f : Symbol → Symbol, (∀ symbol, (f symbol).name = symbol.name) →
        (a.modify id name f).environments = nearest.elim a.environments (fun owner ↦
          a.environments.modify owner (Environment.change name f)) ∧
        (a.modify id name f).lookup id name = (a.lookup id name).map f := by
  have hrooted : a.Rooted := h.rooted .initial
  refine ⟨h.environments .initial, fun id env henv ↦ ⟨?_, fun parent hparent ↦
    hrooted.parent_lt_of_environment henv hparent⟩, fun id ↦ ?_⟩
  · obtain ⟨scope, hscope, rfl⟩ := Arena.exists_scope_of_environment henv
    exact Scope.wellFormed_environment (hrooted.distinct id scope hscope)
  · obtain ⟨path, hpath, hpairwise, -⟩ := hrooted.exists_path id
    refine ⟨path, hpath, hpairwise, fun name ↦ ⟨hrooted.lookup_eq_nearest hpath name,
      fun f hf ↦ ⟨?_, hrooted.lookup_modify id name hf⟩⟩⟩
    rw [Arena.environments_modify hf, hrooted.owner?_eq hpath]

/-- Operations that give the index of a released scope to a newer one and change a symbol from there. -/
def reopenedScope : List ArenaOp :=
  [.push 0 "function f", .insert 0 (.ofVariable "x" .int ⟨1, 1⟩), .push 1 "block", .release 1,
    .push 0 "function g", .update 1 "x" Symbol.withValue fun _ ↦ rfl]

/-- From the reopened scope the global variable is seen, with the value it was given there. -/
theorem arena_refines_environments_reopenedScope :
    let a := reopenedScope.foldl Arena.apply .initial
    Arena.Runs Arena.MayOpen .initial reopenedScope a ∧
      Environments.initial.Runs reopenedScope a.environments ∧
      a.lookup 1 "x" = some (Symbol.ofVariable "x" .int ⟨1, 1⟩).withValue := by
  intro a
  have hruns : Arena.Runs Arena.MayOpen .initial reopenedScope a :=
    .cons (by decide : 0 < 1) <| .cons trivial <| .cons (by decide : 1 < 2) <| .cons trivial <|
      .cons (by decide : 0 < 1) <| .cons trivial <| .nil _
  exact ⟨hruns, (arena_refines_environments hruns).1, by decide +kernel⟩

end FrontEnd
