import FrontEnd.Proofs.Scope.Environments

/-!
# What operations on scopes leave alone

A rejected declaration leaves everything as it was.  An accepted one shows in the lookups of its own
name, and there only from where the way outwards comes to the scope without meeting the name before
(`Arena.Reaches`).  A release keeps the scopes of smaller index and what is seen from them.

From this follows that blocks can be bracketed: whatever is done inside a new scope and those newer
than it (`Arena.Within`), its release brings back the arena there was before.
-/

namespace FrontEnd

namespace Arena

variable {a after : Arena} {id other : Nat} {symbol : Symbol}

/-- An attempt to declare a symbol: the arena after it, and the symbol handed back if it was
rejected. -/
def offer (a : Arena) (id : Nat) (symbol : Symbol) : Arena × Option Symbol :=
  (a.insert id symbol).elim (a, some symbol) fun after ↦ (after, none)

/-- The way outwards from a scope comes to another one and meets no declaration of a name before. -/
def Reaches (a : Arena) (start id : Nat) (name : String) : Prop :=
  ∃ nearer further, a.environments.Path start (nearer ++ id :: further) ∧
    ∀ inner ∈ nearer, a.environments.symbol? name inner = none

/-- Two ways of looking agree on a way outwards when they agree on each scope of it. -/
theorem findSome?_congr {f g : Nat → Option Symbol} {path : List Nat}
    (h : ∀ inner ∈ path, f inner = g inner) : path.findSome? f = path.findSome? g := by
  rw [← List.head?_filterMap, List.filterMap_congr h, List.head?_filterMap]

/-! ### Declarations -/

/-- A declaration is rejected if its name is taken or its scope is gone. -/
theorem insert_eq_none : a.insert id symbol = none ↔
    a.scope? id = none ∨ a.declaredHere id symbol.name := by
  unfold insert declaredHere
  cases a.scope? id with
  | none => simp
  | some scope => simp

theorem offer_eq_of_insert (h : a.insert id symbol = some after) :
    a.offer id symbol = (after, none) := by
  rw [offer, h]
  rfl

theorem parents_insert (h : a.insert id symbol = some after) (i : Nat) :
    after.environments[i]?.map Environment.parent = a.environments[i]?.map Environment.parent := by
  rw [parents_eq, parents_eq, outline_insert h]

/-- A declaration puts its symbol under its name and changes nothing else. -/
theorem symbol?_insert (h : a.insert id symbol = some after) (name : String) (other : Nat) :
    after.environments.symbol? name other =
      if other = id ∧ name = symbol.name then some symbol
      else a.environments.symbol? name other := by
  obtain ⟨env, henv, hfree, hafter⟩ := environments_insert h
  unfold Environments.symbol?
  rw [hafter, List.getElem?_set]
  by_cases hother : id = other
  · subst hother
    rw [if_pos rfl, if_pos (List.getElem?_eq_some_iff.1 henv).1, henv, Option.bind_some,
      Option.bind_some]
    show Function.update env.table symbol.name (some symbol) name = _
    rw [Function.update_apply]
    simp
  · rw [if_neg hother, if_neg fun hsame ↦ hother hsame.1.symm]

/-- On the way outwards up to the scope nothing changes, for it comes only once on its way. -/
theorem Rooted.findSome?_nearer (ha : a.Rooted) (h : a.insert id symbol = some after)
    {nearer further : List Nat} (hpath : a.environments.Path other (nearer ++ id :: further))
    (name : String) : nearer.findSome? (after.environments.symbol? name) =
      nearer.findSome? (a.environments.symbol? name) := by
  obtain ⟨path, hpath', hpairwise, -⟩ := ha.exists_path other
  rw [hpath'.unique hpath, List.pairwise_append] at hpairwise
  refine findSome?_congr fun inner hinner ↦ ?_
  have hlt : id < inner := hpairwise.2.2 inner hinner id (List.mem_cons_self ..)
  rw [symbol?_insert h, if_neg fun hsame ↦ Nat.ne_of_gt hlt hsame.1]

/-- Where the way outwards comes to the scope first, the name stands for the new symbol. -/
theorem Rooted.lookup_insert_of_reaches (ha : a.Rooted) (h : a.insert id symbol = some after)
    (hreaches : a.Reaches other id symbol.name) : after.lookup other symbol.name = some symbol := by
  obtain ⟨nearer, further, hpath, hnearer⟩ := hreaches
  rw [(ha.insert h).lookup_eq_nearest (hpath.congr (parents_insert h)), Environments.bind_nearest?,
    List.findSome?_append, List.findSome?_cons, symbol?_insert h, if_pos ⟨rfl, rfl⟩]
  have hnone : nearer.findSome? (a.environments.symbol? symbol.name) = none :=
    List.findSome?_eq_none_iff.2 hnearer
  rw [ha.findSome?_nearer h hpath, hnone, Option.none_or]

/-- Everywhere else the name stands for what it stood for. -/
theorem Rooted.lookup_insert_of_not_reaches (ha : a.Rooted) (h : a.insert id symbol = some after)
    {name : String} (hreaches : ¬(name = symbol.name ∧ a.Reaches other id symbol.name)) :
    after.lookup other name = a.lookup other name := by
  obtain ⟨path, hpath, -⟩ := ha.exists_path other
  have hafter := hpath.congr (parents_insert h)
  rw [(ha.insert h).lookup_eq_nearest hafter, ha.lookup_eq_nearest hpath,
    Environments.bind_nearest?, Environments.bind_nearest?]
  by_cases hname : name = symbol.name
  · subst hname
    by_cases hmem : id ∈ path
    · -- the way comes to the scope, so it meets the name before
      obtain ⟨nearer, further, rfl⟩ := List.append_of_mem hmem
      have hmeets : nearer.findSome? (a.environments.symbol? symbol.name) ≠ none := fun hnone ↦
        hreaches ⟨rfl, nearer, further, hpath, List.findSome?_eq_none_iff.1 hnone⟩
      obtain ⟨found, hfound⟩ := Option.ne_none_iff_exists'.1 hmeets
      rw [List.findSome?_append, List.findSome?_append, ha.findSome?_nearer h hpath, hfound,
        Option.some_or, Option.some_or]
    · refine findSome?_congr fun inner hinner ↦ ?_
      have hne : ¬(inner = id ∧ symbol.name = symbol.name) := fun hsame ↦ hmem (hsame.1 ▸ hinner)
      rw [symbol?_insert h, if_neg hne]
  · congr 1
    funext inner
    rw [symbol?_insert h, if_neg fun hsame ↦ hname hsame.2]

/-! ### Releases -/

theorem scope?_release_of_pos (hid : id ≠ 0) (other : Nat) :
    (a.release id).scope? other = if other < id then a.scope? other else none := by
  split
  next hlt => exact scope?_release_of_lt hlt
  next hle =>
    rw [release, if_neg hid]
    show (a.scopes.take id)[other]? = none
    have hsize : (a.scopes.take id).size ≤ id := by
      rw [Array.take_eq_extract, Array.size_extract]
      exact Nat.min_le_left ..
    exact Array.getElem?_eq_none (Nat.le_trans hsize (Nat.le_of_not_lt hle))

theorem lookup_release (hother : other < id) (name : String) :
    (a.release id).lookup other name = a.lookup other name := by
  rw [lookup_around, lookup_around, around_release hother]

theorem release_zero (a : Arena) : a.release 0 = a :=
  if_pos rfl

/-! ### Blocks -/

/-- An operation that declares in scopes from an index on, opens scopes under them, changes symbols
of theirs or releases them. -/
def Within (first : Nat) (a : Arena) : ArenaOp → Prop
  | .push parent _ => first ≤ parent
  | .release id => first ≤ id
  | .insert id _ => first ≤ id
  | .update id name _ _ => ∀ owner, a.owner? id name = some owner → first ≤ owner

theorem scope?_modify_of_ne {name : String} {f : Symbol → Symbol}
    (h : ∀ owner, a.owner? id name = some owner → other ≠ owner) :
    (a.modify id name f).scope? other = a.scope? other := by
  unfold modify
  cases howner : a.owner? id name with
  | none => rfl
  | some owner =>
    show (a.scopes.modify owner _)[other]? = a.scopes[other]?
    rw [Array.getElem?_modify, if_neg (h owner howner).symm]

/-- What is done within scopes from an index on leaves the older ones as they are. -/
theorem scope?_apply {first : Nat} (hfirst : first ≤ a.size) {op : ArenaOp}
    (hop : a.Within first op) (hother : other < first) :
    (a.apply op).scope? other = a.scope? other := by
  cases op with
  | push parent label => exact scope?_push_of_lt (Nat.lt_of_lt_of_le hother hfirst) parent label
  | release id => exact scope?_release_of_lt (Nat.lt_of_lt_of_le hother hop)
  | insert id symbol =>
    show ((a.insert id symbol).getD a).scope? other = _
    cases hinsert : a.insert id symbol with
    | none => rfl
    | some after =>
      obtain ⟨scope, -, -, -, hothers⟩ := insert_eq_some hinsert
      exact hothers other (Nat.ne_of_lt (Nat.lt_of_lt_of_le hother hop))
  | update id name f keepsName =>
    exact scope?_modify_of_ne fun owner howner ↦
      Nat.ne_of_lt (Nat.lt_of_lt_of_le hother (hop owner howner))

theorem le_size_apply {first : Nat} (hfirst : first ≤ a.size) {op : ArenaOp}
    (hop : a.Within first op) : first ≤ (a.apply op).size := by
  refine Nat.le_of_not_lt fun hlt ↦ ?_
  have hkept := scope?_apply hfirst hop hlt
  have hgone : (a.apply op).scope? (a.apply op).size = none :=
    Array.getElem?_eq_none (Nat.le_refl _)
  have hthere := scope?_isSome_iff.2 (Nat.lt_of_lt_of_le hlt hfirst)
  rw [← hkept, hgone] at hthere
  cases hthere

theorem Runs.scope? {first : Nat} {ops : List ArenaOp} (h : Runs (Within first) a ops after)
    (hfirst : first ≤ a.size) (hother : other < first) : after.scope? other = a.scope? other := by
  induction h with
  | nil => rfl
  | cons hop _ ih => exact (ih (le_size_apply hfirst hop)).trans (scope?_apply hfirst hop hother)

theorem ext_scope? (h : ∀ id, after.scope? id = a.scope? id) : after = a := by
  obtain ⟨scopes⟩ := a
  obtain ⟨scopes'⟩ := after
  exact congrArg Arena.mk (Array.ext_getElem? h)

/-- The release of a block brings back the arena there was before it, whatever was done inside. -/
theorem release_of_runs (ha : 0 < a.size) {parent : Nat} {label : String} {ops : List ArenaOp}
    (h : Runs (Within a.size) (a.push parent label) ops after) : after.release a.size = a := by
  have hsize : a.size ≤ (a.push parent label).size :=
    Nat.le_of_lt (Nat.lt_of_lt_of_eq (Nat.lt_succ_self _) (Array.size_push _).symm)
  refine ext_scope? fun id ↦ ?_
  rw [scope?_release_of_pos (Nat.ne_of_gt ha)]
  split
  next hlt => rw [h.scope? hsize hlt, scope?_push_of_lt hlt]
  next hle => exact (Array.getElem?_eq_none (Nat.le_of_not_lt hle)).symm

end Arena

/-- Operations on scopes have exact frames.

A declaration is rejected if its name is taken or its scope is gone, and then the arena stays as it was
and the symbol is handed back.  An accepted one changes the lookups of its own name from where the way
outwards comes to its scope without meeting the name before, and no other.  A release keeps exactly the
scopes of smaller index, with all that is seen from them; that of the global scope does nothing.  And
what is done within a new scope and newer ones is undone by its release. -/
theorem arena_frames {ops : List ArenaOp} {a : Arena}
    (h : Arena.Runs Arena.MayOpen .initial ops a) :
    (∀ id symbol,
      (a.scope? id = none ∨ a.declaredHere id symbol.name → a.offer id symbol = (a, some symbol)) ∧
      (¬(a.scope? id = none ∨ a.declaredHere id symbol.name) → ∃ after,
        a.offer id symbol = (after, none) ∧ ∀ start name,
          (name = symbol.name ∧ a.Reaches start id symbol.name →
            after.lookup start name = some symbol) ∧
          (¬(name = symbol.name ∧ a.Reaches start id symbol.name) →
            after.lookup start name = a.lookup start name))) ∧
    (∀ id, id ≠ 0 →
      (∀ other, (a.release id).scope? other = if other < id then a.scope? other else none) ∧
      ∀ other < id, ∀ name, (a.release id).lookup other name = a.lookup other name) ∧
    a.release 0 = a ∧
    ∀ parent label inside after, parent < a.size →
      Arena.Runs (Arena.Within a.size) (a.push parent label) inside after →
        after.release a.size = a := by
  have hrooted := h.rooted .initial
  refine ⟨fun id symbol ↦ ⟨fun hrejected ↦ ?_, fun hfree ↦ ?_⟩, fun id hid ↦
    ⟨Arena.scope?_release_of_pos hid, fun other hother ↦ Arena.lookup_release hother⟩,
    a.release_zero, fun _ _ _ _ _ hinside ↦ Arena.release_of_runs hrooted.size_pos hinside⟩
  · rw [Arena.offer, Arena.insert_eq_none.2 hrejected]
    rfl
  · obtain ⟨after, hinsert⟩ := Option.ne_none_iff_exists'.1 (mt Arena.insert_eq_none.1 hfree)
    refine ⟨after, Arena.offer_eq_of_insert hinsert, fun start name ↦ ⟨?_,
      hrooted.lookup_insert_of_not_reaches hinsert⟩⟩
    rintro ⟨rfl, hreaches⟩
    exact hrooted.lookup_insert_of_reaches hinsert hreaches

/-- A scope with a block under it, in both of which a name is declared, is gone with its release, and
the name declared before is seen from the global scope as before. -/
theorem arena_frames_reopenedScope :
    let a := reopenedScope.foldl Arena.apply .initial
    let inside := [ArenaOp.insert 2 (.ofVariable "x" .bool ⟨2, 1⟩), .push 2 "block",
      .insert 3 (.ofVariable "x" .char ⟨3, 1⟩), .update 3 "x" Symbol.withValue fun _ ↦ rfl, .release 3]
    let after := inside.foldl Arena.apply (a.push 1 "block")
    Arena.Runs Arena.MayOpen .initial reopenedScope a ∧
      Arena.Runs (Arena.Within a.size) (a.push 1 "block") inside after ∧
      after.lookup 2 "x" = some (.ofVariable "x" .bool ⟨2, 1⟩) ∧ after.release a.size = a := by
  intro a inside after
  have hruns : Arena.Runs Arena.MayOpen .initial reopenedScope a :=
    .cons (by decide : 0 < 1) <| .cons trivial <| .cons (by decide : 1 < 2) <| .cons trivial <|
      .cons (by decide : 0 < 1) <| .cons trivial <| .nil _
  have htwo : a.size ≤ 2 := by decide +kernel
  have hthree : a.size ≤ 3 := Nat.le_succ_of_le htwo
  have howner : ((inside.take 3).foldl Arena.apply (a.push 1 "block")).owner? 3 "x" = some 3 := by
    decide +kernel
  have hinside : Arena.Runs (Arena.Within a.size) (a.push 1 "block") inside after :=
    .cons htwo <| .cons htwo <| .cons hthree <| .cons
      (fun owner h ↦ Option.some.inj (howner.symm.trans h) ▸ hthree) <| .cons hthree <| .nil _
  exact ⟨hruns, hinside, by decide +kernel,
    (arena_frames hruns).2.2.2 1 "block" inside after (by decide +kernel) hinside⟩

end FrontEnd
