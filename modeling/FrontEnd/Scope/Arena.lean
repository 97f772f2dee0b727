import FrontEnd.Scope.Basic

/-!
# The arena of scopes

The live scopes stand in a row and name their parents by index; the global scope is the first.  A
new scope goes to the end of the row and is a child of a scope already there, so parents have
smaller indices.  Releasing a scope drops it and every newer one, except that the global scope is
never dropped.

A name is looked up from a scope outwards: `Arena.owner?` is the nearest scope around that declares
it, and both reading and changing the symbol go through it.
-/

namespace FrontEnd

/-- The live scopes. -/
structure Arena where
  scopes : Array Scope

namespace Arena

/-- The arena of an empty program: the global scope alone. -/
def initial : Arena := ⟨#[.empty "global" none]⟩

/-- How many scopes there are. -/
def size (a : Arena) : Nat := a.scopes.size

/-- The scope with an index. -/
def scope? (a : Arena) (id : Nat) : Option Scope := a.scopes[id]?

/-- A new scope inside another one.  Its index is the old size. -/
def push (a : Arena) (parent : Nat) (label : String) : Arena :=
  ⟨a.scopes.push (.empty label (some parent))⟩

/-- Drops a scope and every newer one; the global scope stays. -/
def release (a : Arena) (id : Nat) : Arena :=
  if id = 0 then a else ⟨a.scopes.take id⟩

/-- The nearest scope, from one outwards, that declares a name.  Only older scopes count as
parents. -/
def owner? (a : Arena) (id : Nat) (name : String) : Option Nat :=
  match a.scopes[id]? with
  | none => none
  | some scope =>
    if scope.contains name then some id
    else match scope.parent with
      | none => none
      | some parent => if parent < id then a.owner? parent name else none
termination_by id

/-- The symbol a name stands for in a scope. -/
def lookup (a : Arena) (id : Nat) (name : String) : Option Symbol :=
  (a.owner? id name).bind fun owner => (a.scope? owner).bind fun scope => scope.find? name

/-- The symbol a name stands for in a scope, changed. -/
def modify (a : Arena) (id : Nat) (name : String) (f : Symbol → Symbol) : Arena :=
  match a.owner? id name with
  | some owner => ⟨a.scopes.modify owner fun scope => scope.modify name f⟩
  | none => a

/-- Whether a scope itself declares a name. -/
def declaredHere (a : Arena) (id : Nat) (name : String) : Bool :=
  (a.scope? id).any fun scope => scope.contains name

/-- Adds a symbol to a scope, unless the name is taken there or the scope is gone. -/
def insert (a : Arena) (id : Nat) (symbol : Symbol) : Option Arena :=
  match a.scope? id with
  | none => none
  | some scope =>
    if scope.contains symbol.name then none
    else some ⟨a.scopes.modify id fun scope => scope.add symbol⟩

/-- The lines that list every live scope. -/
def lines (a : Arena) : List String :=
  a.scopes.toList.zipIdx.flatMap fun (scope, index) => scope.lines index

end Arena

end FrontEnd
