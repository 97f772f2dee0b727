import FrontEnd.Scope.Arena

/-!
# The symbol table

What an analysis leaves behind: the live scopes and, for every function, the scope of its
parameters and outermost local names.
-/

namespace FrontEnd

/-- The symbols of a program. -/
structure SymbolTable where
  arena : Arena
  /-- The scope of each function, by name; a later entry hides an earlier one. -/
  functions : List (String × Nat)

namespace SymbolTable

/-- The global scope. -/
def global? (t : SymbolTable) : Option Scope :=
  t.arena.scope? 0

/-- The scope of a function. -/
def functionScope? (t : SymbolTable) (name : String) : Option Scope :=
  (t.functions.lookup name).bind t.arena.scope?

/-- The symbol a name stands for outside of all functions. -/
def lookupGlobal (t : SymbolTable) (name : String) : Option Symbol :=
  t.arena.lookup 0 name

/-- The symbol a name stands for in the outermost block of a function. -/
def lookupInFunction (t : SymbolTable) (function name : String) : Option Symbol :=
  (t.functions.lookup function).bind fun id => t.arena.lookup id name

end SymbolTable

end FrontEnd
