import FrontEnd.Symbol

/-!
# Scopes

A scope holds the symbols of one block in the order of their declarations; no two share a name.
Its parent is the scope around it.
-/

namespace FrontEnd

/-- The symbols declared in one block. -/
structure Scope where
  /-- What the block is. -/
  label : String
  /-- The index of the scope around it. -/
  parent : Option Nat
  /-- The symbols, oldest first. -/
  symbols : List Symbol

namespace Scope

/-- A scope without symbols. -/
def empty (label : String) (parent : Option Nat) : Scope := ⟨label, parent, []⟩

/-- The symbol of a name. -/
def find? (s : Scope) (name : String) : Option Symbol :=
  s.symbols.find? fun symbol => symbol.name == name

/-- Whether a name is declared. -/
def contains (s : Scope) (name : String) : Bool :=
  s.symbols.any fun symbol => symbol.name == name

/-- One more symbol, the newest. -/
def add (s : Scope) (symbol : Symbol) : Scope :=
  { s with symbols := s.symbols ++ [symbol] }

/-- The symbol of a name changed. -/
def modify (s : Scope) (name : String) (f : Symbol → Symbol) : Scope :=
  { s with symbols := s.symbols.map fun symbol => if symbol.name == name then f symbol else symbol }

/-- The lines that list a scope with its index: a heading and one line for each symbol. -/
def lines (s : Scope) (index : Nat) : List String :=
  let heading := "scope #" ++ toString index ++ " " ++ s.label
  let around := match s.parent with
    | some parent => " (parent #" ++ toString parent ++ ")"
    | none => ""
  (heading ++ around) :: s.symbols.map fun symbol => "  " ++ symbol.text

end Scope

end FrontEnd
