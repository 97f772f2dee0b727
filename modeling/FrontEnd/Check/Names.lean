import FrontEnd.Check.Basic

/-!
# Names and blocks

How a check looks names up, declares them, marks them as given a value and opens blocks.  A block
has a scope of its own; when the block is left, however that happens, its scope is released.
-/

namespace FrontEnd

/-- Whether a symbol may stand alone as an operand. -/
def Symbol.isValue (s : Symbol) : Bool :=
  match s.kind with
  | .var | .const | .structInstance _ _ => true
  | .function _ | .struct _ => false

/-- Whether a symbol is a variable or constant that is not an array. -/
def Symbol.isScalar (s : Symbol) : Bool :=
  match s.kind with
  | .var | .const => !s.isArray
  | _ => false

/-- A symbol that was given a value. -/
def Symbol.withValue (s : Symbol) : Symbol :=
  { s with initialized := true }

/-- An instance of a struct one member of which was given a value. -/
def Symbol.withMember (member : String) (s : Symbol) : Symbol :=
  match s.kind with
  | .structInstance structName members =>
    { s with kind := .structInstance structName (members.insert member) }
  | _ => s.withValue

/-- A function for which it is known whether its body had a return statement. -/
def Symbol.withReturn (hasReturn : Bool) (s : Symbol) : Symbol :=
  match s.kind with
  | .function info => { s with kind := .function { info with hasReturn := hasReturn } }
  | _ => s

namespace Check

/-- The symbol a name stands for here. -/
def resolve (name : String) : Check (Option Symbol) := do
  note name
  return (← get).arena.lookup (← read).scope name

/-- Changes the symbol a name stands for here. -/
def modifySymbol (name : String) (f : Symbol → Symbol) : Check Unit := do
  let scope := (← read).scope
  modify fun s => { s with arena := s.arena.modify scope name f }

/-- Adds a symbol to a scope; whether its name was free there. -/
def insertSymbol (scope : Nat) (symbol : Symbol) : Check Bool :=
  modifyGet fun s =>
    match s.arena.insert scope symbol with
    | some arena => (true, { s with arena := arena })
    | none => (false, s)

/-- Whether the innermost scope declares a name. -/
def declaredHere (name : String) : Check Bool := do
  return (← get).arena.declaredHere (← read).scope name

/-- Declares a symbol in the innermost scope. -/
def declare (symbol : Symbol) (place : Token) : Check Unit := do
  unless ← insertSymbol (← read).scope symbol do
    violateAt (.redeclaration .var symbol.name) place

/-- Warns of a read of a name that may have no value yet. -/
def warn (name : String) (t : Token) : Check Unit :=
  modify fun s => { s with warnings := s.warnings.push ⟨name, t.position⟩ }

/-- Runs a check inside a block with a scope of its own. -/
def inScope {α : Type} (label : String) (body : Check α) : Check α where
  run c s past :=
    let scope := s.arena.size
    let inner := { c with scope := scope, blockDepth := c.blockDepth + 1 }
    let entered := { s with arena := s.arena.push c.scope label }
    ((body.run inner entered []).after (⟨inner, entered, none⟩ :: past)).leaving c fun after =>
      { after with arena := after.arena.release scope }
  run_eq _ _ _ := by simp [Outcome.leaving, Outcome.after]

/-- Runs a check inside a loop, switch or case. -/
def inBlock {α : Type} (kind : BlockKind) (body : Check α) : Check α :=
  withReader (fun c => { c with blocks := kind :: c.blocks }) body

end Check

end FrontEnd
