import FrontEnd.Lexeme.Basic

/-!
# Runs of signs

`+` and `-` are read a whole run at a time.  One sign alone may join a following `=`.  A longer run
is divided into steps (`++`, `--`) and single signs: three signs are a step and a sign, five are a
step, a sign and a step, and every other run is steps with at most one sign at the end.
-/

namespace FrontEnd.Lexeme

/-- The three kinds a sign takes part in. -/
structure SignKinds where
  /-- The sign alone. -/
  single : Kind
  /-- Two of it. -/
  step : Kind
  /-- The sign joined with an equals sign. -/
  assign : Kind

/-- The kinds of the two signs. -/
def signKinds? : Char → Option SignKinds
  | '+' => some ⟨.plus, .increment, .plusAssign⟩
  | '-' => some ⟨.minus, .decrement, .minusAssign⟩
  | _ => none

/-- How a run of `n` signs, two or more, is divided. -/
def division (kinds : SignKinds) (n : Nat) : List Kind :=
  if n = 5 then [kinds.step, kinds.single, kinds.step]
  else List.replicate (n / 2) kinds.step ++ List.replicate (n % 2) kinds.single

/-- A run of signs at the text `c :: cs` that starts with the sign `c`. -/
def signRun (kinds : SignKinds) (c : Char) (cs : List Char) : Lexeme :=
  let further := (cs.takeWhile (· == c)).length
  if further = 0 then
    if cs.head? = some '=' then token 1 kinds.assign kinds.assign.spelling
    else token 0 kinds.single kinds.single.spelling
  else
    ⟨further, .tokens ((division kinds (further + 1)).map fun k => (k, k.spelling))⟩

end FrontEnd.Lexeme
