import FrontEnd.Check.Basic

/-!
# Counted loops

Every loop of a check counts its rounds and stops the check when there are more of them than the
limit allows.  A round decides whether another one follows; a loop may also ask before each round
whether one is due, and that question is not counted.
-/

namespace FrontEnd.Check

/-- Runs rounds from a value on, with a number of them left. -/
def roundsFrom {σ : Type} (due : Check Bool) (round : σ → Check (ForInStep σ)) :
    Nat → σ → Check σ
  | left, value => do
    if ← due then
      match left with
      | 0 => violate (.scanLimit (← read).limits.scan)
      | left + 1 =>
        match ← round value with
        | .done value => return value
        | .yield value => roundsFrom due round left value
    else
      return value

/-- Runs rounds as long as one is due and the last one asked for another. -/
def roundsWhile {σ : Type} (due : Check Bool) (round : σ → Check (ForInStep σ)) (value : σ) :
    Check σ := do
  roundsFrom due round (← read).limits.scan value

/-- Runs rounds as long as the last one asked for another. -/
def rounds {σ : Type} (round : σ → Check (ForInStep σ)) (value : σ) : Check σ :=
  roundsWhile (return true) round value

end FrontEnd.Check
