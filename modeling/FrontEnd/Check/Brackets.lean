import FrontEnd.Check.Basic

/-!
# Brackets and the ends of expressions

Two searches ahead of the walk, which move nothing.  `matchingClose` finds the bracket that closes
an open one and counts brackets of that one sort only.  `expressionEnd` finds where the expression
at hand must end: at a terminator, a semicolon, a closer that belongs to no bracket opened on the
way, or the end of the input; it counts brackets of all sorts in one depth.
-/

namespace FrontEnd

/-- How a search ahead ended. -/
inductive Search where
  /-- At a token. -/
  | found (index : Nat)
  /-- At the end of the input. -/
  | ended
  /-- At the limit. -/
  | exhausted

/-- The kind that closes an opening bracket. -/
def Kind.closer? : Kind → Option Kind
  | .leftParen => some .rightParen
  | .leftBracket => some .rightBracket
  | .leftBrace => some .rightBrace
  | _ => none

/-- Whether a kind opens a bracket. -/
def Kind.isOpener (k : Kind) : Bool :=
  k.closer?.isSome

/-- Whether a kind closes a bracket. -/
def Kind.isCloser : Kind → Bool
  | .rightParen | .rightBracket | .rightBrace => true
  | _ => false

namespace Context

/-- Searches from an index for the closing bracket at depth one, where the tokens passed have left
`depth` brackets open. -/
def searchClose (c : Context) (opening closing : Kind) : Nat → Nat → Nat → Search
  | 0, _, _ => .exhausted
  | left + 1, index, depth =>
    let k := c.kindAt index
    if k = .eof then .ended
    else if k = opening then c.searchClose opening closing left (index + 1) (depth + 1)
    else if k = closing then
      if depth = 1 then .found index
      else c.searchClose opening closing left (index + 1) (depth - 1)
    else c.searchClose opening closing left (index + 1) depth

/-- Searches from an index for the end of an expression, where the tokens passed have left `depth`
brackets open. -/
def searchEnd (c : Context) (terminators : List Kind) : Nat → Nat → Nat → Search
  | 0, _, _ => .exhausted
  | left + 1, index, depth =>
    let k := c.kindAt index
    if k = .eof ∨ k = .semicolon then .found index
    else if k.isOpener then c.searchEnd terminators left (index + 1) (depth + 1)
    else if k.isCloser then
      if depth = 0 then .found index
      else c.searchEnd terminators left (index + 1) (depth - 1)
    else if depth = 0 ∧ k ∈ terminators then .found index
    else c.searchEnd terminators left (index + 1) depth

end Context

namespace Check

/-- The index of the bracket that closes the one at an index. -/
def matchingClose (opening : Nat) : Check Nat := do
  let c ← read
  match (c.kindAt opening).closer? with
  | none => violate (.lost (.noBracket opening))
  | some closing =>
    match c.searchClose (c.kindAt opening) closing c.limits.scan opening 0 with
    | .found index => return index
    | .ended => violateAt (.unclosed (c.kindAt opening)) (c.tokenAt opening)
    | .exhausted => violate (.scanLimit c.limits.scan)

/-- The index where the expression at the next token ends. -/
def expressionEnd (terminators : List Kind) : Check Nat := do
  let c ← read
  match c.searchEnd terminators c.limits.scan (← here) 0 with
  | .found index => return index
  | _ => violate (.scanLimit c.limits.scan)

end Check

end FrontEnd
