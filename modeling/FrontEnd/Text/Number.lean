/-!
# Reading numbers

How the text of a literal is read as a number: a machine integer that must fit its range, or a
decimal fraction of which only one thing is asked, whether the nearest double is zero.

A scanned literal is in normal form and needs little of this, but a token may carry any text.
-/

namespace FrontEnd.Text

/-- The value of a row of digits, most significant first. -/
def digitsValue (digits : List Char) : Nat :=
  digits.foldl (fun n c => 10 * n + (c.toNat - '0'.toNat)) 0

/-- The value of a text that is one digit or more and nothing else. -/
def digits? (cs : List Char) : Option Nat :=
  if !cs.isEmpty && cs.all Char.isDigit then some (digitsValue cs) else none

/-- A text after an optional plus sign. -/
def afterPlus : List Char → List Char
  | '+' :: cs => cs
  | cs => cs

/-- How many unsigned integers of 64 bits there are. -/
def unsignedCount : Nat := 18446744073709551616

/-- How many signed integers of 64 bits are negative. -/
def negativeCount : Nat := 9223372036854775808

example : unsignedCount = Nat.pow 2 64 ∧ negativeCount = Nat.pow 2 63 := by decide

/-- An unsigned integer of 64 bits; a plus sign may stand in front. -/
def natural? (s : String) : Option Nat :=
  (digits? (afterPlus s.toList)).filter (· < unsignedCount)

/-- A signed integer of 64 bits; a sign may stand in front. -/
def integer? (s : String) : Option Int :=
  match s.toList with
  | '-' :: cs => ((digits? cs).filter (· ≤ negativeCount)).map fun n => -(n : Int)
  | cs => ((digits? (afterPlus cs)).filter (· < negativeCount)).map fun n => (n : Int)

/-- A decimal fraction: the digits without the point, how many of them follow it, and the power of
ten it is scaled by. -/
structure Decimal where
  digits : List Char
  places : Nat
  exponent : Int

/-- Reads an exponent: a sign, if there is one, and at least one digit.  No text is an exponent of
zero. -/
def exponent? : List Char → Option Int
  | [] => some 0
  | c :: cs =>
    if c = 'e' || c = 'E' then
      match cs with
      | '-' :: ds => (digits? ds).map fun n => -(n : Int)
      | ds => (digits? (afterPlus ds)).map fun n => (n : Int)
    else
      none

/-- Reads a decimal fraction without a sign: digits with or without a point, at least one, and
perhaps an exponent. -/
def unsignedDecimal? (cs : List Char) : Option Decimal :=
  let whole := cs.takeWhile Char.isDigit
  let rest := cs.drop whole.length
  let (fraction, rest) := match rest with
    | '.' :: ds =>
      let fraction := ds.takeWhile Char.isDigit
      (fraction, ds.drop fraction.length)
    | _ => ([], rest)
  if (whole ++ fraction).isEmpty then none
  else (exponent? rest).map fun e => ⟨whole ++ fraction, fraction.length, e⟩

/-- Reads a decimal fraction; a sign may stand in front. -/
def decimal? (s : String) : Option Decimal :=
  match s.toList with
  | '-' :: cs => unsignedDecimal? cs
  | cs => unsignedDecimal? (afterPlus cs)

namespace Decimal

/-- Whether the double nearest to a fraction `m · 10 ^ -k` is zero: whether the fraction is at most
`2 ^ -1075`, half of the least positive double, where the tie goes to zero.  The bound is below
`10 ^ -323` and above `10 ^ -324`, which settles large `k` without computing powers. -/
def roundsToZero (d : Decimal) : Bool :=
  let m := digitsValue d.digits
  let k := (d.places : Int) - d.exponent
  m == 0 || (k > 0 &&
    (k.toNat ≥ d.digits.length + 324 || m * Nat.pow 2 1075 ≤ Nat.pow 10 k.toNat))

end Decimal

/-- Whether a text reads as a decimal fraction that rounds to zero. -/
def isZeroDecimal (s : String) : Bool :=
  (decimal? s).any Decimal.roundsToZero

end FrontEnd.Text
