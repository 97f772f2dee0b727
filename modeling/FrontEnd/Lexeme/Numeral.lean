import FrontEnd.Lexeme.Basic

/-!
# Numeric literals

A numeral is a run of digits, optionally followed by a point and a second run; the mark `~` in
front makes it negative.  Its normal form has no leading zeros (one digit is kept before a point),
no trailing zeros after the point beyond the second place, and `-` for `~`; zero has no sign.
Precision is bounded: sixteen digits before the point and eight after it, counted on the normal
form.

`normalInteger` and `normalDouble` decide this on the digit strings; `numeral` cuts the digit
strings out of the text and refuses what runs into a word or a second point.
-/

namespace FrontEnd.Lexeme

/-- The most significant digits of a whole number. -/
def maxWholeDigits : Nat := 16

/-- The most significant digits after the point. -/
def maxFractionDigits : Nat := 8

/-- Digits without their leading zeros. -/
def stripLeadingZeros (digits : List Char) : List Char :=
  digits.dropWhile (· == '0')

/-- Digits without their trailing zeros. -/
def stripTrailingZeros (digits : List Char) : List Char :=
  (digits.reverse.dropWhile (· == '0')).reverse

/-- The normal form of an integer literal. -/
def normalInteger (digits : List Char) (negative : Bool) : Except Fault (Kind × String) :=
  let significant := stripLeadingZeros digits
  if significant.length > maxWholeDigits then
    .error .integerTooLong
  else if significant.isEmpty then
    .ok (.intLit, "0")
  else if negative then
    .ok (.negIntLit, String.ofList ('-' :: significant))
  else
    .ok (.intLit, String.ofList significant)

/-- The digits before the point in normal form: at least one. -/
def wholePart (digits : List Char) : List Char :=
  let significant := stripLeadingZeros digits
  if significant.isEmpty then ['0'] else significant

/-- The digits after the point in normal form: at least two. -/
def fractionPart (digits : List Char) : List Char :=
  let significant := stripTrailingZeros digits
  significant ++ List.replicate (2 - significant.length) '0'

/-- The normal form of a literal with a point. -/
def normalDouble (whole fraction : List Char) (negative : Bool) :
    Except Fault (Kind × String) :=
  let body := wholePart whole ++ '.' :: fractionPart fraction
  if fraction.isEmpty then
    .error .missingFraction
  else if (wholePart whole).length > maxWholeDigits then
    .error .wholePartTooLong
  else if (stripTrailingZeros fraction).length > maxFractionDigits then
    .error .fractionLength
  else if negative && !(wholePart whole == ['0'] && (stripTrailingZeros fraction).isEmpty) then
    .ok (.negDoubleLit, String.ofList ('-' :: body))
  else
    .ok (.doubleLit, String.ofList body)

/-- Whether a character may stand inside a word. -/
def isWordChar (c : Char) : Bool :=
  c.isAlphanum || c == '_'

/-- The lexeme of a literal whose normal form was decided. -/
def ofNormal (extra : Nat) : Except Fault (Kind × String) → Lexeme
  | .ok (kind, lexeme) => token extra kind lexeme
  | .error cause => refused extra cause

/-- What stands after the digits of a number: nothing more, a point with its digits, or a point
with its digits and another point. -/
inductive NumeralTail where
  | whole
  | fraction (digits : List Char)
  | secondPoint (digits : List Char)

/-- The tail of a number, read after its first run of digits. -/
def numeralTail : List Char → NumeralTail
  | '.' :: cs =>
    let digits := cs.takeWhile Char.isDigit
    if (cs.drop digits.length).head? = some '.' then .secondPoint digits else .fraction digits
  | _ => .whole

/-- A numeral at the text `d :: cs` that starts with the digit `d`; the mark for a negative number
is already taken. -/
def numeral (negative : Bool) (d : Char) (cs : List Char) : Lexeme :=
  let digits := cs.takeWhile Char.isDigit
  let rest := cs.drop digits.length
  let sign := if negative then ['~'] else []
  match numeralTail rest with
  | .secondPoint fraction =>
    let tail := (rest.drop (fraction.length + 1)).takeWhile fun c => isWordChar c || c == '.'
    refused (digits.length + (fraction.length + 1) + tail.length) .multipleDecimalPoints
  | .fraction fraction =>
    let after := rest.drop (fraction.length + 1)
    let taken := digits.length + (fraction.length + 1)
    let word := after.takeWhile isWordChar
    if word.isEmpty then
      ofNormal taken (normalDouble (d :: digits) fraction negative)
    else
      refused (taken + word.length) <| .identifierStartsWithDigit <|
        String.ofList (sign ++ d :: digits ++ '.' :: fraction ++ word)
  | .whole =>
    let word := rest.takeWhile isWordChar
    if word.isEmpty then
      ofNormal digits.length (normalInteger (d :: digits) negative)
    else
      refused (digits.length + word.length) <| .identifierStartsWithDigit <|
        String.ofList (sign ++ d :: digits ++ word)

end FrontEnd.Lexeme
