import FrontEnd.Position

/-!
# Lexical faults

What can be wrong with a lexeme, or with the character right after a token.  A fault is a cause;
its wording is one function, `Fault.message`, and a `LexicalError` is a fault at a place.
-/

namespace FrontEnd

/-- The two quoted literals. -/
inductive Quotation where
  | string
  | character
  deriving DecidableEq

/-- The word for a quoted literal in a diagnostic. -/
def Quotation.label : Quotation → String
  | .string => "string"
  | .character => "character"

/-- What is wrong with a piece of text. -/
inductive Fault where
  /-- A character that starts no lexeme. -/
  | illegalCharacter (c : Char)
  /-- A character that may not touch the token before it. -/
  | invalidDelimiter (found : Char) (after : String)
  /-- A word that starts with an underscore. -/
  | identifierStart (word : String)
  /-- A word, not reserved, longer than the limit. -/
  | identifierTooLong (name : String) (limit : Nat)
  /-- A number that runs into a word. -/
  | identifierStartsWithDigit (text : String)
  /-- More than sixteen significant digits in an integer. -/
  | integerTooLong
  /-- More than sixteen significant digits before the point. -/
  | wholePartTooLong
  /-- More than eight significant digits after the point. -/
  | fractionLength
  /-- No digit after the point. -/
  | missingFraction
  /-- A second point in a number. -/
  | multipleDecimalPoints
  /-- A string that is still open at the end of its line. -/
  | unterminatedString
  /-- A backslash before a character that is not escaped. -/
  | invalidEscape (escape : Char) (quotation : Quotation)
  /-- Nothing between the two quotes of a character. -/
  | emptyCharacter
  /-- More than one character between the two quotes of a character. -/
  | characterTooLong
  /-- A character that is still open at the end of its line. -/
  | unterminatedCharacter
  deriving DecidableEq

/-- The wording of a fault. -/
def Fault.message : Fault → String
  | illegalCharacter c => "Illegal character: '" ++ String.singleton c ++ "'"
  | invalidDelimiter found after =>
    "Invalid delimiter '" ++ String.singleton found ++ "' after '" ++ after ++ "'"
  | identifierStart word => "Identifier '" ++ word ++ "' must start with a letter"
  | identifierTooLong name limit =>
    "Identifier '" ++ name ++ "' exceeds maximum length of " ++ toString limit ++ " characters"
  | identifierStartsWithDigit text =>
    "Invalid identifier starting with a number: '" ++ text ++ "'"
  | integerTooLong => "Integer exceeds maximum length of 16 digits"
  | wholePartTooLong => "Double's whole number part exceeds 16 digits"
  | fractionLength => "Double's decimal part must be between 1 and 8 digits"
  | missingFraction => "Missing digits after decimal point"
  | multipleDecimalPoints => "Invalid number format: multiple decimal points"
  | unterminatedString => "Unterminated string literal"
  | invalidEscape escape quotation =>
    "Invalid escape sequence '\\" ++ String.singleton escape ++ "' in " ++ quotation.label
      ++ " literal"
  | emptyCharacter => "Empty character literal"
  | characterTooLong => "Character literal must contain exactly one character"
  | unterminatedCharacter => "Unterminated character literal"

/-- A fault at a place. -/
structure LexicalError where
  /-- What is wrong. -/
  fault : Fault
  /-- Where. -/
  position : Position
  deriving DecidableEq

/-- The diagnostic for a lexical error. -/
def LexicalError.message (e : LexicalError) : String :=
  "Lexical Error at " ++ e.position.text ++ ": " ++ e.fault.message

end FrontEnd
