import FrontEnd.Lexeme.Basic

/-!
# Quoted literals

A string stands between double quotes and a character between single ones, both on one line.
Inside, a backslash and the character after it form an escape, which is kept as the two characters
it is written with.  A bad escape in a string does not end it: the string is refused once its end
is found, with the first bad escape as the reason.  In a character a bad escape is the reason at
once, and the text up to the closing quote, if the line has one, is passed over.
-/

namespace FrontEnd.Lexeme

/-- The part of a string literal after its opening quote. -/
structure StringBody where
  /-- How many characters it takes, the closing quote included. -/
  taken : Nat
  /-- The text between the quotes, good escapes as written and bad ones left out. -/
  text : List Char
  /-- The character of the first bad escape. -/
  badEscape : Option Char
  /-- Whether the closing quote was found on the line. -/
  closed : Bool
  deriving DecidableEq

namespace StringBody

/-- The body that is still open at the end of the line. -/
def unclosed (taken : Nat) : StringBody := ⟨taken, [], none, false⟩

/-- More text in front of a body. -/
def before (written : List Char) (b : StringBody) : StringBody :=
  { b with taken := b.taken + written.length, text := written ++ b.text }

/-- A bad escape in front of a body: it takes two characters and is the first one. -/
def beforeBad (escape : Char) (b : StringBody) : StringBody :=
  { b with taken := b.taken + 2, badEscape := some escape }

end StringBody

/-- Whether a character is escaped inside the given quotes. -/
def isEscaped (quote c : Char) : Bool :=
  c == quote || ['\\', 'n', 't', 'r'].contains c

/-- Reads a string literal after its opening quote. -/
def stringBody : List Char → StringBody
  | [] => .unclosed 0
  | ['\\'] => .unclosed 1
  | '\\' :: c :: cs =>
    if isEscaped '"' c then (stringBody cs).before ['\\', c]
    else if c = '\n' then .unclosed 1
    else (stringBody cs).beforeBad c
  | c :: cs =>
    if c = '\n' then .unclosed 0
    else if c = '"' then ⟨1, [], none, true⟩
    else (stringBody cs).before [c]

/-- A string literal, read after its opening quote. -/
def stringLiteral (cs : List Char) : Lexeme :=
  let body := stringBody cs
  if body.closed then
    match body.badEscape with
    | some c => refused body.taken (.invalidEscape c .string)
    | none => token body.taken .stringLit (String.ofList body.text)
  else
    refused body.taken .unterminatedString

/-- How many characters lead through the next single quote of the line, if the line has one. -/
def throughQuote? : List Char → Option Nat
  | [] => none
  | c :: cs =>
    if c = '\n' then none
    else if c = '\'' then some 1
    else (throughQuote? cs).map (· + 1)

/-- The end of a character literal after `taken` characters with a good value. -/
def closeCharacter (taken : Nat) (value : List Char) : List Char → Lexeme
  | '\'' :: _ => token (taken + 1) .charLit (String.ofList value)
  | cs =>
    match throughQuote? cs with
    | some n => refused (taken + n) .characterTooLong
    | none => refused taken .unterminatedCharacter

/-- A character literal, read after its opening quote. -/
def characterLiteral : List Char → Lexeme
  | [] => refused 0 .unterminatedCharacter
  | '\n' :: _ => refused 0 .unterminatedCharacter
  | '\'' :: _ => refused 1 .emptyCharacter
  | '\\' :: [] => refused 1 .unterminatedCharacter
  | '\\' :: c :: cs =>
    if isEscaped '\'' c then closeCharacter 2 ['\\', c] cs
    else if c = '\n' then refused 1 .unterminatedCharacter
    else refused (2 + (throughQuote? cs).getD 0) (.invalidEscape c .character)
  | c :: cs => closeCharacter 1 [c] cs

end FrontEnd.Lexeme
