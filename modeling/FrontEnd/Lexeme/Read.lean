import FrontEnd.Lexeme.Numeral
import FrontEnd.Lexeme.Quoted
import FrontEnd.Lexeme.Sign

/-!
# Reading one lexeme

The first character decides what kind of lexeme follows: a quote, a digit, the mark `~` in front of
a digit, a letter or underscore, a sign, or the longest operator that fits.  What fits nothing is an
illegal character.
-/

namespace FrontEnd.Lexeme

/-- A word at the text `c :: cs`.  Reserved words are exempt from the length limit. -/
def word (limit : Nat) (c : Char) (cs : List Char) : Lexeme :=
  let tail := cs.takeWhile isWordChar
  let name := String.ofList (c :: tail)
  if c = '_' then
    refused tail.length (.identifierStart name)
  else match Kind.ofWord? name with
    | some kind => token tail.length kind name
    | none =>
      if tail.length + 1 > limit then
        refused tail.length (.identifierTooLong name limit)
      else
        token tail.length .identifier name

/-- The longest operator or mark at the text `c :: cs`. -/
def operator (c : Char) (cs : List Char) : Lexeme :=
  match Kind.operators.find? fun k => k.spelling.toList.isPrefixOf (c :: cs) with
  | some k => token (k.spelling.length - 1) k k.spelling
  | none => refused 0 (.illegalCharacter c)

/-- The lexeme at the text `c :: cs`, where words have a length limit. -/
def read (limit : Nat) (c : Char) (cs : List Char) : Lexeme :=
  if c = '"' then
    stringLiteral cs
  else if c = '\'' then
    characterLiteral cs
  else if c.isDigit then
    numeral false c cs
  else if c.isAlpha || c == '_' then
    word limit c cs
  else match signKinds? c with
    | some kinds => signRun kinds c cs
    | none =>
      match c, cs with
      | '~', d :: ds =>
        if d.isDigit then (numeral true d ds).shifted 1 else refused 0 (.illegalCharacter c)
      | _, _ => operator c cs

end FrontEnd.Lexeme
