import FrontEnd.Text.Blank
import FrontEnd.Token.Kind

/-!
# What may stand right after a token

Tokens need not be separated by blanks, but not every character may touch every token: a type word
wants a blank after it, `f` wants an opening parenthesis, a literal wants something that ends or
continues an operand.  `Kind.allows k next` is the rule; the end of the text, a blank and the start
of a comment are allowed after everything.
-/

namespace FrontEnd

namespace Kind

/-- Characters that close the context of an operand. -/
def closesOperand (c : Char) : Bool :=
  [';', ',', ')', ']', '}', ':'].contains c

/-- First characters of the binary, relational, logical and assignment operators. -/
def startsOperator (c : Char) : Bool :=
  "+-*/%=<>!&|`".toList.contains c

/-- First characters of an operand. -/
def startsOperand (c : Char) : Bool :=
  c.isAlphanum || ['(', '~', '"', '\'', '!', '+', '-'].contains c

/-- What may stand after a complete operand: a name, a literal or a closing bracket. -/
def endsOperand (c : Char) : Bool :=
  closesOperand c || startsOperator c

/-- What may stand right after a token of a kind, blanks and comments aside. -/
def touches (k : Kind) (c : Char) : Bool :=
  match k with
  | intWord | doubleWord | stringWord | boolWord | charWord | voidWord
  | constWord | functionWord | structWord | instanceWord => false
  | ifWord | elseIfWord | whileWord | switchWord | forWord | printWord | inputWord | mainWord =>
    c == '('
  | elseWord | doWord => c == '{'
  | caseWord => c.isDigit || ['~', '\''].contains c
  | defaultWord => c == ':'
  | breakWord | continueWord | endWord => c == ';'
  | returnWord => c.isDigit || [';', '(', '"', '\'', '~', '!'].contains c
  | intLit | negIntLit | doubleLit | negDoubleLit | stringLit | charLit | boolLit | nullWord =>
    endsOperand c
  | identifier => endsOperand c || ['(', '[', '.', '{'].contains c
  | increment | decrement => endsOperand c || c.isAlpha
  | assign | comma => startsOperand c || c == '{'
  | plus | minus | star | slash | percent | power | concat
  | plusAssign | minusAssign | starAssign | slashAssign | percentAssign
  | equal | notEqual | less | greater | lessEqual | greaterEqual
  | both | either | negation => startsOperand c
  | leftParen => startsOperand c || c == ')'
  | rightParen => endsOperand c || c == '{'
  | leftBracket => c.isAlphanum || ['~', '(', '+', '-'].contains c
  | rightBracket => endsOperand c || c == '['
  | dot => c.isAlpha
  | leftBrace | rightBrace | semicolon | colon | eof => true

/-- Whether the next character, or the end of the text, may stand right after a token. -/
def allows (k : Kind) : Option Char → Bool
  | none => true
  | some c => Text.isBlank c || c == '#' || k.touches c

end Kind

end FrontEnd
