import FrontEnd.Grammar.Rules
import FrontEnd.Position
import FrontEnd.Text.Layout

/-!
# Syntax errors

Why a sequence of tokens is refused.  A parse stops at the first error.  Running out of steps and
having no tokens at all stand at no position.
-/

namespace FrontEnd

/-- Why a parse stopped. -/
inductive SyntaxError where
  /-- The terminal on top of the stack is not the next token. -/
  | unexpectedSymbol (found expected : Kind) (position : Position)
  /-- The category on top of the stack has no rule for the next token. -/
  | unexpectedToken (found : Kind) (category : Nonterminal) (position : Position)
  /-- The input ended where a terminal was due. -/
  | unexpectedEnd (expected : Kind) (position : Position)
  /-- The program was complete before the input was. -/
  | trailingTokens (found : Kind) (position : Position)
  /-- More steps were needed than allowed. -/
  | stepLimit (limit : Nat)
  /-- There were no tokens. -/
  | noTokens
  deriving DecidableEq

namespace SyntaxError

open Text (quoted)

/-- Where the error stands, if it stands somewhere. -/
def position? : SyntaxError → Option Position
  | unexpectedSymbol _ _ p | unexpectedToken _ _ p | unexpectedEnd _ p | trailingTokens _ p => some p
  | stepLimit _ | noTokens => none

/-- The diagnostic for a syntax error. -/
def message : SyntaxError → String
  | unexpectedSymbol found expected p =>
    "Syntax Error at " ++ p.text ++ ": Unexpected symbol " ++ quoted found.spelling
      ++ ", expected " ++ quoted expected.spelling
  | unexpectedToken found category p =>
    "Syntax Error at " ++ p.text ++ ": Unexpected token " ++ quoted found.spelling
      ++ ", expected one of: ["
      ++ ", ".intercalate ((Grammar.expected category).map fun k => quoted k.spelling) ++ "]"
  | unexpectedEnd expected p =>
    "Syntax Error at " ++ p.text ++ ": Unexpected end of input, expected "
      ++ quoted expected.spelling
  | trailingTokens found p =>
    "Syntax Error at " ++ p.text ++ ": Unexpected tokens remaining after program end, found "
      ++ quoted found.spelling
  | stepLimit limit => "Syntax Error: Parse step limit of " ++ toString limit ++ " exceeded"
  | noTokens => "Syntax Error: Empty token sequence"

end SyntaxError

end FrontEnd
