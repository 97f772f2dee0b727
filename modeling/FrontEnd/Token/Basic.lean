import FrontEnd.Position
import FrontEnd.Text.Layout
import FrontEnd.Token.Kind

/-!
# Tokens

A token is a kind, the lexeme it was read from in normal form, and the position of its first
character.  Every scanned sequence ends with one end-of-input token.
-/

namespace FrontEnd

/-- A terminal of the language at a place in the text. -/
structure Token where
  /-- What the token is. -/
  kind : Kind
  /-- The text it carries. -/
  lexeme : String
  /-- Where its first character stands. -/
  position : Position
  deriving DecidableEq, Inhabited

namespace Token

/-- The token that closes a sequence. -/
def endOfInput (p : Position) : Token := ⟨.eof, "EOF", p⟩

/-- The line that lists a token: kind and lexeme in columns, then its place. -/
def listing (t : Token) : String :=
  Text.padded 10 t.kind.spelling ++ " " ++ Text.padded 20 t.lexeme ++ " "
    ++ toString t.position.line ++ ":" ++ toString t.position.column

end Token

end FrontEnd
