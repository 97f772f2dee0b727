import FrontEnd.Lexeme.Fault
import FrontEnd.Token.Kind

/-!
# Lexemes

A lexeme is read at a non-empty text `c :: cs`.  Reading says how many characters *beyond* `c` it
takes and what it means, so every lexeme takes at least one character and what remains is shorter
than what there was.  A lexeme means either the tokens of one group, in order, or one fault.

Positions play no part here: what a lexeme is depends on the text alone.
-/

namespace FrontEnd

/-- What a lexeme stands for. -/
inductive Meaning where
  /-- The kinds and normal forms of the tokens of one group. -/
  | tokens (group : List (Kind × String))
  /-- No token, for one reason. -/
  | fault (cause : Fault)
  deriving DecidableEq

/-- A lexeme read at the front of a non-empty text. -/
structure Lexeme where
  /-- How many characters beyond the first one it takes. -/
  extra : Nat
  /-- What it stands for. -/
  meaning : Meaning
  deriving DecidableEq

namespace Lexeme

/-- A lexeme that is one token. -/
def token (extra : Nat) (kind : Kind) (lexeme : String) : Lexeme :=
  ⟨extra, .tokens [(kind, lexeme)]⟩

/-- A lexeme that is refused. -/
def refused (extra : Nat) (cause : Fault) : Lexeme :=
  ⟨extra, .fault cause⟩

/-- The same lexeme with more characters in front. -/
def shifted (more : Nat) (l : Lexeme) : Lexeme :=
  ⟨l.extra + more, l.meaning⟩

end Lexeme

end FrontEnd
