import FrontEnd.Grammar.Rules
import FrontEnd.Position

/-!
# The trace of a parse

Every step of a parse is recorded: first what it looks at, then what it does.  The record is kept
as events; `TraceEvent.text` is the line that shows one.  The rules applied and the categories
skipped are the leftmost derivation of the input, and the terminals matched spell it.
-/

namespace FrontEnd

/-- An entry of the trace. -/
inductive TraceEvent where
  /-- A symbol on top of the stack meets the next token. -/
  | looked (top : GrammarSymbol) (lookahead : Kind) (position : Position)
  /-- The terminal on top was the next token. -/
  | matched (k : Kind)
  /-- The category on top was replaced. -/
  | applied (category : Nonterminal) (body : List GrammarSymbol)
  /-- The category on top vanished. -/
  | skipped (category : Nonterminal)
  deriving DecidableEq

/-- The line that shows an event. -/
def TraceEvent.text : TraceEvent → String
  | looked top lookahead p =>
    "Stack top: " ++ top.text ++ ", lookahead: " ++ lookahead.spelling ++ " (" ++ p.text ++ ")"
  | matched k => "Matched: " ++ k.spelling
  | applied category body =>
    "Applying rule: " ++ category.name ++ " -> " ++ " ".intercalate (body.map GrammarSymbol.text)
  | skipped category => "Skipping " ++ category.name ++ " (empty production)"

end FrontEnd
