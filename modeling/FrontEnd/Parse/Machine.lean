import FrontEnd.Parse.Error
import FrontEnd.Parse.Trace
import FrontEnd.Token.Basic

/-!
# The parse machine

A predictive parser without recursion and without a tree.  A configuration is a stack of grammar
symbols and the tokens not yet read; the machine starts with the start category alone.  Each step
takes the symbol on top: a terminal must be the next token, which is then read, and a category is
replaced by its production before that token.

The machine never runs out of lookahead: past the end of the sequence the last token is seen again
and again.  A sequence is accepted if the stack runs empty when exactly one token is left and that
token is the end of the input.

`Move.of` decides what a step does, `Configuration.after` carries it out, and `Configuration.run`
repeats it, at most as often as the step limit allows.
-/

namespace FrontEnd

/-- What the machine works on. -/
structure Configuration where
  /-- The symbols still to be derived, the next one first. -/
  stack : List GrammarSymbol
  /-- The tokens not yet read. -/
  rest : List Token

/-- What one step does. -/
inductive Move where
  /-- Read the next token, which is the terminal on top. -/
  | accept (k : Kind)
  /-- Replace the category on top. -/
  | expand (category : Nonterminal) (body : List GrammarSymbol)
  deriving DecidableEq

namespace Move

/-- The move for a symbol on top of the stack before a token, or why there is none. -/
def of (top : GrammarSymbol) (t : Token) : Except SyntaxError Move :=
  match top with
  | .terminal k =>
    if k = t.kind then .ok (accept k)
    else if t.kind = .eof then .error (.unexpectedEnd k t.position)
    else .error (.unexpectedSymbol t.kind k t.position)
  | .nonterminal A =>
    match Grammar.production A t.kind with
    | some body => .ok (expand A body)
    | none => .error (.unexpectedToken t.kind A t.position)

/-- The trace entry of a move. -/
def event : Move → TraceEvent
  | accept k => .matched k
  | expand A body => if body.isEmpty then .skipped A else .applied A body

end Move

namespace Configuration

/-- The configuration a parse starts in. -/
def initial (tokens : List Token) : Configuration :=
  ⟨[.nonterminal .program], tokens⟩

/-- The next token, where `last` is seen again past the end. -/
def lookahead (last : Token) (c : Configuration) : Token :=
  c.rest.head?.getD last

/-- The configuration after a move, where `below` is the stack without its top. -/
def after (c : Configuration) (below : List GrammarSymbol) : Move → Configuration
  | .accept _ => ⟨below, c.rest.tail⟩
  | .expand _ body => ⟨body ++ below, c.rest⟩

/-- The verdict on a configuration with an empty stack. -/
def verdict (last : Token) (c : Configuration) : Option SyntaxError :=
  let t := c.lookahead last
  if t.kind = .eof ∧ c.rest.length = 1 then none
  else some (.trailingTokens t.kind t.position)

/-- Runs the machine with a number of steps left.  `limit` is the whole allowance and `seen` the
trace so far, newest first. -/
def run (last : Token) (limit : Nat) :
    Nat → Configuration → List TraceEvent → Option SyntaxError × List TraceEvent
  | left, c, seen =>
    match c.stack, left with
    | [], _ => (c.verdict last, seen)
    | _ :: _, 0 => (some (.stepLimit limit), seen)
    | top :: below, left + 1 =>
      let t := c.lookahead last
      let seen := .looked top t.kind t.position :: seen
      match Move.of top t with
      | .error e => (some e, seen)
      | .ok move => run last limit left (c.after below move) (move.event :: seen)

end Configuration

/-- The result of a parse. -/
structure Parse where
  /-- What happened, in order. -/
  trace : List TraceEvent
  /-- Why the sequence is refused, if it is. -/
  error : Option SyntaxError

namespace Parse

/-- The usual allowance of steps. -/
def defaultStepLimit : Nat := 1000000

/-- What is said of an accepted program. -/
def acceptedMessage : String := "Input accepted: Syntactically correct."

/-- Whether the sequence is accepted. -/
def accepted (p : Parse) : Bool :=
  p.error.isNone

/-- What is said of the sequence. -/
def message (p : Parse) : String :=
  match p.error with
  | none => acceptedMessage
  | some e => e.message

end Parse

/-- Parses a sequence of tokens with an allowance of steps. -/
def parse (limit : Nat) (tokens : List Token) : Parse :=
  match tokens.getLast? with
  | none => ⟨[], some .noTokens⟩
  | some last =>
    let (error, seen) := Configuration.run last limit limit (.initial tokens) []
    ⟨seen.reverse, error⟩

end FrontEnd
