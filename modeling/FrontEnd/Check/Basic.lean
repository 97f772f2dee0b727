import FrontEnd.Check.Violation
import FrontEnd.Scope.Arena
import FrontEnd.Token.Basic

/-!
# The checking monad

A check walks over a sequence of tokens.  What surrounds the place it is at, such as the current
scope, the enclosing loops and the function whose body this is, is its `Context`: it is passed
down and never comes back, so leaving a block cannot forget to restore it.  What the walk changes
is its `State`: where it is, the scopes, the headers it has recorded and the warnings it gave.

A check stops at the first violation and keeps the state it had then.

Beside its state a run keeps its moments: every change of the state and every lookup of a name, with
what surrounded it.  No check can read them, so they tell what a run did without a part in it.
-/

namespace FrontEnd

/-- A statement that gives its block a meaning for jumps. -/
inductive BlockKind where
  | loop | switch | case
  deriving DecidableEq

/-- The function whose body is checked. -/
structure FunctionContext where
  name : String
  returns : DataType
  isEntryPoint : Bool

/-- How much work a check may do before it gives up. -/
structure Limits where
  /-- The most rounds of one loop. -/
  scan : Nat
  /-- The most blocks and expressions open inside one another. -/
  nesting : Nat

/-- The usual limits. -/
def Limits.default : Limits := ⟨1000000, 128⟩

/-- What surrounds the place a check is at. -/
structure Context where
  tokens : Array Token
  /-- The token that is seen past the end. -/
  last : Token
  limits : Limits
  /-- The innermost scope. -/
  scope : Nat
  /-- The loops, switches and cases around, innermost first. -/
  blocks : List BlockKind
  /-- How many blocks are open inside the function. -/
  blockDepth : Nat
  /-- The function around, if there is one. -/
  function : Option FunctionContext

namespace Context

/-- The context at the top of a program. -/
def top (limits : Limits) (tokens : List Token) : Context :=
  ⟨tokens.toArray, tokens.getLast?.getD (.endOfInput .start), limits, 0, [], 0, none⟩

/-- The token at an index; past the end the last token is seen again. -/
def tokenAt (c : Context) (index : Nat) : Token :=
  c.tokens[index]?.getD c.last

/-- The kind of the token at an index; past the end the input has ended. -/
def kindAt (c : Context) (index : Nat) : Kind :=
  (c.tokens[index]?.map Token.kind).getD .eof

end Context

/-- A read of a name that may have no value yet. -/
structure Warning where
  /-- The name, with the member after a point for a struct. -/
  name : String
  position : Position
  deriving DecidableEq

/-- The wording of a warning. -/
def Warning.message (w : Warning) : String :=
  w.position.text ++ ": " ++ Text.quoted w.name ++ " may be used before it is initialized"

/-- What a check changes. -/
structure State where
  /-- The index of the next token. -/
  position : Nat
  arena : Arena
  /-- The scope of each function whose header was recorded, newest first. -/
  functions : List (String × Nat)
  /-- The name of the function whose header starts at an index, newest first. -/
  headers : List (Nat × String)
  /-- Whether the body that is checked has had a return statement. -/
  sawReturn : Bool
  /-- The warnings given, oldest first. -/
  warnings : Array Warning

/-- The state before anything is read. -/
def State.initial : State := ⟨0, .initial, [], [], false, #[]⟩

/-- A moment of a run: a change of the state, or the lookup of a name. -/
structure Moment where
  /-- What surrounds the place the run is at. -/
  context : Context
  /-- The state then; of a change, the new one. -/
  state : State
  /-- The name that is looked up, if one is. -/
  lookup : Option String

/-- How a run of a check ended, the state then, and the moments of the run so far, newest first. -/
abbrev Outcome (α : Type) : Type := (Except SemanticError α × State) × List Moment

/-- An outcome with moments that had been before. -/
def Outcome.after {α : Type} (o : Outcome α) (past : List Moment) : Outcome α :=
  (o.1, o.2 ++ past)

/-- An outcome with its state changed at last. -/
def Outcome.leaving {α : Type} (c : Context) (f : State → State) (o : Outcome α) : Outcome α :=
  ((o.1.1, f o.1.2), ⟨c, f o.1.2, none⟩ :: o.2)

/-- A walk over tokens that may stop at a violation. -/
structure Check (α : Type) where
  /-- Runs the check after the moments that have been. -/
  run : Context → State → List Moment → Outcome α
  /-- Moments that have been stay and make no difference. -/
  run_eq : ∀ c s past, run c s past = (run c s []).after past

namespace Check

/-- Goes on with a result. -/
@[inline]
protected def pure {α : Type} (a : α) : Check α :=
  ⟨fun _ s past => ((.ok a, s), past), fun _ _ _ => rfl⟩

/-- Goes on with another check, which is given the result. -/
@[inline]
protected def bind {α β : Type} (x : Check α) (f : α → Check β) : Check β where
  run c s past :=
    match x.run c s past with
    | ((.ok a, s), past) => (f a).run c s past
    | ((.error e, s), past) => ((.error e, s), past)
  run_eq c s past := by
    rw [x.run_eq c s past]
    obtain ⟨⟨result, after⟩, before⟩ := x.run c s []
    cases result with
    | error e => rfl
    | ok a =>
      show (f a).run c after (before ++ past) = ((f a).run c after before).after past
      rw [(f a).run_eq, (f a).run_eq c after before]
      simp [Outcome.after]

instance : Monad Check where
  pure := Check.pure
  bind := Check.bind

instance : MonadReaderOf Context Check where
  read := ⟨fun c s past => ((.ok c, s), past), fun _ _ _ => rfl⟩

instance : MonadWithReaderOf Context Check where
  withReader f x := ⟨fun c s past => x.run (f c) s past, fun c s past => x.run_eq (f c) s past⟩

instance : MonadStateOf State Check where
  get := ⟨fun _ s past => ((.ok s, s), past), fun _ _ _ => rfl⟩
  set s := ⟨fun c _ past => ((.ok ⟨⟩, s), ⟨c, s, none⟩ :: past), fun _ _ _ => rfl⟩
  modifyGet f :=
    ⟨fun c s past => ((.ok (f s).1, (f s).2), ⟨c, (f s).2, none⟩ :: past), fun _ _ _ => rfl⟩

/-- Runs a check: its result, or the violation it stopped at, and the state then. -/
def runFrom {α : Type} (x : Check α) (c : Context) (s : State) : Except SemanticError α × State :=
  (x.run c s []).1

/-- The moments of a run of a check, newest first. -/
def momentsFrom {α : Type} (x : Check α) (c : Context) (s : State) : List Moment :=
  (x.run c s []).2

/-- Stops at a violation. -/
def refuse {α : Type} (e : SemanticError) : Check α :=
  ⟨fun _ s past => ((.error e, s), past), fun _ _ _ => rfl⟩

/-- Keeps the lookup of a name. -/
def note (name : String) : Check Unit :=
  ⟨fun c s past => ((.ok (), s), ⟨c, s, some name⟩ :: past), fun _ _ _ => rfl⟩

/-- The index of the next token. -/
def here : Check Nat := return (← get).position

/-- The next token; past the end the last one is seen again. -/
def peek : Check Token := return (← read).tokenAt (← here)

/-- The kind of the next token; past the end the input has ended. -/
def peekKind : Check Kind := return (← read).kindAt (← here)

/-- The kind of the token after the next one. -/
def secondKind : Check Kind := return (← read).kindAt ((← here) + 1)

/-- Stops at a violation at a token. -/
def violateAt {α : Type} (v : Violation) (t : Token) : Check α :=
  refuse ⟨v, t.position⟩

/-- Stops at a violation at the next token. -/
def violate {α : Type} (v : Violation) : Check α := do
  violateAt v (← peek)

/-- Goes to a token. -/
def moveTo (index : Nat) : Check Unit :=
  modify fun s => { s with position := index }

/-- Whether the next token is of a kind. -/
def next? (k : Kind) : Check Bool := return (← peekKind) == k

/-- Whether the input has ended. -/
def atEnd : Check Bool := next? .eof

/-- Reads the next token; at the end nothing moves. -/
def advance : Check Token := do
  let t ← peek
  let i ← here
  if i < (← read).tokens.size then moveTo (i + 1)
  return t

/-- Reads a token that must be of a kind. -/
def expect (k : Kind) (wanted : Wanted) : Check Token := do
  if ← next? k then
    advance
  else
    let found ← peek
    if found.kind = .eof then violateAt .unexpectedEnd found
    else violateAt (.expectedToken wanted found.lexeme) found

/-- Reads a mark or word that must stand here. -/
def expectMark (k : Kind) : Check Token :=
  expect k (.mark k)

end Check

end FrontEnd
