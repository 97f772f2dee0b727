/-!
# Positions in a source text

A position is a line and a column, both counted from one.  Columns count characters: every
character but the line feed, a tab or a carriage return included, moves one column to the right,
and the line feed moves to the first column of the next line.

`Position.advance` folds the step over the text passed, so the position after `a ++ b` is the
position after `b` started where `a` ended (`Position.advance_append`).
-/

namespace FrontEnd

/-- A place in a source text: line and column, counted from one. -/
structure Position where
  /-- The line, counted from one. -/
  line : Nat
  /-- The column, in characters, counted from one. -/
  column : Nat
  deriving DecidableEq, Inhabited

namespace Position

/-- The first character of a text. -/
def start : Position := ⟨1, 1⟩

/-- The position after one character. -/
def next (p : Position) (c : Char) : Position :=
  if c = '\n' then ⟨p.line + 1, 1⟩ else ⟨p.line, p.column + 1⟩

/-- The position after a stretch of text. -/
def advance (p : Position) (passed : List Char) : Position :=
  passed.foldl next p

@[simp]
theorem advance_nil (p : Position) : p.advance [] = p := rfl

@[simp]
theorem advance_cons (p : Position) (c : Char) (cs : List Char) :
    p.advance (c :: cs) = (p.next c).advance cs := rfl

theorem advance_append (p : Position) (a b : List Char) :
    p.advance (a ++ b) = (p.advance a).advance b :=
  List.foldl_append

/-- The wording of a position in a diagnostic. -/
def text (p : Position) : String :=
  "line " ++ toString p.line ++ ", column " ++ toString p.column

/-- Reading order: by line, then by column. -/
def le (p q : Position) : Bool :=
  p.line < q.line || (p.line == q.line && p.column ≤ q.column)

end Position

end FrontEnd
