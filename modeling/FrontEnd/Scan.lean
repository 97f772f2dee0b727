import FrontEnd.Lexeme.Segment
import FrontEnd.Token.Basic
import FrontEnd.Token.Follow

/-!
# Scanning a text

Scanning places the segments of a text one after the other and collects what they give.  A lexeme
gives the tokens of its group or one error at its first character.  After the last token of a group
the next character must be allowed there; if it is not, that is an error at that character, and
scanning goes on.

Later stages see clean tokens only: a token that starts where an error stands is dropped.  The
end-of-input token is added afterwards and never dropped, so it is always the last one.
-/

namespace FrontEnd

/-- A segment in its text. -/
structure PlacedSegment where
  /-- Where the segment starts. -/
  position : Position
  /-- The segment. -/
  segment : Segment
  /-- The character after the segment, unless the text ends there. -/
  next : Option Char

/-- The tokens of a group that starts at a position: each one stands where the text of those before
it ends. -/
def placeGroup (p : Position) : List (Kind × String) → List Token
  | [] => []
  | (kind, lexeme) :: group => ⟨kind, lexeme, p⟩ :: placeGroup (p.advance lexeme.toList) group

namespace PlacedSegment

/-- Where the segment ends: the position of the character after it. -/
def stop (s : PlacedSegment) : Position :=
  s.position.advance s.segment.text

/-- The tokens a segment gives. -/
def tokens (s : PlacedSegment) : List Token :=
  match s.segment with
  | .lexeme _ _ (.tokens group) => placeGroup s.position group
  | _ => []

/-- The error of a character that may not touch the group before it. -/
def delimiterErrors (group : List (Kind × String)) (next : Option Char) (p : Position) :
    List LexicalError :=
  match group.getLast?, next with
  | some (kind, lexeme), some c =>
    if kind.allows (some c) then [] else [⟨.invalidDelimiter c lexeme, p⟩]
  | _, _ => []

/-- The errors a segment gives. -/
def errors (s : PlacedSegment) : List LexicalError :=
  match s.segment with
  | .lexeme _ _ (.tokens group) => delimiterErrors group s.next s.stop
  | .lexeme _ _ (.fault cause) => [⟨cause, s.position⟩]
  | _ => []

end PlacedSegment

/-- The segments in their text, the first one at the given position. -/
def placeSegments (p : Position) : List Segment → List PlacedSegment
  | [] => []
  | s :: rest =>
    ⟨p, s, rest.head?.bind fun following => following.text.head?⟩
      :: placeSegments (p.advance s.text) rest

/-- What scanning a text gives. -/
structure Scan where
  /-- The tokens that later stages see, the end-of-input token last. -/
  tokens : List Token
  /-- What is wrong, in the order found. -/
  errors : List LexicalError

namespace Scan

/-- The usual length limit for words. -/
def defaultWordLimit : Nat := 16

/-- Whether nothing is wrong. -/
def clean (s : Scan) : Bool :=
  s.errors.isEmpty

/-- The tokens that do not start where an error stands. -/
def keepClean (errors : List LexicalError) (tokens : List Token) : List Token :=
  tokens.filter fun t => !errors.any fun e => e.position == t.position

end Scan

/-- The placed segments of a text. -/
def textSegments (limit : Nat) (source : String) : List PlacedSegment :=
  placeSegments .start (segments limit source.toList)

/-- Scans a text, where words have a length limit. -/
def scan (limit : Nat) (source : String) : Scan :=
  let placed := textSegments limit source
  let errors := placed.flatMap PlacedSegment.errors
  let tokens := placed.flatMap PlacedSegment.tokens
  ⟨Scan.keepClean errors tokens ++ [.endOfInput (Position.start.advance source.toList)], errors⟩

end FrontEnd
