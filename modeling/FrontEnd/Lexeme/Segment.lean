import FrontEnd.Lexeme.Read
import FrontEnd.Text.Blank

/-!
# Segments of a text

A text divides into segments: blank characters, comments and lexemes.  A blank character is a
segment of its own, so a division can be cut at every blank; a comment runs from its `#` up to the
end of the line, which it leaves behind.

Nothing is lost: the segments of a text, put together, are the text
(`flatMap_text_segments`), and no segment is empty (`Segment.text_ne_nil`).
-/

namespace FrontEnd

/-- A piece of a text. -/
inductive Segment where
  /-- One blank character. -/
  | blank (c : Char)
  /-- A comment: the `#` and what follows it on the line. -/
  | comment (line : List Char)
  /-- A lexeme: its first character, its other characters and what it stands for. -/
  | lexeme (c : Char) (others : List Char) (meaning : Meaning)

namespace Segment

/-- The text of a segment. -/
def text : Segment → List Char
  | blank c => [c]
  | comment line => '#' :: line
  | lexeme c others _ => c :: others

theorem text_ne_nil (s : Segment) : s.text ≠ [] := by
  cases s <;> simp [text]

end Segment

/-- The segments of a text, where words have a length limit. -/
def segments (limit : Nat) : List Char → List Segment
  | [] => []
  | c :: cs =>
    if Text.isBlank c then
      .blank c :: segments limit cs
    else if c = '#' then
      let line := cs.takeWhile (· != '\n')
      .comment line :: segments limit (cs.drop line.length)
    else
      let l := Lexeme.read limit c cs
      .lexeme c (cs.take l.extra) l.meaning :: segments limit (cs.drop l.extra)
termination_by cs => cs.length

theorem take_length_takeWhile {α : Type} (p : α → Bool) (l : List α) :
    l.take (l.takeWhile p).length = l.takeWhile p := by
  induction l with
  | nil => rfl
  | cons a l ih => by_cases h : p a <;> simp [h, ih]

/-- The segments of a text make up the text. -/
theorem flatMap_text_segments (limit : Nat) (cs : List Char) :
    (segments limit cs).flatMap Segment.text = cs := by
  fun_induction segments limit cs with
  | case1 => rfl
  | case2 c cs _ ih => simp [Segment.text, ih]
  | case3 cs line _ ih =>
    have h := List.take_append_drop line.length cs
    rw [take_length_takeWhile] at h
    simp [Segment.text, ih, line, h]
  | case4 c cs _ _ l ih => simp [Segment.text, ih]

end FrontEnd
